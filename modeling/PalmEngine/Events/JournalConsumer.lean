import PalmEngine.Events.Journal

/-!
# One consumer of the journal

Appends and reads of one consumer with a fixed filter, in any order, with the journal created
again at any time. The committed offset splits the log: the batches returned so far are exactly
the entries before it that pass the filter.
-/

namespace PalmEngine.Events

open PalmEngine.Lib

/-- What happens to the journal. -/
inductive JournalOp where
  | append (request : AppendRequest)
  | consume (limit : ℕ+)
  | recreate

/-- The journal, the batches its consumer got in order, and whether one of them was empty with no
append since. -/
structure ConsumerRun where
  journal : EventJournal
  batches : List (List JournalEntry)
  drained : Bool

namespace ConsumerRun

/-- Nothing appended and nothing read. -/
def start : ConsumerRun := ⟨.empty, [], false⟩

/-- A read that raises returns no batch. -/
def consume (consumer : String) (eventTypes : Option (List String)) (run : ConsumerRun)
    (limit : ℕ+) : ConsumerRun :=
  match run.journal.consume consumer limit eventTypes with
  | (none, journal) => { run with journal := journal }
  | (some batch, journal) =>
    { journal := journal
      batches := run.batches ++ [batch]
      drained := run.drained || batch.isEmpty }

/-- One operation. -/
def step (consumer : String) (eventTypes : Option (List String)) (run : ConsumerRun) :
    JournalOp → ConsumerRun
  | .append request => { run with journal := run.journal.append request, drained := false }
  | .consume limit => run.consume consumer eventTypes limit
  | .recreate => { run with journal := run.journal.recreate }

end ConsumerRun

/-- The events that the operations append. -/
def JournalOp.requests (ops : List JournalOp) : List AppendRequest :=
  ops.filterMap fun
    | .append request => some request
    | _ => none

/-- The records of the appended events, in the order of their offsets. -/
def JournalOp.appended (ops : List JournalOp) : List JournalEntry :=
  (requests ops).mapIdx fun n request => request.entry (n + 1)

/-- An append adds its record, any other operation none. -/
theorem JournalOp.appended_concat (ops : List JournalOp) (op : JournalOp) :
    appended (ops ++ [op]) = appended ops ++
      match op with
      | .append request => [request.entry ((appended ops).length + 1)]
      | _ => [] := by
  cases op <;> simp [appended, requests]

/-- The committed offset lies in the log, the batches are the entries up to it that pass the
filter, and they are all of them once the consumer has drained the log. -/
structure ConsumerRun.Reads (consumer : String) (eventTypes : Option (List String))
    (run : ConsumerRun) (log : List JournalEntry) : Prop where
  logs : run.journal.Logs log
  offset_le : run.journal.consumerOffset consumer ≤ log.length
  flatten_eq : run.batches.flatten =
    (log.take (run.journal.consumerOffset consumer)).filter (EventJournal.accepts eventTypes)
  drained_eq : run.drained → run.batches.flatten = log.filter (EventJournal.accepts eventTypes)

namespace ConsumerRun.Reads

variable {consumer : String} {eventTypes : Option (List String)} {run : ConsumerRun}
  {log : List JournalEntry}

/-- Nothing is read at the start. -/
theorem start : ConsumerRun.start.Reads consumer eventTypes [] where
  logs := ⟨rfl, fun _ => rfl, fun _ h => (nomatch h)⟩
  offset_le := by simp [ConsumerRun.start, EventJournal.consumerOffset, EventJournal.empty]
  flatten_eq := by simp [ConsumerRun.start]
  drained_eq h := nomatch h

/-- The batches are a prefix of what passes the filter. -/
theorem isPrefix (h : run.Reads consumer eventTypes log) :
    run.batches.flatten <+: log.filter (EventJournal.accepts eventTypes) := by
  rw [h.flatten_eq]
  exact (List.take_prefix _ log).filter _

/-- An append goes behind the committed offset. -/
theorem append (h : run.Reads consumer eventTypes log) (request : AppendRequest) :
    (run.step consumer eventTypes (.append request)).Reads consumer eventTypes
      (log ++ [request.entry (log.length + 1)]) where
  logs := h.logs.append request
  offset_le := by
    have hle := h.offset_le
    rw [List.length_append]
    exact hle.trans (Nat.le_add_right _ _)
  flatten_eq := by
    change run.batches.flatten = ((log ++ _).take (run.journal.consumerOffset consumer)).filter _
    rw [List.take_append_of_le_length h.offset_le]
    exact h.flatten_eq
  drained_eq hdrained := nomatch hdrained

/-- A read returns the next entries that pass the filter, and an empty batch only when none is
left. -/
theorem consume (h : run.Reads consumer eventTypes log) (limit : ℕ+) :
    (run.step consumer eventTypes (.consume limit)).Reads consumer eventTypes log := by
  change (run.consume consumer eventTypes limit).Reads consumer eventTypes log
  unfold ConsumerRun.consume
  rcases h.logs.consume h.offset_le limit eventTypes with
    ⟨hconsume, hrest⟩ | hconsume | ⟨batch, journal, hne, hconsume, hlogs, hle, htake⟩
  · have hall : run.batches.flatten = log.filter (EventJournal.accepts eventTypes) := by
      conv_rhs => rw [← log.take_append_drop (run.journal.consumerOffset consumer)]
      rw [List.filter_append, hrest limit.pos, List.append_nil, h.flatten_eq]
    rw [hconsume]
    exact ⟨h.logs, h.offset_le, by simpa using h.flatten_eq, fun _ => by simpa using hall⟩
  · rw [hconsume]
    exact h
  · have hflatten : (run.batches ++ [batch]).flatten =
        (log.take (journal.consumerOffset consumer)).filter (EventJournal.accepts eventTypes) := by
      rw [htake, ← h.flatten_eq]
      simp
    rw [hconsume]
    refine ⟨hlogs, hle, hflatten, fun hdrained => ?_⟩
    have hdrained : run.drained := by simpa [hne] using hdrained
    have hpre : run.batches.flatten ++ batch <+:
        log.filter (EventJournal.accepts eventTypes) := by
      rw [h.flatten_eq, ← htake]
      exact (List.take_prefix _ log).filter _
    rw [h.drained_eq hdrained] at hpre
    exact absurd (by simpa using hpre.length_le) hne

/-- Creating the journal again changes nothing. -/
theorem recreate (h : run.Reads consumer eventTypes log) :
    (run.step consumer eventTypes .recreate).Reads consumer eventTypes log := h

/-- After any operations the log is what they appended, read up to the committed offset. -/
theorem run_start (ops : List JournalOp) :
    (ops.foldl (ConsumerRun.step consumer eventTypes) .start).Reads consumer eventTypes
      (JournalOp.appended ops) := by
  induction ops using List.reverseRecOn with
  | nil => exact start
  | append_singleton ops op ih =>
    rw [List.foldl_append, JournalOp.appended_concat]
    cases op with
    | append request => exact ih.append request
    | consume limit => simpa using ih.consume limit
    | recreate => simpa using ih.recreate

end ConsumerRun.Reads

/-- In every order of appends, reads of one consumer with any limits, and journals created again,
the batches returned are a prefix of the appended entries that pass the filter, and all of them
once a batch was empty with no append since. -/
theorem consumed_run (consumer : String) (eventTypes : Option (List String))
    (ops : List JournalOp) :
    let run := ops.foldl (ConsumerRun.step consumer eventTypes) .start
    run.batches.flatten <+: (JournalOp.appended ops).filter (EventJournal.accepts eventTypes) ∧
      (run.drained → run.batches.flatten =
        (JournalOp.appended ops).filter (EventJournal.accepts eventTypes)) :=
  have h := ConsumerRun.Reads.run_start ops
  ⟨h.isPrefix, h.drained_eq⟩

end PalmEngine.Events
