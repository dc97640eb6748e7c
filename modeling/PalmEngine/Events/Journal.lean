import PalmEngine.Events.Payload
import PalmEngine.Lib.Strip

/-!
# The event journal

An append-only log with named consumer offsets. Offsets count from one; the head is the offset
of the newest entry. A consumer stores the offset it has committed and reads the entries after
it that pass its filter, up to a limit; reading commits the offset of the last entry returned.

The journal keeps nothing but its storage, so that a journal created again over the same storage
goes on where the old one was. Calls here run one after the other.
-/

namespace PalmEngine.Events

open PalmEngine.Lib

/-- One journal record. -/
structure JournalEntry where
  offset : ℕ
  eventType : String
  payload : Payload
  context : Option Payload
  timestamp : String
  id : String

/-- What a caller appends: an event, with its time and its id, and a key for compaction. -/
structure AppendRequest where
  eventType : String
  payload : Payload
  context : Option Payload
  timestamp : String
  id : String
  compactKey : Option String

/-- An empty context is none. -/
def storedContext (context : Option Payload) : Option Payload :=
  context.filter fun c => !c.entries.isEmpty

/-- The record of an appended event at an offset. -/
def AppendRequest.entry (request : AppendRequest) (offset : ℕ) : JournalEntry where
  offset := offset
  eventType := request.eventType
  payload := request.payload
  context := storedContext request.context
  timestamp := request.timestamp
  id := request.id

/-- The documents of the journal in its storage. A missing head is zero. -/
structure EventJournal where
  seq : ℕ
  entries : Dict ℕ JournalEntry
  offsets : Dict String ℕ
  compact : Dict String ℕ

namespace EventJournal

/-- The journal over an empty storage. -/
def empty : EventJournal := ⟨0, .empty, .empty, .empty⟩

/-- Create the journal again over its storage, which is all it has. -/
def recreate (j : EventJournal) : EventJournal := ⟨j.seq, j.entries, j.offsets, j.compact⟩

/-- Append one entry after the head. -/
def append (j : EventJournal) (request : AppendRequest) : EventJournal :=
  let seq := j.seq + 1
  { j with
    seq := seq
    entries := j.entries.set seq (request.entry seq)
    compact := match request.compactKey.filter (· ≠ "") with
      | some key => j.compact.set key seq
      | none => j.compact }

/-- The filter of a consumer passes the event type. -/
def accepts (eventTypes : Option (List String)) (entry : JournalEntry) : Bool :=
  match eventTypes with
  | none => true
  | some types => entry.eventType ∈ types

/-- Read the entries after a position, as many offsets as remain and as many entries as the limit
leaves room for. -/
def readLoop (j : EventJournal) (eventTypes : Option (List String)) :
    (remaining pos room : ℕ) → List JournalEntry
  | 0, _, _ => []
  | _ + 1, _, 0 => []
  | remaining + 1, pos, room + 1 =>
    match j.entries.get? (pos + 1) with
    | none => readLoop j eventTypes remaining (pos + 1) (room + 1)
    | some entry =>
      if accepts eventTypes entry then entry :: readLoop j eventTypes remaining (pos + 1) room
      else readLoop j eventTypes remaining (pos + 1) (room + 1)

/-- Up to `limit` entries with a greater offset, in order. -/
def readAfter (j : EventJournal) (offset limit : ℕ) (eventTypes : Option (List String)) :
    List JournalEntry :=
  j.readLoop eventTypes (j.seq - offset) offset limit

/-- The committed offset of a consumer, zero without a name. -/
def consumerOffset (j : EventJournal) (consumer : String) : ℕ :=
  if strip consumer = "" then 0 else (j.offsets.get? (strip consumer)).getD 0

/-- Commit an offset, which fails without a name. -/
def commitConsumerOffset (j : EventJournal) (consumer : String) (offset : ℕ) :
    Option EventJournal :=
  if strip consumer = "" then none
  else some { j with offsets := j.offsets.set (strip consumer) offset }

/-- Read after the consumer's offset and advance it to the last entry read. A consumer without a
name gets an error in the place of a batch with entries. -/
def consume (j : EventJournal) (consumer : String) (limit : ℕ)
    (eventTypes : Option (List String)) : Option (List JournalEntry) × EventJournal :=
  let batch := j.readAfter (j.consumerOffset consumer) limit eventTypes
  match batch.getLast? with
  | none => (some batch, j)
  | some last =>
    match j.commitConsumerOffset consumer last.offset with
    | none => (none, j)
    | some committed => (some batch, committed)

/-- The journal holds these entries, at the offsets one, two and so on. -/
structure Logs (j : EventJournal) (log : List JournalEntry) : Prop where
  seq_eq : j.seq = log.length
  get_eq : ∀ n, j.entries.get? (n + 1) = log[n]?
  offset_eq : ∀ n (h : n < log.length), log[n].offset = n + 1

/-- An append adds its entry at the end of the log. -/
theorem Logs.append {j : EventJournal} {log : List JournalEntry} (h : j.Logs log)
    (request : AppendRequest) :
    (j.append request).Logs (log ++ [request.entry (log.length + 1)]) where
  seq_eq := by simp [EventJournal.append, h.seq_eq]
  get_eq n := by
    change (j.entries.set (j.seq + 1) (request.entry (j.seq + 1))).get? (n + 1) = _
    rw [h.seq_eq]
    by_cases hn : n = log.length
    · subst hn
      simp
    · rw [Dict.get?_set_ne _ _ (by omega), h.get_eq]
      rcases Nat.lt_or_gt_of_ne hn with hlt | hgt
      · rw [List.getElem?_append_left hlt]
      · rw [List.getElem?_eq_none (by omega), List.getElem?_eq_none (by simp; omega)]
  offset_eq n hn := by
    by_cases hlt : n < log.length
    · rw [List.getElem_append_left hlt]
      exact h.offset_eq n hlt
    · have hlast : n = log.length := by simp at hn; omega
      subst hlast
      simp [AppendRequest.entry]

/-- What a read finds: nothing that passes the filter is left if it finds nothing in any room;
else its last entry is the new position, and the entries up to there that pass are those before
and the ones read. -/
theorem Logs.readLoop {j : EventJournal} {log : List JournalEntry} (h : j.Logs log)
    (eventTypes : Option (List String)) (remaining pos room : ℕ)
    (hpos : pos + remaining = log.length) :
    (j.readLoop eventTypes remaining pos room = [] →
      0 < room → (log.drop pos).filter (accepts eventTypes) = []) ∧
    ∀ last ∈ (j.readLoop eventTypes remaining pos room).getLast?,
      last.offset ≤ log.length ∧
        (log.take last.offset).filter (accepts eventTypes) =
          (log.take pos).filter (accepts eventTypes) ++
            j.readLoop eventTypes remaining pos room := by
  induction remaining generalizing pos room with
  | zero =>
    have hdrop : log.drop pos = [] := List.drop_eq_nil_of_le (by omega)
    simp [EventJournal.readLoop, hdrop]
  | succ remaining ih =>
    cases room with
    | zero => simp [EventJournal.readLoop]
    | succ room =>
      have hlt : pos < log.length := by omega
      have hget : j.entries.get? (pos + 1) = some log[pos] := by
        rw [h.get_eq, List.getElem?_eq_getElem hlt]
      have hdrop : log.drop pos = log[pos] :: log.drop (pos + 1) := List.drop_eq_getElem_cons hlt
      have htake : log.take (pos + 1) = log.take pos ++ [log[pos]] := by
        rw [List.take_add_one, List.getElem?_eq_getElem hlt]
        rfl
      simp only [EventJournal.readLoop, hget]
      split
      · rename_i haccepts
        refine ⟨fun hnil => (nomatch hnil), fun last hlast => ?_⟩
        obtain ⟨-, hrest⟩ := ih (pos + 1) room (by omega)
        rw [List.getLast?_cons] at hlast
        cases hgetLast : (j.readLoop eventTypes remaining (pos + 1) room).getLast? with
        | none =>
          rw [hgetLast] at hlast
          obtain rfl : log[pos] = last := by simpa using hlast
          rw [h.offset_eq pos hlt, htake, List.getLast?_eq_none_iff.mp hgetLast,
            List.filter_append, List.filter_cons_of_pos haccepts]
          exact ⟨by omega, by simp⟩
        | some final =>
          rw [hgetLast] at hlast
          obtain rfl : final = last := by simpa using hlast
          obtain ⟨hle, heq⟩ := hrest final hgetLast
          refine ⟨hle, ?_⟩
          rw [heq, htake, List.filter_append, List.filter_cons_of_pos haccepts]
          simp
      · rename_i haccepts
        obtain ⟨hnone, hsome⟩ := ih (pos + 1) (room + 1) (by omega)
        refine ⟨fun hnil hroom => ?_, fun last hlast => ?_⟩
        · rw [hdrop, List.filter_cons_of_neg haccepts]
          exact hnone hnil hroom
        · obtain ⟨hle, heq⟩ := hsome last hlast
          refine ⟨hle, ?_⟩
          rw [heq, htake, List.filter_append, List.filter_cons_of_neg haccepts]
          simp

/-- A committed offset is read back. -/
theorem consumerOffset_commit {j committed : EventJournal} {consumer : String} {offset : ℕ}
    (h : j.commitConsumerOffset consumer offset = some committed) :
    committed.consumerOffset consumer = offset := by
  unfold commitConsumerOffset at h
  split at h
  · cases h
  · rename_i hname
    cases h
    simp [consumerOffset, hname]

/-- A commit leaves the log. -/
theorem Logs.commit {j committed : EventJournal} {log : List JournalEntry} (h : j.Logs log)
    {consumer : String} {offset : ℕ}
    (hcommit : j.commitConsumerOffset consumer offset = some committed) : committed.Logs log := by
  unfold commitConsumerOffset at hcommit
  split at hcommit
  · cases hcommit
  · cases hcommit
    exact ⟨h.seq_eq, h.get_eq, h.offset_eq⟩

/-- What a consumer's read does: it finds no entry left, or raises for want of a name, or returns
the next entries that pass the filter and commits the offset where they end. -/
theorem Logs.consume {j : EventJournal} {log : List JournalEntry} (h : j.Logs log)
    {consumer : String} (hle : j.consumerOffset consumer ≤ log.length) (limit : ℕ)
    (eventTypes : Option (List String)) :
    (j.consume consumer limit eventTypes = (some [], j) ∧
      (0 < limit → (log.drop (j.consumerOffset consumer)).filter (accepts eventTypes) = [])) ∨
    j.consume consumer limit eventTypes = (none, j) ∨
    ∃ batch committed, batch ≠ [] ∧
      j.consume consumer limit eventTypes = (some batch, committed) ∧ committed.Logs log ∧
      committed.consumerOffset consumer ≤ log.length ∧
      (log.take (committed.consumerOffset consumer)).filter (accepts eventTypes) =
        (log.take (j.consumerOffset consumer)).filter (accepts eventTypes) ++ batch := by
  have hspan : j.consumerOffset consumer + (j.seq - j.consumerOffset consumer) = log.length := by
    rw [h.seq_eq]
    exact Nat.add_sub_of_le hle
  obtain ⟨hnone, hsome⟩ := h.readLoop eventTypes _ _ limit hspan
  rw [← readAfter] at hnone hsome
  unfold EventJournal.consume
  generalize j.readAfter (j.consumerOffset consumer) limit eventTypes = batch at hnone hsome ⊢
  cases hlast : batch.getLast? with
  | none =>
    obtain rfl := List.getLast?_eq_none_iff.mp hlast
    exact .inl ⟨rfl, hnone rfl⟩
  | some last =>
    obtain ⟨hoffset, hread⟩ := hsome last hlast
    have hne : batch ≠ [] := by
      rintro rfl
      cases hlast
    cases hcommit : j.commitConsumerOffset consumer last.offset with
    | none => exact .inr (.inl (by simp only [hlast, hcommit]))
    | some committed =>
      refine .inr (.inr ⟨batch, committed, hne, ?_, h.commit hcommit, ?_⟩)
      · simp only [hlast, hcommit]
      · rw [consumerOffset_commit hcommit]
        exact ⟨hoffset, hread⟩

end EventJournal

end PalmEngine.Events
