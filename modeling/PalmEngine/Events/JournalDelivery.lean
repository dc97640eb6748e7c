import PalmEngine.Events.JournalCalls

/-!
# Consuming a journal during appends

Appends and the consume calls of one consumer take turns, each turn one step on the storage. An
append publishes the head before its entry is there, and a read goes on past an offset that has no
entry yet. If no call takes an entry after it has gone past such an offset, then everything up to
the committed offset has been returned by some call; otherwise the missing entry is never read.
-/

namespace PalmEngine.Events

open PalmEngine.Lib EventJournal

/-- A consume call at one of its steps. -/
inductive ConsumeProc where
  /-- It has not read the offset of the consumer. -/
  | start (limit : ℕ+)
  /-- It is about to read the head. -/
  | offsetRead (limit : ℕ+) (offset : ℕ)
  /-- It is about to read the entry after a position; as history, whether an entry was missing. -/
  | reading (limit : ℕ+) (latest pos : ℕ) (batch : List JournalEntry) (gap : Bool)
  /-- It is about to commit the offset of the last entry. -/
  | committing (batch : List JournalEntry) (last : JournalEntry)
  /-- It has returned a batch, or raised. -/
  | returned (batch : Option (List JournalEntry))

namespace ConsumeProc

/-- Go on with the next entry, if one is left and the limit leaves room, or else with the commit. -/
def settle (limit : ℕ+) (latest pos : ℕ) (batch : List JournalEntry) (gap : Bool) : ConsumeProc :=
  if pos < latest ∧ batch.length < limit then reading limit latest pos batch gap
  else
    match batch.getLast? with
    | none => returned (some [])
    | some last => committing batch last

/-- The next step of a consume call. -/
def move (consumer : String) (eventTypes : Option (List String)) (j : EventJournal) :
    ConsumeProc → Option (EventJournal × ConsumeProc)
  | start limit => some (j, offsetRead limit (j.consumerOffset consumer))
  | offsetRead limit offset => some (j, settle limit j.seq offset [] false)
  | reading limit latest pos batch gap =>
    match j.entries.get? (pos + 1) with
    | none => some (j, settle limit latest (pos + 1) batch true)
    | some entry =>
      if accepts eventTypes entry then
        some (j, settle limit latest (pos + 1) (batch ++ [entry]) gap)
      else some (j, settle limit latest (pos + 1) batch gap)
  | committing batch last =>
    match j.commitConsumerOffset consumer last.offset with
    | none => some (j, returned none)
    | some committed => some (committed, returned (some batch))
  | returned _ => none

/-- A commit writes nothing but the offset of the consumer. -/
theorem commit_journal {consumer : String} {offset : ℕ} {j committed : EventJournal}
    (h : j.commitConsumerOffset consumer offset = some committed) :
    ∃ offsets, committed = { j with offsets := offsets } := by
  unfold commitConsumerOffset at h
  split at h
  · cases h
  · exact ⟨_, (Option.some.inj h).symm⟩

/-- A consume call writes nothing but the offset of its consumer. -/
theorem move_journal {consumer : String} {eventTypes : Option (List String)}
    {j j' : EventJournal} {p q : ConsumeProc} (h : move consumer eventTypes j p = some (j', q)) :
    ∃ offsets, j' = { j with offsets := offsets } := by
  cases p with
  | start _ | offsetRead _ _ =>
    cases h
    exact ⟨j.offsets, rfl⟩
  | reading limit latest pos batch gap =>
    simp only [move] at h
    split at h
    · cases h
      exact ⟨j.offsets, rfl⟩
    · split at h <;> cases h <;> exact ⟨j.offsets, rfl⟩
  | committing batch last =>
    simp only [move] at h
    split at h
    · cases h
      exact ⟨j.offsets, rfl⟩
    · next committed hcommit =>
      cases h
      exact commit_journal hcommit
  | returned _ => cases h

/-- The call takes no entry after it has gone past an offset that had none. -/
def TakesInOrder (eventTypes : Option (List String)) (j : EventJournal) : ConsumeProc → Prop
  | reading _ _ pos _ gap =>
    gap = true → ∀ entry ∈ j.entries.get? (pos + 1), accepts eventTypes entry = false
  | _ => True

instance (eventTypes : Option (List String)) (j : EventJournal) :
    ∀ p, Decidable (TakesInOrder eventTypes j p)
  | reading _ _ pos _ gap => inferInstanceAs (Decidable
      (gap = true → ∀ entry ∈ j.entries.get? (pos + 1), accepts eventTypes entry = false))
  | start _ | offsetRead _ _ | committing _ _ | returned _ => .isTrue trivial

end ConsumeProc

/-- A journal with concurrent appends and consume calls of one consumer. -/
structure JournalPool where
  journal : EventJournal
  appends : List AppendProc
  consumes : List ConsumeProc

/-- A turn of an append or of a consume call. -/
inductive JournalTurn where
  | append (i : ℕ)
  | consume (i : ℕ)

namespace JournalPool

/-- The appends by themselves. -/
def appendPool (pool : JournalPool) : AppendPool := ⟨pool.journal, pool.appends⟩

/-- The consume calls by themselves. -/
def consumePool (pool : JournalPool) : Pool EventJournal ConsumeProc :=
  ⟨pool.journal, pool.consumes⟩

/-- No call has begun, and the journal is empty. -/
def start (requests : List AppendRequest) (limits : List ℕ+) : JournalPool :=
  ⟨.empty, requests.map .start, limits.map .start⟩

variable (consumer : String) (eventTypes : Option (List String))

/-- A call takes its turn. -/
def step (pool : JournalPool) : JournalTurn → Option JournalPool
  | .append i => (pool.appendPool.step AppendProc.move i).map fun next =>
      ⟨next.shared, next.procs, pool.consumes⟩
  | .consume i => (pool.consumePool.step (ConsumeProc.move consumer eventTypes) i).map fun next =>
      ⟨next.shared, pool.appends, next.procs⟩

/-- No consume call takes an entry after it has gone past an offset that had none. -/
def TakesInOrder (pool : JournalPool) : JournalTurn → JournalPool → Prop
  | .append _, _ => True
  | .consume i, next => Pool.OnTurn (fun calls p => p.TakesInOrder eventTypes calls.shared)
      pool.consumePool i next.consumePool

instance (pool : JournalPool) : ∀ turn next, Decidable (pool.TakesInOrder eventTypes turn next)
  | .append _, _ => .isTrue trivial
  | .consume i, next => inferInstanceAs (Decidable (Pool.OnTurn
      (fun calls p => p.TakesInOrder eventTypes calls.shared) pool.consumePool i next.consumePool))

/-- Every append finds the head that it has read. -/
def FindsHead (pool : JournalPool) : JournalTurn → JournalPool → Prop
  | .append i, next => Pool.OnTurn AppendPool.FindsHead pool.appendPool i next.appendPool
  | .consume _, _ => True

/-- An entry has been returned by a consume call. -/
def Delivered (pool : JournalPool) (entry : JournalEntry) : Prop :=
  ∃ batch, .returned (some batch) ∈ pool.consumes ∧ entry ∈ batch

/-- Every entry that was appended and passes the filter has been returned. -/
def DeliversAll (pool : JournalPool) : Prop :=
  ∀ p ∈ pool.appends, ∀ entry ∈ p.written, accepts eventTypes entry = true → pool.Delivered entry

/-- The entry at an offset is there, and it is returned or in a batch if it passes the filter. -/
def Settled (pool : JournalPool) (batch : List JournalEntry) (offset : ℕ) : Prop :=
  ∃ entry, pool.journal.entries.get? offset = some entry ∧
    (accepts eventTypes entry = true → entry ∈ batch ∨ pool.Delivered entry)

/-- The entries up to an offset are settled. -/
def SettledTo (pool : JournalPool) (batch : List JournalEntry) (offset : ℕ) : Prop :=
  ∀ o, 1 ≤ o → o ≤ offset → pool.Settled eventTypes batch o

/-- What a consume call is about to commit is settled. -/
def Covers (pool : JournalPool) : ConsumeProc → Prop
  | .start _ | .returned _ => True
  | .offsetRead _ offset => pool.SettledTo eventTypes [] offset
  | .reading _ _ pos batch gap => (gap = false → pool.SettledTo eventTypes batch pos) ∧
      ∀ last ∈ batch.getLast?, pool.SettledTo eventTypes batch last.offset
  | .committing batch last => pool.SettledTo eventTypes batch last.offset

/-- The invariant: offsets have one append each, entries come from appends, and the entries up to
the committed offset are settled, as are those up to what a call is about to commit. -/
structure Sound (pool : JournalPool) : Prop where
  allots : pool.appendPool.Allots
  origin : ∀ offset entry, pool.journal.entries.get? offset = some entry →
    entry.offset = offset ∧ ∃ p ∈ pool.appends, entry ∈ p.written
  committed : pool.SettledTo eventTypes [] (pool.journal.consumerOffset consumer)
  covers : ∀ p ∈ pool.consumes, pool.Covers eventTypes p

/-- One state follows another: entries stay, and what is returned stays. -/
structure Follows (pool pool' : JournalPool) : Prop where
  entries : ∀ offset entry, pool.journal.entries.get? offset = some entry →
    pool'.journal.entries.get? offset = some entry
  delivered : ∀ entry, pool.Delivered entry → pool'.Delivered entry

section Follows

variable {consumer eventTypes} {pool pool' : JournalPool} {batch batch' : List JournalEntry}

/-- What is settled stays so. -/
theorem SettledTo.follows {offset : ℕ} (h : pool.SettledTo eventTypes batch offset)
    (hfollows : pool.Follows pool')
    (hbatch : ∀ entry ∈ batch, entry ∈ batch' ∨ pool'.Delivered entry) :
    pool'.SettledTo eventTypes batch' offset := by
  intro o hpos hle
  obtain ⟨entry, hentry, hsettled⟩ := h o hpos hle
  refine ⟨entry, hfollows.entries o entry hentry, fun haccepts => ?_⟩
  rcases hsettled haccepts with hmem | hdelivered
  · exact hbatch entry hmem
  · exact .inr (hfollows.delivered entry hdelivered)

/-- What a call is about to commit stays settled. -/
theorem Covers.follows {p : ConsumeProc} (h : pool.Covers eventTypes p)
    (hfollows : pool.Follows pool') : pool'.Covers eventTypes p := by
  cases p with
  | start limit => trivial
  | offsetRead limit offset => exact SettledTo.follows h hfollows fun _ => .inl
  | reading limit latest pos batch gap =>
    exact ⟨fun hgap => (h.1 hgap).follows hfollows fun _ => .inl,
      fun last hlast => (h.2 last hlast).follows hfollows fun _ => .inl⟩
  | committing batch last => exact SettledTo.follows h hfollows fun _ => .inl
  | returned batch => trivial

/-- What is settled up to an offset and at the next one. -/
theorem SettledTo.succ {pos : ℕ} (h : pool.SettledTo eventTypes batch pos)
    (hnext : pool.Settled eventTypes batch (pos + 1)) :
    pool.SettledTo eventTypes batch (pos + 1) := by
  intro o hpos hle
  by_cases heq : o = pos + 1
  · exact heq ▸ hnext
  · exact h o hpos (by omega)

/-- A larger batch settles more. -/
theorem SettledTo.subset {offset : ℕ} (h : pool.SettledTo eventTypes batch offset)
    (hsubset : batch ⊆ batch') : pool.SettledTo eventTypes batch' offset := by
  intro o hpos hle
  obtain ⟨entry, hentry, hsettled⟩ := h o hpos hle
  exact ⟨entry, hentry, fun haccepts => (hsettled haccepts).imp_left fun hmem => hsubset hmem⟩

/-- A call that goes on has settled what it is about to commit. -/
theorem covers_settle {limit : ℕ+} {latest pos : ℕ} {gap : Bool}
    (h : pool.Covers eventTypes (.reading limit latest pos batch gap)) :
    pool.Covers eventTypes (ConsumeProc.settle limit latest pos batch gap) := by
  unfold ConsumeProc.settle
  split
  · exact h
  · cases hlast : batch.getLast? with
    | none => trivial
    | some last => exact h.2 last (by rw [hlast]; rfl)

end Follows

section Steps

variable {consumer eventTypes} {pool pool' : JournalPool}

/-- A turn of an append keeps the invariant. -/
theorem Sound.append (h : pool.Sound consumer eventTypes) {i : ℕ} {next : AppendPool}
    (hstep : pool.appendPool.step AppendProc.move i = some next)
    (hok : Pool.OnTurn AppendPool.FindsHead pool.appendPool i next) :
    Sound consumer eventTypes ⟨next.shared, next.procs, pool.consumes⟩ := by
  have hallots := h.allots.step hstep hok
  obtain ⟨p, j, q, hp, hmove, rfl⟩ := Pool.step_cases hstep
  have hmem : p ∈ pool.appends := List.mem_of_getElem? hp
  have hwritten : ∀ entry, entry ∈ p.written → entry ∈ q.written := by
    intro entry hentry
    cases p with
    | start request => cases hentry
    | headSet request seq => cases hentry
    | entrySet request seq => cases hentry
    | compactSet request seq key =>
      cases hmove
      exact hentry
    | returned request seq => cases hmove
  have hoffsets : j.consumerOffset consumer = pool.journal.consumerOffset consumer := by
    cases p <;> cases hmove <;> rfl
  have hentries : ∀ offset entry, pool.journal.entries.get? offset = some entry →
      j.entries.get? offset = some entry := by
    intro offset entry hentry
    cases p with
    | entrySet request seq =>
      cases hmove
      obtain ⟨rfl, r, hr, hrwritten⟩ := h.origin offset entry hentry
      have hne := h.allots.offset_ne hmem hr hrwritten
      exact (Dict.get?_set_ne _ _ hne).trans hentry
    | start _ | headSet _ _ | compactSet _ _ _ => cases hmove; exact hentry
    | returned request seq => cases hmove
  have hfollows : pool.Follows ⟨j, pool.appends.set i q, pool.consumes⟩ := ⟨hentries, fun _ => id⟩
  refine ⟨hallots, fun offset entry hentry => ?_, ?_, fun r hr => (h.covers r hr).follows hfollows⟩
  · have hkept : ∀ entry, (∃ r ∈ pool.appends, entry ∈ r.written) →
        ∃ r ∈ pool.appends.set i q, entry ∈ r.written := fun entry =>
      Pool.exists_mem_set hp (hwritten entry)
    have hold : pool.journal.entries.get? offset = some entry →
        entry.offset = offset ∧ ∃ r ∈ pool.appends.set i q, entry ∈ r.written := by
      intro hentry
      obtain ⟨hoffset, hex⟩ := h.origin offset entry hentry
      exact ⟨hoffset, hkept entry hex⟩
    cases p with
    | entrySet request seq =>
      cases hmove
      by_cases heq : offset = seq
      · subst heq
        obtain rfl : request.entry offset = entry := by simpa using hentry
        exact ⟨rfl, _, Pool.mem_set_self hp, by simp⟩
      · exact hold ((Dict.get?_set_ne _ _ heq).symm.trans hentry)
    | start _ | headSet _ _ | compactSet _ _ _ => cases hmove; exact hold hentry
    | returned request seq => cases hmove
  · show SettledTo eventTypes _ [] (j.consumerOffset consumer)
    rw [hoffsets]
    exact h.committed.follows hfollows fun _ => .inl

/-- What was returned stays so while a call that has not returned takes its turn. -/
theorem delivered_set {i : ℕ} {p q : ConsumeProc} {j : EventJournal}
    (hp : pool.consumes[i]? = some p) (hrunning : ∀ batch, p ≠ .returned (some batch))
    (entry : JournalEntry) (h : pool.Delivered entry) :
    Delivered ⟨j, pool.appends, pool.consumes.set i q⟩ entry := by
  obtain ⟨batch, hbatch, hentry⟩ := h
  exact ⟨batch, Pool.mem_set_of_ne hp hbatch (hrunning batch).symm, hentry⟩

/-- A turn of a consume call that leaves the journal keeps everything but what the call itself is
about to commit. -/
theorem Sound.quiet (h : pool.Sound consumer eventTypes) {i : ℕ} {p q : ConsumeProc}
    (hp : pool.consumes[i]? = some p) (hrunning : ∀ batch, p ≠ .returned (some batch))
    (hq : Covers eventTypes ⟨pool.journal, pool.appends, pool.consumes.set i q⟩ p →
      Covers eventTypes ⟨pool.journal, pool.appends, pool.consumes.set i q⟩ q) :
    Sound consumer eventTypes ⟨pool.journal, pool.appends, pool.consumes.set i q⟩ := by
  have hfollows : pool.Follows ⟨pool.journal, pool.appends, pool.consumes.set i q⟩ :=
    ⟨fun _ _ => id, delivered_set hp hrunning⟩
  have hkept := (h.covers p (List.mem_of_getElem? hp)).follows hfollows
  refine ⟨h.allots, h.origin, h.committed.follows hfollows fun _ => .inl, fun r hr => ?_⟩
  rcases Pool.mem_set_cases hr with rfl | hr
  · exact hq hkept
  · exact (h.covers r hr).follows hfollows

/-- A commit keeps the invariant. -/
theorem Sound.commit (h : pool.Sound consumer eventTypes) {i : ℕ} {batch : List JournalEntry}
    {last : JournalEntry} {j : EventJournal}
    (hp : pool.consumes[i]? = some (.committing batch last))
    (hcommit : pool.journal.commitConsumerOffset consumer last.offset = some j) :
    Sound consumer eventTypes ⟨j, pool.appends, pool.consumes.set i (.returned (some batch))⟩ := by
  have hoffset := consumerOffset_commit hcommit
  obtain ⟨offsets, rfl⟩ := ConsumeProc.commit_journal hcommit
  have hrunning : ∀ returned, ConsumeProc.committing batch last ≠ .returned (some returned) :=
    fun returned heq => by cases heq
  have hfollows : pool.Follows ⟨{ pool.journal with offsets := offsets }, pool.appends,
      pool.consumes.set i (.returned (some batch))⟩ :=
    ⟨fun _ _ => id, delivered_set hp hrunning⟩
  have hcovers : pool.SettledTo eventTypes batch last.offset :=
    h.covers _ (List.mem_of_getElem? hp)
  refine ⟨⟨h.allots.allotted_eq, h.allots.headSet_le, h.allots.stored⟩, h.origin, ?_,
    fun r hr => ?_⟩
  · rw [hoffset]
    exact hcovers.follows hfollows fun entry hentry => .inr ⟨batch, Pool.mem_set_self hp, hentry⟩
  · rcases Pool.mem_set_cases hr with rfl | hr
    · trivial
    · exact (h.covers r hr).follows hfollows

/-- A turn that reads an entry keeps the invariant. -/
theorem Sound.read (h : pool.Sound consumer eventTypes) {i latest pos : ℕ} {limit : ℕ+}
    {batch : List JournalEntry} {gap : Bool} {q : ConsumeProc} {j : EventJournal}
    (hp : pool.consumes[i]? = some (.reading limit latest pos batch gap))
    (hmove : ConsumeProc.move consumer eventTypes pool.journal
      (.reading limit latest pos batch gap) = some (j, q))
    (hok : ConsumeProc.TakesInOrder eventTypes pool.journal (.reading limit latest pos batch gap)) :
    Sound consumer eventTypes ⟨j, pool.appends, pool.consumes.set i q⟩ := by
  have hrunning : ∀ returned,
      ConsumeProc.reading limit latest pos batch gap ≠ .returned (some returned) :=
    fun returned heq => by cases heq
  cases hentry : pool.journal.entries.get? (pos + 1) with
  | none =>
    obtain ⟨rfl, rfl⟩ : pool.journal = j ∧ .settle limit latest (pos + 1) batch true = q := by
      simpa [ConsumeProc.move, hentry] using hmove
    refine h.quiet hp hrunning fun hkept => covers_settle ⟨fun hgap => ?_, hkept.2⟩
    cases hgap
  | some entry =>
    cases haccepts : accepts eventTypes entry with
    | true =>
      obtain ⟨rfl, rfl⟩ : pool.journal = j ∧
          .settle limit latest (pos + 1) (batch ++ [entry]) gap = q := by
        simpa [ConsumeProc.move, hentry, haccepts] using hmove
      have hgap : gap = false := by
        by_contra hgap
        have hnot := hok (by simpa using hgap) entry hentry
        cases haccepts.symm.trans hnot
      refine h.quiet hp hrunning fun hkept => ?_
      have hnext := SettledTo.succ ((hkept.1 hgap).subset (List.subset_append_left _ [entry]))
        ⟨entry, hentry, fun _ => .inl (List.mem_append_right _ (List.mem_singleton_self _))⟩
      refine covers_settle ⟨fun _ => hnext, fun last hlast => ?_⟩
      obtain rfl : entry = last := by simpa using hlast
      rw [(h.origin (pos + 1) entry hentry).1]
      exact hnext
    | false =>
      obtain ⟨rfl, rfl⟩ : pool.journal = j ∧ .settle limit latest (pos + 1) batch gap = q := by
        simpa [ConsumeProc.move, hentry, haccepts] using hmove
      refine h.quiet hp hrunning fun hkept =>
        covers_settle ⟨fun hgap => (hkept.1 hgap).succ ⟨entry, hentry, fun htrue => ?_⟩, hkept.2⟩
      cases htrue.symm.trans haccepts

/-- A turn of a consume call keeps the invariant. -/
theorem Sound.consume (h : pool.Sound consumer eventTypes) {i : ℕ}
    {next : Pool EventJournal ConsumeProc}
    (hstep : pool.consumePool.step (ConsumeProc.move consumer eventTypes) i = some next)
    (hok : ∀ p ∈ pool.consumes[i]?, p.TakesInOrder eventTypes pool.journal) :
    Sound consumer eventTypes ⟨next.shared, pool.appends, next.procs⟩ := by
  obtain ⟨p, j, q, hp, hmove, rfl⟩ := Pool.step_cases hstep
  have hmove : ConsumeProc.move consumer eventTypes pool.journal p = some (j, q) := hmove
  cases p with
  | start limit =>
    cases hmove
    refine h.quiet hp (fun _ heq => by cases heq) fun _ => ?_
    exact h.committed.follows ⟨fun _ _ => id, delivered_set hp fun _ heq => by cases heq⟩
      fun _ => .inl
  | offsetRead limit offset =>
    cases hmove
    refine h.quiet hp (fun _ heq => by cases heq) fun hkept =>
      covers_settle ⟨fun _ => hkept, fun last hlast => ?_⟩
    cases hlast
  | reading limit latest pos batch gap => exact h.read hp hmove (hok _ hp)
  | committing batch last =>
    cases hcommit : pool.journal.commitConsumerOffset consumer last.offset with
    | none =>
      obtain ⟨rfl, rfl⟩ : pool.journal = j ∧ .returned none = q := by
        simpa [ConsumeProc.move, hcommit] using hmove
      exact h.quiet hp (fun _ heq => by cases heq) fun _ => trivial
    | some committed =>
      obtain ⟨rfl, rfl⟩ : committed = j ∧ .returned (some batch) = q := by
        simpa [ConsumeProc.move, hcommit] using hmove
      exact h.commit hp hcommit
  | returned batch => cases hmove

/-- A turn that meets the conditions keeps the invariant. -/
theorem Sound.step {turn : JournalTurn} (h : pool.Sound consumer eventTypes)
    (hstep : pool.step consumer eventTypes turn = some pool')
    (hok : pool.FindsHead turn pool' ∧ pool.TakesInOrder eventTypes turn pool') :
    pool'.Sound consumer eventTypes := by
  cases turn with
  | append i =>
    obtain ⟨next, hnext, rfl⟩ := Option.map_eq_some_iff.mp hstep
    exact h.append hnext hok.1
  | consume i =>
    obtain ⟨next, hnext, rfl⟩ := Option.map_eq_some_iff.mp hstep
    exact h.consume hnext hok.2

/-- At the start nothing is committed. -/
theorem start_sound (requests : List AppendRequest) (limits : List ℕ+) :
    (start requests limits).Sound consumer eventTypes where
  allots := AppendPool.start_allots requests
  origin := fun offset entry hentry => by cases hentry
  committed := by
    have hzero : EventJournal.empty.consumerOffset consumer = 0 := by
      unfold EventJournal.consumerOffset
      split <;> rfl
    intro o hpos hle
    have hle : o ≤ EventJournal.empty.consumerOffset consumer := hle
    omega
  covers := fun p hp => by
    obtain ⟨limit, -, rfl⟩ := List.mem_map.mp hp
    trivial

end Steps

section Runs

variable {consumer eventTypes} {requests : List AppendRequest} {limits : List ℕ+}
  {turns : List JournalTurn} {pool : JournalPool}

/-- A turn of a consume call leaves what the appends rely on. -/
theorem allots_consume {pool' : JournalPool} {i : ℕ}
    (hstep : pool.step consumer eventTypes (.consume i) = some pool') :
    (pool.appendPool.Allots → pool'.appendPool.Allots) ∧
      pool'.appendPool.procs = pool.appendPool.procs := by
  obtain ⟨next, hnext, rfl⟩ := Option.map_eq_some_iff.mp hstep
  obtain ⟨p, j, q, -, hmove, rfl⟩ := Pool.step_cases hnext
  have hmove : ConsumeProc.move consumer eventTypes pool.journal p = some (j, q) := hmove
  obtain ⟨offsets, rfl⟩ := ConsumeProc.move_journal hmove
  exact ⟨fun h => ⟨h.allotted_eq, h.headSet_le, h.stored⟩, rfl⟩

/-- If no two appends have one offset in the end, then every append has found the head that it has
read. -/
theorem findsHead_run
    (hrun : runSteps (step consumer eventTypes) (start requests limits) turns = some pool)
    (hdistinct : ¬ pool.appendPool.Collides) :
    AllSteps (step consumer eventTypes) FindsHead (start requests limits) turns := by
  have hkeep : ∀ (pool : JournalPool) turn pool', pool.appendPool.Allots →
      pool.step consumer eventTypes turn = some pool' → pool.FindsHead turn pool' →
        pool'.appendPool.Allots := by
    intro pool turn pool' h hstep hok
    cases turn with
    | append i =>
      obtain ⟨next, hnext, rfl⟩ := Option.map_eq_some_iff.mp hstep
      exact AppendPool.Allots.step h hnext hok
    | consume i => exact (allots_consume hstep).1 h
  have hbreak : ∀ (pool : JournalPool) turn pool', pool.appendPool.Allots →
      pool.step consumer eventTypes turn = some pool' → ¬ pool.FindsHead turn pool' →
        pool'.appendPool.Collides := by
    intro pool turn pool' h hstep hbreak
    cases turn with
    | append i =>
      obtain ⟨next, hnext, rfl⟩ := Option.map_eq_some_iff.mp hstep
      exact AppendPool.Allots.collides h hnext hbreak
    | consume i => exact absurd trivial hbreak
  have hmarked : ∀ (pool : JournalPool) turn pool', pool.appendPool.Collides →
      pool.step consumer eventTypes turn = some pool' → pool'.appendPool.Collides := by
    intro pool turn pool' h hstep
    cases turn with
    | append i =>
      obtain ⟨next, hnext, rfl⟩ := Option.map_eq_some_iff.mp hstep
      exact AppendPool.Collides.step h hnext
    | consume i =>
      obtain ⟨offset, htwo⟩ := h
      refine ⟨offset, ?_⟩
      rw [AppendPool.allotted, (allots_consume hstep).2]
      exact htwo
  exact allSteps_of_unmarked hkeep hbreak hmarked (AppendPool.start_allots requests) hrun hdistinct

/-- A written entry lies between one and the head. -/
theorem offset_le (h : pool.appendPool.Allots) {p : AppendProc} (hp : p ∈ pool.appends)
    {entry : JournalEntry} (hentry : entry ∈ p.written) :
    1 ≤ entry.offset ∧ entry.offset ≤ pool.journal.seq := by
  have hpos : 0 < pool.appendPool.allotted entry.offset :=
    List.countP_pos_iff.mpr ⟨p, hp, decide_eq_true (AppendProc.allotted_of_written hentry)⟩
  rw [h.allotted_eq] at hpos
  split at hpos
  · assumption
  · cases hpos

/-- A distinct list of offsets has no two appends at one offset. -/
theorem not_collides (hnodup : (pool.appends.map AppendProc.allotted).Nodup) :
    ¬ pool.appendPool.Collides := by
  rintro ⟨offset, htwo⟩
  have hle := List.nodup_iff_count_le_one.mp hnodup (some offset)
  have hcount : (pool.appends.map AppendProc.allotted).count (some offset) =
      pool.appendPool.allotted offset := AppendPool.count_allotted pool.appendPool offset
  omega

/-- An empty read has seen every entry that passes the filter. -/
theorem accepts_of_readLoop_eq_nil {j : EventJournal} {remaining pos room offset : ℕ}
    {entry : JournalEntry} (hread : j.readLoop eventTypes remaining pos room = []) (hroom : 0 < room)
    (hlt : pos < offset) (hle : offset ≤ pos + remaining)
    (hentry : j.entries.get? offset = some entry) : accepts eventTypes entry = false := by
  induction remaining generalizing pos with
  | zero => omega
  | succ remaining ih =>
    obtain ⟨room, rfl⟩ := Nat.exists_eq_add_of_lt hroom
    simp only [Nat.zero_add, readLoop] at hread ih
    by_cases heq : offset = pos + 1
    · subst heq
      rw [hentry] at hread
      cases haccepts : accepts eventTypes entry with
      | false => rfl
      | true => simp [haccepts] at hread
    · have hrest : j.readLoop eventTypes remaining (pos + 1) (room + 1) = [] := by
        split at hread
        · exact hread
        · split at hread
          · cases hread
          · exact hread
      exact ih hrest (by omega) (by omega)

/-- A consume call that returns nothing has read nothing. -/
theorem readAfter_of_consume {j : EventJournal} {limit : ℕ}
    (h : (j.consume consumer limit eventTypes).1 = some []) :
    j.readAfter (j.consumerOffset consumer) limit eventTypes = [] := by
  simp only [EventJournal.consume] at h
  split at h
  · exact Option.some.inj h
  · split at h
    · cases h
    · exact Option.some.inj h

/-- Appends and consume calls of one consumer take turns in any order. If the offsets of the appends
come out distinct, no consume call takes an entry after it has gone past an offset that has no entry
yet, and the next consume call returns nothing, then every entry that an append has written and that
passes the filter has been returned by some consume call. -/
theorem delivered_run (hordered :
      AllSteps (step consumer eventTypes) (TakesInOrder eventTypes) (start requests limits) turns)
    (hrun : runSteps (step consumer eventTypes) (start requests limits) turns = some pool)
    (hdistinct : (pool.appends.map AppendProc.allotted).Nodup) (limit : ℕ+)
    (hempty : (pool.journal.consume consumer limit eventTypes).1 = some []) :
    pool.DeliversAll eventTypes := by
  have hfinds := findsHead_run hrun (not_collides hdistinct)
  have hsound : pool.Sound consumer eventTypes :=
    invariant_of_allSteps (fun _ _ _ h hstep hok => Sound.step h hstep hok)
      (start_sound requests limits) (hfinds.and hordered) hrun
  intro p hp entry hentry haccepts
  have hstored := hsound.allots.stored p hp entry hentry
  have hhead := offset_le hsound.allots hp hentry
  by_cases hle : entry.offset ≤ pool.journal.consumerOffset consumer
  · obtain ⟨other, hother, hsettled⟩ := hsound.committed entry.offset hhead.1 hle
    obtain rfl : other = entry := Option.some.inj (hother.symm.trans hstored)
    exact (hsettled haccepts).resolve_left (List.not_mem_nil)
  · exfalso
    have hnot := accepts_of_readLoop_eq_nil (readAfter_of_consume hempty) limit.pos
      (Nat.lt_of_not_le hle) (by omega) hstored
    cases haccepts.symm.trans hnot

end Runs

/-- An append, and then a consume call that returns its entry. -/
theorem delivered_run_sequence : ∃ pool, runSteps (step "audit" none)
    (start [plainRequest "a"] [1]) [.append 0, .append 0, .append 0, .consume 0, .consume 0,
      .consume 0, .consume 0] = some pool ∧ pool.DeliversAll none := by
  have hrun : runSteps (step "audit" none) (start [plainRequest "a"] [1]) [.append 0, .append 0,
    .append 0, .consume 0, .consume 0, .consume 0, .consume 0] = some _ := rfl
  refine ⟨_, hrun, delivered_run ?_ hrun ?_ 1 ?_⟩
  · decide +kernel
  · decide
  · rfl

/-- An append publishes the head and writes its entry after another append and a consume call. The
consumer commits past it. -/
theorem delivered_run_fails : ∃ pool, runSteps (step "audit" none)
    (start [plainRequest "a", plainRequest "b"] [1]) [.append 0, .append 0, .append 1, .append 1,
      .append 1, .consume 0, .consume 0, .consume 0, .consume 0, .consume 0, .append 0] = some pool ∧
    (∀ p ∈ pool.appends, p.isReturned) ∧ (pool.appends.map AppendProc.allotted).Nodup ∧
    (pool.journal.consume "audit" 1 none).1 = some [] ∧ ¬ pool.DeliversAll none := by
  refine ⟨_, rfl, ?_, ?_, rfl, fun h => ?_⟩
  · decide
  · decide
  · obtain ⟨batch, hbatch, hentry⟩ := h _ List.mem_cons_self _ rfl rfl
    have hbatch : ConsumeProc.returned (some batch) ∈
        [ConsumeProc.returned (some [(plainRequest "b").entry 2])] := hbatch
    obtain rfl : batch = [(plainRequest "b").entry 2] := by simpa using hbatch
    have hoffset : (1 : ℕ) = 2 := congrArg JournalEntry.offset (List.mem_singleton.mp hentry)
    omega

end JournalPool

end PalmEngine.Events
