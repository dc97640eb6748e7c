import PalmEngine.Events.Journal
import PalmEngine.Lib.Pool

/-!
# Concurrent appends to the journal

An append reads the head, writes the next offset as the new head and then writes its entry, each
a step of its own. Two appends that read the same head get the same offset. The appends of a run
get the offsets one to their number, each its own, exactly when each of them finds the head that
it read when it writes the new one.
-/

namespace PalmEngine.Events

open PalmEngine.Lib

/-- An append at one of its steps. -/
inductive AppendProc where
  /-- It has not read the head. -/
  | start (request : AppendRequest)
  /-- It is about to write its offset as the head. -/
  | headSet (request : AppendRequest) (seq : ℕ)
  /-- It is about to write its entry. -/
  | entrySet (request : AppendRequest) (seq : ℕ)
  /-- It is about to write the newest offset of its compaction key. -/
  | compactSet (request : AppendRequest) (seq : ℕ) (key : String)
  /-- It has returned its offset. -/
  | returned (request : AppendRequest) (seq : ℕ)

namespace AppendProc

/-- What is left to do once the entry is written: the compaction key, if there is one. -/
def afterEntry (request : AppendRequest) (seq : ℕ) : AppendProc :=
  match request.compactKey.filter (· ≠ "") with
  | some key => compactSet request seq key
  | none => returned request seq

/-- The next step of an append. -/
def move (j : EventJournal) : AppendProc → Option (EventJournal × AppendProc)
  | start request => some (j, headSet request (j.seq + 1))
  | headSet request seq => some ({ j with seq := seq }, entrySet request seq)
  | entrySet request seq =>
    some ({ j with entries := j.entries.set seq (request.entry seq) }, afterEntry request seq)
  | compactSet request seq key =>
    some ({ j with compact := j.compact.set key seq }, returned request seq)
  | returned _ _ => none

/-- The append has returned. -/
def isReturned : AppendProc → Bool
  | returned _ _ => true
  | _ => false

/-- The offset that the append has written as the head. -/
def allotted : AppendProc → Option ℕ
  | start _ | headSet _ _ => none
  | entrySet _ seq | compactSet _ seq _ | returned _ seq => some seq

/-- The entry that the append has written. -/
def written : AppendProc → Option JournalEntry
  | start _ | headSet _ _ | entrySet _ _ => none
  | compactSet request seq _ | returned request seq => some (request.entry seq)

@[simp] theorem allotted_afterEntry (request : AppendRequest) (seq : ℕ) :
    (afterEntry request seq).allotted = some seq := by
  unfold afterEntry
  split <;> rfl

@[simp] theorem written_afterEntry (request : AppendRequest) (seq : ℕ) :
    (afterEntry request seq).written = some (request.entry seq) := by
  unfold afterEntry
  split <;> rfl

/-- A turn leaves an offset that was allotted. -/
theorem allotted_move {j j' : EventJournal} {p q : AppendProc} (h : move j p = some (j', q))
    {offset : ℕ} (hp : p.allotted = some offset) : q.allotted = some offset := by
  cases p with
  | start request => cases hp
  | headSet request seq => cases hp
  | entrySet request seq =>
    cases h
    rw [allotted_afterEntry]
    exact hp
  | compactSet request seq key =>
    cases h
    exact hp
  | returned request seq => cases h

/-- A written entry has the offset of its append. -/
theorem allotted_of_written {p : AppendProc} {entry : JournalEntry} (h : entry ∈ p.written) :
    p.allotted = some entry.offset := by
  cases p <;> cases h <;> rfl

/-- The append has this offset. -/
def hasOffset (offset : ℕ) (p : AppendProc) : Bool := p.allotted = some offset

end AppendProc

/-- Concurrent appends to a journal. -/
abbrev AppendPool := Pool EventJournal AppendProc

namespace AppendPool

/-- No append has begun, and the journal is empty. -/
def start (requests : List AppendRequest) : AppendPool := ⟨.empty, requests.map .start⟩

/-- How many appends have an offset. -/
def allotted (pool : AppendPool) (offset : ℕ) : ℕ := pool.procs.countP (AppendProc.hasOffset offset)

/-- The append that writes the head finds the head it read. -/
def FindsHead (pool : AppendPool) : AppendProc → Prop
  | .headSet _ seq => seq = pool.shared.seq + 1
  | _ => True

instance (pool : AppendPool) : ∀ p, Decidable (pool.FindsHead p)
  | .headSet _ _ => inferInstanceAs (Decidable (_ = _))
  | .start _ | .entrySet _ _ | .compactSet _ _ _ | .returned _ _ => .isTrue trivial

/-- The appends got the offsets from one to their number, each its own, the head is their number,
and every append's entry is stored at its offset. -/
structure Distinct (pool : AppendPool) : Prop where
  offsets_perm : (pool.procs.map AppendProc.allotted).Perm
    ((List.range' 1 pool.procs.length).map some)
  seq_eq : pool.shared.seq = pool.procs.length
  stored : ∀ p ∈ pool.procs, ∀ entry ∈ p.written,
    pool.shared.entries.get? entry.offset = some entry

/-- The offsets up to the head have one append each and no other offset has one, an append that
is about to write the head goes at most one beyond it, and the entries written are stored. -/
structure Allots (pool : AppendPool) : Prop where
  allotted_eq : ∀ offset,
    pool.allotted offset = if 1 ≤ offset ∧ offset ≤ pool.shared.seq then 1 else 0
  headSet_le : ∀ request seq, .headSet request seq ∈ pool.procs →
    1 ≤ seq ∧ seq ≤ pool.shared.seq + 1
  stored : ∀ p ∈ pool.procs, ∀ entry ∈ p.written,
    pool.shared.entries.get? entry.offset = some entry

/-- Two appends have one offset. -/
def Collides (pool : AppendPool) : Prop := ∃ offset, 1 < pool.allotted offset

/-- No offset is taken at the start. -/
theorem start_allots (requests : List AppendRequest) : (start requests).Allots where
  allotted_eq offset := by
    have hseq : (start requests).shared.seq = 0 := rfl
    rw [if_neg (by omega), allotted, List.countP_eq_zero]
    intro p hp
    obtain ⟨request, -, rfl⟩ := List.mem_map.mp hp
    simp [AppendProc.hasOffset, AppendProc.allotted]
  headSet_le request seq hp := by
    obtain ⟨_, -, heq⟩ := List.mem_map.mp hp
    cases heq
  stored p hp := by
    obtain ⟨request, -, rfl⟩ := List.mem_map.mp hp
    exact fun _ h => nomatch h

/-- A turn that writes no head keeps what the others have and are about to write. -/
theorem Allots.keep {pool : AppendPool} (h : pool.Allots) {i : ℕ} {p q : AppendProc}
    {j : EventJournal} (hp : pool.procs[i]? = some p) (hseq : j.seq = pool.shared.seq)
    (hallotted : q.allotted = p.allotted)
    (hheadSet : ∀ request seq, q = .headSet request seq → 1 ≤ seq ∧ seq ≤ pool.shared.seq + 1)
    (hstored : ∀ r ∈ pool.procs.set i q, ∀ entry ∈ r.written,
      j.entries.get? entry.offset = some entry) :
    Allots ⟨j, pool.procs.set i q⟩ where
  allotted_eq offset := by
    have hcount := Pool.countP_set_eq (f := AppendProc.hasOffset offset) hp
      (show q.hasOffset offset = p.hasOffset offset by rw [AppendProc.hasOffset, hallotted]; rfl)
    have heq := h.allotted_eq offset
    simp only [allotted] at heq ⊢
    rw [hcount, heq, hseq]
  headSet_le request seq hr := by
    rw [hseq]
    rcases Pool.mem_set_cases hr with hq | hr
    · exact hheadSet request seq hq.symm
    · exact h.headSet_le request seq hr
  stored := hstored

/-- An entry that is about to be written has another offset than those written. -/
theorem Allots.offset_ne {pool : AppendPool} (h : pool.Allots) {request : AppendRequest} {seq : ℕ}
    (hp : .entrySet request seq ∈ pool.procs) {r : AppendProc} (hr : r ∈ pool.procs)
    {entry : JournalEntry} (hentry : entry ∈ r.written) : entry.offset ≠ seq := by
  rintro rfl
  have hne : .entrySet request entry.offset ≠ r := by
    rintro rfl
    cases hentry
  have htwo : 1 < pool.allotted entry.offset :=
    Pool.one_lt_countP hp hr hne (by simp [AppendProc.hasOffset, AppendProc.allotted])
      (by simp [AppendProc.hasOffset, AppendProc.allotted_of_written hentry])
  have heq := h.allotted_eq entry.offset
  split at heq <;> omega

/-- A turn that meets the condition keeps every offset to one append. -/
theorem Allots.step {pool pool' : AppendPool} {i : ℕ} (h : pool.Allots)
    (hstep : pool.step AppendProc.move i = some pool')
    (hok : Pool.OnTurn FindsHead pool i pool') : pool'.Allots := by
  obtain ⟨p, j, q, hp, hmove, rfl⟩ := Pool.step_cases hstep
  have hfinds := hok p hp
  have hmem := List.mem_of_getElem? hp
  cases p with
  | start request =>
    cases hmove
    refine h.keep hp rfl rfl (fun _ _ heq => ?_) fun r hr => ?_
    · cases heq
      omega
    · rcases Pool.mem_set_cases hr with rfl | hr
      · exact fun _ h => nomatch h
      · exact h.stored r hr
  | headSet request seq =>
    cases hmove
    obtain rfl : seq = pool.shared.seq + 1 := hfinds
    refine ⟨fun offset => ?_, fun request' seq' hr => ?_, fun r hr => ?_⟩
    · have hcount := Pool.countP_set (q := .entrySet request (pool.shared.seq + 1))
        (AppendProc.hasOffset offset) hp
      have heq := h.allotted_eq offset
      simp only [allotted] at heq ⊢
      simp only [AppendProc.hasOffset, AppendProc.allotted, reduceCtorEq, decide_false,
        Option.some.injEq, decide_eq_true_eq, Bool.false_eq_true, if_false, heq] at hcount
      split_ifs at hcount ⊢ <;> omega
    · change 1 ≤ seq' ∧ seq' ≤ pool.shared.seq + 1 + 1
      rcases Pool.mem_set_cases hr with heq | hr
      · cases heq
      · have hle := h.headSet_le request' seq' hr
        omega
    · rcases Pool.mem_set_cases hr with rfl | hr
      · exact fun _ h => nomatch h
      · exact h.stored r hr
  | entrySet request seq =>
    cases hmove
    refine h.keep hp rfl ?_ (fun _ _ heq => ?_) fun r hr entry hentry => ?_
    · exact AppendProc.allotted_afterEntry request seq
    · have hallotted := AppendProc.allotted_afterEntry request seq
      rw [heq] at hallotted
      cases hallotted
    · rcases Pool.mem_set_cases hr with rfl | hr
      · rw [AppendProc.written_afterEntry] at hentry
        cases hentry
        exact Dict.get?_set_self _ _ _
      · rw [Dict.get?_set_ne _ _ (h.offset_ne hmem hr hentry)]
        exact h.stored r hr entry hentry
  | compactSet request seq key =>
    cases hmove
    refine h.keep hp rfl rfl (fun _ _ heq => nomatch heq) fun r hr => ?_
    rcases Pool.mem_set_cases hr with rfl | hr
    · exact h.stored (.compactSet request seq key) hmem
    · exact h.stored r hr
  | returned request seq => cases hmove

/-- A head written over another than the one read leaves two appends at one offset. -/
theorem Allots.collides {pool pool' : AppendPool} {i : ℕ} (h : pool.Allots)
    (hstep : pool.step AppendProc.move i = some pool')
    (hbreak : ¬ Pool.OnTurn FindsHead pool i pool') : pool'.Collides := by
  obtain ⟨p, j, q, hp, hmove, rfl⟩ := Pool.step_cases hstep
  have hfinds : ¬ pool.FindsHead p := fun hfinds =>
    hbreak fun r hr => Option.some.inj (hp.symm.trans hr) ▸ hfinds
  cases p with
  | headSet request seq =>
    cases hmove
    have hle := h.headSet_le request seq (List.mem_of_getElem? hp)
    have hseq : seq ≠ pool.shared.seq + 1 := hfinds
    have hcount := Pool.countP_set (q := .entrySet request seq) (AppendProc.hasOffset seq) hp
    have heq := h.allotted_eq seq
    rw [if_pos (by omega)] at heq
    refine ⟨seq, ?_⟩
    simp only [allotted] at heq ⊢
    simp [AppendProc.hasOffset, AppendProc.allotted] at hcount heq ⊢
    omega
  | start _ | entrySet _ _ | compactSet _ _ _ | returned _ _ => exact absurd trivial hfinds

/-- Two appends at one offset stay there. -/
theorem Collides.step {pool pool' : AppendPool} {i : ℕ} (h : pool.Collides)
    (hstep : pool.step AppendProc.move i = some pool') : pool'.Collides := by
  obtain ⟨p, j, q, hp, hmove, rfl⟩ := Pool.step_cases hstep
  obtain ⟨offset, htwo⟩ := h
  refine ⟨offset, htwo.trans_le (Pool.countP_le_set_of_imp hp fun hoffset => ?_)⟩
  exact decide_eq_true (AppendProc.allotted_move hmove (of_decide_eq_true hoffset))

/-- The appends with an offset are counted among all offsets. -/
theorem count_allotted (pool : AppendPool) (offset : ℕ) :
    (pool.procs.map AppendProc.allotted).count (some offset) = pool.allotted offset := by
  rw [List.count_eq_countP, List.countP_map]
  refine List.countP_congr fun p _ => ?_
  simp [AppendProc.hasOffset]

/-- Among the offsets from one on each is there once. -/
theorem count_offsets (n offset : ℕ) :
    ((List.range' 1 n).map some).count (some offset) =
      if 1 ≤ offset ∧ offset ≤ n then 1 else 0 := by
  rw [List.count_map_of_injective _ _ (Option.some_injective ℕ),
    List.Nodup.count List.nodup_range']
  simp only [List.mem_range'_1]
  split_ifs <;> omega

/-- Once all appends have returned, offsets with one append each up to the head are those from one
to the number of appends. -/
theorem Allots.distinct {pool : AppendPool} (h : pool.Allots)
    (hreturned : ∀ p ∈ pool.procs, p.isReturned) : pool.Distinct := by
  have hperm : (pool.procs.map AppendProc.allotted).Perm
      ((List.range' 1 pool.shared.seq).map some) := by
    refine List.perm_iff_count.mpr fun offset => ?_
    cases offset with
    | none =>
      have hallotted : none ∉ pool.procs.map AppendProc.allotted := by
        intro hnone
        obtain ⟨p, hp, heq⟩ := List.mem_map.mp hnone
        have hdone := hreturned p hp
        cases p <;> cases heq <;> cases hdone
      rw [List.count_eq_zero.mpr hallotted, List.count_eq_zero.mpr (by simp)]
    | some offset => rw [count_allotted, count_offsets, h.allotted_eq]
  have hseq : pool.shared.seq = pool.procs.length := by simpa using hperm.length_eq.symm
  exact ⟨hseq ▸ hperm, hseq, h.stored⟩

/-- Offsets of one append each do not collide. -/
theorem Distinct.not_collides {pool : AppendPool} (h : pool.Distinct) : ¬ pool.Collides := by
  rintro ⟨offset, htwo⟩
  have hcount := h.offsets_perm.count_eq (some offset)
  rw [count_allotted, count_offsets] at hcount
  split at hcount <;> omega

end AppendPool

/-- Concurrent appends to an empty journal, in any interleaving of their steps, get the offsets
one to their number, each its own, with the head at their number and every entry stored, exactly
when each of them finds the head that it read when it writes the new one. -/
theorem distinct_run_iff {requests : List AppendRequest} {turns : List ℕ} {pool : AppendPool}
    (hrun : runSteps (Pool.step AppendProc.move) (AppendPool.start requests) turns = some pool)
    (hreturned : ∀ p ∈ pool.procs, p.isReturned) :
    pool.Distinct ↔
      AllSteps (Pool.step AppendProc.move) (Pool.OnTurn AppendPool.FindsHead)
        (AppendPool.start requests) turns := by
  constructor
  · intro hdistinct
    exact allSteps_of_unmarked (fun _ _ _ h hstep hok => AppendPool.Allots.step h hstep hok)
      (fun _ _ _ h hstep hbreak => h.collides hstep hbreak) (fun _ _ _ h hstep => h.step hstep)
      (AppendPool.start_allots requests) hrun hdistinct.not_collides
  · intro hok
    exact (invariant_of_allSteps (fun _ _ _ h hstep hok => AppendPool.Allots.step h hstep hok)
      (AppendPool.start_allots requests) hok hrun).distinct hreturned

/-- An event with nothing in it. -/
def plainRequest (id : String) : AppendRequest := ⟨"tick", .empty, none, "", id, none⟩

/-- Two appends, one after the other. -/
theorem distinct_run_iff_sequence : ∃ pool : AppendPool,
    runSteps (Pool.step AppendProc.move)
      (AppendPool.start [plainRequest "a", plainRequest "b"]) [0, 0, 0, 1, 1, 1] = some pool ∧
      pool.Distinct := by
  refine ⟨_, rfl, (@distinct_run_iff [plainRequest "a", plainRequest "b"] [0, 0, 0, 1, 1, 1] _
    rfl ?_).mpr ?_⟩
  · decide
  · decide

/-- Two appends that read the head one after the other and then go on. -/
theorem distinct_run_fails : ¬ ∀ (requests : List AppendRequest) (turns : List ℕ)
    (pool : AppendPool),
    runSteps (Pool.step AppendProc.move) (AppendPool.start requests) turns = some pool →
      (∀ p ∈ pool.procs, p.isReturned) → pool.Distinct := by
  intro h
  have hseq := (h [plainRequest "a", plainRequest "b"] [0, 1, 0, 0, 1, 1] _ rfl (by decide)).seq_eq
  revert hseq
  decide

end PalmEngine.Events
