import PalmEngine.Events.Outbox
import PalmEngine.Lib.Pool

/-!
# Concurrent calls of the outbox

Enqueueing, marking published and marking failed read and write the entry and the index in steps
of their own. A call that writes the index writes what it made of the index it read, so that it
can take out an id that another call has put in since. Marking failed writes the index before
the entry, the other calls after it.

An entry is owed while no call that found it marks it published and fewer than five that found
it mark it failed. As long as each write of the index keeps the ids of owed entries, every
enqueued entry that is owed at the end is stored as pending and is in the index.
-/

namespace PalmEngine.Events

open PalmEngine.Lib

/-- A call of the outbox. -/
inductive OutboxCall where
  | enqueue (event : Event)
  | markPublished (id : String)
  | markFailed (id : String) (error : String)

/-- A call at one of its steps. -/
inductive OutboxProc where
  /-- It has done nothing yet. -/
  | start (call : OutboxCall)
  /-- An enqueue that has stored its entry and is about to read the index. -/
  | enqueueLoad (id : String)
  /-- An enqueue that is about to write the index. -/
  | enqueueIndex (id : String) (index : DistinctList String)
  /-- An enqueue that has returned. -/
  | enqueued (id : String)
  /-- A publication that is about to write the entry. -/
  | publishEntry (e : OutboxEntry)
  /-- A publication that is about to read the index. -/
  | publishLoad (id : String)
  /-- A publication that is about to write the index. -/
  | publishIndex (id : String) (index : DistinctList String)
  /-- A publication that has returned. -/
  | published (id : String)
  /-- A fifth failure that is about to read the index. -/
  | failLoad (e : OutboxEntry)
  /-- A fifth failure that is about to write the index. -/
  | failIndex (e : OutboxEntry) (index : DistinctList String)
  /-- A failure that is about to write the entry. -/
  | failEntry (e : OutboxEntry)
  /-- A failure that has returned. -/
  | failed (id : String)
  /-- A call that has returned because it found no entry. -/
  | missed

namespace OutboxProc

/-- The next step of a call. -/
def move (s : OutboxStore) : OutboxProc → Option (OutboxStore × OutboxProc)
  | start (.enqueue event) => some (s.put (.fromEvent event), enqueueLoad event.id)
  | start (.markPublished id) =>
    match s.entries.get? id with
    | none => some (s, missed)
    | some e => some (s, publishEntry e.publish)
  | start (.markFailed id error) =>
    match s.entries.get? id with
    | none => some (s, missed)
    | some e =>
      let e' := e.fail error
      some (s, if 5 ≤ e'.attempts then failLoad e' else failEntry e')
  | enqueueLoad id =>
    some (s, if id ∈ s.index then enqueued id else enqueueIndex id (s.index.add id))
  | enqueueIndex id index => some (s.setIndex index, enqueued id)
  | publishEntry e => some (s.put e, publishLoad e.id)
  | publishLoad id =>
    some (s, if id ∈ s.index then publishIndex id (s.index.remove id) else published id)
  | publishIndex id index => some (s.setIndex index, published id)
  | failLoad e =>
    some (s, if e.id ∈ s.index then failIndex e (s.index.remove e.id) else failEntry e)
  | failIndex e index => some (s.setIndex index, failEntry e)
  | failEntry e => some (s.put e, failed e.id)
  | enqueued _ | published _ | failed _ | missed => none

/-- The call has returned. -/
def isReturned : OutboxProc → Bool
  | enqueued _ | published _ | failed _ | missed => true
  | _ => false

/-- The call enqueues the entry of an id. -/
def enqueues (id : String) : OutboxProc → Bool
  | start (.enqueue event) => event.id = id
  | enqueueLoad id' | enqueueIndex id' _ | enqueued id' => id' = id
  | _ => false

/-- The call has found the entry of an id and marks it published. -/
def publishes (id : String) : OutboxProc → Bool
  | publishEntry e => e.id = id
  | publishLoad id' | publishIndex id' _ | published id' => id' = id
  | _ => false

/-- The call has found the entry of an id and marks it failed. -/
def fails (id : String) : OutboxProc → Bool
  | failLoad e | failIndex e _ | failEntry e => e.id = id
  | failed id' => id' = id
  | _ => false

/-- The entry that the call is about to store. -/
def held : OutboxProc → Option OutboxEntry
  | start (.enqueue event) => some (.fromEvent event)
  | publishEntry e | failLoad e | failIndex e _ | failEntry e => some e
  | _ => none

/-- The id of the entry that an enqueue has stored. -/
def stored : OutboxProc → Option String
  | enqueueLoad id | enqueueIndex id _ | enqueued id => some id
  | _ => none

/-- The index that the call is about to write. -/
def indexHeld : OutboxProc → Option (DistinctList String)
  | enqueueIndex _ index | publishIndex _ index | failIndex _ index => some index
  | _ => none

variable {s s' : OutboxStore} {p q : OutboxProc} {id : String}

/-- A publication stays one. -/
theorem publishes_move (h : move s p = some (s', q)) (hp : p.publishes id) : q.publishes id := by
  cases p with
  | publishEntry e | publishIndex id' index =>
    cases h
    exact hp
  | publishLoad id' =>
    cases h
    split <;> exact hp
  | start call => cases call <;> cases hp
  | published id' => cases h
  | enqueueLoad id' | enqueueIndex id' index | enqueued id' | failLoad e | failIndex e index
  | failEntry e | failed id' | missed => cases hp

/-- A failure that found its entry stays one. -/
theorem fails_move (h : move s p = some (s', q)) (hp : p.fails id) : q.fails id := by
  cases p with
  | failIndex e index | failEntry e =>
    cases h
    exact hp
  | failLoad e =>
    cases h
    split <;> exact hp
  | start call => cases call <;> cases hp
  | failed id' => cases h
  | enqueueLoad id' | enqueueIndex id' index | enqueued id' | publishLoad id' | publishIndex id' index
  | publishEntry e | published id' | missed => cases hp

end OutboxProc

/-- Concurrent calls on the outbox. -/
abbrev OutboxPool := Pool OutboxStore OutboxProc

namespace OutboxPool

/-- No call has begun, and the outbox is empty. -/
def start (calls : List OutboxCall) : OutboxPool := ⟨.empty, calls.map .start⟩

/-- How many calls that found the entry mark it published. -/
def publishedMarks (pool : OutboxPool) (id : String) : ℕ :=
  pool.procs.countP (OutboxProc.publishes id)

/-- How many calls that found the entry mark it failed. -/
def failedMarks (pool : OutboxPool) (id : String) : ℕ := pool.procs.countP (OutboxProc.fails id)

/-- The entry is not marked published and is marked failed fewer than five times. -/
def Owed (pool : OutboxPool) (id : String) : Prop :=
  pool.publishedMarks id = 0 ∧ pool.failedMarks id < 5

instance (pool : OutboxPool) (id : String) : Decidable (pool.Owed id) :=
  inferInstanceAs (Decidable (_ ∧ _))

/-- Every enqueued entry that is owed is stored as pending and is in the index. -/
def KeepsOwed (pool : OutboxPool) : Prop :=
  ∀ p ∈ pool.procs, ∀ id, p.enqueues id → pool.Owed id →
    (∃ e, pool.shared.entries.get? id = some e ∧ e.status = .pending) ∧ id ∈ pool.shared.index

/-- A call that writes the index keeps the ids in it whose entries are owed. -/
def WritesOwed (pool : OutboxPool) (p : OutboxProc) : Prop :=
  ∀ index ∈ p.indexHeld, ∀ id ∈ pool.shared.index.items, pool.Owed id → id ∈ index

instance (pool : OutboxPool) (p : OutboxProc) : Decidable (pool.WritesOwed p) :=
  match h : p.indexHeld with
  | none => .isTrue (by simp [WritesOwed, h])
  | some index =>
    decidable_of_iff (∀ id ∈ pool.shared.index.items, pool.Owed id → id ∈ index)
      (by simp [WritesOwed, h])

/-- The entry is pending if it is owed, and counts no more attempts than calls mark it failed. -/
structure Covers (pool : OutboxPool) (e : OutboxEntry) : Prop where
  pending : pool.Owed e.id → e.status = .pending
  attempts_le : e.attempts ≤ pool.failedMarks e.id

/-- Entries stored and about to be stored are pending as long as they are owed; what an enqueue
has stored is there; an owed entry is in the index once its enqueue has returned, and in the index
that its enqueue is about to write. -/
structure Sound (pool : OutboxPool) : Prop where
  stored_covers : ∀ id e, pool.shared.entries.get? id = some e → pool.Covers e
  held_covers : ∀ p ∈ pool.procs, ∀ e ∈ p.held, pool.Covers e
  stored_some : ∀ p ∈ pool.procs, ∀ id ∈ p.stored, (pool.shared.entries.get? id).isSome
  enqueued_mem : ∀ id, .enqueued id ∈ pool.procs → pool.Owed id → id ∈ pool.shared.index
  index_mem : ∀ id index, .enqueueIndex id index ∈ pool.procs → id ∈ index

section Turn

variable {pool : OutboxPool} {i : ℕ} {p q : OutboxProc} {s : OutboxStore}

/-- What is owed after a turn was owed before. -/
theorem Owed.of_turn {id : String} (hp : pool.procs[i]? = some p)
    (hmove : p.move pool.shared = some (s, q))
    (h : OutboxPool.Owed ⟨s, pool.procs.set i q⟩ id) : pool.Owed id := by
  have hpublished := Pool.countP_le_set_of_imp (f := (OutboxProc.publishes id ·)) hp
    (OutboxProc.publishes_move hmove)
  have hfailed := Pool.countP_le_set_of_imp (f := (OutboxProc.fails id ·)) hp
    (OutboxProc.fails_move hmove)
  exact ⟨Nat.le_zero.mp (hpublished.trans h.1.le), hfailed.trans_lt h.2⟩

/-- A covered entry stays so. -/
theorem Covers.turn {e : OutboxEntry} (h : pool.Covers e) (hp : pool.procs[i]? = some p)
    (hmove : p.move pool.shared = some (s, q)) :
    OutboxPool.Covers ⟨s, pool.procs.set i q⟩ e where
  pending howed := h.pending (howed.of_turn hp hmove)
  attempts_le := h.attempts_le.trans
    (Pool.countP_le_set_of_imp hp (OutboxProc.fails_move hmove))

/-- What a turn must do to keep the outbox sound: what it stores and is about to store is covered,
it stores what it says, it drops no entry and no id that is owed, and it returns from an enqueue
with the id in the index. -/
theorem Sound.turn (h : pool.Sound) (hp : pool.procs[i]? = some p)
    (hmove : p.move pool.shared = some (s, q))
    (hentries : ∀ id e, s.entries.get? id = some e →
      pool.shared.entries.get? id = some e ∨ p.held = some e)
    (hkept : ∀ id, (pool.shared.entries.get? id).isSome → (s.entries.get? id).isSome)
    (hindex : ∀ id ∈ pool.shared.index, pool.Owed id → id ∈ s.index)
    (hheld : ∀ e ∈ q.held, OutboxPool.Covers ⟨s, pool.procs.set i q⟩ e)
    (hstored : ∀ id ∈ q.stored, (s.entries.get? id).isSome)
    (hreturned : ∀ id, q = .enqueued id → pool.Owed id → id ∈ s.index)
    (hwrites : ∀ id index, q = .enqueueIndex id index → id ∈ index) :
    OutboxPool.Sound ⟨s, pool.procs.set i q⟩ where
  stored_covers id e hget := by
    refine Covers.turn ?_ hp hmove
    rcases hentries id e hget with hold | hheld
    · exact h.stored_covers id e hold
    · exact h.held_covers p (List.mem_of_getElem? hp) e hheld
  held_covers r hr e he := by
    rcases Pool.mem_set_cases hr with rfl | hr
    · exact hheld e he
    · exact (h.held_covers r hr e he).turn hp hmove
  stored_some r hr id hid := by
    rcases Pool.mem_set_cases hr with rfl | hr
    · exact hstored id hid
    · exact hkept id (h.stored_some r hr id hid)
  enqueued_mem id hr howed := by
    have howed' := howed.of_turn hp hmove
    rcases Pool.mem_set_cases hr with heq | hr
    · exact hreturned id heq.symm howed'
    · exact hindex id (h.enqueued_mem id hr howed') howed'
  index_mem id index hr := by
    rcases Pool.mem_set_cases hr with heq | hr
    · exact hwrites id index heq.symm
    · exact h.index_mem id index hr

/-- A turn that only reads keeps the outbox sound. -/
theorem Sound.read (h : pool.Sound) (hp : pool.procs[i]? = some p)
    (hmove : p.move pool.shared = some (pool.shared, q))
    (hheld : ∀ e ∈ q.held, OutboxPool.Covers ⟨pool.shared, pool.procs.set i q⟩ e)
    (hstored : ∀ id ∈ q.stored, (pool.shared.entries.get? id).isSome)
    (hreturned : ∀ id, q = .enqueued id → id ∈ pool.shared.index)
    (hwrites : ∀ id index, q = .enqueueIndex id index → id ∈ index) :
    OutboxPool.Sound ⟨pool.shared, pool.procs.set i q⟩ :=
  h.turn hp hmove (fun _ _ hget => .inl hget) (fun _ hsome => hsome) (fun _ hid _ => hid) hheld
    hstored (fun id hq _ => hreturned id hq) hwrites

/-- A turn that stores the entry that the call holds keeps the outbox sound. -/
theorem Sound.put (h : pool.Sound) (hp : pool.procs[i]? = some p) {e : OutboxEntry}
    (he : p.held = some e) (hmove : p.move pool.shared = some (pool.shared.put e, q))
    (hheld : q.held = none) (hstored : ∀ id ∈ q.stored, id = e.id)
    (hreturned : ∀ id, q ≠ .enqueued id) (hwrites : ∀ id index, q ≠ .enqueueIndex id index) :
    OutboxPool.Sound ⟨pool.shared.put e, pool.procs.set i q⟩ := by
  refine h.turn hp hmove (fun id e' hget => ?_) (fun id hsome => ?_) (fun _ hid _ => hid)
    (fun e' he' => ?_) (fun id hid => ?_) (fun id hq => absurd hq (hreturned id))
    (fun id index hq => absurd hq (hwrites id index))
  · by_cases hid : id = e.id
    · subst hid
      rw [OutboxStore.entries_put, Dict.get?_set_self] at hget
      exact .inr (he.trans hget)
    · rw [OutboxStore.entries_put, Dict.get?_set_ne _ _ hid] at hget
      exact .inl hget
  · by_cases hid : id = e.id
    · simp [hid]
    · rwa [OutboxStore.entries_put, Dict.get?_set_ne _ _ hid]
  · rw [hheld] at he'
    cases he'
  · simp [hstored id hid]

/-- A turn that writes an index which keeps what is owed keeps the outbox sound. -/
theorem Sound.setIndex (h : pool.Sound) (hp : pool.procs[i]? = some p)
    {index : DistinctList String} (hwrite : p.indexHeld = some index) (hok : pool.WritesOwed p)
    (hmove : p.move pool.shared = some (pool.shared.setIndex index, q))
    (hheld : q.held = p.held) (hstored : q.stored = p.stored)
    (hreturned : ∀ id, q = .enqueued id → id ∈ index)
    (hwrites : ∀ id index, q ≠ .enqueueIndex id index) :
    OutboxPool.Sound ⟨pool.shared.setIndex index, pool.procs.set i q⟩ := by
  have hmem := List.mem_of_getElem? hp
  refine h.turn hp hmove (fun _ _ hget => .inl hget) (fun _ hsome => hsome) (hok index hwrite)
    (fun e he => ?_) (fun id hid => ?_) (fun id hq _ => hreturned id hq)
    (fun id index hq => absurd hq (hwrites id index))
  · exact (h.held_covers p hmem e (hheld ▸ he)).turn hp hmove
  · exact h.stored_some p hmem id (hstored ▸ hid)

/-- An entry that a publication found and is about to store is covered. -/
theorem Covers.publish {e : OutboxEntry} (h : pool.Covers e) (hp : pool.procs[i]? = some p)
    (hmove : p.move pool.shared = some (s, q)) (hq : q.publishes e.id) :
    OutboxPool.Covers ⟨s, pool.procs.set i q⟩ e.publish where
  pending howed := absurd howed.1 (Pool.countP_set_pos hp hq).ne'
  attempts_le := (h.turn hp hmove).attempts_le

/-- An entry that a failure found and is about to store is covered. -/
theorem Covers.fail {e : OutboxEntry} (h : pool.Covers e) (error : String)
    (hp : pool.procs[i]? = some p) (hmove : p.move pool.shared = some (s, q))
    (hnot : p.fails e.id = false) (hq : q.fails e.id) :
    OutboxPool.Covers ⟨s, pool.procs.set i q⟩ (e.fail error) := by
  have hcount := Pool.countP_set (q := q) (OutboxProc.fails e.id) hp
  have hle : e.attempts + 1 ≤ OutboxPool.failedMarks ⟨s, pool.procs.set i q⟩ e.id := by
    rw [hnot, hq] at hcount
    have := h.attempts_le
    simp only [failedMarks] at this ⊢
    simp at hcount
    omega
  refine ⟨fun howed => ?_, hle⟩
  have hlast : ¬ 5 ≤ e.attempts + 1 := fun hfive => absurd howed.2 (hfive.trans hle).not_gt
  simp only [OutboxEntry.fail, if_neg hlast]
  exact h.pending (howed.of_turn hp hmove)

end Turn

/-- A turn whose write of the index keeps what is owed keeps the outbox sound. -/
theorem Sound.step {pool pool' : OutboxPool} {i : ℕ} (h : pool.Sound)
    (hstep : pool.step OutboxProc.move i = some pool')
    (hok : Pool.OnTurn WritesOwed pool i pool') : pool'.Sound := by
  obtain ⟨p, s, q, hp, hmove, rfl⟩ := Pool.step_cases hstep
  have hwrites := hok p hp
  have hmem := List.mem_of_getElem? hp
  have hmove' := hmove
  cases p with
  | start call =>
    cases call with
    | enqueue event =>
      cases hmove'
      exact h.put hp rfl hmove rfl (by simp [OutboxProc.stored]) (by rintro _ ⟨⟩) (by rintro _ _ ⟨⟩)
    | markPublished id =>
      cases hget : pool.shared.entries.get? id with
      | none =>
        simp only [OutboxProc.move, hget] at hmove'
        cases hmove'
        exact h.read hp hmove (by rintro _ ⟨⟩) (by rintro _ ⟨⟩) (by rintro _ ⟨⟩) (by rintro _ _ ⟨⟩)
      | some e =>
        simp only [OutboxProc.move, hget] at hmove'
        cases hmove'
        refine h.read hp hmove ?_ (by rintro _ ⟨⟩) (by rintro _ ⟨⟩) (by rintro _ _ ⟨⟩)
        rintro _ ⟨rfl⟩
        exact (h.stored_covers id e hget).publish hp hmove (by simp [OutboxProc.publishes])
    | markFailed id error =>
      cases hget : pool.shared.entries.get? id with
      | none =>
        simp only [OutboxProc.move, hget] at hmove'
        cases hmove'
        exact h.read hp hmove (by rintro _ ⟨⟩) (by rintro _ ⟨⟩) (by rintro _ ⟨⟩) (by rintro _ _ ⟨⟩)
      | some e =>
        simp only [OutboxProc.move, hget] at hmove'
        have hcovers := (h.stored_covers id e hget).fail error hp hmove rfl
        split at hmove' <;> cases hmove'
        · refine h.read hp hmove ?_ (by rintro _ ⟨⟩) (by rintro _ ⟨⟩) (by rintro _ _ ⟨⟩)
          rintro _ ⟨rfl⟩
          exact hcovers (by simp [OutboxProc.fails])
        · refine h.read hp hmove ?_ (by rintro _ ⟨⟩) (by rintro _ ⟨⟩) (by rintro _ _ ⟨⟩)
          rintro _ ⟨rfl⟩
          exact hcovers (by simp [OutboxProc.fails])
  | enqueueLoad id =>
    have hstored := h.stored_some _ hmem id rfl
    simp only [OutboxProc.move] at hmove'
    split at hmove' <;> cases hmove'
    · rename_i hid
      refine h.read hp hmove (by rintro _ ⟨⟩) ?_ ?_ (by rintro _ _ ⟨⟩)
      · rintro _ ⟨rfl⟩
        exact hstored
      · rintro _ ⟨rfl⟩
        exact hid
    · refine h.read hp hmove (by rintro _ ⟨⟩) ?_ (by rintro _ ⟨⟩) ?_
      · rintro _ ⟨rfl⟩
        exact hstored
      · rintro _ _ ⟨rfl, rfl⟩
        simp
  | enqueueIndex id index =>
    cases hmove'
    refine h.setIndex hp rfl hwrites hmove rfl rfl ?_ (by rintro _ _ ⟨⟩)
    rintro _ ⟨rfl⟩
    exact h.index_mem id index hmem
  | publishEntry e =>
    cases hmove'
    exact h.put hp rfl hmove rfl (by rintro _ ⟨⟩) (by rintro _ ⟨⟩) (by rintro _ _ ⟨⟩)
  | publishLoad id =>
    simp only [OutboxProc.move] at hmove'
    split at hmove' <;> cases hmove' <;> exact h.read hp hmove (by rintro _ ⟨⟩) (by rintro _ ⟨⟩)
      (by rintro _ ⟨⟩) (by rintro _ _ ⟨⟩)
  | publishIndex id index =>
    cases hmove'
    exact h.setIndex hp rfl hwrites hmove rfl rfl (by rintro _ ⟨⟩) (by rintro _ _ ⟨⟩)
  | failLoad e =>
    have hcovers := (h.held_covers _ hmem e rfl).turn hp hmove
    simp only [OutboxProc.move] at hmove'
    split at hmove' <;> cases hmove'
    · refine h.read hp hmove ?_ (by rintro _ ⟨⟩) (by rintro _ ⟨⟩) (by rintro _ _ ⟨⟩)
      rintro _ ⟨rfl⟩
      exact hcovers
    · refine h.read hp hmove ?_ (by rintro _ ⟨⟩) (by rintro _ ⟨⟩) (by rintro _ _ ⟨⟩)
      rintro _ ⟨rfl⟩
      exact hcovers
  | failIndex e index =>
    cases hmove'
    exact h.setIndex hp rfl hwrites hmove rfl rfl (by rintro _ ⟨⟩) (by rintro _ _ ⟨⟩)
  | failEntry e =>
    cases hmove'
    exact h.put hp rfl hmove rfl (by rintro _ ⟨⟩) (by rintro _ ⟨⟩) (by rintro _ _ ⟨⟩)
  | enqueued id | published id | failed id | missed => cases hmove'

/-- Nothing is stored or about to be stored at the start but fresh entries. -/
theorem start_sound (calls : List OutboxCall) : (start calls).Sound where
  stored_covers id e hget := nomatch hget
  held_covers p hp e he := by
    obtain ⟨call, -, rfl⟩ := List.mem_map.mp hp
    cases call <;> cases he
    exact ⟨fun _ => rfl, Nat.zero_le _⟩
  stored_some p hp id hid := by
    obtain ⟨call, -, rfl⟩ := List.mem_map.mp hp
    cases hid
  enqueued_mem id hp := by
    obtain ⟨call, -, heq⟩ := List.mem_map.mp hp
    cases heq
  index_mem id index hp := by
    obtain ⟨call, -, heq⟩ := List.mem_map.mp hp
    cases heq

/-- Once all calls have returned, a sound outbox has every owed entry. -/
theorem Sound.keepsOwed {pool : OutboxPool} (h : pool.Sound)
    (hreturned : ∀ p ∈ pool.procs, p.isReturned) : pool.KeepsOwed := by
  intro p hp id hid howed
  have hdone := hreturned p hp
  obtain rfl : p = .enqueued id := by
    cases p <;> cases hdone <;> simp_all [OutboxProc.enqueues]
  obtain ⟨e, hget⟩ := Option.isSome_iff_exists.mp (h.stored_some _ hp id rfl)
  obtain rfl := pool.shared.id_eq id e hget
  exact ⟨⟨e, hget, (h.stored_covers _ e hget).pending howed⟩, h.enqueued_mem _ hp howed⟩

end OutboxPool

/-- Concurrent calls on an empty outbox, in any interleaving of their steps in which every write
of the index keeps the ids in it whose entries are owed, leave every enqueued entry that is not
marked published and is marked failed fewer than five times stored as pending and in the index. -/
theorem keepsOwed_run {calls : List OutboxCall} {turns : List ℕ} {pool : OutboxPool}
    (hrun : runSteps (Pool.step OutboxProc.move) (OutboxPool.start calls) turns = some pool)
    (hok : AllSteps (Pool.step OutboxProc.move) (Pool.OnTurn OutboxPool.WritesOwed)
      (OutboxPool.start calls) turns)
    (hreturned : ∀ p ∈ pool.procs, p.isReturned) : pool.KeepsOwed :=
  (invariant_of_allSteps (fun _ _ _ h hstep hok => OutboxPool.Sound.step h hstep hok)
    (OutboxPool.start_sound calls) hok hrun).keepsOwed hreturned

/-- Two enqueues and a failure, one after the other. -/
theorem keepsOwed_run_sequence : ∃ pool : OutboxPool,
    runSteps (Pool.step OutboxProc.move) (OutboxPool.start
      [.enqueue (.bare "tick" "a"), .enqueue (.bare "tick" "b"), .markFailed "a" "no"])
      [0, 0, 0, 1, 1, 1, 2, 2] = some pool ∧ pool.KeepsOwed := by
  refine ⟨_, rfl, @keepsOwed_run
    [.enqueue (.bare "tick" "a"), .enqueue (.bare "tick" "b"), .markFailed "a" "no"]
    [0, 0, 0, 1, 1, 1, 2, 2] _ rfl ?_ ?_⟩
  · decide
  · decide

/-- Two enqueues that read the index one after the other and then write it. -/
theorem keepsOwed_run_fails : ¬ ∀ (calls : List OutboxCall) (turns : List ℕ) (pool : OutboxPool),
    runSteps (Pool.step OutboxProc.move) (OutboxPool.start calls) turns = some pool →
      (∀ p ∈ pool.procs, p.isReturned) → pool.KeepsOwed := by
  intro h
  have hkeeps := h [.enqueue (.bare "tick" "a"), .enqueue (.bare "tick" "b")] [0, 0, 1, 1, 0, 1] _ rfl
    (by decide) (.enqueued "a") (List.mem_of_getElem? (i := 0) rfl) "a" rfl (by decide)
  have hindex := hkeeps.2
  revert hindex
  decide

end PalmEngine.Events
