import PalmEngine.Work.Intent

/-!
# The work intent store

The durable queue of work intents: entries by id, the pending index in enqueue order and one
pointer for each coalesce key. The three live under disjoint families of storage keys, so
they are three maps here. Every operation runs under the store lock and is one step. Lease
lengths are in microseconds.
-/

namespace PalmEngine.Work

/-- The stored entries, the pending index and the coalesce pointers. -/
structure WorkIntentStore (P : Type) where
  entries : String → Option (WorkIntent P) := fun _ => none
  index : List String := []
  coalesce : String → Option String := fun _ => none

namespace WorkIntentStore

variable {P : Type}

/-- The store over an empty storage. -/
def empty : WorkIntentStore P := {}

/-- Write an entry. -/
def setEntry (s : WorkIntentStore P) (id : String) (entry : WorkIntent P) : WorkIntentStore P :=
  { s with entries := Function.update s.entries id (some entry) }

/-- Write or delete a coalesce pointer. -/
def setPointer (s : WorkIntentStore P) (k : String) (id : Option String) : WorkIntentStore P :=
  { s with coalesce := Function.update s.coalesce k id }

/-- Remove an id from the pending index, if it is there. -/
def removePending (s : WorkIntentStore P) (id : String) : WorkIntentStore P :=
  { s with index := s.index.erase id }

/-- Add an id to the end of the pending index, unless it is there. -/
def addPending (s : WorkIntentStore P) (id : String) : WorkIntentStore P :=
  if id ∈ s.index then s else { s with index := s.index ++ [id] }

/-- The id a coalesce key points at; an empty one does not count. -/
def pointed (s : WorkIntentStore P) (k : String) : Option String :=
  (s.coalesce k).filter (· ≠ "")

/-- An intent as `enqueue` stores it: pending and unclaimed. -/
def released (intent : WorkIntent P) : WorkIntent P :=
  { intent with status := .pending, claimedBy := none, leaseUntil := none }

/-- Store an intent as pending, take the id its coalesce key points at out of the index, and point
the key at the new id. -/
def enqueue (s : WorkIntentStore P) (intent : WorkIntent P) : WorkIntentStore P :=
  match intent.truthyKey with
  | none => (s.setEntry intent.id (released intent)).addPending intent.id
  | some k =>
    let s := match s.pointed k with
      | some existing => s.removePending existing
      | none => s
    ((s.setEntry intent.id (released intent)).addPending intent.id).setPointer k (some intent.id)

/-- The default claimer, and the shortest lease in microseconds. -/
def defaultClaimerId : String := "default"

/-- The arguments of a claim: how many, by whom, when, for how long, and the values `from_dict`
draws for an entry it rebuilds. -/
structure Claim where
  limit : ℤ
  claimerId : String
  now : Instant
  lease : ℤ
  defaults : String → Defaults

/-- The claimer a claim is stamped with. -/
def Claim.claimer (c : Claim) : String :=
  if c.claimerId = "" then defaultClaimerId else c.claimerId

/-- The end of the lease, at least a tenth of a second away. -/
def Claim.leaseUntil (c : Claim) : Timestamp := .iso (c.now + max 100000 c.lease)

/-- An entry stamped as claimed. -/
def Claim.stamp (c : Claim) (id : String) (entry : WorkIntent P) : WorkIntent P :=
  WorkIntent.fromDict (c.defaults id)
    { entry with status := .claimed, claimedBy := some c.claimer, leaseUntil := some c.leaseUntil }

/-- The claim loop over the ids that were in the index when it began. -/
def claimLoop (c : Claim) : WorkIntentStore P → List String → List (WorkIntent P) →
    List (WorkIntent P) × WorkIntentStore P
  | s, [], claimed => (claimed, s)
  | s, id :: rest, claimed =>
    if c.limit ≤ claimed.length then (claimed, s)
    else match s.entries id with
      | none => claimLoop c (s.removePending id) rest claimed
      | some entry =>
        -- The entry is read a second time, under the same lock.
        if entry.status = .pending ∧ entry.isDue c.now then
          claimLoop c (s.setEntry id (c.stamp id entry)) rest (claimed ++ [c.stamp id entry])
        else claimLoop c s rest claimed

/-- Claim due pending intents in index order, up to the limit. -/
def claimDue (s : WorkIntentStore P) (c : Claim) : List (WorkIntent P) × WorkIntentStore P :=
  claimLoop c s s.index []

/-- The reclaim loop over the ids that were in the index when it began. -/
def reclaimLoop (now : Instant) (defaults : String → Defaults) :
    WorkIntentStore P → List String → ℕ → ℕ × WorkIntentStore P
  | s, [], n => (n, s)
  | s, id :: rest, n =>
    match s.entries id with
    | none => reclaimLoop now defaults (s.removePending id) rest n
    | some entry =>
      if entry.leaseExpired now then
        reclaimLoop now defaults (s.setEntry id (released (entry.fromDict (defaults id)))) rest (n + 1)
      else reclaimLoop now defaults s rest n

/-- Return expired claims to pending. -/
def reclaimExpired (s : WorkIntentStore P) (now : Instant) (defaults : String → Defaults) :
    ℕ × WorkIntentStore P :=
  reclaimLoop now defaults s s.index 0

/-- The check of `ack` and `fail`: a claimer is refused when the entry is claimed by another. -/
def refuses (entry : WorkIntent P) (claimerId : Option String) : Bool :=
  match claimerId, entry.claimedBy with
  | some c, some owner => owner ≠ c
  | _, _ => false

/-- Mark an intent done, and drop the coalesce pointer that still names it. -/
def ack (s : WorkIntentStore P) (id : String) (claimerId : Option String) :
    Bool × WorkIntentStore P :=
  match s.entries id with
  | none => (false, s.removePending id)
  | some entry =>
    if refuses entry claimerId then (false, s)
    else
      let s := s.setEntry id { entry with status := .done, claimedBy := none, leaseUntil := none }
      let s := match entry.truthyKey with
        | some k => if s.coalesce k = some id then s.setPointer k none else s
        | none => s
      (true, s.removePending id)

/-- An entry after one more failure. -/
def failedOnce (entry : WorkIntent P) (error : String) (status : IntentStatus) : WorkIntent P :=
  { entry with
    attempt := entry.attempt + 1
    lastError := some error
    status := status
    claimedBy := none
    leaseUntil := none }

/-- Record a failure: the fifth is terminal, an earlier one makes the intent pending again. -/
def fail (s : WorkIntentStore P) (id error : String) (claimerId : Option String) :
    Bool × WorkIntentStore P :=
  match s.entries id with
  | none => (false, s.removePending id)
  | some entry =>
    if refuses entry claimerId then (false, s)
    else if 5 ≤ entry.attempt + 1 then
      (true, (s.setEntry id (failedOnce entry error .failed)).removePending id)
    else (true, s.setEntry id (failedOnce entry error .pending))

/-- Adding to the index leaves the entries and the pointers. -/
private theorem addPending_frame (s : WorkIntentStore P) (id : String) :
    (s.addPending id).entries = s.entries ∧ (s.addPending id).coalesce = s.coalesce := by
  unfold addPending
  split <;> exact ⟨rfl, rfl⟩

/-- An enqueue stores its intent, released, and no other entry. -/
theorem enqueue_entries (s : WorkIntentStore P) (intent : WorkIntent P) :
    (s.enqueue intent).entries = Function.update s.entries intent.id (some (released intent)) := by
  unfold enqueue
  split
  · rw [(addPending_frame _ _).1]
    rfl
  · dsimp only [setPointer]
    rw [(addPending_frame _ _).1]
    split <;> rfl

/-- What the claim and reclaim loops do: entries of one status may move to another one, asking for
the same work, and ids without an entry may leave the index. -/
structure Relabels (old new : IntentStatus) (s u : WorkIntentStore P) : Prop where
  coalesce : u.coalesce = s.coalesce
  index : u.index.Sublist s.index
  stays : ∀ id ∈ s.index, s.entries id ≠ none → id ∈ u.index
  entry : ∀ id, u.entries id = s.entries id ∨ ∃ e e', s.entries id = some e ∧ e.status = old ∧
    u.entries id = some e' ∧ e'.status = new ∧ e'.Stamped ∧ e.SameRequest e'

theorem Relabels.refl (old new : IntentStatus) (s : WorkIntentStore P) : Relabels old new s s :=
  ⟨rfl, List.Sublist.refl _, fun _ h _ => h, fun _ => .inl rfl⟩

/-- Relabelling twice relabels: what moved to the new status does not move again. -/
theorem Relabels.trans {old new : IntentStatus} (hne : old ≠ new) {s t u : WorkIntentStore P}
    (h : Relabels old new s t) (h' : Relabels old new t u) : Relabels old new s u := by
  refine ⟨h'.coalesce.trans h.coalesce, h'.index.trans h.index, fun id hid hsome => ?_, fun id => ?_⟩
  · refine h'.stays id (h.stays id hid hsome) ?_
    rcases h.entry id with heq | ⟨e, e', -, -, he', -⟩
    · rwa [heq]
    · simp [he']
  · rcases h.entry id with heq | ⟨e, e', he, hold, he', hnew, hstamped, hkey⟩
    · simpa only [heq] using h'.entry id
    · rcases h'.entry id with heq' | ⟨f, f', hf, hfold, -⟩
      · exact .inr ⟨e, e', he, hold, heq'.trans he', hnew, hstamped, hkey⟩
      · cases Option.some.inj (he'.symm.trans hf)
        exact (hne (hfold.symm.trans hnew)).elim

/-- Dropping an id without an entry relabels nothing. -/
private theorem relabels_removePending {old new : IntentStatus} {s : WorkIntentStore P} {id : String}
    (h : s.entries id = none) : Relabels old new s (s.removePending id) := by
  refine ⟨rfl, List.erase_sublist, fun i hi hsome => ?_, fun _ => .inl rfl⟩
  have hne : i ≠ id := by
    rintro rfl
    exact hsome h
  exact (List.mem_erase_of_ne hne).mpr hi

/-- Writing one entry of the old status in the new one relabels. -/
private theorem relabels_setEntry {old new : IntentStatus} {s : WorkIntentStore P} {id : String}
    {e e' : WorkIntent P} (he : s.entries id = some e) (hold : e.status = old)
    (hnew : e'.status = new) (hstamped : e'.Stamped) (hsame : e.SameRequest e') :
    Relabels old new s (s.setEntry id e') := by
  refine ⟨rfl, List.Sublist.refl _, fun _ h _ => h, fun i => ?_⟩
  by_cases hi : i = id
  · subst hi
    exact .inr ⟨e, e', he, hold, by simp [setEntry], hnew, hstamped, hsame⟩
  · exact .inl (by simp [setEntry, hi])

/-- A claim moves pending entries to claimed. -/
theorem claimLoop_relabels (c : Claim) (s : WorkIntentStore P) (ids : List String)
    (claimed : List (WorkIntent P)) :
    Relabels .pending .claimed s (claimLoop c s ids claimed).2 := by
  induction ids generalizing s claimed with
  | nil => exact .refl _ _ s
  | cons id rest ih =>
    unfold claimLoop
    split
    · exact .refl _ _ s
    · split
      · exact .trans (by decide) (relabels_removePending ‹_›) (ih _ _)
      · rename_i entry hentry
        split
        · rename_i hcond
          have hstamped : (c.stamp id entry).Stamped :=
            ⟨fun _ => Option.some_ne_none _, fun hne => (hne rfl).elim⟩
          exact .trans (by decide : IntentStatus.pending ≠ .claimed)
            (relabels_setEntry hentry hcond.1 rfl hstamped ⟨rfl, rfl, rfl⟩) (ih _ _)
        · exact ih s claimed

/-- Every intent a claim returns asks for the work of a stored entry. -/
theorem claimLoop_claimed (c : Claim) (s : WorkIntentStore P) (ids : List String)
    (claimed : List (WorkIntent P)) :
    ∀ intent ∈ (claimLoop c s ids claimed).1, intent ∈ claimed ∨
      ∃ id e, s.entries id = some e ∧ e.SameRequest intent := by
  induction ids generalizing s claimed with
  | nil => exact fun _ h => .inl h
  | cons id rest ih =>
    unfold claimLoop
    split
    · exact fun _ h => .inl h
    · split
      · exact ih _ _
      · rename_i entry hentry
        split
        · intro intent hintent
          rcases ih _ _ intent hintent with hmem | ⟨i, e, he, hsame⟩
          · rcases List.mem_append.mp hmem with hold | hnew
            · exact .inl hold
            · cases List.mem_singleton.mp hnew
              exact .inr ⟨id, entry, hentry, rfl, rfl, rfl⟩
          · by_cases hi : i = id
            · subst hi
              cases (Function.update_self i _ s.entries).symm.trans he
              have hstamp : entry.SameRequest (c.stamp i entry) := ⟨rfl, rfl, rfl⟩
              exact .inr ⟨i, entry, hentry, hstamp.trans hsame⟩
            · exact .inr ⟨i, e, (Function.update_of_ne hi _ s.entries).symm.trans he, hsame⟩
        · exact ih s claimed

/-- A reclaim moves claimed entries back to pending. -/
theorem reclaimLoop_relabels (now : Instant) (defaults : String → Defaults)
    (s : WorkIntentStore P) (ids : List String) (n : ℕ) :
    Relabels .claimed .pending s (reclaimLoop now defaults s ids n).2 := by
  induction ids generalizing s n with
  | nil => exact .refl _ _ s
  | cons id rest ih =>
    unfold reclaimLoop
    split
    · exact .trans (by decide) (relabels_removePending ‹_›) (ih _ _)
    · rename_i entry hentry
      split
      · rename_i hexpired
        have hstatus : entry.status = .claimed := by
          simp only [WorkIntent.leaseExpired, Bool.and_eq_true, decide_eq_true_eq] at hexpired
          exact hexpired.1
        have hstamped : (released (entry.fromDict (defaults id))).Stamped :=
          ⟨fun hclaimed => (nomatch hclaimed), fun _ => ⟨rfl, rfl⟩⟩
        exact .trans (by decide : IntentStatus.claimed ≠ .pending)
          (relabels_setEntry hentry hstatus rfl hstamped ⟨rfl, rfl, rfl⟩) (ih _ _)
      · exact ih s n

end WorkIntentStore

/-- One call into the store. -/
inductive StoreOp (P : Type) where
  | enqueue (intent : WorkIntent P)
  | claimDue (c : WorkIntentStore.Claim)
  | reclaimExpired (now : Instant) (defaults : String → Defaults)
  | ack (id : String) (claimerId : Option String)
  | fail (id error : String) (claimerId : Option String)

/-- The store after a call. -/
def WorkIntentStore.step {P : Type} (s : WorkIntentStore P) :
    StoreOp P → Option (WorkIntentStore P)
  | .enqueue intent => some (s.enqueue intent)
  | .claimDue c => some (s.claimDue c).2
  | .reclaimExpired now defaults => some (s.reclaimExpired now defaults).2
  | .ack id claimerId => some (s.ack id claimerId).2
  | .fail id error claimerId => some (s.fail id error claimerId).2

end PalmEngine.Work
