import PalmEngine.Persistence.InstanceStore

/-!
# Concurrent calls of the instance store

The calls of the manager can come between the steps of one another. A call writes the index it has
made of the one it has read, puts objects into caches that it was given or made earlier, and can so
undo what another call has done since.

As long as no call does that, every saved instance is in the index, no deleted one is found or
listed, and all callers share the object of an instance. A saved instance is one with a saving that
no deletion overlaps or follows, a deleted one has a deletion that no saving overlaps or follows.
-/

namespace PalmEngine.Persistence

open PalmEngine.Lib

namespace InstanceMark

/-- The beginning of a saving of an instance. -/
def savingOf (i : String) : InstanceMark → Bool
  | saving i' => i' = i
  | _ => false

/-- The end of a saving of an instance. -/
def savedOf (i : String) : InstanceMark → Bool
  | saved i' _ => i' = i
  | _ => false

/-- The beginning of a deletion of an instance. -/
def deletingOf (i : String) : InstanceMark → Bool
  | deleting i' => i' = i
  | _ => false

/-- The end of a deletion of an instance. -/
def deletedOf (i : String) : InstanceMark → Bool
  | deleted i' _ => i' = i
  | _ => false

/-- The length of the history at the beginning of what has ended. -/
def since : InstanceMark → ℕ
  | saved _ n | deleted _ n => n
  | _ => 0

end InstanceMark

section History

/-- What begins and ends was not in progress at a length of the history and has not begun since. -/
def Quiet (begins ends : InstanceMark → Bool) (log : List InstanceMark) (since : ℕ) : Prop :=
  (log.take since).countP begins = (log.take since).countP ends ∧ (log.drop since).countP begins = 0

/-- A saving of an instance has ended that no deletion overlaps or follows. -/
def SavedLast (log : List InstanceMark) (i : String) : Prop :=
  ∃ since, .saved i since ∈ log ∧ Quiet (InstanceMark.deletingOf i) (InstanceMark.deletedOf i) log since

/-- A deletion of an instance has ended that no saving overlaps or follows. -/
def DeletedLast (log : List InstanceMark) (i : String) : Prop :=
  ∃ since, .deleted i since ∈ log ∧ Quiet (InstanceMark.savingOf i) (InstanceMark.savedOf i) log since

variable {begins ends : InstanceMark → Bool} {log : List InstanceMark} {since : ℕ}

instance : Decidable (Quiet begins ends log since) := inferInstanceAs (Decidable (_ ∧ _))

/-- It stays so as long as nothing begins. -/
theorem quiet_append (hsince : since ≤ log.length) (m : InstanceMark) :
    Quiet begins ends (log ++ [m]) since ↔ Quiet begins ends log since ∧ begins m = false := by
  rw [Quiet, Quiet, List.take_append_of_le_length hsince, List.drop_append_of_le_length hsince,
    List.countP_append, List.countP_singleton]
  cases begins m <;> simp

/-- If as many have begun as have ended, then it is so from now on. -/
theorem quiet_length (h : log.countP begins = log.countP ends) :
    Quiet begins ends log log.length := by
  simp [Quiet, h]

/-- If it is so, then nothing is in progress. -/
theorem Quiet.eq_zero (h : Quiet begins ends log since) {active : ℕ}
    (hcount : log.countP begins = log.countP ends + active) : active = 0 := by
  obtain ⟨hbefore, hafter⟩ := h
  have hsplit : ∀ p : InstanceMark → Bool,
      log.countP p = (log.take since).countP p + (log.drop since).countP p := by
    intro p
    rw [← List.countP_append, List.take_append_drop]
  have hbegins := hsplit begins
  have hends := hsplit ends
  omega

end History

/-- Concurrent calls on an instance store. -/
abbrev InstancePool (ρ : Type) := Pool (InstanceStore ρ) (InstanceProc ρ)

variable {ρ : Type}

namespace InstanceStore

/-- An instance is among those that are listed. -/
def Listed (s : InstanceStore ρ) (i : String) : Prop := (s.cache.get? i).isSome ∨ i ∈ s.ids

end InstanceStore

namespace InstancePool

/-- A store that is just opened on a storage, and calls that have not begun. Some objects may be
there for the callers to save. -/
def start (records : Dict String ρ) (index : Option (List String)) (objects : List (String × ρ))
    (calls : List (InstanceCall ρ)) : InstancePool ρ :=
  ⟨⟨records, index, objects, .empty, .empty, [], [], []⟩, calls.map .start⟩

/-- The index to be written has the other ids that are in the stored one. -/
def WritesOthers (s : InstanceStore ρ) (i : String) (ids : List String) : Prop :=
  ∀ j, j ≠ i → (j ∈ ids ↔ j ∈ s.ids)

/-- The step of a call undoes nothing: it writes an index that is up to date but for its own
instance, caches a loaded object only for a stored instance that is not being deleted and has none,
saves no object next to another one, and hands an object out, or puts it into the cache of the
manager, only while the repository has it in its cache. -/
def UndoesNothing (pool : InstancePool ρ) : InstanceProc ρ → Prop
  | .start (.get i) => ∀ o ∈ pool.shared.managerCache.get? i, pool.shared.cache.get? i = some o
  | .start (.create i _) => pool.shared.cache.get? i = none
  | .start (.save o) => ∀ object ∈ pool.shared.objects[o]?,
      ∀ o' ∈ pool.shared.cache.get? object.1, o' = o
  | .put i _ _ => pool.shared.cache.get? i = none ∧ (pool.shared.records.get? i).isSome ∧
      pool.procs.countP (InstanceProc.deletes i) = 0
  | .cacheObject i o => pool.shared.cache.get? i = some o
  | .writeIndex i _ ids _ _ => WritesOthers pool.shared i ids
  | .writeDrop i ids _ => WritesOthers pool.shared i ids
  | .cachePut i o _ _ => pool.shared.cache.get? i = some o
  | _ => True

end InstancePool

instance (s : InstanceStore ρ) (i : String) (ids : List String) :
    Decidable (InstancePool.WritesOthers s i ids) :=
  decidable_of_iff (∀ j ∈ ids ++ s.ids, j ≠ i → (j ∈ ids ↔ j ∈ s.ids)) <| by
    refine ⟨fun h j hj => ?_, fun h j _ => h j⟩
    by_cases hmem : j ∈ ids ++ s.ids
    · exact h j hmem hj
    · simp only [List.mem_append, not_or] at hmem
      simp [hmem]

instance (pool : InstancePool ρ) : (p : InstanceProc ρ) → Decidable (pool.UndoesNothing p)
  | .start (.get i) => inferInstanceAs
      (Decidable (∀ o ∈ pool.shared.managerCache.get? i, pool.shared.cache.get? i = some o))
  | .start (.create i _) => inferInstanceAs (Decidable (pool.shared.cache.get? i = none))
  | .start (.save o) => inferInstanceAs (Decidable (∀ object ∈ pool.shared.objects[o]?,
      ∀ o' ∈ pool.shared.cache.get? object.1, o' = o))
  | .put i _ _ => inferInstanceAs (Decidable (pool.shared.cache.get? i = none ∧
      (pool.shared.records.get? i).isSome ∧ pool.procs.countP (InstanceProc.deletes i) = 0))
  | .cacheObject i o => inferInstanceAs (Decidable (pool.shared.cache.get? i = some o))
  | .writeIndex i _ ids _ _ => inferInstanceAs
      (Decidable (InstancePool.WritesOthers pool.shared i ids))
  | .writeDrop i ids _ => inferInstanceAs (Decidable (InstancePool.WritesOthers pool.shared i ids))
  | .cachePut i o _ _ => inferInstanceAs (Decidable (pool.shared.cache.get? i = some o))
  | .start (.update _ _) | .start (.delete _) | .lookup _ _ | .load _ _ | .change _ _ _
  | .storeRecord _ _ _ _ | .readIndex _ _ _ _ | .dropRecord _ _ | .readDrop _ _
  | .dropObject _ _ | .returned _ => .isTrue trivial

/-- A call has returned or raised. -/
def InstanceProc.isReturned : InstanceProc ρ → Bool
  | .returned _ => true
  | _ => false

namespace InstanceProc

variable {limits : InstanceLimits ρ} {s s' : InstanceStore ρ} {p q : InstanceProc ρ}

/-- The length of the history at the beginning of the saving or the deletion that a call is at. -/
def since : InstanceProc ρ → ℕ
  | storeRecord _ _ _ n | readIndex _ _ _ n | writeIndex _ _ _ _ n => n
  | cachePut _ _ _ n => n.getD 0
  | dropRecord _ n | readDrop _ n | writeDrop _ _ n | dropObject _ n => n
  | _ => 0

/-- A step that only changes the cache of the manager and what is active. -/
structure SameButManager (s s' : InstanceStore ρ) : Prop where
  index : s'.index = s.index
  records : s'.records = s.records
  cache : s'.cache = s.cache
  held : s'.held = s.held
  log : s'.log = s.log

/-- The last step of a get or of a saving changes only these. -/
theorem finish_same (limits : InstanceLimits ρ) (s : InstanceStore ρ) (i : String) (o : ℕ)
    (use : InstanceUse) : SameButManager s (finish limits s i o use).1 := by
  cases use with
  | get => exact ⟨rfl, rfl, rfl, rfl, rfl⟩
  | save => exact ⟨rfl, rfl, rfl, rfl, rfl⟩
  | create =>
    simp only [finish]
    split <;> exact ⟨rfl, rfl, rfl, rfl, rfl⟩
  | update =>
    simp only [finish, InstanceStore.afterUpdate]
    split
    · exact ⟨rfl, rfl, rfl, rfl, rfl⟩
    · split <;> exact ⟨rfl, rfl, rfl, rfl, rfl⟩

/-- It returns. -/
theorem finish_returned (limits : InstanceLimits ρ) (s : InstanceStore ρ) (i : String) (o : ℕ)
    (use : InstanceUse) : ∃ out, (finish limits s i o use).2 = .returned out := by
  cases use with
  | get => exact ⟨_, rfl⟩
  | save => exact ⟨_, rfl⟩
  | create =>
    simp only [finish]
    split <;> exact ⟨_, rfl⟩
  | update => exact ⟨_, rfl⟩

/-- The steps of the calls. -/
inductive Moved (limits : InstanceLimits ρ) (s : InstanceStore ρ) :
    InstanceProc ρ → InstanceStore ρ → InstanceProc ρ → Prop
  | hit {i : String} {o : ℕ} (h : s.managerCache.get? i = some o) : Moved limits s (.start (.get i))
    { s.hold i o with managerCache := (s.managerCache.erase i).set i o } (.returned (some o))
  | miss {i : String} : Moved limits s (.start (.get i)) s (.lookup i none)
  | create {i : String} {content : ρ} : Moved limits s (.start (.create i content))
    (beginSave (s.newObject i content) i s.objects.length .create).1
    (beginSave (s.newObject i content) i s.objects.length .create).2
  | update {i : String} {f : ρ → ρ} : Moved limits s (.start (.update i f)) s (.lookup i (some f))
  | save {o : ℕ} {object : String × ρ} (h : s.objects[o]? = some object) :
    Moved limits s (.start (.save o)) (beginSave s object.1 o .save).1 (beginSave s object.1 o .save).2
  | delete {i : String} : Moved limits s (.start (.delete i)) (({ s with
      cache := s.cache.erase i, held := s.held.filter (·.1 ≠ i) } : InstanceStore ρ).mark (.deleting i))
    (.dropRecord i s.log.length)
  | found {i : String} {o : ℕ} {f : Option (ρ → ρ)} (h : s.cache.get? i = some o) :
    Moved limits s (.lookup i f) (s.hold i o) (found i o f)
  | unfound {i : String} {f : Option (ρ → ρ)} : Moved limits s (.lookup i f) s (.load i f)
  | loaded {i : String} {content : ρ} {f : Option (ρ → ρ)} :
    Moved limits s (.load i f) s (.put i content f)
  | unloaded {i : String} {f : Option (ρ → ρ)} : Moved limits s (.load i f) s (.returned none)
  | put {i : String} {content : ρ} {f : Option (ρ → ρ)} : Moved limits s (.put i content f)
    (((s.newObject i content).cacheSet i s.objects.length).hold i s.objects.length)
    (found i s.objects.length f)
  | change {i : String} {o : ℕ} {f : ρ → ρ} : Moved limits s (.change i o f)
    { s with objects := s.objects.modify o (Prod.map id f) } (.cacheObject i o)
  | cacheObject {i : String} {o : ℕ} : Moved limits s (.cacheObject i o) (beginSave s i o .update).1
    (beginSave s i o .update).2
  | storeRecord {i : String} {o : ℕ} {use : InstanceUse} {n : ℕ} :
    Moved limits s (.storeRecord i o use n)
      { s with records := s.records.setSome i ((s.objects[o]?).map Prod.snd) } (.readIndex i o use n)
  | indexed {i : String} {o : ℕ} {use : InstanceUse} {n : ℕ} (h : i ∈ s.ids) :
    Moved limits s (.readIndex i o use n) s (.cachePut i o use (some n))
  | unindexed {i : String} {o : ℕ} {use : InstanceUse} {n : ℕ} :
    Moved limits s (.readIndex i o use n) s (.writeIndex i o s.ids use n)
  | writeIndex {i : String} {o : ℕ} {ids : List String} {use : InstanceUse} {n : ℕ} :
    Moved limits s (.writeIndex i o ids use n) (s.setIndex (ids ++ [i])) (.cachePut i o use (some n))
  | cachePut {i : String} {o : ℕ} {use : InstanceUse} {out : Option ℕ}
    (h : (finish limits s i o use).2 = .returned out) :
    Moved limits s (.cachePut i o use none) (finish limits s i o use).1 (.returned out)
  | cachePutSaved {i : String} {o : ℕ} {use : InstanceUse} {n : ℕ} {out : Option ℕ}
    (h : (finish limits s i o use).2 = .returned out) :
    Moved limits s (.cachePut i o use (some n)) ((finish limits s i o use).1.mark (.saved i n))
      (.returned out)
  | dropRecord {i : String} {n : ℕ} : Moved limits s (.dropRecord i n)
    { s with records := s.records.erase i } (.readDrop i n)
  | readDrop {i : String} {ids : List String} {n : ℕ} :
    Moved limits s (.readDrop i n) s (.writeDrop i ids n)
  | noIndex {i : String} {n : ℕ} (h : s.ids = []) : Moved limits s (.readDrop i n) s (.dropObject i n)
  | writeDrop {i : String} {ids : List String} {n : ℕ} :
    Moved limits s (.writeDrop i ids n) (s.setIndex (ids.filter (· ≠ i))) (.dropObject i n)
  | dropObject {i : String} {n : ℕ} : Moved limits s (.dropObject i n)
    ((({ s with managerCache := s.managerCache.erase i } : InstanceStore ρ).releaseActive i).mark
      (.deleted i n)) (.returned none)

/-- A step is one of these. -/
theorem moved_of_move (h : move limits s p = some (s', q)) : Moved limits s p s' q := by
  cases p with
  | start call =>
    cases call with
    | get i =>
      simp only [move] at h
      split at h
      · next o ho =>
        cases h
        exact .hit ho
      · cases h
        exact .miss
    | create i content => cases h; exact .create
    | update i f => cases h; exact .update
    | save o =>
      obtain ⟨object, hobject, hsave⟩ := Option.map_eq_some_iff.mp h
      cases hsave
      exact .save hobject
    | delete i => cases h; exact .delete
  | lookup i f =>
    simp only [move] at h
    split at h
    · next o ho =>
      cases h
      exact .found ho
    · cases h
      exact .unfound
  | load i f =>
    simp only [move] at h
    split at h
    · cases h
      exact .loaded
    · cases h
      exact .unloaded
  | put i content f => cases h; exact .put
  | change i o f => cases h; exact .change
  | cacheObject i o => cases h; exact .cacheObject
  | storeRecord i o use n => cases h; exact .storeRecord
  | readIndex i o use n =>
    cases h
    split
    · next hmem => exact .indexed hmem
    · exact .unindexed
  | writeIndex i o ids use n => cases h; exact .writeIndex
  | cachePut i o use n =>
    obtain ⟨out, hout⟩ := finish_returned limits s i o use
    simp only [move, hout] at h
    cases n with
    | none => cases h; exact .cachePut hout
    | some n => cases h; exact .cachePutSaved hout
  | dropRecord i n => cases h; exact .dropRecord
  | readDrop i n =>
    cases h
    cases hindex : s.index with
    | none => exact .noIndex (by rw [InstanceStore.ids, hindex]; rfl)
    | some ids => exact .readDrop
  | writeDrop i ids n => cases h; exact .writeDrop
  | dropObject i n => cases h; exact .dropObject
  | returned o => cases h

/-- A call that has found its object saves and deletes nothing. -/
@[simp] theorem saves_found (i j : String) (o : ℕ) (f : Option (ρ → ρ)) :
    (found i o f).saves j = false := by
  cases f <;> rfl

@[simp] theorem deletes_found (i j : String) (o : ℕ) (f : Option (ρ → ρ)) :
    (found i o f).deletes j = false := by
  cases f <;> rfl

@[simp] theorem since_found (i : String) (o : ℕ) (f : Option (ρ → ρ)) : (found i o f).since = 0 := by
  cases f <;> rfl

section Finish

variable (limits : InstanceLimits ρ) (s : InstanceStore ρ) (i : String) (o : ℕ) (use : InstanceUse)

@[simp] theorem finish_index : (finish limits s i o use).1.index = s.index :=
  (finish_same limits s i o use).index

@[simp] theorem finish_records : (finish limits s i o use).1.records = s.records :=
  (finish_same limits s i o use).records

@[simp] theorem finish_cache : (finish limits s i o use).1.cache = s.cache :=
  (finish_same limits s i o use).cache

@[simp] theorem finish_held : (finish limits s i o use).1.held = s.held :=
  (finish_same limits s i o use).held

@[simp] theorem finish_log : (finish limits s i o use).1.log = s.log :=
  (finish_same limits s i o use).log

end Finish

/-- A saving is in progress from its beginning to its end. -/
theorem Moved.savings (h : Moved limits s p s' q) (i : String) :
    s'.log.countP (InstanceMark.savingOf i) + s.log.countP (InstanceMark.savedOf i) +
        (if p.saves i then 1 else 0) =
      s.log.countP (InstanceMark.savingOf i) + s'.log.countP (InstanceMark.savedOf i) +
        if q.saves i then 1 else 0 := by
  cases h
  case found | put =>
    rw [saves_found]
    rfl
  all_goals
    simp [saves, beginSave, InstanceStore.hold, InstanceStore.mark, InstanceStore.cacheSet,
      InstanceStore.newObject, InstanceStore.setIndex, InstanceStore.releaseActive,
      List.countP_append, InstanceMark.savingOf, InstanceMark.savedOf] <;> omega

/-- A deletion is in progress from its beginning to its end. -/
theorem Moved.deletions (h : Moved limits s p s' q) (i : String) :
    s'.log.countP (InstanceMark.deletingOf i) + s.log.countP (InstanceMark.deletedOf i) +
        (if p.deletes i then 1 else 0) =
      s.log.countP (InstanceMark.deletingOf i) + s'.log.countP (InstanceMark.deletedOf i) +
        if q.deletes i then 1 else 0 := by
  cases h
  case found | put =>
    rw [deletes_found]
    rfl
  all_goals
    simp [deletes, beginSave, InstanceStore.hold, InstanceStore.mark, InstanceStore.cacheSet,
      InstanceStore.newObject, InstanceStore.setIndex, InstanceStore.releaseActive,
      List.countP_append, InstanceMark.deletingOf, InstanceMark.deletedOf] <;> omega

/-- A step adds at most one mark to the history. -/
theorem Moved.log_cases (h : Moved limits s p s' q) :
    s'.log = s.log ∨ ∃ m, s'.log = s.log ++ [m] ∧ m.since ≤ p.since := by
  cases h
  case create | save | delete | cacheObject => exact Or.inr ⟨_, rfl, Nat.zero_le _⟩
  case cachePut => exact Or.inl (finish_log _ _ _ _ _)
  case cachePutSaved =>
    exact Or.inr ⟨_, congrArg (· ++ _) (finish_log _ _ _ _ _), le_rfl⟩
  case dropObject => exact Or.inr ⟨_, rfl, le_rfl⟩
  all_goals exact Or.inl rfl

/-- A call knows no length of the history that it has not reached. -/
theorem Moved.since_le (h : Moved limits s p s' q) (hp : p.since ≤ s.log.length) :
    q.since ≤ s'.log.length := by
  have hgrows : s.log.length ≤ s'.log.length := by
    rcases h.log_cases with hlog | ⟨m, hlog, -⟩ <;> rw [hlog]
    simp
  have hsince : q.since = p.since ∨ q.since = 0 ∨ q.since = s.log.length := by
    cases h
    case found | put => exact Or.inr (Or.inl (since_found _ _ _))
    all_goals simp [since, beginSave, InstanceStore.newObject]
  omega

/-- The index is kept up but for the instance that a call saves or deletes. -/
theorem Moved.mem_ids_iff (h : Moved limits s p s' q) {i : String} (hsaves : p.saves i = false)
    (hdeletes : p.deletes i = false) {pool : InstancePool ρ} (hpool : pool.shared = s)
    (hok : pool.UndoesNothing p) : i ∈ s'.ids ↔ i ∈ s.ids := by
  subst hpool
  cases h
  case writeIndex i' o ids use n =>
    have hne : i ≠ i' := fun heq => by simp [saves, heq] at hsaves
    simpa [InstanceStore.ids, InstanceStore.setIndex, hne] using hok i hne
  case writeDrop i' ids n =>
    have hne : i ≠ i' := fun heq => by simp [deletes, heq] at hdeletes
    simpa [InstanceStore.ids, InstanceStore.setIndex, hne] using hok i hne
  case cachePut i' o use out hout => rw [InstanceStore.ids, finish_index, InstanceStore.ids]
  case cachePutSaved i' o use n out hout =>
    simp only [InstanceStore.ids, InstanceStore.mark, finish_index]
  all_goals rfl

/-- A saving does not take its instance out of the index. -/
theorem Moved.mem_ids_of_saves (h : Moved limits s p s' q) {i : String} (hsaves : p.saves i = true)
    (hi : i ∈ s.ids) : i ∈ s'.ids := by
  cases h
  case writeIndex i' o ids use n =>
    obtain rfl : i' = i := by simpa [saves] using hsaves
    simp [InstanceStore.ids, InstanceStore.setIndex]
  case cachePut i' o use out hout => simpa only [InstanceStore.ids, finish_index] using hi
  case cachePutSaved i' o use n out hout =>
    simpa only [InstanceStore.ids, InstanceStore.mark, finish_index] using hi
  case found | put | writeDrop => simp [saves] at hsaves
  all_goals exact hi

/-- A deletion does not put its instance into the index. -/
theorem Moved.not_mem_ids_of_deletes (h : Moved limits s p s' q) {i : String}
    (hdeletes : p.deletes i = true) (hi : i ∉ s.ids) : i ∉ s'.ids := by
  cases h
  case writeDrop i' ids n =>
    obtain rfl : i' = i := by simpa [deletes] using hdeletes
    simp [InstanceStore.ids, InstanceStore.setIndex]
  case found | put | writeIndex | cachePut | cachePutSaved => simp [deletes] at hdeletes
  all_goals exact hi

/-- A record that is not there appears only by a saving. -/
theorem Moved.records_none (h : Moved limits s p s' q) {i : String} (hsaves : p.saves i = false)
    (hi : s.records.get? i = none) : s'.records.get? i = none := by
  cases h
  case storeRecord i' o use n =>
    have hne : i ≠ i' := fun heq => by simp [saves, heq] at hsaves
    rw [Dict.get?_setSome_ne _ _ hne, hi]
  case dropRecord i' n =>
    simp only [Dict.get?_erase]
    split
    · rfl
    · exact hi
  case cachePut i' o use out hout => simpa only [finish_records] using hi
  case cachePutSaved i' o use n out hout =>
    simpa only [InstanceStore.mark, finish_records] using hi
  all_goals exact hi

/-- Setting another key leaves a key without a value, and setting it gives it one. -/
theorem cacheSet_none {s : InstanceStore ρ} {i j : String} (o : ℕ) (hi : s.cache.get? i = none) :
    (s.cacheSet j o).cache.get? i = none ∨ j = i := by
  by_cases hji : j = i
  · exact Or.inr hji
  · exact Or.inl ((Dict.get?_set_ne _ _ (Ne.symm hji)).trans hi)

/-- An object that the repository does not have in its cache appears there only by the beginning of
a saving, or when it is made of a record. -/
theorem Moved.cache_none (h : Moved limits s p s' q) {i : String} (hi : s.cache.get? i = none) :
    s'.cache.get? i = none ∨ s'.log = s.log ++ [.saving i] ∨ ∃ content f, p = .put i content f := by
  cases h
  case create i' content =>
    refine (cacheSet_none (s := s.newObject i' content) _ hi).imp_right fun hii' => Or.inl ?_
    rw [← hii']
    rfl
  case save o object hobject =>
    refine (cacheSet_none o hi).imp_right fun hii' => Or.inl ?_
    rw [← hii']
    rfl
  case cacheObject i' o =>
    refine (cacheSet_none o hi).imp_right fun hii' => Or.inl ?_
    rw [← hii']
    rfl
  case put i' content f =>
    refine (cacheSet_none (s := s.newObject i' content) _ hi).imp_right fun hii' => Or.inr ?_
    exact ⟨content, f, by rw [hii']⟩
  case delete i' =>
    left
    simp only [InstanceStore.mark, Dict.get?_erase]
    split
    · rfl
    · exact hi
  case cachePut i' o use out hout => exact Or.inl (by rw [finish_cache, hi])
  case cachePutSaved i' o use n out hout =>
    exact Or.inl (by simp only [InstanceStore.mark, finish_cache, hi])
  all_goals exact Or.inl hi

/-- Taking objects out of a cache puts none there. -/
theorem evictCache_none {maxLoaded : ℕ} {active : List String} {cache : Dict String ℕ} {i : String}
    (hi : cache.get? i = none) :
    (InstanceStore.evictCache maxLoaded active cache).get? i = none := by
  rw [InstanceStore.evictCache, Dict.get?_foldl_erase, hi, ite_self]

/-- The last step of a get or of a saving puts its own object into the cache of the manager. -/
theorem finish_managerCache_none {i j : String} {o : ℕ} {use : InstanceUse} (hij : i ≠ j)
    (hi : s.managerCache.get? i = none) :
    (finish limits s j o use).1.managerCache.get? i = none := by
  have hput : (s.managerPut limits j o).managerCache.get? i = none := by
    refine evictCache_none ?_
    rw [Dict.get?_set_ne _ _ hij, Dict.get?_erase, if_neg hij, hi]
  cases use with
  | get | save => exact hput
  | create =>
    simp only [finish]
    split <;> exact hput
  | update =>
    simp only [finish, InstanceStore.afterUpdate]
    split
    · exact hput
    · split <;> exact hput

/-- The cache of the manager gets an object for an instance only in the last step of a call. -/
theorem Moved.managerCache_none (h : Moved limits s p s' q) {i : String}
    (hi : s.managerCache.get? i = none) :
    s'.managerCache.get? i = none ∨ ∃ o use n, p = .cachePut i o use n := by
  cases h
  case hit i' o ho =>
    have hne : i ≠ i' := fun heq => by simp [← heq, hi] at ho
    refine Or.inl ?_
    rw [Dict.get?_set_ne _ _ hne, Dict.get?_erase, if_neg hne, hi]
  case cachePut i' o use out hout =>
    by_cases hii' : i = i'
    · exact Or.inr ⟨o, use, none, by rw [hii']⟩
    · exact Or.inl (finish_managerCache_none hii' hi)
  case cachePutSaved i' o use n out hout =>
    by_cases hii' : i = i'
    · exact Or.inr ⟨o, use, some n, by rw [hii']⟩
    · exact Or.inl (finish_managerCache_none hii' hi)
  case dropObject i' n =>
    left
    simp only [InstanceStore.mark, InstanceStore.releaseActive, Dict.get?_erase]
    split
    · rfl
    · exact hi
  all_goals exact Or.inl hi

/-- The objects that were handed out for instances are in a cache. -/
def Cached (held : List (String × ℕ)) (cache : Dict String ℕ) : Prop :=
  ∀ e ∈ held, cache.get? e.1 = some e.2

/-- An object of the cache may be handed out. -/
theorem Cached.hold {held : List (String × ℕ)} {cache : Dict String ℕ} (h : Cached held cache)
    {i : String} {o : ℕ} (ho : cache.get? i = some o) : Cached (held ++ [(i, o)]) cache := by
  intro e he
  rcases List.mem_append.mp he with he | he
  · exact h e he
  · obtain rfl := List.mem_singleton.mp he
    exact ho

/-- An object may be cached unless another one is. -/
theorem Cached.set {held : List (String × ℕ)} {cache : Dict String ℕ} (h : Cached held cache)
    {i : String} {o : ℕ} (hfree : ∀ o' ∈ cache.get? i, o' = o) : Cached held (cache.set i o) := by
  intro e he
  have hcached := h e he
  by_cases hei : e.1 = i
  · rw [hei, Dict.get?_set_self, hfree e.2 (hei ▸ hcached)]
  · rw [Dict.get?_set_ne _ _ hei, hcached]

/-- An instance may be taken out of the cache when its objects are forgotten. -/
theorem Cached.erase {held : List (String × ℕ)} {cache : Dict String ℕ} (h : Cached held cache)
    (i : String) : Cached (held.filter (·.1 ≠ i)) (cache.erase i) := by
  intro e he
  obtain ⟨he, hne⟩ := List.mem_filter.mp he
  rw [Dict.get?_erase, if_neg (of_decide_eq_true hne), h e he]

/-- The objects that were handed out stay in the cache of the repository. -/
theorem Moved.cached (h : Moved limits s p s' q) {pool : InstancePool ρ} (hpool : pool.shared = s)
    (hok : pool.UndoesNothing p) (hheld : Cached s.held s.cache) : Cached s'.held s'.cache := by
  subst hpool
  cases h
  case hit i o ho => exact hheld.hold (hok o ho)
  case found i o f ho => exact hheld.hold ho
  case create i content =>
    have hnone : pool.shared.cache.get? i = none := hok
    exact (hheld.set (by simp [hnone])).hold (Dict.get?_set_self _ _ _)
  case put i content f =>
    have hnone : pool.shared.cache.get? i = none := hok.1
    exact (hheld.set (by simp [hnone])).hold (Dict.get?_set_self _ _ _)
  case save o object hobject =>
    exact (hheld.set (hok object hobject)).hold (Dict.get?_set_self _ _ _)
  case cacheObject i o =>
    have hsome : pool.shared.cache.get? i = some o := hok
    exact (hheld.set (by simp [hsome])).hold (Dict.get?_set_self _ _ _)
  case delete i => exact hheld.erase i
  case cachePut i o use out hout => simpa only [finish_held, finish_cache] using hheld
  case cachePutSaved i o use n out hout =>
    simpa only [InstanceStore.mark, finish_held, finish_cache] using hheld
  all_goals exact hheld

end InstanceProc

namespace InstancePool

open InstanceProc

variable {limits : InstanceLimits ρ} {pool : InstancePool ρ}

/-- What is gone for an instance while a deletion is at one of its steps. -/
def GoneSoFar (s : InstanceStore ρ) (i : String) : InstanceProc ρ → Prop
  | .dropRecord _ _ => s.cache.get? i = none
  | .readDrop _ _ | .writeDrop _ _ _ => s.cache.get? i = none ∧ s.records.get? i = none
  | .dropObject _ _ => (s.cache.get? i = none ∧ s.records.get? i = none) ∧ i ∉ s.ids
  | _ => True

/-- Nothing of an instance is left. -/
def Gone (s : InstanceStore ρ) (i : String) : Prop :=
  ((s.cache.get? i = none ∧ s.records.get? i = none) ∧ i ∉ s.ids) ∧ s.managerCache.get? i = none

/-- The invariant of the calls: the history counts the savings and the deletions in progress and
no call knows a part of it that is not there; the objects handed out are cached; a saving that has
written the index, and one that has ended, has its instance there unless a deletion came; and what a
deletion has removed is gone unless a saving came. -/
structure Sound (pool : InstancePool ρ) : Prop where
  savings : ∀ i, pool.shared.log.countP (InstanceMark.savingOf i) =
    pool.shared.log.countP (InstanceMark.savedOf i) + pool.procs.countP (saves i)
  deletions : ∀ i, pool.shared.log.countP (InstanceMark.deletingOf i) =
    pool.shared.log.countP (InstanceMark.deletedOf i) + pool.procs.countP (deletes i)
  known : ∀ p ∈ pool.procs, p.since ≤ pool.shared.log.length
  ended : ∀ m ∈ pool.shared.log, m.since ≤ pool.shared.log.length
  cached : Cached pool.shared.held pool.shared.cache
  saving : ∀ i o use n, .cachePut i o use (some n) ∈ pool.procs →
    Quiet (InstanceMark.deletingOf i) (InstanceMark.deletedOf i) pool.shared.log n →
    i ∈ pool.shared.ids
  saved : ∀ i, SavedLast pool.shared.log i → i ∈ pool.shared.ids
  deleting : ∀ i, ∀ p ∈ pool.procs, p.deletes i = true →
    Quiet (InstanceMark.savingOf i) (InstanceMark.savedOf i) pool.shared.log p.since →
    GoneSoFar pool.shared i p
  deleted : ∀ i, DeletedLast pool.shared.log i → Gone pool.shared i

/-- What was quiet is still so after a step, and was so before. -/
theorem quiet_of_moved {s s' : InstanceStore ρ} {p q : InstanceProc ρ} (h : Moved limits s p s' q)
    {begins ends : InstanceMark → Bool} {n : ℕ} (hn : n ≤ s.log.length)
    (hquiet : Quiet begins ends s'.log n) :
    Quiet begins ends s.log n ∧ ∀ m, s'.log = s.log ++ [m] → begins m = false := by
  rcases h.log_cases with hlog | ⟨m, hlog, -⟩
  · refine ⟨hlog ▸ hquiet, fun m hm => ?_⟩
    have hlength := congrArg List.length (hlog.symm.trans hm)
    simp at hlength
  · rw [hlog, quiet_append hn] at hquiet
    refine ⟨hquiet.1, fun m' hm' => ?_⟩
    have hmm' : m = m' := by simpa using hlog.symm.trans hm'
    exact hmm' ▸ hquiet.2

/-- What is still to be removed of an instance, once gone, does not come back in a step. -/
structure StaysGone (s s' : InstanceStore ρ) (i : String) : Prop where
  cache : s.cache.get? i = none → s'.cache.get? i = none
  records : s.records.get? i = none → s'.records.get? i = none
  ids : i ∉ s.ids → i ∉ s'.ids

/-- What is gone at a step of a deletion is so after a step of another call. -/
theorem GoneSoFar.of_stays {s s' : InstanceStore ρ} {i : String} {r : InstanceProc ρ}
    (h : GoneSoFar s i r) (hstays : StaysGone s s' i) : GoneSoFar s' i r := by
  cases r with
  | dropRecord => exact hstays.cache h
  | readDrop | writeDrop => exact ⟨hstays.cache h.1, hstays.records h.2⟩
  | dropObject => exact ⟨⟨hstays.cache h.1.1, hstays.records h.1.2⟩, hstays.ids h.2⟩
  | _ => trivial

/-- A step of a deletion removes what is gone at the next one. -/
theorem goneSoFar_of_moved {s s' : InstanceStore ρ} {p q : InstanceProc ρ}
    (h : Moved limits s p s' q) {i : String} (hq : q.deletes i = true)
    (hp : p.deletes i = true → GoneSoFar s i p) : GoneSoFar s' i q := by
  cases h
  case delete i' =>
    obtain rfl : i' = i := by simpa [deletes] using hq
    simp [GoneSoFar, InstanceStore.mark, Dict.get?_erase]
  case dropRecord i' n =>
    obtain rfl : i' = i := by simpa [deletes] using hq
    exact ⟨hp hq, by simp [Dict.get?_erase]⟩
  case readDrop i' ids n => exact hp hq
  case noIndex i' n hids => exact ⟨hp hq, by simp [hids]⟩
  case writeDrop i' ids n =>
    obtain rfl : i' = i := by simpa [deletes] using hq
    exact ⟨hp hq, by simp [InstanceStore.ids, InstanceStore.setIndex]⟩
  case found | put => simp at hq
  all_goals simp [deletes, beginSave] at hq

section Turn

variable {k : ℕ} {p q : InstanceProc ρ} {s : InstanceStore ρ}

/-- While no deletion of an instance is in progress, it stays in the index. -/
theorem Sound.keeps_indexed (h : pool.Sound) (hp : pool.procs[k]? = some p)
    (hmoved : Moved limits pool.shared p s q) (hok : pool.UndoesNothing p) {i : String} {n : ℕ}
    (hquiet : Quiet (InstanceMark.deletingOf i) (InstanceMark.deletedOf i) pool.shared.log n)
    (hi : i ∈ pool.shared.ids) : i ∈ s.ids := by
  have hnone := List.countP_eq_zero.mp (hquiet.eq_zero (h.deletions i))
  have hdeletes : p.deletes i = false := by simpa using hnone p (List.mem_of_getElem? hp)
  cases hsaves : p.saves i with
  | true => exact hmoved.mem_ids_of_saves hsaves hi
  | false => exact (hmoved.mem_ids_iff hsaves hdeletes rfl hok).mpr hi

/-- While no saving of an instance is in progress or begins, what is gone stays so, unless an
object is made of its record. -/
theorem Sound.stays_gone (h : pool.Sound) (hp : pool.procs[k]? = some p)
    (hmoved : Moved limits pool.shared p s q) (hok : pool.UndoesNothing p) {i : String} {n : ℕ}
    (hn : n ≤ pool.shared.log.length)
    (hquiet : Quiet (InstanceMark.savingOf i) (InstanceMark.savedOf i) s.log n)
    (hput : ∀ content f, p ≠ .put i content f) : StaysGone pool.shared s i := by
  obtain ⟨hbefore, hbegins⟩ := quiet_of_moved hmoved hn hquiet
  have hnone := List.countP_eq_zero.mp (hbefore.eq_zero (h.savings i))
  have hsaves : p.saves i = false := by simpa using hnone p (List.mem_of_getElem? hp)
  refine ⟨fun hcache => ?_, hmoved.records_none hsaves, fun hids => ?_⟩
  · rcases hmoved.cache_none hcache with hcache | hlog | ⟨content, f, hpput⟩
    · exact hcache
    · simpa [InstanceMark.savingOf] using hbegins _ hlog
    · exact absurd hpput (hput content f)
  · cases hdeletes : p.deletes i with
    | true => exact hmoved.not_mem_ids_of_deletes hdeletes hids
    | false => exact fun hmem => hids ((hmoved.mem_ids_iff hsaves hdeletes rfl hok).mp hmem)

/-- A call that has written the index, or did not have to, has its instance there. -/
theorem mem_ids_of_moved {i : String} {o n : ℕ} {use : InstanceUse} {s₀ : InstanceStore ρ}
    (h : Moved limits s₀ p s (.cachePut i o use (some n))) : i ∈ s.ids := by
  generalize hq : InstanceProc.cachePut i o use (some n) = q at h
  cases h
  case found i' o' f ho => cases f <;> cases hq
  case put i' content f => cases f <;> cases hq
  case indexed hmem =>
    cases hq
    exact hmem
  case writeIndex =>
    cases hq
    simp [InstanceStore.ids, InstanceStore.setIndex]
  all_goals cases hq

/-- The history gets the end of a saving in the last step of a call that saves. -/
theorem saved_of_moved {i : String} {n : ℕ} {s₀ : InstanceStore ρ} (h : Moved limits s₀ p s q)
    (hlog : s.log = s₀.log ++ [.saved i n]) : ∃ o use, p = .cachePut i o use (some n) := by
  cases h
  case cachePutSaved i' o use n' out hout =>
    simp only [InstanceStore.mark, finish_log, List.append_cancel_left_eq, List.cons.injEq,
      InstanceMark.saved.injEq, and_true] at hlog
    exact ⟨o, use, by rw [hlog.1, hlog.2]⟩
  case cachePut => simp at hlog
  all_goals simp [beginSave, InstanceStore.hold, InstanceStore.mark, InstanceStore.cacheSet,
    InstanceStore.newObject, InstanceStore.setIndex, InstanceStore.releaseActive] at hlog

/-- The history gets the end of a deletion in the last step of a call that deletes. -/
theorem deleted_of_moved {i : String} {n : ℕ} {s₀ : InstanceStore ρ} (h : Moved limits s₀ p s q)
    (hlog : s.log = s₀.log ++ [.deleted i n]) : p = .dropObject i n := by
  cases h
  case dropObject i' n' =>
    simp only [InstanceStore.mark, InstanceStore.releaseActive, List.append_cancel_left_eq,
      List.cons.injEq, InstanceMark.deleted.injEq, and_true] at hlog
    rw [hlog.1, hlog.2]
  case cachePut => simp at hlog
  case cachePutSaved => simp [InstanceStore.mark] at hlog
  all_goals simp [beginSave, InstanceStore.hold, InstanceStore.mark, InstanceStore.cacheSet,
    InstanceStore.newObject, InstanceStore.setIndex] at hlog

/-- A deletion knows when it began. -/
theorem since_of_deletes {i : String} {s₀ : InstanceStore ρ} (h : Moved limits s₀ p s q)
    (hp : p.deletes i = true) (hq : q.deletes i = true) : q.since = p.since := by
  cases h
  case dropRecord | readDrop | noIndex | writeDrop => rfl
  case dropObject => simp [deletes] at hq
  all_goals simp [deletes] at hp

/-- A step that undoes nothing keeps the invariant. -/
theorem Sound.turn (h : pool.Sound) (hp : pool.procs[k]? = some p)
    (hmoved : Moved limits pool.shared p s q) (hok : pool.UndoesNothing p) :
    Sound (⟨s, pool.procs.set k q⟩ : InstancePool ρ) := by
  have hpmem := List.mem_of_getElem? hp
  have hgrows : pool.shared.log.length ≤ s.log.length := by
    rcases hmoved.log_cases with hlog | ⟨m, hlog, -⟩ <;> rw [hlog]
    simp
  constructor
  case savings =>
    intro i
    have hprogress := hmoved.savings i
    have hcount := Pool.countP_set (q := q) (saves i) hp
    have hbefore := h.savings i
    dsimp only
    omega
  case deletions =>
    intro i
    have hprogress := hmoved.deletions i
    have hcount := Pool.countP_set (q := q) (deletes i) hp
    have hbefore := h.deletions i
    dsimp only
    omega
  case known =>
    intro r hr
    rcases Pool.mem_set_cases hr with rfl | hr
    · exact hmoved.since_le (h.known p hpmem)
    · exact (h.known r hr).trans hgrows
  case ended =>
    intro m hm
    rcases hmoved.log_cases with hlog | ⟨m', hlog, hsince⟩
    · exact (h.ended m (hlog ▸ hm)).trans hgrows
    · rw [hlog] at hm
      rcases List.mem_append.mp hm with hm | hm
      · exact (h.ended m hm).trans hgrows
      · obtain rfl := List.mem_singleton.mp hm
        exact (hsince.trans (h.known p hpmem)).trans hgrows
  case cached => exact hmoved.cached rfl hok h.cached
  case saving =>
    intro i o use n hr hquiet
    rcases Pool.mem_set_cases hr with rfl | hr
    · exact mem_ids_of_moved hmoved
    · have hn : n ≤ pool.shared.log.length := h.known _ hr
      have hbefore := (quiet_of_moved hmoved hn hquiet).1
      exact h.keeps_indexed hp hmoved hok hbefore (h.saving i o use n hr hbefore)
  case saved =>
    rintro i ⟨n, hended, hquiet⟩
    have hold : n ≤ pool.shared.log.length ∧
        (Quiet (InstanceMark.deletingOf i) (InstanceMark.deletedOf i) pool.shared.log n →
          i ∈ pool.shared.ids) := by
      rcases hmoved.log_cases with hlog | ⟨m, hlog, -⟩
      · rw [hlog] at hended
        exact ⟨h.ended _ hended, fun hbefore => h.saved i ⟨n, hended, hbefore⟩⟩
      · rw [hlog] at hended
        rcases List.mem_append.mp hended with hended | hended
        · exact ⟨h.ended _ hended, fun hbefore => h.saved i ⟨n, hended, hbefore⟩⟩
        · obtain rfl := List.mem_singleton.mp hended
          obtain ⟨o, use, rfl⟩ := saved_of_moved hmoved hlog
          exact ⟨h.known _ hpmem, h.saving i o use n hpmem⟩
    have hbefore := (quiet_of_moved hmoved hold.1 hquiet).1
    exact h.keeps_indexed hp hmoved hok hbefore (hold.2 hbefore)
  case deleting =>
    intro i r hr hdeletes hquiet
    rcases Pool.mem_set_cases hr with rfl | hr
    · refine goneSoFar_of_moved hmoved hdeletes fun hpdeletes => ?_
      rw [since_of_deletes hmoved hpdeletes hdeletes] at hquiet
      exact h.deleting i p hpmem hpdeletes (quiet_of_moved hmoved (h.known p hpmem) hquiet).1
    · have hn := h.known r hr
      have hgone := h.deleting i r hr hdeletes (quiet_of_moved hmoved hn hquiet).1
      refine hgone.of_stays (h.stays_gone hp hmoved hok hn hquiet fun content f hput => ?_)
      subst hput
      exact absurd hdeletes (by simpa using List.countP_eq_zero.mp hok.2.2 r hr)
  case deleted =>
    rintro i ⟨n, hended, hquiet⟩
    have hkeep : n ≤ pool.shared.log.length → DeletedLast pool.shared.log i → Gone s i := by
      intro hn hlast
      obtain ⟨⟨⟨hcache, hrecords⟩, hids⟩, hmanager⟩ := h.deleted i hlast
      have hstays := h.stays_gone hp hmoved hok hn hquiet fun content f hput => by
        subst hput
        simpa [hrecords] using hok.2.1
      refine ⟨⟨⟨hstays.cache hcache, hstays.records hrecords⟩, hstays.ids hids⟩, ?_⟩
      rcases hmoved.managerCache_none hmanager with hnone | ⟨o, use, since, rfl⟩
      · exact hnone
      · have hsome : pool.shared.cache.get? i = some o := hok
        simp [hcache] at hsome
    rcases hmoved.log_cases with hlog | ⟨m, hlog, -⟩
    · have hn := h.ended _ (hlog ▸ hended)
      exact hkeep hn ⟨n, hlog ▸ hended, (quiet_of_moved hmoved hn hquiet).1⟩
    · rw [hlog] at hended
      rcases List.mem_append.mp hended with hended | hended
      · have hn := h.ended _ hended
        exact hkeep hn ⟨n, hended, (quiet_of_moved hmoved hn hquiet).1⟩
      · obtain rfl := List.mem_singleton.mp hended
        obtain rfl := deleted_of_moved hmoved hlog
        have hn := h.known _ hpmem
        have hbefore := (quiet_of_moved hmoved hn hquiet).1
        have hgone := h.deleting i _ hpmem (by simp [deletes]) hbefore
        cases hmoved
        exact ⟨hgone, by simp [InstanceStore.mark, InstanceStore.releaseActive, Dict.get?_erase]⟩

end Turn

/-- A step of the pool that undoes nothing keeps the invariant. -/
theorem Sound.step {pool' : InstancePool ρ} {k : ℕ} (h : pool.Sound)
    (hstep : pool.step (move limits) k = some pool') (hok : Pool.OnTurn UndoesNothing pool k pool') :
    pool'.Sound := by
  obtain ⟨p, s, q, hp, hmove, rfl⟩ := Pool.step_cases hstep
  exact h.turn hp (moved_of_move hmove) (hok p hp)

/-- Calls that have not begun satisfy the invariant. -/
theorem start_sound (records : Dict String ρ) (index : Option (List String))
    (objects : List (String × ρ)) (calls : List (InstanceCall ρ)) :
    (start records index objects calls).Sound where
  savings i := by
    have hnone : (calls.map InstanceProc.start).countP (saves i) = 0 := by
      simp [List.countP_eq_zero, saves]
    simp [start, hnone]
  deletions i := by
    have hnone : (calls.map InstanceProc.start).countP (deletes i) = 0 := by
      simp [List.countP_eq_zero, deletes]
    simp [start, hnone]
  known p hp := by
    obtain ⟨call, -, rfl⟩ := List.mem_map.mp hp
    exact Nat.zero_le _
  ended m hm := absurd hm List.not_mem_nil
  cached e he := absurd he List.not_mem_nil
  saving i o use n hr := by
    obtain ⟨call, -, hcall⟩ := List.mem_map.mp hr
    cases hcall
  saved i hlast := by
    obtain ⟨n, hn, -⟩ := hlast
    exact absurd hn List.not_mem_nil
  deleting i p hp hdeletes := by
    obtain ⟨call, -, rfl⟩ := List.mem_map.mp hp
    simp [deletes] at hdeletes
  deleted i hlast := by
    obtain ⟨n, hn, -⟩ := hlast
    exact absurd hn List.not_mem_nil

end InstancePool

end PalmEngine.Persistence
