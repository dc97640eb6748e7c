import PalmEngine.Storage.Backend

/-!
# The tiered backend

A bounded hot dictionary in front of a cold backend. Writes go to the cold backend first and a
read that misses the hot dictionary fills it. The keys of the hot dictionary are kept in the
order of their last use, and the oldest are dropped beyond the bound.

This module runs one call after the other.
-/

namespace PalmEngine.Storage

open PalmEngine.Lib

/-- The tiers: the state of the cold backend, the hot dictionary and its keys by last use. -/
structure Tiered (S V : Type*) where
  cold : S
  hot : Dict Key (Option V)
  lru : List Key

namespace Tiered

variable {S V : Type*}

/-- The tiers over a cold state before the first call. -/
def start (cold : S) : Tiered S V := ⟨cold, .empty, []⟩

/-- A key becomes the one used last. -/
def touch (t : Tiered S V) (key : Key) : Tiered S V := { t with lru := t.lru.erase key ++ [key] }

/-- Drop the keys used longest ago until the bound is met. -/
def evict (hotMaxKeys : ℕ) (hot : Dict Key (Option V)) : List Key → Dict Key (Option V) × List Key
  | [] => (hot, [])
  | key :: rest =>
    if (key :: rest).length > hotMaxKeys then evict hotMaxKeys (hot.erase key) rest
    else (hot, key :: rest)

/-- Put a value into the hot dictionary, then meet the bound. -/
def remember (hotMaxKeys : ℕ) (t : Tiered S V) (key : Key) (value : Option V) : Tiered S V :=
  let touched := { t with hot := t.hot.set key value }.touch key
  let (hot, lru) := evict hotMaxKeys touched.hot touched.lru
  { touched with hot := hot, lru := lru }

/-- Drop a key from the hot dictionary. -/
def forget (t : Tiered S V) (key : Key) : Tiered S V :=
  { t with hot := t.hot.erase key, lru := t.lru.erase key }

/-- Eviction only drops keys. -/
theorem get?_evict {hotMaxKeys : ℕ} {hot : Dict Key (Option V)} {lru : List Key} {k : Key}
    {v : Option V} (h : (evict hotMaxKeys hot lru).1.get? k = some v) : hot.get? k = some v := by
  induction lru generalizing hot with
  | nil => exact h
  | cons key rest ih =>
    unfold evict at h
    split at h
    · have hk := ih h
      rw [Dict.get?_erase] at hk
      split at hk
      · cases hk
      · exact hk
    · exact h

/-- What the hot dictionary holds after a value was put into it: that value at its key, and at
the others only what it held. -/
theorem get?_remember {hotMaxKeys : ℕ} {t : Tiered S V} {key k : Key} {value v : Option V}
    (h : (t.remember hotMaxKeys key value).hot.get? k = some v) :
    (k = key ∧ v = value) ∨ (k ≠ key ∧ t.hot.get? k = some v) := by
  have hset : (t.hot.set key value).get? k = some v := get?_evict h
  by_cases hk : k = key
  · subst hk
    rw [Dict.get?_set_self] at hset
    exact .inl ⟨rfl, (Option.some.inj hset).symm⟩
  · exact .inr ⟨hk, by rwa [Dict.get?_set_ne _ _ hk] at hset⟩

/-- What the hot dictionary holds after a key was dropped. -/
theorem get?_forget {t : Tiered S V} {key k : Key} {v : Option V}
    (h : (t.forget key).hot.get? k = some v) : k ≠ key ∧ t.hot.get? k = some v := by
  have herase : (t.hot.erase key).get? k = some v := h
  rw [Dict.get?_erase] at herase
  split at herase
  · cases herase
  · exact ⟨‹_›, herase⟩

end Tiered

variable {S V E : Type*}

/-- The tiered backend over a cold one. -/
def tieredBackend (cold : BaseBackend S V E) (hotMaxKeys : ℕ) :
    BaseBackend (Tiered S V) V E where
  get t key :=
    match t.hot.get? key with
    | some value => (.ok value, t.touch key)
    | none =>
      match cold.get t.cold key with
      | (.error e, c) => (.error e, { t with cold := c })
      | (.ok none, c) => (.ok none, { t with cold := c })
      | (.ok (some v), c) => (.ok (some v), { t with cold := c }.remember hotMaxKeys key (some v))
  set t key value :=
    match cold.set t.cold key value with
    | (.error e, c) => (.error e, { t with cold := c })
    | (.ok (), c) => (.ok (), { t with cold := c }.remember hotMaxKeys key value)
  delete t key :=
    let t := t.forget key
    let (result, c) := cold.delete t.cold key
    (result, { t with cold := c })
  keysWithPrefix t pre :=
    match cold.keysWithPrefix t.cold pre with
    | .error e => .error e
    | .ok keys => .ok (sortedKeys ((t.hot.keys.filter fun key => pre <+: key) ++ keys).dedup)

section Runs

variable (cold : BaseBackend S V E) (hotMaxKeys : ℕ)

/-- The listing merges the hot keys with what the cold backend lists. -/
theorem tiered_keysWithPrefix {t : Tiered S V} {pre : Key} {keys : List Key}
    (h : cold.keysWithPrefix t.cold pre = .ok keys) :
    (tieredBackend cold hotMaxKeys).keysWithPrefix t pre =
      .ok (sortedKeys ((t.hot.keys.filter fun key => pre <+: key) ++ keys).dedup) := by
  simp only [tieredBackend, h]

/-- A write reaches the cold backend as it is. -/
theorem tiered_cold_apply (t : Tiered S V) (op : MapOp Key (Option V)) :
    ((tieredBackend cold hotMaxKeys).apply t op).cold = cold.apply t.cold op := by
  cases op with
  | set k v =>
    simp only [BaseBackend.apply, tieredBackend]
    split <;> simp [Tiered.remember, Tiered.touch, *]
  | delete k => rfl

/-- A run of writes leaves the cold backend as the same run on it alone. -/
theorem tiered_cold_run (t : Tiered S V) (ops : List (MapOp Key (Option V))) :
    ((tieredBackend cold hotMaxKeys).run t ops).cold = cold.run t.cold ops := by
  induction ops using List.reverseRecOn with
  | nil => rfl
  | append_singleton ops op ih =>
    rw [BaseBackend.run_concat, BaseBackend.run_concat, tiered_cold_apply, ih]

/-- The keys of the hot dictionary are stored keys, whatever the cold backend does. -/
theorem tiered_hot_stored (c : S) (ops : List (MapOp Key (Option V))) :
    ∀ k ∈ ((tieredBackend cold hotMaxKeys).run (.start c) ops).hot.keys,
      (lastWrite ops k).isSome := by
  refine related_of_run (P := fun _ => True)
    (R := fun (t : Tiered S V) m => ∀ k ∈ t.hot.keys, (m k).isSome) (fun t m op ht _ k hk => ?_)
    (by simp [Tiered.start, Dict.empty, Dict.keys]) fun _ _ => trivial
  have hkept : ∀ v, k ≠ op.key → t.hot.get? k = some v → (writeTo m op k).isSome := by
    intro v hne hv
    rw [writeTo_of_ne m op hne]
    exact ht k ((Dict.mem_keys_iff _ _).mpr ⟨v, hv⟩)
  obtain ⟨v, hv⟩ := (Dict.mem_keys_iff _ _).mp hk
  cases op with
  | set k' w =>
    by_cases hne : k = k'
    · subst hne
      exact (congrArg Option.isSome (writeTo_self m (.set k w))).trans rfl
    · refine hkept v hne ?_
      simp only [BaseBackend.apply, tieredBackend] at hv
      split at hv
      · exact hv
      · exact (Tiered.get?_remember hv).resolve_left (fun h => hne h.1) |>.2
  | delete k' =>
    obtain ⟨hne, hv⟩ := Tiered.get?_forget hv
    exact hkept v hne hv

/-- The tiered backend lists exactly when its cold backend does. -/
theorem tiered_isListing {c : S} {ops : List (MapOp Key (Option V))} {pre : Key} {keys : List Key}
    (hcold : cold.keysWithPrefix (cold.run c ops) pre = .ok keys)
    (hkeys : IsListing (lastWrite ops) pre keys) :
    ∃ l, (tieredBackend cold hotMaxKeys).keysWithPrefix
        ((tieredBackend cold hotMaxKeys).run (.start c) ops) pre = .ok l ∧
      IsListing (lastWrite ops) pre l := by
  have hrun := tiered_cold_run cold hotMaxKeys (.start c) ops
  refine ⟨_, tiered_keysWithPrefix cold hotMaxKeys (by rw [hrun]; exact hcold),
    isListing_sortedKeys (List.nodup_dedup _) fun k => ?_⟩
  rw [List.mem_dedup, List.mem_append, List.mem_filter, hkeys.mem_iff]
  constructor
  · rintro (⟨hhot, hpre⟩ | h)
    · exact ⟨tiered_hot_stored cold hotMaxKeys c ops k hhot, by simpa using hpre⟩
    · exact h
  · exact .inr

end Runs

end PalmEngine.Storage
