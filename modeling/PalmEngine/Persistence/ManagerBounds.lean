import PalmEngine.Lib.Runs
import PalmEngine.Persistence.InstanceManager

/-!
# The bounds of the instance manager

After every call the active instances are within their limit, and the cache of the manager is within
its bound or all of it is active. What leaves the cache is not active, and its object is still found
in the repository.

Nothing leaves the cache when an instance stops being active, so a cache that was over its bound
stays so; and a saving that fails when an instance is created again leaves another object in the
repository than in the cache of the manager.
-/

namespace PalmEngine.Persistence

open PalmEngine.Lib

variable {ρ : Type}

section Bounds

variable (limits : InstanceLimits ρ) (s t : InstanceStore ρ)

namespace InstanceStore

/-- The active instances are within their limit. -/
structure ActiveWithin : Prop where
  distinct : s.active.Nodup
  bounded : s.active.length ≤ limits.maxActive

/-- The cache of the manager is within its bound, or all of it is active. -/
def CacheWithin : Prop :=
  s.managerCache.keys.length ≤ limits.maxLoaded ∨ ∀ i ∈ s.managerCache.keys, i ∈ s.active

/-- The repository has the objects that are in the cache of the manager. -/
def Shares : Prop := ∀ i o, s.managerCache.get? i = some o → s.cache.get? i = some o

/-- The content that an update starts from, if it finds one. -/
def contentOf (turn : StorageTurn) (i : String) : Option ρ :=
  match s.cache.get? i with
  | some o => (s.objects[o]?).map Prod.snd
  | none => if turn = .works then s.records.get? i else none

/-- The other instances in the cache of the manager that are active. -/
def othersActive (i : String) : List String :=
  (s.managerCache.erase i).keys.filter (· ∈ s.active)

end InstanceStore

namespace ManagerCall

/-- The object that is cached for an instance after a call: a new one if the call creates it. -/
def objectOf (i : String) (o : ℕ) : ManagerCall ρ → ℕ
  | .create _ j _ => if i = j then s.objects.length else o
  | _ => o

/-- What a call does to the content of an object. -/
def changeOf (o : ℕ) : ManagerCall ρ → ρ → ρ
  | .update _ i f => if s.cache.get? i = some o then f else id
  | .change o' f => if o' = o then f else id
  | _ => id

/-- A call takes none of the branches that go wrong: no instance stops being active while the cache
is over its bound, and no instance in the cache is created again in vain. -/
def Sound : ManagerCall ρ → Prop
  | .create turn i _ => turn.saves = true ∨ i ∉ s.managerCache.keys
  | .release i => s.managerCache.keys.length ≤ limits.maxLoaded ∨ i ∉ s.managerCache.keys
  | .update turn i f =>
    turn.saves = true → (s.contentOf turn i).any (fun content => limits.terminal (f content)) = true →
      i ∈ s.active → (s.othersActive i).length < limits.maxLoaded
  | _ => True

/-- What holds after a call. -/
structure Bounded (call : ManagerCall ρ) : Prop where
  active : t.ActiveWithin limits
  cache : t.CacheWithin limits
  /-- What has left the cache was not active, and a get answers with its object. -/
  evicted : ∀ i o, s.managerCache.get? i = some o → t.managerCache.get? i = none →
    i ∉ s.active ∧ ∀ turn, (t.get limits turn i).1 = .ok (call.objectOf s i o)
  /-- An object has the content it had, with what the call does to it. -/
  contents : ∀ o < s.objects.length,
    t.objects[o]? = (s.objects[o]?).map (Prod.map id (call.changeOf s o))

end ManagerCall

end Bounds

namespace InstanceStore

section Eviction

variable {maxLoaded : ℕ} {active : List String} {cache : Dict String ℕ} {i j : String} {o : ℕ}

/-- Put last, an entry is behind all others. -/
theorem keys_putLast (cache : Dict String ℕ) (i : String) (o : ℕ) :
    ((cache.erase i).set i o).keys = (cache.erase i).keys ++ [i] := by
  have hnot : i ∉ (cache.erase i).keys := by simp [Dict.mem_keys_erase]
  rw [Dict.keys, Dict.entries_set_of_not_mem hnot, List.map_append]
  rfl

/-- Put last, an entry leaves the others. -/
theorem get?_putLast (cache : Dict String ℕ) (i : String) (o : ℕ) (j : String) :
    ((cache.erase i).set i o).get? j = if j = i then some o else cache.get? j := by
  by_cases hj : j = i
  · rw [hj, Dict.get?_set_self, if_pos rfl]
  · rw [Dict.get?_set_ne _ _ hj, Dict.get?_erase, if_neg hj, if_neg hj]

/-- As many entries are taken out as are too many, or all that are not active. -/
theorem length_keys_evictCache : (evictCache maxLoaded active cache).keys.length =
    cache.keys.length -
      min (cache.keys.length - maxLoaded) (cache.keys.filter (· ∉ active)).length := by
  have hlength : cache.entries.length = cache.keys.length := (List.length_map _).symm
  rw [evictCache, Dict.keys_foldl_erase, hlength]
  generalize hevicted : (cache.keys.filter (· ∉ active)).take (cache.keys.length - maxLoaded) =
    evicted
  have hsub : evicted.Sublist cache.keys :=
    hevicted ▸ (List.take_sublist _ _).trans List.filter_sublist
  have hperm : (cache.keys.filter (· ∈ evicted)).Perm evicted := by
    refine (List.perm_ext_iff_of_nodup (cache.nodup.filter _) (hsub.nodup cache.nodup)).mpr ?_
    intro k
    simp only [List.mem_filter, decide_eq_true_eq]
    exact ⟨And.right, fun hk => ⟨hsub.subset hk, hk⟩⟩
  have hsplit : cache.keys.length =
      (cache.keys.filter (· ∈ evicted)).length + (cache.keys.filter (· ∉ evicted)).length := by
    rw [List.length_eq_length_filter_add (· ∈ evicted)]
    congr 2
    exact List.filter_congr fun k _ => by simp
  rw [hperm.length_eq, ← hevicted, List.length_take, hevicted] at hsplit
  omega

/-- After an eviction a cache is within its bound, or all of it is active. -/
theorem evictCache_within (maxLoaded : ℕ) (active : List String) (cache : Dict String ℕ) :
    (evictCache maxLoaded active cache).keys.length ≤ maxLoaded ∨
      ∀ k ∈ (evictCache maxLoaded active cache).keys, k ∈ active := by
  by_cases hall : (cache.keys.filter (· ∉ active)).length ≤ cache.keys.length - maxLoaded
  · refine Or.inr fun k hk => ?_
    have hlength : cache.entries.length = cache.keys.length := (List.length_map _).symm
    rw [evictCache, Dict.keys_foldl_erase, hlength, List.take_of_length_le hall] at hk
    by_contra hinactive
    simp [hinactive] at hk
  · refine Or.inl ?_
    rw [length_keys_evictCache]
    omega

/-- A cache with few active entries is within its bound after an eviction. -/
theorem length_keys_evictCache_le
    (hactive : (cache.keys.filter (· ∈ active)).length ≤ maxLoaded) :
    (evictCache maxLoaded active cache).keys.length ≤ maxLoaded := by
  have hsplit : cache.keys.length =
      (cache.keys.filter (· ∈ active)).length + (cache.keys.filter (· ∉ active)).length := by
    rw [List.length_eq_length_filter_add (· ∈ active)]
    congr 2
    exact List.filter_congr fun k _ => by simp
  rw [length_keys_evictCache]
  omega

/-- What is left of a cache was there. -/
theorem get?_of_evictCache (h : (evictCache maxLoaded active cache).get? i = some o) :
    cache.get? i = some o := by
  rw [evictCache, Dict.get?_foldl_erase] at h
  split at h
  · cases h
  · exact h

/-- Only what is not active is taken out. -/
theorem not_mem_active_of_evictCache (hcached : cache.get? i = some o)
    (h : (evictCache maxLoaded active cache).get? i = none) : i ∉ active := by
  rw [evictCache, Dict.get?_foldl_erase] at h
  split at h
  · next hmem => simpa using (List.mem_filter.mp (List.mem_of_mem_take hmem)).2
  · rw [hcached] at h
    cases h

end Eviction

section Steps

variable {limits : InstanceLimits ρ} {s t : InstanceStore ρ} {turn : StorageTurn} {i : String} {o : ℕ}

/-- A get answers with the object that the repository has. -/
theorem get_of_cache (hmanager : s.managerCache.get? i = none) (hcache : s.cache.get? i = some o)
    (turn : StorageTurn) : (s.get limits turn i).1 = .ok o := by
  rw [get, hmanager]
  simp only [repositoryGet, hcache]

/-- What the repository finds is in its cache afterwards, and what was there stays. -/
structure Fetched (s t : InstanceStore ρ) (turn : StorageTurn) (i : String) (o : ℕ) : Prop where
  managerCache : t.managerCache = s.managerCache
  active : t.active = s.active
  cached : t.cache.get? i = some o
  kept : ∀ j x, s.cache.get? j = some x → t.cache.get? j = some x
  content : (t.objects[o]?).map Prod.snd = s.contentOf turn i
  objects : ∀ x < s.objects.length, t.objects[x]? = s.objects[x]?
  found : ∀ x < s.objects.length, x = o ↔ s.cache.get? i = some x

/-- What the repository finds. -/
theorem fetched_of_repositoryGet (h : s.repositoryGet turn i = (.ok o, t)) :
    Fetched s t turn i o := by
  unfold repositoryGet at h
  split at h
  · next x hx =>
    cases h
    refine ⟨rfl, rfl, hx, fun _ _ => id, ?_, fun _ _ => rfl, fun y _ => ?_⟩
    · rw [contentOf, hx]
    · rw [hx, Option.some.injEq, eq_comm]
  · next hnone =>
    split at h
    · cases h
    · cases h
    · split at h
      · cases h
      · next content hcontent =>
        cases h
        refine ⟨rfl, rfl, Dict.get?_set_self _ _ _, fun j x hj => ?_, ?_, fun x hx => ?_, fun x hx => ?_⟩
        · have hne : j ≠ i := by
            rintro rfl
            cases hnone.symm.trans hj
          exact (Dict.get?_set_ne _ _ hne).trans hj
        · rw [contentOf, hnone]
          simp [cacheNew, cacheSet, newObject, hcontent]
        · exact List.getElem?_append_left hx
        · rw [hnone]
          simp only [reduceCtorEq, iff_false]
          exact hx.ne

/-- If the repository finds nothing, it stays as it is. -/
theorem repositoryGet_error {e : ManagerError} (h : s.repositoryGet turn i = (.error e, t)) :
    t = s := by
  unfold repositoryGet at h
  split at h
  · cases h
  · split at h
    · cases h
      rfl
    · cases h
      rfl
    · split at h <;> cases h
      rfl

/-- A saving ends well or not as the storage answers. -/
theorem repositorySave_fst (s : InstanceStore ρ) (turn : StorageTurn) (i : String) (o : ℕ) :
    (s.repositorySave turn i o).1 = if turn.saves then .ok () else .error .storage := by
  cases turn <;> rfl

/-- A saving puts the object into the cache of the repository. -/
theorem repositorySave_snd (s : InstanceStore ρ) (turn : StorageTurn) (i : String) (o : ℕ) :
    (s.repositorySave turn i o).2.cache = s.cache.set i o ∧
      (s.repositorySave turn i o).2.managerCache = s.managerCache ∧
        (s.repositorySave turn i o).2.active = s.active ∧
          (s.repositorySave turn i o).2.objects = s.objects := by
  cases turn with
  | works =>
    simp only [repositorySave, updateIndex]
    split <;> exact ⟨rfl, rfl, rfl, rfl⟩
  | closed => exact ⟨rfl, rfl, rfl, rfl⟩
  | raises written => cases written <;> exact ⟨rfl, rfl, rfl, rfl⟩

/-- An object of the repository that is put into the cache of the manager. -/
theorem managerPut_spec (limits : InstanceLimits ρ)
    (hshares : ∀ j x, j ≠ i → s.managerCache.get? j = some x → s.cache.get? j = some x)
    (ho : s.cache.get? i = some o) :
    (s.managerPut limits i o).CacheWithin limits ∧ (s.managerPut limits i o).Shares ∧
      ∀ j x, s.managerCache.get? j = some x → (s.managerPut limits i o).managerCache.get? j = none →
        j ∉ s.active ∧ s.cache.get? j = some (if j = i then o else x) := by
  refine ⟨evictCache_within _ _ _, fun j x hj => ?_, fun j x hj hgone => ?_⟩
  · have hput := get?_of_evictCache hj
    rw [get?_putLast] at hput
    split at hput
    · next hji =>
      cases hput
      exact hji ▸ ho
    · next hji => exact hshares j x hji hput
  · have hput : ((s.managerCache.erase i).set i o).get? j = some (if j = i then o else x) := by
      rw [get?_putLast]
      split
      · rfl
      · exact hj
    refine ⟨not_mem_active_of_evictCache hput hgone, ?_⟩
    split
    · next hji => exact hji ▸ ho
    · next hji => exact hshares j x hji hj

/-- Marking an instance as active keeps the cache within its bound. -/
theorem CacheWithin.markActive (h : s.CacheWithin limits) (i : String) :
    (s.markActive i).CacheWithin limits := by
  refine h.imp id fun hall j hj => ?_
  have hactive := hall j hj
  unfold InstanceStore.markActive
  simp only []
  split
  · exact hactive
  · exact List.mem_append_left _ hactive

/-- An instance that can be marked as active keeps the active ones within their limit. -/
theorem ActiveWithin.markActive (h : s.ActiveWithin limits)
    (hcan : s.canMarkActive limits i = true) : (s.markActive i).ActiveWithin limits := by
  unfold InstanceStore.markActive
  by_cases hi : i ∈ s.active
  · simp only [hi, if_true]
    exact ⟨h.distinct, h.bounded⟩
  · have hroom : s.active.length < limits.maxActive := by
      simpa [canMarkActive, hi] using hcan
    simp only [hi, if_false]
    refine ⟨?_, ?_⟩
    · rw [List.nodup_append]
      exact ⟨h.distinct, List.nodup_singleton i, fun a ha b hb hab =>
        hi (List.mem_singleton.mp hb ▸ hab ▸ ha)⟩
    · rw [List.length_append, List.length_singleton]
      exact hroom

/-- Releasing keeps the active ones within their limit. -/
theorem ActiveWithin.releaseActive (h : s.ActiveWithin limits) (i : String) :
    (s.releaseActive i).ActiveWithin limits :=
  ⟨h.distinct.filter _, (List.length_filter_le _ _).trans h.bounded⟩

/-- Releasing keeps a cache within its bound if it is not over it, or the instance is not active or not
cached. -/
theorem CacheWithin.releaseActive (h : s.CacheWithin limits)
    (hi : s.managerCache.keys.length ≤ limits.maxLoaded ∨ i ∉ s.managerCache.keys ∨ i ∉ s.active) :
    (s.releaseActive i).CacheWithin limits := by
  rcases hi with hle | hi
  · exact Or.inl hle
  · refine h.imp id fun hall j hj => List.mem_filter.mpr ⟨hall j hj, ?_⟩
    have hne : j ≠ i := by
      rintro rfl
      exact hi.elim (absurd hj) (absurd (hall j hj))
    simpa using hne

/-- What a get leaves: the cache within its bound, and what has left it was not active and is in the
repository. -/
structure Got (limits : InstanceLimits ρ) (s t : InstanceStore ρ) : Prop where
  active : t.active = s.active
  cache : t.CacheWithin limits
  shares : t.Shares
  evicted : ∀ j x, s.managerCache.get? j = some x → t.managerCache.get? j = none →
    j ∉ s.active ∧ t.cache.get? j = some x
  objects : ∀ x < s.objects.length, t.objects[x]? = s.objects[x]?

/-- A store is left as it was. -/
theorem Got.refl (hcache : s.CacheWithin limits) (hshares : s.Shares) : Got limits s s where
  active := rfl
  cache := hcache
  shares := hshares
  evicted _ _ hj hgone := absurd (hj.symm.trans hgone) (by simp)
  objects _ _ := rfl

/-- A get keeps the cache within its bound. -/
theorem got_get (hcache : s.CacheWithin limits) (hshares : s.Shares) (turn : StorageTurn)
    (i : String) : Got limits s (s.get limits turn i).2 := by
  unfold get
  split
  · next o ho =>
    have hmem : i ∈ s.managerCache.keys := (Dict.mem_keys_iff _ _).mpr ⟨o, ho⟩
    refine ⟨rfl, ?_, fun j x hj => ?_, fun j x hj hgone => ?_, fun _ _ => rfl⟩
    · simp only [CacheWithin, keys_putLast]
      refine hcache.imp (fun hle => ?_) fun hall j hj => ?_
      · have hless : (s.managerCache.erase i).entries.length < s.managerCache.entries.length :=
          Dict.length_entries_erase_lt ((Dict.get?_eq_some_iff _ _ _).mp ho)
        simp only [Dict.keys, List.length_append, List.length_map, List.length_singleton] at hle ⊢
        omega
      · rcases List.mem_append.mp hj with hj | hj
        · exact hall j ((Dict.mem_keys_erase _ _ _).mp hj).2
        · exact List.mem_singleton.mp hj ▸ hall i hmem
    · simp only [get?_putLast] at hj
      split at hj
      · next hji =>
        cases hj
        exact hji ▸ hshares i o ho
      · exact hshares j x hj
    · simp only [get?_putLast] at hgone
      split at hgone
      · cases hgone
      · cases hj.symm.trans hgone
  · next hnone =>
    split
    · next e t hget =>
      obtain rfl := repositoryGet_error hget
      exact .refl hcache hshares
    · next o t hget =>
      have hfetched := fetched_of_repositoryGet hget
      obtain ⟨hwithin, hshares', hevicted⟩ := managerPut_spec (s := t) limits
        (fun j x _ hj => hfetched.kept j x (hshares j x (hfetched.managerCache ▸ hj)))
        hfetched.cached
      refine ⟨hfetched.active, hwithin, hshares', fun j x hj hgone => ?_, hfetched.objects⟩
      have hne : j ≠ i := by
        rintro rfl
        cases hnone.symm.trans hj
      obtain ⟨hinactive, hcached⟩ := hevicted j x (hfetched.managerCache.symm ▸ hj) hgone
      rw [if_neg hne] at hcached
      exact ⟨hfetched.active ▸ hinactive, hcached⟩

end Steps

end InstanceStore

section Calls

variable {limits : InstanceLimits ρ} {s : InstanceStore ρ} {call : ManagerCall ρ}

open InstanceStore

/-- A get, with what follows in the caller, leaves the contents and lets only inactive instances go. -/
theorem ManagerCall.Bounded.of_got {t u : InstanceStore ρ} (hgot : Got limits s t)
    (hobject : ∀ i o, s.managerCache.get? i = some o → call.objectOf s i o = o)
    (hchange : ∀ o, call.changeOf s o = id) (hactive : u.ActiveWithin limits)
    (hcache : u.CacheWithin limits) (hmanager : u.managerCache = t.managerCache)
    (hrepository : u.cache = t.cache) (hobjects : u.objects = t.objects) :
    call.Bounded limits s u where
  active := hactive
  cache := hcache
  evicted i o hi hgone := by
    obtain ⟨hinactive, hcached⟩ := hgot.evicted i o hi (hmanager ▸ hgone)
    rw [hobject i o hi]
    exact ⟨hinactive, get_of_cache hgone (hrepository ▸ hcached)⟩
  contents o ho := by
    rw [hchange, hobjects, hgot.objects o ho]
    simp

/-- The active instances of two stores are the same. -/
theorem InstanceStore.ActiveWithin.of_eq {t : InstanceStore ρ} (h : s.ActiveWithin limits)
    (heq : t.active = s.active) : t.ActiveWithin limits :=
  ⟨heq ▸ h.distinct, heq ▸ h.bounded⟩

/-- Creating an instance: the new object is in both caches, or the saving has failed. -/
theorem bounded_create {turn : StorageTurn} {i : String} {content : ρ}
    (hactive : s.ActiveWithin limits) (hcache : s.CacheWithin limits) (hshares : s.Shares)
    (hsound : (ManagerCall.create turn i content).Sound limits s) :
    (s.create limits turn i content).2.Shares ∧
      (ManagerCall.create turn i content).Bounded limits s (s.create limits turn i content).2 := by
  have hsave := repositorySave_snd (s.newObject i content) turn i s.objects.length
  have hfst := repositorySave_fst (s.newObject i content) turn i s.objects.length
  have hcontents : ∀ o < s.objects.length, (s.objects ++ [(i, content)])[o]? =
      (s.objects[o]?).map (Prod.map id ((ManagerCall.create turn i content).changeOf s o)) := by
    intro o ho
    rw [List.getElem?_append_left ho]
    simp [ManagerCall.changeOf]
  have hothers : ∀ j x, j ≠ i → s.managerCache.get? j = some x →
      (s.cache.set i s.objects.length).get? j = some x := by
    intro j x hne hj
    rw [Dict.get?_set_ne _ _ hne]
    exact hshares j x hj
  rcases hsaved : (s.newObject i content).repositorySave turn i s.objects.length with ⟨result, u⟩
  rw [hsaved] at hsave hfst
  obtain ⟨hrepository, hmanager, hsame, hobjects⟩ := hsave
  simp only [newObject] at hrepository hmanager hsame hobjects hfst
  unfold InstanceStore.create
  simp only [hsaved]
  have hrepository' : u.cache = s.cache.set i s.objects.length := hrepository
  cases hsaves : turn.saves with
  | false =>
    simp only [hfst, hsaves, Bool.false_eq_true, if_false]
    have hne : ∀ j x, s.managerCache.get? j = some x → j ≠ i := by
      rintro j x hj rfl
      rcases hsound with hok | hnot
      · rw [hsaves] at hok
        cases hok
      · exact hnot ((Dict.mem_keys_iff _ _).mpr ⟨x, hj⟩)
    refine ⟨fun j x hj => ?_, ⟨hactive.of_eq hsame, ?_, fun j x hj hgone => ?_, ?_⟩⟩
    · rw [hmanager] at hj
      rw [hrepository']
      exact hothers j x (hne j x hj) hj
    · rw [CacheWithin, hmanager, hsame]
      exact hcache
    · rw [hmanager] at hgone
      cases hj.symm.trans hgone
    · rw [hobjects]
      exact hcontents
  | true =>
    simp only [hfst, hsaves, if_true]
    obtain ⟨hwithin, hshares', hevicted⟩ := managerPut_spec (s := u) limits
      (i := i) (o := s.objects.length) (fun j x hne hj => by
        rw [hrepository']
        exact hothers j x hne (hmanager ▸ hj))
      (by rw [hrepository', Dict.get?_set_self])
    have hleft : ∀ t : InstanceStore ρ, t.managerCache = (u.managerPut limits i s.objects.length).managerCache →
        t.cache = u.cache → ∀ j x, s.managerCache.get? j = some x → t.managerCache.get? j = none →
          j ∉ s.active ∧ ∀ turn', (t.get limits turn' j).1 =
            .ok ((ManagerCall.create turn i content).objectOf s j x) := by
      intro t hput hsamecache j x hj hgone
      obtain ⟨hinactive, hcached⟩ := hevicted j x (hmanager.symm ▸ hj) (hput ▸ hgone)
      exact ⟨hsame ▸ hinactive, get_of_cache hgone (hsamecache ▸ hcached)⟩
    have hactive' : (u.managerPut limits i s.objects.length).ActiveWithin limits := hactive.of_eq hsame
    split
    · next hcan =>
      exact ⟨hshares', ⟨hactive'.markActive hcan, hwithin.markActive i, hleft _ rfl rfl,
        hobjects ▸ hcontents⟩⟩
    · exact ⟨hshares', ⟨hactive', hwithin, hleft _ rfl rfl, hobjects ▸ hcontents⟩⟩

/-- Updating an instance: its object is in both caches, and it is released if that leaves the cache
within its bound. -/
theorem bounded_update {turn : StorageTurn} {i : String} {f : ρ → ρ}
    (hactive : s.ActiveWithin limits) (hcache : s.CacheWithin limits) (hshares : s.Shares)
    (hsound : (ManagerCall.update turn i f).Sound limits s) :
    (s.update limits turn i f).2.Shares ∧
      (ManagerCall.update turn i f).Bounded limits s (s.update limits turn i f).2 := by
  unfold InstanceStore.update
  split
  · next e t hget =>
    have hmissing : s.cache.get? i = none := by
      unfold repositoryGet at hget
      split at hget
      · cases hget
      · next hnone => exact hnone
    obtain rfl := repositoryGet_error hget
    refine ⟨hshares, ⟨hactive, hcache, fun j x hj hgone => ?_, fun o _ => ?_⟩⟩
    · cases hj.symm.trans hgone
    · simp [ManagerCall.changeOf, hmissing]
  · next o t hget =>
    have hfetched := fetched_of_repositoryGet hget
    have hsave := repositorySave_snd (t.changeObject o f) turn i o
    have hfst := repositorySave_fst (t.changeObject o f) turn i o
    have hcontents : ∀ x < s.objects.length, (t.objects.modify o (Prod.map id f))[x]? =
        (s.objects[x]?).map (Prod.map id ((ManagerCall.update turn i f).changeOf s x)) := by
      intro x hx
      rw [List.getElem?_modify, hfetched.objects x hx]
      by_cases hox : o = x
      · simp [ManagerCall.changeOf, hox, (hfetched.found x hx).mp hox.symm]
      · have hother : s.cache.get? i ≠ some x := fun h => hox ((hfetched.found x hx).mpr h).symm
        simp [ManagerCall.changeOf, hox, hother]
    have hrest : ∀ j x, s.managerCache.get? j = some x → (t.cache.set i o).get? j = some x := by
      intro j x hj
      have hkept := hfetched.kept j x (hshares j x hj)
      by_cases hne : j = i
      · rw [hne, Dict.get?_set_self]
        rw [hne, hfetched.cached] at hkept
        exact hkept
      · rw [Dict.get?_set_ne _ _ hne]
        exact hkept
    rcases hsaved : (t.changeObject o f).repositorySave turn i o with ⟨result, u⟩
    rw [hsaved] at hsave hfst
    obtain ⟨hrepository, hmanager, hsame, hobjects⟩ := hsave
    simp only [changeObject] at hrepository hmanager hsame hobjects hfst
    have hrepository' : u.cache = t.cache.set i o := hrepository
    have hmanager' : u.managerCache = s.managerCache := hmanager.trans hfetched.managerCache
    have hsame' : u.active = s.active := hsame.trans hfetched.active
    cases hsaves : turn.saves with
    | false =>
      simp only [hfst, hsaves, Bool.false_eq_true, if_false]
      refine ⟨fun j x hj => ?_, ⟨hactive.of_eq hsame', ?_, fun j x hj hgone => ?_, hobjects ▸ hcontents⟩⟩
      · rw [hrepository']
        exact hrest j x (hmanager' ▸ hj)
      · rw [CacheWithin, hmanager', hsame']
        exact hcache
      · rw [hmanager'] at hgone
        cases hj.symm.trans hgone
    | true =>
      simp only [hfst, hsaves, if_true]
      obtain ⟨hwithin, hshares', hevicted⟩ := managerPut_spec (s := u) limits (i := i) (o := o)
        (fun j x _ hj => by
          rw [hrepository']
          exact hrest j x (hmanager' ▸ hj))
        (by rw [hrepository', Dict.get?_set_self])
      have hleft : ∀ j x, s.managerCache.get? j = some x →
          (u.managerPut limits i o).managerCache.get? j = none →
            j ∉ s.active ∧ u.cache.get? j = some x := by
        intro j x hj hgone
        obtain ⟨hinactive, hcached⟩ := hevicted j x (hmanager'.symm ▸ hj) hgone
        refine ⟨hsame' ▸ hinactive, ?_⟩
        rw [hrepository']
        exact hrest j x hj
      have hactive' : (u.managerPut limits i o).ActiveWithin limits := hactive.of_eq hsame'
      have hfinal : ∀ v : InstanceStore ρ, v.managerCache = (u.managerPut limits i o).managerCache →
          v.cache = u.cache → v.objects = u.objects → v.ActiveWithin limits → v.CacheWithin limits →
            v.Shares ∧ (ManagerCall.update turn i f).Bounded limits s v := by
        intro v hput hsamecache hsameobjects hva hvc
        refine ⟨fun j x hj => ?_, ⟨hva, hvc, fun j x hj hgone => ?_, ?_⟩⟩
        · rw [hsamecache]
          exact hshares' j x (hput ▸ hj)
        · obtain ⟨hinactive, hcached⟩ := hleft j x hj (hput ▸ hgone)
          exact ⟨hinactive, get_of_cache hgone (hsamecache ▸ hcached)⟩
        · rw [hsameobjects, hobjects]
          exact hcontents
      unfold InstanceStore.afterUpdate
      split
      · next hterminal =>
        refine hfinal _ rfl rfl rfl (hactive'.releaseActive i) (hwithin.releaseActive ?_)
        by_cases hi : i ∈ s.active
        · refine Or.inl (length_keys_evictCache_le ?_)
          have hends : (s.contentOf turn i).any (fun content => limits.terminal (f content)) = true := by
            rw [← hfetched.content]
            change ((u.objects[o]?).any fun object => limits.terminal object.2) = true at hterminal
            rw [hobjects] at hterminal
            simp only [List.getElem?_modify, if_true] at hterminal
            revert hterminal
            cases t.objects[o]? <;> simp
          have hroom := hsound hsaves hends hi
          rw [keys_putLast, List.filter_append, List.length_append]
          have hlast : ([i].filter (· ∈ u.active)).length ≤ 1 := List.length_filter_le _ _
          have hothers : ((u.managerCache.erase i).keys.filter (· ∈ u.active)).length =
              (s.othersActive i).length := by
            rw [hmanager', hsame', othersActive]
          omega
        · exact Or.inr (Or.inr (hsame' ▸ hi))
      · split
        · next hcan => exact hfinal _ rfl rfl rfl (hactive'.markActive hcan) (hwithin.markActive i)
        · exact hfinal _ rfl rfl rfl hactive' hwithin

/-- A call that takes none of the branches that go wrong keeps the bounds. -/
theorem bounded_call (hactive : s.ActiveWithin limits) (hcache : s.CacheWithin limits)
    (hshares : s.Shares) (hsound : call.Sound limits s) :
    (s.call limits call).Shares ∧ call.Bounded limits s (s.call limits call) := by
  cases call with
  | create turn i content => exact bounded_create hactive hcache hshares hsound
  | update turn i f => exact bounded_update hactive hcache hshares hsound
  | get turn i =>
    have hgot := got_get hcache hshares turn i
    exact ⟨hgot.shares, .of_got hgot (fun _ _ _ => rfl) (fun _ => rfl) (hactive.of_eq hgot.active)
      hgot.cache rfl rfl rfl⟩
  | acquire turn i =>
    have hgot := got_get hcache hshares turn i
    simp only [InstanceStore.call, InstanceStore.acquire]
    generalize s.get limits turn i = result at hgot
    obtain ⟨e | o, t⟩ := result
    · exact ⟨hgot.shares, .of_got hgot (fun _ _ _ => rfl) (fun _ => rfl)
        (hactive.of_eq hgot.active) hgot.cache rfl rfl rfl⟩
    · simp only
      split
      · next hcan => exact ⟨hgot.shares, .of_got hgot (fun _ _ _ => rfl) (fun _ => rfl)
          ((hactive.of_eq hgot.active).markActive hcan) (hgot.cache.markActive i) rfl rfl rfl⟩
      · exact ⟨hgot.shares, .of_got hgot (fun _ _ _ => rfl) (fun _ => rfl)
          (hactive.of_eq hgot.active) hgot.cache rfl rfl rfl⟩
  | release i =>
    have hrelease : s.managerCache.keys.length ≤ limits.maxLoaded ∨ i ∉ s.managerCache.keys ∨
        i ∉ s.active := hsound.imp id Or.inl
    exact ⟨hshares, .of_got (.refl hcache hshares) (fun _ _ _ => rfl) (fun _ => rfl)
      (hactive.releaseActive i) (hcache.releaseActive hrelease) rfl rfl rfl⟩
  | evict =>
    have hgot : Got limits s (s.evict limits) := by
      refine ⟨rfl, evictCache_within _ _ _, fun j x hj => ?_, fun j x hj hgone => ?_, fun _ _ => rfl⟩
      · exact hshares j x (get?_of_evictCache hj)
      · exact ⟨not_mem_active_of_evictCache hj hgone, hshares j x hj⟩
    exact ⟨hgot.shares, .of_got hgot (fun _ _ _ => rfl) (fun _ => rfl) (hactive.of_eq rfl)
      hgot.cache rfl rfl rfl⟩
  | change o f =>
    refine ⟨hshares, ⟨⟨hactive.distinct, hactive.bounded⟩, hcache, fun j x hj hgone => ?_,
      fun x _ => ?_⟩⟩
    · cases hj.symm.trans hgone
    · simp only [InstanceStore.call, changeObject, List.getElem?_modify, ManagerCall.changeOf]
      split <;> simp

/-- A call of the manager, whether it raises or not. -/
def InstanceStore.step (limits : InstanceLimits ρ) (s : InstanceStore ρ) (call : ManagerCall ρ) :
    Option (InstanceStore ρ) := some (s.call limits call)

/-- In a run of a manager that begins without loaded and active instances the bounds hold after every
call, if none takes a branch that goes wrong. -/
theorem run_bounded (limits : InstanceLimits ρ) (hloaded : s.managerCache = .empty)
    (hactive : s.active = []) (calls : List (ManagerCall ρ))
    (hsound : AllSteps (InstanceStore.step limits) (fun s call _ => call.Sound limits s) s calls) :
    AllSteps (InstanceStore.step limits) (fun s call t => call.Bounded limits s t) s calls := by
  refine hsound.imp (fun s => s.ActiveWithin limits ∧ s.CacheWithin limits ∧ s.Shares)
    (fun s call t hs ht hcall => ?_) ?_
  · obtain ⟨ha, hc, hshares⟩ := hs
    obtain ⟨hshares', hbounded⟩ := bounded_call ha hc hshares hcall
    obtain rfl : s.call limits call = t := Option.some.inj ht
    exact ⟨hbounded, hbounded.active, hbounded.cache, hshares'⟩
  · have hfresh : s.ActiveWithin limits :=
      ⟨hactive ▸ List.nodup_nil, hactive ▸ Nat.zero_le limits.maxActive⟩
    have hempty : s.CacheWithin limits := Or.inl (hloaded ▸ Nat.zero_le limits.maxLoaded)
    refine ⟨hfresh, hempty, fun i o hi => ?_⟩
    rw [hloaded] at hi
    cases hi

end Calls

section Runs

/-- Whether a cache is within its bound is decided. -/
instance InstanceStore.decidableCacheWithin (limits : InstanceLimits ρ) (s : InstanceStore ρ) :
    Decidable (s.CacheWithin limits) := inferInstanceAs (Decidable (_ ∨ _))

/-- Whether a call takes a branch that goes wrong is decided. -/
instance ManagerCall.decidableSound (limits : InstanceLimits ρ) (s : InstanceStore ρ) :
    ∀ call : ManagerCall ρ, Decidable (call.Sound limits s)
  | .create .. => inferInstanceAs (Decidable (_ ∨ _))
  | .release _ => inferInstanceAs (Decidable (_ ∨ _))
  | .update .. => inferInstanceAs (Decidable (_ → _ → _ → _))
  | .get .. => inferInstanceAs (Decidable True)
  | .acquire .. => inferInstanceAs (Decidable True)
  | .evict => inferInstanceAs (Decidable True)
  | .change .. => inferInstanceAs (Decidable True)

/-- A manager that loads one instance and lets two be active. -/
def narrowLimits : InstanceLimits ℕ := ⟨1, 2, fun n => n = 9⟩

/-- A manager over a storage without instances. -/
def emptyStore : InstanceStore ℕ := ⟨.empty, none, [], .empty, .empty, [], [], []⟩

/-- Two instances are created, and both are in the cache of the manager. -/
def createTwice : List (ManagerCall ℕ) :=
  [.create .works "a" 0, .create .works "b" 0, .get .works "b"]

/-- An instance is created and released, its object is changed, and it is created again in vain. -/
def createInVain : List (ManagerCall ℕ) :=
  [.create .works "a" 0, .release "a", .change 0 (· + 1), .create (.raises false) "a" 5]

/-- A run in which the bounds hold. -/
theorem run_bounded_created : AllSteps (InstanceStore.step narrowLimits)
    (fun s call t => call.Bounded narrowLimits s t) emptyStore
      (createTwice ++ [.get .works "a", .update .works "b" (· + 1), .acquire .closed "c", .evict]) :=
  run_bounded narrowLimits rfl rfl _ (by decide)

/-- An instance that is released stays in a cache that is over its bound, and when a saving fails that
creates a released instance again, what leaves the cache is not what the repository has. -/
theorem bounded_released_fails :
    ¬AllSteps (InstanceStore.step narrowLimits) (fun _ _ t => t.CacheWithin narrowLimits) emptyStore
        (createTwice ++ [.release "a"]) ∧
      ¬AllSteps (InstanceStore.step narrowLimits) (fun s call t => call.Bounded narrowLimits s t)
        emptyStore (createInVain ++ [.create .works "b" 0]) := by
  refine ⟨by decide, fun hall => ?_⟩
  have hlast := hall.of_append rfl
  have hgot := ((hlast _ rfl).1.evicted "a" 0 rfl rfl).2 .works
  exact absurd hgot (by decide)

end Runs

end PalmEngine.Persistence
