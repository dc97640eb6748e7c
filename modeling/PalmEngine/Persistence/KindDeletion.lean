import PalmEngine.Persistence.DefinitionStorage

/-!
# Deleting a definition without revisions

What a lookup of a process, a schema or a resource finds is in one of the two maps or in a stored
document. A deletion takes the definition out of all three, if every name that leads to its id leads
to the very definition that the deletion has found; and it leaves what the lookups of the others
find, unless the deletion first loads the definition and thereby takes its name from another one.
-/

namespace PalmEngine.Persistence

open PalmEngine.Lib

namespace DefinitionKind

open Repository

variable {D : Type} (K : DefinitionKind D)

/-- The maps of a kind have each definition under its own id and name. -/
structure Keyed (x : DefinitionIndex D) : Prop where
  byId : ∀ i d, x.byId.get? i = some d → K.definitionId d = i
  byName : ∀ n d, x.byName.get? n = some d → K.name d = n

theorem Keyed.insert {K : DefinitionKind D} {x : DefinitionIndex D} (h : K.Keyed x) (d : D) :
    K.Keyed (x.insert (K.definitionId d) (K.name d) d) where
  byId i o hget := by
    by_cases hi : i = K.definitionId d
    · subst hi
      rw [DefinitionIndex.insert, Dict.get?_set_self] at hget
      rw [← Option.some.inj hget]
    · rw [DefinitionIndex.insert, Dict.get?_set_ne _ _ hi] at hget
      exact h.byId i o hget
  byName n o hget := by
    by_cases hn : n = K.name d
    · subst hn
      rw [DefinitionIndex.insert, Dict.get?_set_self] at hget
      rw [← Option.some.inj hget]
    · rw [DefinitionIndex.insert, Dict.get?_set_ne _ _ hn] at hget
      exact h.byName n o hget

/-- What the maps have after a definition was taken out. -/
theorem get?_remove [DecidableEq D] (x : DefinitionIndex D) (definitionId name : String) (d : D) :
    (∀ i, (x.remove definitionId name d).byId.get? i =
      if i = definitionId then none else x.byId.get? i) ∧
    ∀ n, (x.remove definitionId name d).byName.get? n =
      if n = name ∧ x.byName.get? name = some d then none else x.byName.get? n := by
  refine ⟨fun i => Dict.get?_erase _ _ _, fun n => ?_⟩
  simp only [DefinitionIndex.remove]
  split_ifs with hname hn hn
  · rw [Dict.get?_erase, if_pos hn.1]
  · rw [Dict.get?_erase, if_neg fun heq => hn ⟨heq, hname⟩]
  · exact absurd hn.2 hname
  · rfl

theorem Keyed.remove [DecidableEq D] {K : DefinitionKind D} {x : DefinitionIndex D} (h : K.Keyed x)
    (definitionId name : String) (d : D) : K.Keyed (x.remove definitionId name d) where
  byId i o hget := by
    rw [(get?_remove x definitionId name d).1] at hget
    split_ifs at hget
    exact h.byId i o hget
  byName n o hget := by
    rw [(get?_remove x definitionId name d).2] at hget
    split_ifs at hget
    exact h.byName n o hget

/-- No lookup of a kind can find a definition with the id: it is in neither map and not stored. -/
structure Absent (r : Repository) (definitionId : String) : Prop where
  byId : ∀ i d, (K.index r).byId.get? i = some d → K.definitionId d ≠ definitionId
  byName : ∀ n d, (K.index r).byName.get? n = some d → K.definitionId d ≠ definitionId
  stored : ∀ i d, K.loadRecord r i = some d → K.definitionId d ≠ definitionId

/-- What a lookup finds: a definition of the maps, or a stored one that it puts there, whose name led
nowhere unless it was looked up by its id. -/
inductive Finds (r : Repository) (ref : String) (byId : Bool) (d : D) : Repository → Prop
  | inMemory : (∃ i, (K.index r).byId.get? i = some d) ∨ (∃ n, (K.index r).byName.get? n = some d) →
      Finds r ref byId d r
  | loaded (i : String) : K.loadRecord r i = some d →
      (byId = true ∧ (K.index r).byId.get? ref = none) ∨
        (K.index r).byName.get? (K.name d) = none → Finds r ref byId d (K.insert r d)

/-- The maps after a definition was put there. -/
@[simp] theorem index_insert (r : Repository) (d : D) :
    K.index (K.insert r d) = (K.index r).insert (K.definitionId d) (K.name d) d :=
  K.index_withIndex r _

/-- The maps after a definition was taken out. -/
@[simp] theorem index_unindex [DecidableEq D] (r : Repository) (d : D) :
    K.index (K.unindex r d) = (K.index r).remove (K.definitionId d) (K.name d) d :=
  K.index_withIndex r _

/-- What is in the maps does not change what is stored. -/
theorem fetch_withIndex (r : Repository) (x : DefinitionIndex D) :
    (K.withIndex r x).fetch = r.fetch := by
  funext k
  rw [fetch, fetch, (K.withIndex_eq r x).1]

/-- The stored documents of a kind are seen under its keys. -/
theorem loadRecord_congr {r u : Repository} (hbase : u.keyPrefix = r.keyPrefix)
    (hfetch : ∀ x, u.fetch (r.key K.kind x) = r.fetch (r.key K.kind x)) :
    K.loadRecord u = K.loadRecord r := by
  funext i
  rw [loadRecord, loadRecord, (keys_congr hbase).1, hfetch]

theorem loadRecord_withIndex (r : Repository) (x : DefinitionIndex D) :
    K.loadRecord (K.withIndex r x) = K.loadRecord r :=
  K.loadRecord_congr (K.withIndex_eq r x).2.1 fun _ => by rw [K.fetch_withIndex]

/-- A stored document is that of its id. -/
theorem definitionId_of_loadRecord {r : Repository} (h : r.Placed) {i : String} {d : D}
    (hload : K.loadRecord r i = some d) : K.definitionId d = i := by
  obtain ⟨value, hfetch, hdict⟩ := Option.bind_eq_some_iff.mp hload
  have hkey := h.document _ value _ hfetch (K.document_fromDict value d hdict)
  exact ((key_inj K.kind_colon K.kind_colon).mp hkey).2.symm

/-- What a lookup by name finds when the name leads nowhere in memory. -/
theorem exists_of_scan {r : Repository} {name : String} {d : D}
    (h : K.scanStorageForName r name = some d) :
    K.name d = name ∧ ∃ i, K.loadRecord r i = some d := by
  obtain ⟨i, -, hi⟩ := List.exists_of_findSome?_eq_some h
  obtain ⟨hload, hname⟩ := Option.filter_eq_some_iff.mp hi
  exact ⟨by simpa using hname, i, hload⟩

/-- A lookup finds a definition of the maps or a stored one. -/
theorem get_finds {r u : Repository} {ref : String} {byId : Bool} {d : D}
    (h : K.get r ref byId = (.ok d, u)) : K.Finds r ref byId d u := by
  unfold get getById getByName at h
  split at h <;> split at h
  · rename_i hcached
    cases h
    exact .inMemory (.inl ⟨_, hcached⟩)
  · rename_i hbyId _ hnone
    split at h
    · rename_i hload
      cases h
      exact .loaded _ hload (.inl ⟨hbyId, hnone⟩)
    · cases h
  · rename_i hcached
    cases h
    exact .inMemory (.inr ⟨_, hcached⟩)
  · rename_i hnone
    split at h
    · rename_i hfound
      cases h
      obtain ⟨i, hi⟩ := (Dict.mem_values_iff _ _).mp (List.mem_of_find?_eq_some hfound)
      exact .inMemory (.inl ⟨i, hi⟩)
    · split at h
      · rename_i hscan
        cases h
        obtain ⟨rfl, i, hload⟩ := K.exists_of_scan hscan
        exact .loaded i hload (.inr hnone)
      · cases h

/-- A lookup that finds nothing changes nothing. -/
theorem get_error {r u : Repository} {ref : String} {byId : Bool} {e : RepositoryError}
    (h : K.get r ref byId = (.error e, u)) : u = r := by
  unfold get getById getByName at h
  split at h <;> split at h
  · cases h
  · split at h <;> cases h
    rfl
  · cases h
  · split at h
    · cases h
    · split at h <;> cases h
      rfl

/-- Another kind: the one does not change what the other has in memory. -/
structure Apart {D' : Type} (K : DefinitionKind D) (K' : DefinitionKind D') : Prop where
  kind_ne : K.kind ≠ K'.kind
  index_eq : ∀ r x, K'.index (K.withIndex r x) = K'.index r

/-- What a call about a kind leaves alone: the flows, the other kinds, and what is stored under other
keys than its own. -/
structure Acts (r u : Repository) : Prop where
  keyPrefix_eq : u.keyPrefix = r.keyPrefix
  flowsById_eq : u.flowsById = r.flowsById
  flowsByName_eq : u.flowsByName = r.flowsByName
  flowRevisions_eq : u.flowRevisions = r.flowRevisions
  fetch_eq : ∀ k, ¬ K.Key r k → u.fetch k = r.fetch k
  index_eq : ∀ {D' : Type} (K' : DefinitionKind D'), K.Apart K' → K'.index u = K'.index r

theorem Acts.refl (r : Repository) : K.Acts r r :=
  ⟨rfl, rfl, rfl, rfl, fun _ _ => rfl, fun _ _ => rfl⟩

variable {K}

theorem Acts.trans {r u v : Repository} (h : K.Acts r u) (h' : K.Acts u v) : K.Acts r v where
  keyPrefix_eq := h'.keyPrefix_eq.trans h.keyPrefix_eq
  flowsById_eq := h'.flowsById_eq.trans h.flowsById_eq
  flowsByName_eq := h'.flowsByName_eq.trans h.flowsByName_eq
  flowRevisions_eq := h'.flowRevisions_eq.trans h.flowRevisions_eq
  fetch_eq k hk := by
    refine (h'.fetch_eq k ?_).trans (h.fetch_eq k hk)
    unfold Key at hk ⊢
    rwa [(keys_congr h.keyPrefix_eq).1, (keys_congr h.keyPrefix_eq).2.1]
  index_eq K' hapart := (h'.index_eq K' hapart).trans (h.index_eq K' hapart)

variable (K)

/-- Changing the maps of a kind. -/
theorem acts_withIndex (r : Repository) (x : DefinitionIndex D) : K.Acts r (K.withIndex r x) := by
  obtain ⟨-, hbase, hbyId, hbyName, hrevisions, -⟩ := K.withIndex_eq r x
  exact ⟨hbase, hbyId, hbyName, hrevisions, fun k _ => by rw [K.fetch_withIndex],
    fun K' hapart => hapart.index_eq r x⟩

/-- Writing under the keys of a kind. -/
theorem acts_of_writesAt {r u : Repository} (h : r.WritesAt (K.Key r) u) : K.Acts r u := by
  have hindex {D' : Type} (K' : DefinitionKind D') : K'.index u = K'.index r := by
    obtain ⟨⟨s, rfl⟩, -⟩ := h
    exact K'.index_congr _ _ rfl rfl rfl
  have hfetch := h.fetch_eq
  obtain ⟨⟨s, rfl⟩, -⟩ := h
  exact ⟨rfl, rfl, rfl, rfl, hfetch, fun K' _ => hindex K'⟩

/-- Deleting the document of a kind writes under its keys. -/
theorem deleteRecord_key (r : Repository) (definitionId : String) :
    r.WritesAt (K.Key r) (r.deleteRecord K.kind definitionId) :=
  (deleteRecord_writesAt r K.kind definitionId).mono fun _ hk => hk.imp_left fun h => ⟨_, h⟩

/-- A lookup acts on its kind only. -/
theorem Finds.acts {r u : Repository} {ref : String} {byId : Bool} {d : D}
    (h : K.Finds r ref byId d u) : K.Acts r u := by
  cases h with
  | inMemory _ => exact .refl K r
  | loaded i _ _ => exact K.acts_withIndex r _

/-- Whether or not it finds something, a lookup acts on its kind only. -/
theorem get_acts (r : Repository) (ref : String) (byId : Bool) : K.Acts r (K.get r ref byId).2 := by
  cases h : K.get r ref byId with
  | mk found u =>
    cases found with
    | ok d => exact (K.get_finds h).acts
    | error e => exact K.get_error h ▸ .refl K r

/-- A save acts on its kind only. -/
theorem save_acts (r : Repository) (d : D) : K.Acts r (K.save r d).2 :=
  (K.acts_withIndex r _).trans (K.acts_of_writesAt (K.save_writesAt r d))

/-- A deletion acts on its kind only. -/
theorem delete_acts [DecidableEq D] (r : Repository) (ref : String) (byId : Bool) :
    K.Acts r (K.delete r ref byId).2 := by
  have hget := K.get_acts r ref byId
  unfold delete
  cases h : K.get r ref byId with
  | mk found u =>
    rw [h] at hget
    cases found with
    | error e => exact hget
    | ok d =>
      exact (hget.trans (K.acts_withIndex u _)).trans
        (K.acts_of_writesAt (K.deleteRecord_key (K.unindex u d) (K.definitionId d)))

/-- What a deletion leaves of the stored documents of its kind. -/
theorem loadRecord_deleteRecord (r : Repository) (definitionId i : String) :
    K.loadRecord (r.deleteRecord K.kind definitionId) i =
      if i = definitionId then none else K.loadRecord r i := by
  have hbase := (deleteRecord_writesAt r K.kind definitionId).keyPrefix_eq
  have hindex : r.key K.kind i ≠ r.indexKey K.kind := by
    rw [indexKey_eq_key]
    exact key_ne_of_kind r _ _ K.kind_colon (by decide) K.kind_ne.2
  have hfetch : (r.deleteRecord K.kind definitionId).fetch (r.key K.kind i) =
      (r.remove (r.key K.kind definitionId)).fetch (r.key K.kind i) :=
    (removeFromIndex_writesAt _ K.kind definitionId).fetch_eq _ hindex
  rw [loadRecord, (keys_congr hbase).1, hfetch, fetch_remove]
  by_cases hi : i = definitionId
  · simp [hi]
  · rw [if_neg hi, if_neg fun heq => hi ((key_inj K.kind_colon K.kind_colon).mp heq).2, loadRecord]

/-- What a deletion leaves of the stored list of the ids of its kind. -/
theorem indexedIds_deleteRecord (r : Repository) (definitionId : String) :
    (r.deleteRecord K.kind definitionId).indexedIds K.kind =
      (r.indexedIds K.kind).filter (· ≠ definitionId) := by
  have hindex : r.indexKey K.kind ≠ r.key K.kind definitionId := by
    rw [indexKey_eq_key]
    exact key_ne_of_kind r _ _ (by decide) K.kind_colon K.kind_ne.2.symm
  have hremoved : (r.remove (r.key K.kind definitionId)).indexedIds K.kind = r.indexedIds K.kind :=
    indexedIds_congr rfl ((remove_writesAt r _).fetch_eq _ hindex)
  rw [deleteRecord, indexedIds_removeFromIndex, hremoved]

/-- What is left after a definition that a lookup has found is deleted: it is in neither map nor
stored, if the names that lead to its id lead to it. -/
theorem Finds.absent [DecidableEq D] {K : DefinitionKind D} {r u : Repository} {ref : String}
    {byId : Bool} {d : D} (h : K.Finds r ref byId d u) (hplaced : r.Placed) (hkeyed : K.Keyed (K.index r))
    (hnames : ∀ o ∈ (K.index r).byName.values, K.definitionId o = K.definitionId d → o = d) :
    K.Absent ((K.unindex u d).deleteRecord K.kind (K.definitionId d)) (K.definitionId d) := by
  have hindex := K.index_of_writesAt (K.deleteRecord_key (K.unindex u d) (K.definitionId d))
  rw [index_unindex] at hindex
  have hkeyedU : K.Keyed (K.index u) := by
    cases h with
    | inMemory _ => exact hkeyed
    | loaded i _ _ => exact K.index_insert r d ▸ hkeyed.insert d
  have hnamesU (n : String) (o : D) (ho : (K.index u).byName.get? n = some o)
      (hid : K.definitionId o = K.definitionId d) : o = d := by
    cases h with
    | inMemory _ => exact hnames o ((Dict.mem_values_iff _ _).mpr ⟨n, ho⟩) hid
    | loaded i _ _ =>
      rw [index_insert] at ho
      by_cases hn : n = K.name d
      · rw [hn, DefinitionIndex.insert, Dict.get?_set_self] at ho
        exact (Option.some.inj ho).symm
      · rw [DefinitionIndex.insert, Dict.get?_set_ne _ _ hn] at ho
        exact hnames o ((Dict.mem_values_iff _ _).mpr ⟨n, ho⟩) hid
  refine ⟨fun i o ho hid => ?_, fun n o ho hid => ?_, fun i o ho hid => ?_⟩
  · rw [hindex, (get?_remove _ _ _ _).1] at ho
    split_ifs at ho with hi
    exact hi ((hkeyedU.byId i o ho).symm.trans hid)
  · rw [hindex, (get?_remove _ _ _ _).2] at ho
    split_ifs at ho with hn
    obtain rfl := hnamesU n o ho hid
    obtain rfl := hkeyedU.byName n o ho
    exact hn ⟨rfl, ho⟩
  · rw [loadRecord_deleteRecord, unindex, loadRecord_withIndex] at ho
    split_ifs at ho with hi
    have hload : K.loadRecord r i = some o := by
      cases h with
      | inMemory _ => exact ho
      | loaded j _ _ => rwa [DefinitionKind.insert, loadRecord_withIndex] at ho
    exact hi ((K.definitionId_of_loadRecord hplaced hload).symm.trans hid)

/-- What a lookup finds. -/
def find (r : Repository) (ref : String) (byId : Bool) : Option D := (K.get r ref byId).1.toOption

/-- A lookup by id finds the definition in memory, or else the stored one. -/
theorem find_byId (r : Repository) (i : String) :
    K.find r i true = ((K.index r).byId.get? i).or (K.loadRecord r i) := by
  simp only [find, get, if_true, getById]
  split
  · rename_i hcached
    rw [hcached]
    rfl
  · rename_i hnone
    rw [hnone]
    split <;> rename_i hload <;> rw [hload] <;> rfl

/-- A lookup by name finds what the name leads to in memory, or else another definition with this
name in memory, or else the first stored one. -/
theorem find_byName (r : Repository) (n : String) :
    K.find r n false = (((K.index r).byName.get? n).or
      ((K.index r).byId.values.find? (K.name · = n))).or (K.scanStorageForName r n) := by
  simp only [find, get, Bool.false_eq_true, if_false, getByName]
  split
  · rename_i hcached
    rw [hcached]
    rfl
  · rename_i hnone
    rw [hnone]
    split
    · rename_i hfound
      rw [hfound]
      rfl
    · rename_i hnone'
      rw [hnone']
      split <;> rename_i hscan <;> rw [hscan] <;> rfl

/-- What is left of a kind after one of its definitions was deleted. -/
structure Removed (s : Repository) (d : D) (t : Repository) : Prop where
  byId_eq : (K.index t).byId = (K.index s).byId.erase (K.definitionId d)
  byName_left : ∀ n o, (K.index t).byName.get? n = some o → (K.index s).byName.get? n = some o
  byName_kept : ∀ n o, (K.index s).byName.get? n = some o → K.definitionId o ≠ K.definitionId d →
    (K.index t).byName.get? n = some o ∨ (K.index t).byName.get? n = none ∧
      (K.index s).byId.values.find? (K.name · = n) = some o
  stored : ∀ i, K.loadRecord t i = if i = K.definitionId d then none else K.loadRecord s i
  indexed : t.indexedIds K.kind = (s.indexedIds K.kind).filter (· ≠ K.definitionId d)

variable {K}

/-- A lookup that finds another definition finds it after the deletion. -/
theorem Removed.find_eq {s t : Repository} {d : D} (h : K.Removed s d t) (hplaced : s.Placed)
    (hkeyed : K.Keyed (K.index s)) {ref : String} {byId : Bool} {e : D}
    (hfind : K.find s ref byId = some e) (hne : K.definitionId e ≠ K.definitionId d) : K.find t ref byId = some e := by
  cases byId with
  | true =>
    rw [find_byId] at hfind ⊢
    have hi : ref ≠ K.definitionId d := by
      rintro rfl
      rcases Option.or_eq_some_iff.mp hfind with hmem | ⟨-, hload⟩
      · exact hne (hkeyed.byId _ _ hmem)
      · exact hne (K.definitionId_of_loadRecord hplaced hload)
    rw [h.byId_eq, Dict.get?_erase, if_neg hi, h.stored, if_neg hi]
    exact hfind
  | false =>
    rw [find_byName] at hfind ⊢
    have hfirst (hvalue : (K.index s).byId.values.find? (K.name · = ref) = some e) :
        (K.index t).byId.values.find? (K.name · = ref) = some e := by
      rw [h.byId_eq]
      exact Dict.find?_values_erase hvalue fun hget => hne (hkeyed.byId _ _ hget)
    rcases Option.or_eq_some_iff.mp hfind with hmemory | ⟨hnone, hscan⟩
    · rcases Option.or_eq_some_iff.mp hmemory with hname | ⟨hnoname, hvalue⟩
      · rcases h.byName_kept ref e hname hne with hkept | ⟨hlost, hvalue⟩
        · simp [hkept]
        · simp [hlost, hfirst hvalue]
      · have hnone : (K.index t).byName.get? ref = none := by
          by_contra hsome
          obtain ⟨o, ho⟩ := Option.ne_none_iff_exists'.mp hsome
          rw [h.byName_left ref o ho] at hnoname
          cases hnoname
        simp [hnone, hfirst hvalue]
    · obtain ⟨hnoname, hnovalue⟩ := Option.or_eq_none_iff.mp hnone
      have hnone : (K.index t).byName.get? ref = none := by
        by_contra hsome
        obtain ⟨o, ho⟩ := Option.ne_none_iff_exists'.mp hsome
        rw [h.byName_left ref o ho] at hnoname
        cases hnoname
      have hnone' : (K.index t).byId.values.find? (K.name · = ref) = none := by
        rw [h.byId_eq]
        exact Dict.find?_values_erase_none hnovalue
      have hids : K.collectIds t = (K.collectIds s).filter (· ≠ K.definitionId d) := by
        rw [collectIds, collectIds, ← sortedIds_filter, List.filter_append, h.indexed, h.byId_eq]
        simp only [Dict.keys, Dict.erase, List.filter_map]
        rfl
      rw [hnone, hnone']
      change K.scanStorageForName t ref = some e
      unfold scanStorageForName at hscan ⊢
      rw [hids]
      refine findSome?_filter_ne hscan (fun hfound => ?_) fun i _ hi => by rw [h.stored, if_neg hi]
      exact hne (K.definitionId_of_loadRecord hplaced (Option.filter_eq_some_iff.mp hfound).1)

/-- What is found by a kind is in its maps or stored. -/
theorem Absent.find_ne {r : Repository} {definitionId : String} (h : K.Absent r definitionId)
    {ref : String} {byId : Bool} {d : D} (hfind : K.find r ref byId = some d) :
    K.definitionId d ≠ definitionId := by
  unfold find at hfind
  cases hget : K.get r ref byId with
  | mk found u =>
    rw [hget] at hfind
    cases found with
    | error e => cases hfind
    | ok o =>
      cases hfind
      cases K.get_finds hget with
      | inMemory hmem =>
        rcases hmem with ⟨i, hi⟩ | ⟨n, hn⟩
        · exact h.byId i d hi
        · exact h.byName n d hn
      | loaded i hload _ => exact h.stored i d hload

variable (K)

/-- When a call deletes a definition completely and nothing else: the names in memory that lead to
its id lead to the definition that is found, and if this one is loaded by its id, its name leads to
none of another id, unless this is the first one in memory with the name. -/
def Deletable (r : Repository) (ref : String) (byId : Bool) : Prop :=
  ∀ d ∈ K.find r ref byId,
    (∀ o ∈ (K.index r).byName.values, K.definitionId o = K.definitionId d → o = d) ∧
    (byId = true → (K.index r).byId.get? ref = none →
      ∀ o ∈ (K.index r).byName.get? (K.name d), K.definitionId o ≠ K.definitionId d →
        (K.index r).byId.values.find? (K.name · = K.name d) = some o)

instance [DecidableEq D] (r : Repository) (ref : String) (byId : Bool) :
    Decidable (K.Deletable r ref byId) :=
  inferInstanceAs (Decidable (∀ d ∈ K.find r ref byId, _))

variable {K}

/-- The maps stay keyed when a lookup puts what it has found there. -/
theorem Finds.keyed {r u : Repository} {ref : String} {byId : Bool} {d : D}
    (h : K.Finds r ref byId d u) (hkeyed : K.Keyed (K.index r)) : K.Keyed (K.index u) := by
  cases h with
  | inMemory _ => exact hkeyed
  | loaded i _ _ => exact K.index_insert r d ▸ hkeyed.insert d

/-- What a deletion leaves when the lookup takes its name from no definition that is then found less
easily. -/
theorem Finds.removed [DecidableEq D] {r u : Repository} {ref : String} {byId : Bool} {d : D}
    (h : K.Finds r ref byId d u)
    (hname : byId = true → (K.index r).byId.get? ref = none →
      ∀ o ∈ (K.index r).byName.get? (K.name d), K.definitionId o ≠ K.definitionId d →
        (K.index r).byId.values.find? (K.name · = K.name d) = some o) :
    K.Removed r d ((K.unindex u d).deleteRecord K.kind (K.definitionId d)) := by
  have hindex := K.index_of_writesAt (K.deleteRecord_key (K.unindex u d) (K.definitionId d))
  rw [index_unindex] at hindex
  have hstored (i : String) :
      K.loadRecord ((K.unindex u d).deleteRecord K.kind (K.definitionId d)) i =
        if i = K.definitionId d then none else K.loadRecord r i := by
    rw [loadRecord_deleteRecord, unindex, loadRecord_withIndex]
    cases h with
    | inMemory _ => rfl
    | loaded j _ _ => rw [DefinitionKind.insert, loadRecord_withIndex]
  have hindexed : ((K.unindex u d).deleteRecord K.kind (K.definitionId d)).indexedIds K.kind =
      (r.indexedIds K.kind).filter (· ≠ K.definitionId d) := by
    rw [indexedIds_deleteRecord]
    congr 1
    have hsame (v : Repository) (x : DefinitionIndex D) :
        (K.withIndex v x).indexedIds K.kind = v.indexedIds K.kind :=
      indexedIds_congr (K.withIndex_eq v x).2.1 (by rw [K.fetch_withIndex])
    cases h with
    | inMemory _ => exact hsame _ _
    | loaded j _ _ => exact (hsame _ _).trans (hsame _ _)
  cases h with
  | inMemory _ =>
    refine ⟨congrArg (·.byId) hindex, fun n o ho => ?_, fun n o ho hne => .inl ?_, hstored, hindexed⟩
    · rw [hindex, (get?_remove _ _ _ _).2] at ho
      split_ifs at ho
      exact ho
    · rw [hindex, (get?_remove _ _ _ _).2, if_neg]
      · exact ho
      · rintro ⟨rfl, hd⟩
        rw [ho] at hd
        exact hne (congrArg K.definitionId (Option.some.inj hd))
  | loaded j _ hfree =>
    rw [index_insert] at hindex
    -- the name leads to the definition that was loaded, so that the entry of the name is removed
    have hget (n : String) : (K.index ((K.unindex (K.insert r d) d).deleteRecord K.kind
        (K.definitionId d))).byName.get? n =
          if n = K.name d then none else (K.index r).byName.get? n := by
      rw [hindex, (get?_remove _ _ _ _).2]
      simp only [DefinitionIndex.insert, Dict.get?_set_self, and_true]
      split_ifs with hn
      · rfl
      · exact Dict.get?_set_ne _ _ hn
    refine ⟨?_, fun n o ho => ?_, fun n o ho hne => ?_, hstored, hindexed⟩
    · rw [hindex]
      exact Dict.erase_set _ _ _
    · rw [hget] at ho
      split_ifs at ho
      exact ho
    · rw [hget]
      split_ifs with hn
      · subst hn
        rcases hfree with ⟨hbyId, hnone⟩ | hnone
        · exact .inr ⟨rfl, hname hbyId hnone o ho hne⟩
        · rw [hnone] at ho
          cases ho
      · exact .inl ho

/-- A deletion that meets the condition removes the definition it finds, and nothing else of its
kind. -/
theorem Deletable.absent_and_removed [DecidableEq D] {s : Repository} {ref : String} {byId : Bool}
    (h : K.Deletable s ref byId) (hplaced : s.Placed) (hkeyed : K.Keyed (K.index s)) {d : D} (hfind : K.find s ref byId = some d) :
    K.Absent (K.delete s ref byId).2 (K.definitionId d) ∧ K.Removed s d (K.delete s ref byId).2 := by
  obtain ⟨hnames, hloaded⟩ := h d hfind
  unfold find at hfind
  unfold DefinitionKind.delete
  cases hget : K.get s ref byId with
  | mk found u =>
    rw [hget] at hfind
    cases found with
    | error e => cases hfind
    | ok o =>
      cases hfind
      exact ⟨(K.get_finds hget).absent hplaced hkeyed hnames, (K.get_finds hget).removed hloaded⟩

/-- A definition that is absent is so in the same maps and documents. -/
theorem Absent.congr {r u : Repository} {i : String} (h : K.Absent r i)
    (hindex : K.index u = K.index r) (hstored : K.loadRecord u = K.loadRecord r) : K.Absent u i :=
  ⟨hindex ▸ h.byId, hindex ▸ h.byName, hstored ▸ h.stored⟩

/-- A definition stays absent when another one is put into the maps. -/
theorem Absent.insert {r : Repository} {i : String} (h : K.Absent r i) {d : D}
    (hd : K.definitionId d ≠ i) : K.Absent (K.insert r d) i := by
  refine ⟨fun j o ho => ?_, fun n o ho => ?_, fun j o ho => ?_⟩
  · rw [index_insert] at ho
    by_cases hj : j = K.definitionId d
    · rw [hj, DefinitionIndex.insert, Dict.get?_set_self] at ho
      rwa [← Option.some.inj ho]
    · rw [DefinitionIndex.insert, Dict.get?_set_ne _ _ hj] at ho
      exact h.byId j o ho
  · rw [index_insert] at ho
    by_cases hn : n = K.name d
    · rw [hn, DefinitionIndex.insert, Dict.get?_set_self] at ho
      rwa [← Option.some.inj ho]
    · rw [DefinitionIndex.insert, Dict.get?_set_ne _ _ hn] at ho
      exact h.byName n o ho
  · rw [DefinitionKind.insert, loadRecord_withIndex] at ho
    exact h.stored j o ho

/-- A lookup that finds something keeps what is absent so. -/
theorem Finds.absent_other {r u : Repository} {ref : String} {byId : Bool} {d : D}
    (h : K.Finds r ref byId d u) {i : String} (habsent : K.Absent r i) : K.Absent u i := by
  cases h with
  | inMemory _ => exact habsent
  | loaded j hload _ => exact habsent.insert (habsent.stored j d hload)

/-- A definition stays absent when another one is taken out. -/
theorem Absent.unindex [DecidableEq D] {r : Repository} {i : String} (h : K.Absent r i) (d : D) :
    K.Absent ((K.unindex r d).deleteRecord K.kind (K.definitionId d)) i := by
  have hindex := K.index_of_writesAt (K.deleteRecord_key (K.unindex r d) (K.definitionId d))
  rw [index_unindex] at hindex
  refine ⟨fun j o ho => ?_, fun n o ho => ?_, fun j o ho => ?_⟩
  · rw [hindex, (get?_remove _ _ _ _).1] at ho
    split_ifs at ho
    exact h.byId j o ho
  · rw [hindex, (get?_remove _ _ _ _).2] at ho
    split_ifs at ho
    exact h.byName n o ho
  · rw [loadRecord_deleteRecord, DefinitionKind.unindex, loadRecord_withIndex] at ho
    split_ifs at ho
    exact h.stored j o ho

/-- A definition stays absent when another one is saved. -/
theorem Absent.save {r : Repository} {i : String} (h : K.Absent r i) {d : D}
    (hd : K.definitionId d ≠ i) : K.Absent (K.save r d).2 i := by
  have hinsert := h.insert hd
  have hindex := K.index_of_writesAt (K.save_writesAt r d)
  refine ⟨hindex ▸ hinsert.byId, hindex ▸ hinsert.byName, fun j o ho => ?_⟩
  have hother := hinsert.stored j o
  simp only [DefinitionKind.save] at ho
  split at ho
  · have hstored := store_writesAt (K.insert r d) ((K.insert r d).key K.kind (K.definitionId d))
      (K.toStorageRecord d)
    have hupdate := updateIndex_writesAt ((K.insert r d).store
      ((K.insert r d).key K.kind (K.definitionId d)) (K.toStorageRecord d)) K.kind (K.definitionId d)
    have hne : ((K.insert r d).key K.kind j) ≠ ((K.insert r d).store
        ((K.insert r d).key K.kind (K.definitionId d)) (K.toStorageRecord d)).indexKey K.kind := by
      rw [(keys_congr hstored.keyPrefix_eq).2.1, indexKey_eq_key]
      exact key_ne_of_kind _ _ _ K.kind_colon (by decide) K.kind_ne.2
    rw [loadRecord, (keys_congr (hupdate.keyPrefix_eq.trans hstored.keyPrefix_eq)).1,
      hupdate.fetch_eq _ hne, fetch_store] at ho
    split_ifs at ho
    · obtain ⟨value, hvalue, hdict⟩ := Option.bind_eq_some_iff.mp ho
      obtain ⟨_, -, rfl⟩ := Option.map_eq_some_iff.mp hvalue
      have hplace := K.document_fromDict _ o hdict
      rw [K.document_toStorageRecord] at hplace
      have hid := congrArg Prod.snd (Option.some.inj hplace)
      exact fun heq => hd (hid.trans heq)
    · exact hother ho
  · exact hother ho

variable (K)

/-- The repository after a call about a kind. -/
def call [DecidableEq D] (r : Repository) : KindOp D → Repository
  | .register d => (K.register r d).2
  | .save d => (K.save r d).2
  | .get ref byId => (K.get r ref byId).2
  | .delete ref byId => (K.delete r ref byId).2

/-- A call about a kind acts on this kind only. -/
theorem call_acts [DecidableEq D] (r : Repository) (op : KindOp D) : K.Acts r (K.call r op) := by
  cases op with
  | register d => exact K.acts_withIndex r _
  | save d => exact K.save_acts r d
  | get ref byId => exact K.get_acts r ref byId
  | delete ref byId => exact K.delete_acts r ref byId

variable {K}

/-- Every call about a kind keeps its maps keyed. -/
theorem Keyed.call [DecidableEq D] {r : Repository} (h : K.Keyed (K.index r)) (op : KindOp D) :
    K.Keyed (K.index (K.call r op)) := by
  cases op with
  | register d => exact K.index_insert r d ▸ h.insert d
  | save d =>
    change K.Keyed (K.index (K.save r d).2)
    rw [K.index_of_writesAt (K.save_writesAt r d), index_insert]
    exact h.insert d
  | get ref byId =>
    change K.Keyed (K.index (K.get r ref byId).2)
    cases hget : K.get r ref byId with
    | mk found u =>
      cases found with
      | ok d => exact (K.get_finds hget).keyed h
      | error e => exact (K.get_error hget).symm ▸ h
  | delete ref byId =>
    change K.Keyed (K.index (K.delete r ref byId).2)
    unfold DefinitionKind.delete
    cases hget : K.get r ref byId with
    | mk found u =>
      cases found with
      | error e => exact (K.get_error hget).symm ▸ h
      | ok d =>
        change K.Keyed (K.index ((K.unindex u d).deleteRecord K.kind (K.definitionId d)))
        rw [K.index_of_writesAt (K.deleteRecord_key _ _), index_unindex]
        exact ((K.get_finds hget).keyed h).remove _ _ d

/-- What is in the maps of a kind does not matter for what is stored. -/
theorem placed_withIndex {r : Repository} (h : r.Placed) (x : DefinitionIndex D) :
    (K.withIndex r x).Placed := by
  obtain ⟨hkey, -, hrevision, -, -⟩ := keys_congr (K.withIndex_eq r x).2.1
  refine ⟨fun k value place hfetch => ?_, fun k flow hfetch => ?_⟩
  · rw [K.fetch_withIndex] at hfetch
    rw [hkey]
    exact h.document k value place hfetch
  · rw [K.fetch_withIndex] at hfetch
    rw [hrevision]
    exact h.record k flow hfetch

/-- Every call about a kind keeps what is stored in its place. -/
theorem placed_call [DecidableEq D] {r : Repository} (h : r.Placed) (op : KindOp D) :
    (K.call r op).Placed := by
  have hget {u : Repository} {ref : String} {byId : Bool} {d : D} (hu : K.Finds r ref byId d u) :
      u.Placed := by
    cases hu with
    | inMemory _ => exact h
    | loaded _ _ _ => exact placed_withIndex h _
  cases op with
  | register d => exact placed_withIndex h _
  | save d => exact K.save_placed (placed_withIndex h _)
  | get ref byId =>
    change (K.get r ref byId).2.Placed
    cases hfound : K.get r ref byId with
    | mk found u =>
      cases found with
      | ok d => exact hget (K.get_finds hfound)
      | error e => exact (K.get_error hfound).symm ▸ h
  | delete ref byId =>
    change (K.delete r ref byId).2.Placed
    unfold DefinitionKind.delete
    cases hfound : K.get r ref byId with
    | mk found u =>
      cases found with
      | error e => exact (K.get_error hfound).symm ▸ h
      | ok d => exact (placed_withIndex (hget (K.get_finds hfound)) _).deleteRecord _ _

/-- A definition stays absent unless a call registers it. -/
theorem Absent.call [DecidableEq D] {r : Repository} {i : String} (h : K.Absent r i) (op : KindOp D)
    (hop : ∀ d, op.published = some d → K.definitionId d ≠ i) : K.Absent (K.call r op) i := by
  cases op with
  | register d => exact h.insert (hop d rfl)
  | save d => exact h.save (hop d rfl)
  | get ref byId =>
    change K.Absent (K.get r ref byId).2 i
    cases hget : K.get r ref byId with
    | mk found u =>
      cases found with
      | ok d => exact (K.get_finds hget).absent_other h
      | error e => exact (K.get_error hget).symm ▸ h
  | delete ref byId =>
    change K.Absent (K.delete r ref byId).2 i
    unfold DefinitionKind.delete
    cases hget : K.get r ref byId with
    | mk found u =>
      cases found with
      | error e => exact (K.get_error hget).symm ▸ h
      | ok d => exact ((K.get_finds hget).absent_other h).unindex d

/-- What a kind finds is seen in its maps and under its keys. -/
theorem find_congr {r u : Repository} (hindex : K.index u = K.index r)
    (hbase : u.keyPrefix = r.keyPrefix) (hfetch : ∀ k, K.Key r k → u.fetch k = r.fetch k)
    (ref : String) (byId : Bool) : K.find u ref byId = K.find r ref byId := by
  have hload : K.loadRecord u = K.loadRecord r :=
    K.loadRecord_congr hbase fun x => hfetch _ (.inl ⟨x, rfl⟩)
  have hids : K.collectIds u = K.collectIds r := by
    rw [collectIds, collectIds, hindex, indexedIds_congr hbase (hfetch _ (.inr rfl))]
  cases byId with
  | true => rw [find_byId, find_byId, hindex, hload]
  | false =>
    rw [find_byName, find_byName, hindex, scanStorageForName, scanStorageForName, hids, hload]

end DefinitionKind

end PalmEngine.Persistence
