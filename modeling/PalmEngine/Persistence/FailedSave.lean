import PalmEngine.Lib.Fallible
import PalmEngine.Persistence.StorageKeys

/-!
# Saves that fail

A save enters the definition in the maps of the repository before it looks for a storage, and
before it writes anything. It raises when there is no storage, and wherever a `storage.set`
raises; what it has done by then stays. A save is modelled with the number of its writes that
still succeed, so that every point at which it can raise is met. The lookups and listings after a
save that raised are those from before exactly if they already gave the very definition.
-/

namespace PalmEngine.Persistence

open PalmEngine.Lib

/-- Why a save raises. -/
inductive SaveError where
  | storageNotConfigured
  | setFailed
  deriving DecidableEq, Repr

/-- A save that raises leaves the repository as it is at this point. -/
abbrev SaveM := Except (SaveError × Repository)

/-- A save under way: the repository, and how many `storage.set` calls still succeed. -/
structure Saving where
  repository : Repository
  sets : ℕ

namespace Saving

/-- The storage, which has to be there. -/
def requireStorage (s : Saving) : SaveM Saving :=
  if s.repository.storage.isSome then .ok s else .error (.storageNotConfigured, s.repository)

/-- `storage.set`, which raises when no more calls succeed. -/
def set (s : Saving) (k : String) (value : StoredValue) : SaveM Saving :=
  match s.sets with
  | 0 => .error (.setFailed, s.repository)
  | n + 1 => .ok ⟨s.repository.store k value, n⟩

/-- Add a revision number to the stored list of a flow. -/
def appendRevisionIndex (s : Saving) (flowId : String) (revision : ℕ) : SaveM Saving :=
  let current := s.repository.listedRevisions flowId
  if revision ∈ current then .ok s
  else s.set (s.repository.flowRevisionsIndexKey flowId)
    (.numbers ((current ++ [revision]).mergeSort (· ≤ ·)))

/-- Add an id to the stored list of a kind. -/
def updateIndex (s : Saving) (kind definitionId : String) : SaveM Saving :=
  let current := s.repository.indexedIds kind
  if definitionId ∈ current then .ok s
  else s.set (s.repository.indexKey kind) (.ids (current ++ [definitionId]))

end Saving

namespace Saving

variable {s t : Saving} {e : SaveError} {u : Repository}

theorem requireStorage_ok (h : s.requireStorage = .ok t) : t = s ∧ s.repository.storage.isSome := by
  unfold requireStorage at h
  split_ifs at h with hstorage
  cases h
  exact ⟨rfl, hstorage⟩

theorem requireStorage_error (h : s.requireStorage = .error (e, u)) :
    u = s.repository ∧ ¬ s.repository.storage.isSome := by
  unfold requireStorage at h
  split_ifs at h with hstorage
  cases h
  exact ⟨rfl, hstorage⟩

theorem set_ok {k : String} {value : StoredValue} (h : s.set k value = .ok t) :
    t.repository = s.repository.store k value ∧ s.sets ≠ 0 := by
  unfold set at h
  split at h
  · cases h
  · rename_i hsets
    cases h
    exact ⟨rfl, by omega⟩

theorem set_error {k : String} {value : StoredValue} (h : s.set k value = .error (e, u)) :
    u = s.repository ∧ s.sets = 0 := by
  unfold set at h
  split at h
  · rename_i hsets
    cases h
    exact ⟨rfl, hsets⟩
  · cases h

theorem appendRevisionIndex_ok {flowId : String} {n : ℕ} (h : s.appendRevisionIndex flowId n = .ok t) :
    t.repository = s.repository.appendRevisionIndex flowId n := by
  have happend : s.repository.appendRevisionIndex flowId n =
      if n ∈ s.repository.listedRevisions flowId then s.repository
      else s.repository.store (s.repository.flowRevisionsIndexKey flowId)
        (.numbers ((s.repository.listedRevisions flowId ++ [n]).mergeSort (· ≤ ·))) := rfl
  simp only [appendRevisionIndex] at h
  rw [happend]
  split_ifs at h ⊢
  · cases h
    rfl
  · exact (set_ok h).1

theorem appendRevisionIndex_error {flowId : String} {n : ℕ}
    (h : s.appendRevisionIndex flowId n = .error (e, u)) : u = s.repository := by
  simp only [appendRevisionIndex] at h
  split_ifs at h
  exact (set_error h).1

theorem updateIndex_error {kind definitionId : String}
    (h : s.updateIndex kind definitionId = .error (e, u)) : u = s.repository := by
  simp only [updateIndex] at h
  split_ifs at h
  exact (set_error h).1

end Saving

/-- The revision that a publication makes of a flow. -/
def Repository.nextPublished (r : Repository) (flow : FlowDefinition) : FlowDefinition :=
  { flow with revision := some (r.nextRevision flow.definitionId) }

/-- Publish and persist a flow revision, with so many writes that succeed. -/
def Repository.trySaveFlow (r : Repository) (sets : ℕ) (flow : FlowDefinition) : SaveM Saving := do
  let flowId := flow.definitionId
  let revision := r.nextRevision flowId
  let published := r.nextPublished flow
  let s : Saving := ⟨(r.cacheFlowRevision published).indexFlowLatest published, sets⟩
  let s ← s.requireStorage
  let s ← s.set (s.repository.flowRevisionKey flowId revision) (.record published.toStorageRecord)
  let s ← s.set (s.repository.flowLatestKey flowId) (.number revision)
  let s ← s.appendRevisionIndex flowId revision
  s.updateIndex "flow" flowId

/-- Register and persist a definition of a kind, with so many writes that succeed. -/
def DefinitionKind.trySave {D : Type} (K : DefinitionKind D) (r : Repository) (sets : ℕ)
    (definition : D) : SaveM Saving := do
  let s : Saving := ⟨K.insert r definition, sets⟩
  let s ← s.requireStorage
  let s ← s.set (s.repository.key K.kind (K.definitionId definition)) (K.toStorageRecord definition)
  s.updateIndex K.kind (K.definitionId definition)

/-- Save a definition, with so many writes that succeed. -/
def Repository.trySave (r : Repository) (sets : ℕ) : Definition → SaveM Saving
  | .flow flow => r.trySaveFlow sets flow
  | .process process => processKind.trySave r sets process
  | .schema schema => schemaKind.trySave r sets schema
  | .resource resource => resourceKind.trySave r sets resource

namespace Repository

/-- The flows of the given ids, without those that are not found. -/
def listFlowsFrom : Repository → List String → List FlowDefinition × Repository
  | r, [] => ([], r)
  | r, definitionId :: rest =>
    match r.getFlowById definitionId none with
    | (.ok flow, r') => (flow :: (listFlowsFrom r' rest).1, (listFlowsFrom r' rest).2)
    | (.error _, r') => listFlowsFrom r' rest

/-- All flows known in memory or in the stored list. -/
def listFlows (r : Repository) : List FlowDefinition × Repository := listFlowsFrom r r.collectIds

end Repository

namespace DefinitionKind

variable {D : Type} (K : DefinitionKind D)

/-- The definitions of the given ids, without those that are not found. -/
def listFrom : Repository → List String → List D × Repository
  | r, [] => ([], r)
  | r, definitionId :: rest =>
    match K.getById r definitionId with
    | (.ok definition, r') => (definition :: (listFrom r' rest).1, (listFrom r' rest).2)
    | (.error _, r') => listFrom r' rest

/-- All definitions of a kind known in memory or in the stored list. -/
def list (r : Repository) : List D × Repository := listFrom K r (K.collectIds r)

end DefinitionKind

namespace Repository

/-- All processes. -/
def listProcesses := processKind.list

/-- All state schemas. -/
def listSchemas := schemaKind.list

/-- All resources. -/
def listResources := resourceKind.list

/-- What can be asked of two repositories is answered alike: every lookup, the latest revision
and the revisions of every flow, and the listings. -/
structure SameAnswers (r u : Repository) : Prop where
  lookup : ∀ q, u.lookup q = r.lookup q
  latest : ∀ flowId, (u.getLatestRevision flowId).1 = (r.getLatestRevision flowId).1
  revisions : ∀ flowId, (u.listFlowRevisions flowId).1 = (r.listFlowRevisions flowId).1
  flows : u.listFlows.1 = r.listFlows.1
  processes : (u.listProcesses).1 = r.listProcesses.1
  schemas : (u.listSchemas).1 = r.listSchemas.1
  resources : (u.listResources).1 = r.listResources.1

end Repository

/-- What is found first is still so when a search finds nothing at a place where it was not. -/
theorem findSome?_of_agree {α β : Type*} {f g : α → Option β} {xs : List α} {x : α} {found : β}
    (h : xs.findSome? f = some found) (hx : f x ≠ some found) (hg : g x = none)
    (hfg : ∀ y ∈ xs, y ≠ x → g y = f y) : xs.findSome? g = some found := by
  induction xs with
  | nil => cases h
  | cons y ys ih =>
    rw [List.findSome?_cons] at h ⊢
    have hrest := fun hys => ih hys fun z hz => hfg z (List.mem_cons_of_mem _ hz)
    by_cases hy : y = x
    · subst hy
      rw [hg]
      cases hf : f y with
      | some v => exact absurd (hf.trans (by simpa [hf] using h)) hx
      | none => exact hrest (by simpa [hf] using h)
    · rw [hfg y List.mem_cons_self hy]
      cases hf : f y with
      | some v => simpa [hf] using h
      | none => exact hrest (by simpa [hf] using h)

/-- Sorted lists without repetition of the same elements are the same. -/
theorem sortedDedup_congr {α : Type*} [LinearOrder α] {xs ys : List α} (h : ∀ x, x ∈ xs ↔ x ∈ ys) :
    xs.dedup.mergeSort (· ≤ ·) = ys.dedup.mergeSort (· ≤ ·) := by
  have hsorted (zs : List α) : (zs.mergeSort (· ≤ ·)).Pairwise (· ≤ ·) := by
    have hpairwise := @List.pairwise_mergeSort α (fun a b => decide (a ≤ b))
      (fun a b c => by simpa using le_trans) (fun a b => by simpa using le_total a b) zs
    simpa using hpairwise
  refine List.Perm.eq_of_pairwise' (hsorted _) (hsorted _) ?_
  refine (List.mergeSort_perm _ _).trans (.trans ?_ (List.mergeSort_perm _ _).symm)
  refine (List.perm_ext_iff_of_nodup (List.nodup_dedup _) (List.nodup_dedup _)).mpr fun x => ?_
  rw [List.mem_dedup, List.mem_dedup, h]

namespace Repository

/-- Two repositories that have the same of the flows, in memory and stored. -/
structure SameFlowParts (r u : Repository) : Prop where
  flowsById_eq : u.flowsById = r.flowsById
  flowsByName_eq : u.flowsByName = r.flowsByName
  flowRevisions_eq : u.flowRevisions = r.flowRevisions
  flowLatestRevision_eq : u.flowLatestRevision = r.flowLatestRevision
  keyPrefix_eq : u.keyPrefix = r.keyPrefix
  fetch_eq : ∀ k, r.FlowsKey k → u.fetch k = r.fetch k

namespace SameFlowParts

variable {r u : Repository}

theorem cacheFlowRevision (h : r.SameFlowParts u) (flow : FlowDefinition) :
    (r.cacheFlowRevision flow).SameFlowParts (u.cacheFlowRevision flow) := by
  unfold Repository.cacheFlowRevision
  split
  · exact h
  · refine ⟨h.flowsById_eq, h.flowsByName_eq, ?_, ?_, h.keyPrefix_eq, h.fetch_eq⟩ <;>
      simp only [h.flowRevisions_eq, h.flowLatestRevision_eq]

theorem indexFlowLatest (h : r.SameFlowParts u) (flow : FlowDefinition) :
    (r.indexFlowLatest flow).SameFlowParts (u.indexFlowLatest flow) := by
  refine ⟨?_, ?_, h.flowRevisions_eq, h.flowLatestRevision_eq, h.keyPrefix_eq, h.fetch_eq⟩ <;>
    simp only [Repository.indexFlowLatest, h.flowsById_eq, h.flowsByName_eq]

theorem getFlowRevision (h : r.SameFlowParts u) (i : String) (m : ℕ) :
    (u.getFlowRevision i m).1 = (r.getFlowRevision i m).1 ∧
      (r.getFlowRevision i m).2.SameFlowParts (u.getFlowRevision i m).2 := by
  have hload : u.loadFlowRevisionRecord i m = r.loadFlowRevisionRecord i m := by
    rw [loadFlowRevisionRecord, loadFlowRevisionRecord, (flows_congr h.keyPrefix_eq h.fetch_eq).1]
  simp only [Repository.getFlowRevision, h.flowRevisions_eq, hload]
  split
  · exact ⟨rfl, h⟩
  · split
    · exact ⟨rfl, h.cacheFlowRevision _⟩
    · exact ⟨rfl, h⟩

theorem getFlowById (h : r.SameFlowParts u) (i : String) (revision : Option ℕ) :
    (u.getFlowById i revision).1 = (r.getFlowById i revision).1 ∧
      (r.getFlowById i revision).2.SameFlowParts (u.getFlowById i revision).2 := by
  obtain ⟨-, -, -, hlatest, hrecord⟩ := flows_congr h.keyPrefix_eq h.fetch_eq
  cases revision with
  | some m => exact h.getFlowRevision i m
  | none =>
    simp only [Repository.getFlowById, h.flowsById_eq, hlatest, hrecord]
    split
    · exact ⟨rfl, h⟩
    · split
      · exact h.getFlowRevision i _
      · split
        · exact ⟨rfl, h⟩
        · exact ⟨rfl, (h.cacheFlowRevision _).indexFlowLatest _⟩

theorem scanStorageForName (name : String) (ids : List String) (h : r.SameFlowParts u) :
    (Repository.scanStorageForName name u ids).1 = (Repository.scanStorageForName name r ids).1 ∧
      (Repository.scanStorageForName name r ids).2.SameFlowParts
        (Repository.scanStorageForName name u ids).2 := by
  induction ids generalizing r u with
  | nil => exact ⟨rfl, h⟩
  | cons i rest ih =>
    obtain ⟨hfound, hsame⟩ := h.getFlowById i none
    unfold Repository.scanStorageForName
    revert hfound hsame
    generalize u.getFlowById i none = got'
    generalize r.getFlowById i none = got
    rintro hfound hsame
    obtain ⟨found, r'⟩ := got
    obtain ⟨found', u'⟩ := got'
    cases hfound
    cases found with
    | error e => exact ih hsame
    | ok flow =>
      by_cases hname : flow.name = name
      · simpa [hname] using hsame
      · simpa [hname] using ih hsame

theorem collectIds (h : r.SameFlowParts u) : u.collectIds = r.collectIds := by
  change (u.flowsById.keys ++ u.indexedIds "flow").dedup.mergeSort (· ≤ ·) = _
  rw [h.flowsById_eq, (flows_congr h.keyPrefix_eq h.fetch_eq).2.2.1]
  rfl

theorem getFlowByName (h : r.SameFlowParts u) (name : String) (revision : Option ℕ) :
    (u.getFlowByName name revision).1 = (r.getFlowByName name revision).1 := by
  obtain ⟨hfound, hsame⟩ := scanStorageForName name r.collectIds h
  simp only [Repository.getFlowByName, h.flowsByName_eq, h.flowsById_eq, h.collectIds]
  split
  · rfl
  · split
    · split
      · rfl
      · exact (h.getFlowById _ _).1
    · revert hfound hsame
      generalize Repository.scanStorageForName name u r.collectIds = got'
      generalize Repository.scanStorageForName name r r.collectIds = got
      rintro hfound hsame
      obtain ⟨found, r'⟩ := got
      obtain ⟨found', u'⟩ := got'
      cases hfound
      cases found with
      | none => rfl
      | some loaded => exact (((hsame.cacheFlowRevision loaded).indexFlowLatest loaded).getFlowById _ _).1

theorem getLatestRevision (h : r.SameFlowParts u) (i : String) :
    (u.getLatestRevision i).1 = (r.getLatestRevision i).1 := by
  obtain ⟨-, -, -, hlatest, -⟩ := flows_congr h.keyPrefix_eq h.fetch_eq
  simp only [Repository.getLatestRevision, h.flowLatestRevision_eq, hlatest]
  split
  · rfl
  · split <;> rfl

theorem revisionNumbers (h : r.SameFlowParts u) (i : String) :
    u.revisionNumbers i = r.revisionNumbers i := by
  have hfetch := h.fetch_eq _ (flowsKey_list r i)
  have hkey := (keys_congr h.keyPrefix_eq).2.2.2.2
  simp only [Repository.revisionNumbers, h.flowRevisions_eq, h.flowLatestRevision_eq, hkey, hfetch]

theorem listFlowRevisions (h : r.SameFlowParts u) (i : String) :
    (u.listFlowRevisions i).1 = (r.listFlowRevisions i).1 := by
  obtain ⟨hfound, hsame⟩ := h.getFlowById i none
  unfold Repository.listFlowRevisions
  revert hfound hsame
  generalize u.getFlowById i none = got'
  generalize r.getFlowById i none = got
  rintro hfound hsame
  obtain ⟨found, r'⟩ := got
  obtain ⟨found', u'⟩ := got'
  cases hfound
  cases found with
  | error e => rfl
  | ok flow => exact congrArg Except.ok (revisionNumbers (r := r') (u := u') hsame i)

theorem listFlows (h : r.SameFlowParts u) : u.listFlows.1 = r.listFlows.1 := by
  have hfrom (ids : List String) : (listFlowsFrom u ids).1 = (listFlowsFrom r ids).1 := by
    induction ids generalizing r u with
    | nil => rfl
    | cons i rest ih =>
      obtain ⟨hfound, hsame⟩ := h.getFlowById i none
      unfold listFlowsFrom
      revert hfound hsame
      generalize u.getFlowById i none = got'
      generalize r.getFlowById i none = got
      rintro hfound hsame
      obtain ⟨found, r'⟩ := got
      obtain ⟨found', u'⟩ := got'
      cases hfound
      cases found with
      | error e => exact ih hsame
      | ok flow => exact congrArg (flow :: ·) (ih hsame)
  rw [Repository.listFlows, Repository.listFlows, h.collectIds, hfrom]

end SameFlowParts

end Repository

namespace DefinitionKind

open Repository

variable {D : Type} (K : DefinitionKind D)

/-- Something in memory has the name. -/
def InMemory (r : Repository) (n : String) : Prop :=
  (((K.index r).byName.get? n).or ((K.index r).byId.values.find? (K.name · = n))).isSome

/-- The lookups and the listing already give the definition, and if its document is written, no
lookup finds by another name, and only in the storage, a document under its id. -/
structure AlreadyFound (r : Repository) (sets : ℕ) (d : D) : Prop where
  byId : K.find r (K.definitionId d) true = some d
  byName : K.find r (K.name d) false = some d
  listed : d ∈ (K.list r).1
  overwritten : sets ≠ 0 → ∀ stored, K.loadRecord r (K.definitionId d) = some stored →
    K.name stored ≠ K.name d → K.find r (K.name stored) false = some stored →
      K.InMemory r (K.name stored)

/-- What a save that raises leaves: the definition is in both maps, and its document is stored
unless the first write failed. -/
theorem trySave_error {r u : Repository} {sets : ℕ} {d : D} {e : SaveError}
    (h : K.trySave r sets d = .error (e, u)) :
    u = if sets = 0 then K.insert r d
      else (K.insert r d).store ((K.insert r d).key K.kind (K.definitionId d))
        (K.toStorageRecord d) := by
  have hnone (v : Repository) (k : String) (value : StoredValue) (hv : ¬ v.storage.isSome) :
      v.store k value = v := by
    obtain ⟨storage⟩ := v
    cases storage with
    | none => rfl
    | some s => exact absurd rfl hv
  unfold trySave at h
  rcases except_bind_eq_error_iff.mp h with h | ⟨s, hs, h⟩
  · obtain ⟨hu, hstorage⟩ := Saving.requireStorage_error h
    rw [hu, hnone _ _ _ hstorage]
    split <;> rfl
  · obtain ⟨rfl, -⟩ := Saving.requireStorage_ok hs
    rcases except_bind_eq_error_iff.mp h with h | ⟨t, ht, h⟩
    · obtain ⟨hu, hsets⟩ := Saving.set_error h
      rw [hu, if_pos hsets]
    · obtain ⟨hset, hsets⟩ := Saving.set_ok ht
      rw [Saving.updateIndex_error h, hset, if_neg hsets]

/-- Loading by an id changes no lookup by id. -/
theorem find_getById {r : Repository} (hplaced : r.Placed) (i j : String) :
    K.find (K.getById r i).2 j true = K.find r j true := by
  unfold getById
  split
  · rfl
  · rename_i hnone
    split
    · rename_i loaded hload
      have hid := K.definitionId_of_loadRecord hplaced hload
      rw [find_byId, find_byId, index_insert, DefinitionKind.insert, loadRecord_withIndex]
      by_cases hj : j = i
      · subst hj
        rw [hnone, hload, ← hid, DefinitionIndex.insert, Dict.get?_set_self]
        rfl
      · rw [DefinitionIndex.insert, hid, Dict.get?_set_ne _ _ hj]
    · rfl

/-- Loading by an id leaves the documents where they are. -/
theorem placed_getById {r : Repository} (hplaced : r.Placed) (i : String) :
    (K.getById r i).2.Placed := by
  unfold getById
  split
  · exact hplaced
  · split
    · exact placed_withIndex hplaced _
    · exact hplaced

/-- A listing gives what the lookups by its ids find. -/
theorem listFrom_eq {r : Repository} (hplaced : r.Placed) (ids : List String) :
    (K.listFrom r ids).1 = ids.filterMap (K.find r · true) := by
  induction ids generalizing r with
  | nil => rfl
  | cons i rest ih =>
    have hfind : K.find r i true = (K.getById r i).1.toOption := rfl
    have hrest := ih (K.placed_getById hplaced i)
    have hsame : (K.find (K.getById r i).2 · true) = (K.find r · true) :=
      funext fun j => K.find_getById hplaced i j
    rw [hsame] at hrest
    rw [List.filterMap_cons, hfind, listFrom]
    split <;> rename_i hget <;> rw [hget] at hrest ⊢ <;> simp only [Except.toOption, hrest]

/-- What is listed is found under an id that is collected. -/
theorem mem_list {r : Repository} (hplaced : r.Placed) {d : D} :
    d ∈ (K.list r).1 ↔ ∃ i ∈ K.collectIds r, K.find r i true = some d := by
  rw [list, K.listFrom_eq hplaced, List.mem_filterMap]

/-- The ids that are collected are those in memory and in the stored list. -/
theorem mem_collectIds {r : Repository} {i : String} :
    i ∈ K.collectIds r ↔ i ∈ (K.index r).byId.keys ∨ i ∈ r.indexedIds K.kind := by
  rw [collectIds, List.mem_mergeSort, List.mem_dedup, List.mem_append]

/-- What a save of a kind that raised leaves, seen from its lookups: the definition is in the
maps, and the document under its id may be replaced by one with its name. -/
structure SavedPartly (r : Repository) (sets : ℕ) (d : D) (u : Repository) : Prop where
  index_eq : K.index u = (K.index r).insert (K.definitionId d) (K.name d) d
  indexedIds_eq : u.indexedIds K.kind = r.indexedIds K.kind
  loadRecord_ne : ∀ i, i ≠ K.definitionId d → K.loadRecord u i = K.loadRecord r i
  loadRecord_self : sets = 0 ∨ r.storage.isNone →
    K.loadRecord u (K.definitionId d) = K.loadRecord r (K.definitionId d)
  loadRecord_name : sets ≠ 0 → r.storage.isSome →
    ∀ stored, K.loadRecord u (K.definitionId d) = some stored → K.name stored = K.name d
  placed : r.Placed → u.Placed
  acts : K.Acts r u
  flowLatestRevision_eq : u.flowLatestRevision = r.flowLatestRevision

/-- The names of the stored documents of a kind are those of its definitions. -/
def KeepsNames : Prop :=
  ∀ d d', K.fromDict (K.toStorageRecord d) = some d' → K.name d' = K.name d

theorem process_keepsNames : processKind.KeepsNames := fun d d' h => by cases h; rfl

theorem schema_keepsNames : schemaKind.KeepsNames := fun d d' h => by cases h; rfl

theorem resource_keepsNames : resourceKind.KeepsNames := fun d d' h => by cases h; rfl

/-- A save that raises leaves this. -/
theorem savedPartly (hnames : K.KeepsNames) {r u : Repository} {sets : ℕ} {d : D} {e : SaveError}
    (h : K.trySave r sets d = .error (e, u)) : K.SavedPartly r sets d u := by
  have hu := K.trySave_error h
  have hplaced (hr : r.Placed) : (K.insert r d).Placed := placed_withIndex hr _
  have hload : K.loadRecord (K.insert r d) = K.loadRecord r := K.loadRecord_withIndex r _
  have hstorage : (K.insert r d).storage = r.storage := (K.withIndex_eq r _).1
  have hindexed : (K.insert r d).indexedIds K.kind = r.indexedIds K.kind :=
    indexedIds_congr (K.withIndex_eq r _).2.1 (by rw [DefinitionKind.insert, K.fetch_withIndex])
  split_ifs at hu with hsets
  · subst hu
    exact ⟨K.index_insert r d, hindexed, fun i _ => by rw [hload], fun _ => by rw [hload],
      fun hne => absurd hsets hne, hplaced, K.acts_withIndex r _, (K.withIndex_eq r _).2.2.2.2.2⟩
  · have hwrites := store_writesAt (K.insert r d) ((K.insert r d).key K.kind (K.definitionId d))
      (K.toStorageRecord d)
    rw [← hu] at hwrites
    have hfetch (i : String) : u.fetch ((K.insert r d).key K.kind i) =
        if i = K.definitionId d then r.storage.map fun _ => K.toStorageRecord d
        else (K.insert r d).fetch ((K.insert r d).key K.kind i) := by
      rw [hu, fetch_store, hstorage]
      simp only [key_inj K.kind_colon K.kind_colon, true_and]
    have hloadU (i : String) : K.loadRecord u i = if i = K.definitionId d then
        (r.storage.map fun _ => K.toStorageRecord d).bind K.fromDict else K.loadRecord r i := by
      rw [← hload, loadRecord, (keys_congr hwrites.keyPrefix_eq).1, hfetch]
      split <;> rfl
    refine ⟨(K.index_of_writesAt hwrites).trans (K.index_insert r d), ?_, fun i hi => ?_,
      fun hnone => ?_, fun _ hsome stored hstored => ?_, fun hr => ?_, ?_, ?_⟩
    · refine (indexedIds_congr hwrites.keyPrefix_eq (hwrites.fetch_eq _ ?_)).trans hindexed
      rw [indexKey_eq_key]
      exact key_ne_of_kind _ _ _ (by decide) K.kind_colon K.kind_ne.2.symm
    · rw [hloadU, if_neg hi]
    · have hnone := Option.isNone_iff_eq_none.mp (hnone.resolve_left hsets)
      rw [hloadU, if_pos rfl, loadRecord, fetch, hnone]
      rfl
    · rw [hloadU, if_pos rfl] at hstored
      obtain ⟨s, hs⟩ := Option.isSome_iff_exists.mp hsome
      rw [hs] at hstored
      exact hnames d stored hstored
    · rw [hu]
      refine (hplaced hr).store (fun place hplace => ?_) fun flow hflow => ?_
      · rw [K.document_toStorageRecord] at hplace
        rw [← Option.some.inj hplace]
      · have hdocument := K.document_toStorageRecord d
        rw [hflow] at hdocument
        cases hdocument
    · exact (K.acts_withIndex r _).trans
        (K.acts_of_writesAt (hwrites.mono fun k hk => .inl ⟨_, hk⟩))
    · rw [hu]
      exact (K.withIndex_eq r _).2.2.2.2.2

variable {K}

section Partly

variable {r u : Repository} {sets : ℕ} {d : D} (h : K.SavedPartly r sets d u)
include h

/-- The definition is found by its id and by its name. -/
theorem SavedPartly.find_self :
    K.find u (K.definitionId d) true = some d ∧ K.find u (K.name d) false = some d := by
  rw [find_byId, find_byName, h.index_eq, DefinitionIndex.insert, Dict.get?_set_self,
    Dict.get?_set_self]
  exact ⟨rfl, rfl⟩

/-- Other ids lead where they led. -/
theorem SavedPartly.find_ne {i : String} (hi : i ≠ K.definitionId d) :
    K.find u i true = K.find r i true := by
  rw [find_byId, find_byId, h.index_eq, DefinitionIndex.insert, Dict.get?_set_ne _ _ hi,
    h.loadRecord_ne i hi]

/-- If the id led to the definition, every id leads where it led. -/
theorem SavedPartly.find_byId_eq (hfound : K.find r (K.definitionId d) true = some d) (i : String) :
    K.find u i true = K.find r i true := by
  by_cases hi : i = K.definitionId d
  · rw [hi, h.find_self.1, hfound]
  · exact h.find_ne hi

/-- If the id led to the definition, what is in memory under another name is as before. -/
theorem SavedPartly.memory_eq (hfound : K.find r (K.definitionId d) true = some d) {n : String}
    (hn : n ≠ K.name d) :
    (((K.index u).byName.get? n).or ((K.index u).byId.values.find? (K.name · = n))) =
      ((K.index r).byName.get? n).or ((K.index r).byId.values.find? (K.name · = n)) := by
  have hvalues : ((K.index r).byId.set (K.definitionId d) d).values.find? (K.name · = n) =
      (K.index r).byId.values.find? (K.name · = n) := by
    by_cases hkey : K.definitionId d ∈ (K.index r).byId.keys
    · obtain ⟨found, hget⟩ := (Dict.mem_keys_iff _ _).mp hkey
      have hsame : found = d := by
        rw [find_byId, hget] at hfound
        exact Option.some.inj hfound
      rw [Dict.set_of_get? (hsame ▸ hget)]
    · rw [Dict.values, Dict.entries_set_of_not_mem hkey, List.map_append, List.find?_append]
      simp [Dict.values, Ne.symm hn]
  rw [h.index_eq, DefinitionIndex.insert, Dict.get?_set_ne _ _ hn, hvalues]

/-- If the definition was listed, the same ids are collected. -/
theorem SavedPartly.collectIds_eq (hplaced : r.Placed) (hkeyed : K.Keyed (K.index r))
    (hlisted : d ∈ (K.list r).1) : K.collectIds u = K.collectIds r := by
  obtain ⟨i, hi, hfind⟩ := (K.mem_list hplaced).mp hlisted
  have hid : K.definitionId d = i := by
    rw [find_byId] at hfind
    rcases Option.or_eq_some_iff.mp hfind with hcached | ⟨-, hload⟩
    · exact hkeyed.byId i d hcached
    · exact K.definitionId_of_loadRecord hplaced hload
  rw [mem_collectIds] at hi
  refine sortedDedup_congr fun j => ?_
  rw [List.mem_append, List.mem_append, h.indexedIds_eq, h.index_eq, DefinitionIndex.insert,
    Dict.mem_keys_set]
  by_cases hj : j = K.definitionId d
  · simp only [hj, true_or, true_iff]
    exact hid ▸ hi
  · simp [hj]

/-- If the definition was already found, a scan for another name which leads nowhere in memory finds
what it found. -/
theorem SavedPartly.scan_eq (hplaced : r.Placed) (hkeyed : K.Keyed (K.index r))
    (hsaved : K.AlreadyFound r sets d) {n : String} (hn : n ≠ K.name d)
    (hmemory : ((K.index r).byName.get? n).or
      ((K.index r).byId.values.find? (K.name · = n)) = none) :
    K.scanStorageForName u n = K.scanStorageForName r n := by
  set f := fun i => (K.loadRecord r i).filter (K.name · = n)
  set g := fun i => (K.loadRecord u i).filter (K.name · = n)
  have hne (i : String) (hi : i ≠ K.definitionId d) : g i = f i := by
    simp only [f, g, h.loadRecord_ne i hi]
  have hscan : K.scanStorageForName r n = (K.collectIds r).findSome? f := rfl
  change (K.collectIds u).findSome? g = (K.collectIds r).findSome? f
  rw [h.collectIds_eq hplaced hkeyed hsaved.listed]
  by_cases hwritten : sets = 0 ∨ r.storage.isNone
  · have hself : g (K.definitionId d) = f (K.definitionId d) := by
      simp only [f, g, h.loadRecord_self hwritten]
    have hgf : g = f := funext fun i => (eq_or_ne i (K.definitionId d)).elim (· ▸ hself) (hne i)
    rw [hgf]
  · rw [not_or] at hwritten
    have hsome : r.storage.isSome := Option.isSome_iff_ne_none.mpr (by simpa using hwritten.2)
    have hself : g (K.definitionId d) = none := by
      refine Option.filter_eq_none_iff.mpr fun stored hstored hname => hn ?_
      exact (of_decide_eq_true hname).symm.trans (h.loadRecord_name hwritten.1 hsome stored hstored)
    cases hf : f (K.definitionId d) with
    | none =>
      have hgf : g = f := funext fun i =>
        (eq_or_ne i (K.definitionId d)).elim (· ▸ hself.trans hf.symm) (hne i)
      rw [hgf]
    | some stored =>
      obtain ⟨hstored, hname⟩ := Option.filter_eq_some_iff.mp hf
      have hname : K.name stored = n := of_decide_eq_true hname
      -- the document under the id is not what the lookup found
      have hother : (K.collectIds r).findSome? f ≠ some stored := by
        intro hfound
        have hin := hsaved.overwritten hwritten.1 stored hstored (hname ▸ hn) (by
          rw [find_byName, hname, hmemory, hscan, hfound]
          rfl)
        rw [InMemory, hname, hmemory] at hin
        cases hin
      cases hfound : (K.collectIds r).findSome? f with
      | none =>
        refine List.findSome?_eq_none_iff.mpr fun i hi => ?_
        by_cases hid : i = K.definitionId d
        · exact hid ▸ hself
        · exact (hne i hid).trans (List.findSome?_eq_none_iff.mp hfound i hi)
      | some found =>
        refine findSome?_of_agree hfound (fun heq => hother ?_) hself fun i _ => hne i
        rw [hfound, ← heq, hf]

/-- If the definition was already found, every lookup gives what it gave. -/
theorem SavedPartly.find_eq (hplaced : r.Placed) (hkeyed : K.Keyed (K.index r))
    (hsaved : K.AlreadyFound r sets d) (ref : String) (byId : Bool) :
    K.find u ref byId = K.find r ref byId := by
  cases byId with
  | true => exact h.find_byId_eq hsaved.byId ref
  | false =>
    by_cases hn : ref = K.name d
    · rw [hn, h.find_self.2, hsaved.byName]
    · rw [find_byName, find_byName, h.memory_eq hsaved.byId hn]
      cases hmemory : ((K.index r).byName.get? ref).or
          ((K.index r).byId.values.find? (K.name · = ref)) with
      | some found => rfl
      | none => exact h.scan_eq hplaced hkeyed hsaved hn hmemory

/-- If the definition was already found, the listing is what it was. -/
theorem SavedPartly.list_eq (hplaced : r.Placed) (hkeyed : K.Keyed (K.index r))
    (hsaved : K.AlreadyFound r sets d) : (K.list u).1 = (K.list r).1 := by
  have hfind : (K.find u · true) = (K.find r · true) := funext fun i => h.find_byId_eq hsaved.byId i
  rw [list, list, K.listFrom_eq hplaced, K.listFrom_eq (h.placed hplaced),
    h.collectIds_eq hplaced hkeyed hsaved.listed, hfind]

/-- If every lookup and the listing give what they gave, the definition was already found. -/
theorem SavedPartly.alreadyFound (hplaced : r.Placed)
    (hfind : ∀ ref byId, K.find u ref byId = K.find r ref byId)
    (hlist : (K.list u).1 = (K.list r).1) : K.AlreadyFound r sets d := by
  have hbyId := (hfind (K.definitionId d) true).symm.trans h.find_self.1
  refine ⟨hbyId, (hfind _ false).symm.trans h.find_self.2, ?_, ?_⟩
  · rw [← hlist, K.mem_list (h.placed hplaced)]
    refine ⟨K.definitionId d, K.mem_collectIds.mpr (.inl ?_), h.find_self.1⟩
    rw [h.index_eq, DefinitionIndex.insert, Dict.mem_keys_set]
    exact .inl rfl
  · intro hsets stored hstored hname hfound
    by_contra hmemory
    have hsome : r.storage.isSome := by
      obtain ⟨value, hfetch, -⟩ := Option.bind_eq_some_iff.mp hstored
      exact isSome_of_fetch hfetch
    have hnone := Option.not_isSome_iff_eq_none.mp hmemory
    -- the document was found in the storage only, and it is no longer there
    have hscan := hfind (K.name stored) false
    rw [hfound, find_byName, h.memory_eq hbyId hname, hnone, Option.none_or] at hscan
    obtain ⟨i, -, hi⟩ := List.exists_of_findSome?_eq_some hscan
    have hload := (Option.filter_eq_some_iff.mp hi).1
    by_cases hid : i = K.definitionId d
    · exact hname (h.loadRecord_name hsets hsome stored (hid ▸ hload))
    · rw [h.loadRecord_ne i hid] at hload
      exact hid ((K.definitionId_of_loadRecord hplaced hload).symm.trans
        (K.definitionId_of_loadRecord hplaced hstored))

end Partly

/-- The lookups and the listing of a kind are the same. -/
def SameFound (K : DefinitionKind D) (r u : Repository) : Prop :=
  (∀ ref byId, K.find u ref byId = K.find r ref byId) ∧ (K.list u).1 = (K.list r).1

/-- After a save that raised, the lookups and the listing of the kind are the same exactly if they
already gave the definition. -/
theorem SavedPartly.sameFound_iff {r u : Repository} {sets : ℕ} {d : D}
    (h : K.SavedPartly r sets d u) (hplaced : r.Placed) (hkeyed : K.Keyed (K.index r)) :
    K.SameFound r u ↔ K.AlreadyFound r sets d :=
  ⟨fun hsame => h.alreadyFound hplaced hsame.1 hsame.2,
    fun hsaved => ⟨h.find_eq hplaced hkeyed hsaved, h.list_eq hplaced hkeyed hsaved⟩⟩

/-- What is done about one kind changes nothing that is found of another. -/
theorem Acts.sameFound {D' : Type} {K' : DefinitionKind D'} {r u : Repository} (h : K.Acts r u)
    (hapart : K.Apart K') (hr : r.Placed) (hu : u.Placed) : K'.SameFound r u := by
  have hfind := h.find_eq hapart
  have hids : K'.collectIds u = K'.collectIds r := by
    rw [collectIds, collectIds, h.index_eq K' hapart, indexedIds_congr h.keyPrefix_eq
      (h.fetch_eq _ (hapart.not_key (.inr rfl)))]
  refine ⟨hfind, ?_⟩
  rw [list, list, K'.listFrom_eq hr, K'.listFrom_eq hu, hids]
  exact congrArg (List.filterMap · _) (funext fun i => hfind i true)

/-- A save of a kind that raised changes nothing of the flows. -/
theorem SavedPartly.sameFlowParts {r u : Repository} {sets : ℕ} {d : D}
    (h : K.SavedPartly r sets d u) : r.SameFlowParts u :=
  ⟨h.acts.flowsById_eq, h.acts.flowsByName_eq, h.acts.flowRevisions_eq, h.flowLatestRevision_eq,
    h.acts.keyPrefix_eq, fun k hk => h.acts.fetch_eq k fun hin => K.not_flowsKey hin hk⟩

end DefinitionKind

namespace Repository

/-- Repositories with the same of the flows answer alike exactly if the other kinds are found
alike. -/
theorem SameFlowParts.sameAnswers_iff {r u : Repository} (h : r.SameFlowParts u) :
    r.SameAnswers u ↔ processKind.SameFound r u ∧ schemaKind.SameFound r u ∧
      resourceKind.SameFound r u := by
  constructor
  · intro hsame
    refine ⟨⟨fun ref byId => ?_, hsame.processes⟩, ⟨fun ref byId => ?_, hsame.schemas⟩,
      ⟨fun ref byId => ?_, hsame.resources⟩⟩
    · exact Option.map_injective (fun _ _ => Definition.process.inj)
        (hsame.lookup (.process ref byId))
    · exact Option.map_injective (fun _ _ => Definition.schema.inj)
        (hsame.lookup (.schema ref byId))
    · exact Option.map_injective (fun _ _ => Definition.resource.inj)
        (hsame.lookup (.resource ref byId))
  · rintro ⟨hprocess, hschema, hresource⟩
    refine ⟨fun q => ?_, h.getLatestRevision, h.listFlowRevisions, h.listFlows, hprocess.2,
      hschema.2, hresource.2⟩
    cases q with
    | flow ref byId revision =>
      refine congrArg (Option.map Definition.flow) (congrArg Except.toOption ?_)
      cases byId with
      | true => exact (h.getFlowById ref revision).1
      | false => exact h.getFlowByName ref revision
    | process ref byId => exact congrArg (Option.map Definition.process) (hprocess.1 ref byId)
    | schema ref byId => exact congrArg (Option.map Definition.schema) (hschema.1 ref byId)
    | resource ref byId => exact congrArg (Option.map Definition.resource) (hresource.1 ref byId)

end Repository

end PalmEngine.Persistence
