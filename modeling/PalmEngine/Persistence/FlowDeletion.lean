import PalmEngine.Persistence.DefinitionStorage

/-!
# Deleting a flow

A flow is found in one of the maps, among the cached revisions or among the stored documents, and
what loads one only caches and indexes what it has found. A deletion takes the flow out of all of
them, if every name that leads to its id leads to the flow that the deletion has found, and if
nothing of another flow is stored under its key; lookups of other flows then find what they found.
-/

namespace PalmEngine.Persistence

open PalmEngine.Lib

/-- A flow restored from a record without revisions is its first revision. -/
def FlowDefinition.fromPlain (record : FlowDefinition) : FlowDefinition :=
  let flow := FlowDefinition.fromDict record
  { flow with revision := some (flow.revision.getD 1) }

namespace Repository

/-- A flow with the id is in one of the maps, a cached revision or a stored document. -/
inductive HasFlow (r : Repository) (id : String) : Prop
  | byId (i : String) (flow : FlowDefinition) :
      r.flowsById.get? i = some flow → flow.definitionId = id → HasFlow r id
  | byName (n : String) (flow : FlowDefinition) :
      r.flowsByName.get? n = some flow → flow.definitionId = id → HasFlow r id
  | revision (i : String) (revisions : Dict ℕ FlowDefinition) (m : ℕ) (flow : FlowDefinition) :
      r.flowRevisions.get? i = some revisions → revisions.get? m = some flow →
      flow.definitionId = id → HasFlow r id
  | stored (k : String) (flow : FlowDefinition) :
      r.fetch k = some (.record flow) → flow.definitionId = id → HasFlow r id

/-- Loading flows: caching and indexing what is there, and moving counters. -/
inductive FlowLoads (r : Repository) : Repository → Prop
  | refl : FlowLoads r r
  | cache {u : Repository} : FlowLoads r u → ∀ flow : FlowDefinition,
      r.HasFlow flow.definitionId → FlowLoads r (u.cacheFlowRevision flow)
  | index {u : Repository} : FlowLoads r u → ∀ flow : FlowDefinition,
      r.HasFlow flow.definitionId → FlowLoads r (u.indexFlowLatest flow)
  | counter {u : Repository} : FlowLoads r u → ∀ (i : String) (n : ℕ),
      FlowLoads r { u with flowLatestRevision := u.flowLatestRevision.set i n }

/-- The maps have each flow under its own id and name, and the cached revisions under their own id
and number. -/
structure FlowsKeyed (r : Repository) : Prop where
  byId : ∀ i flow, r.flowsById.get? i = some flow → flow.definitionId = i
  byName : ∀ n flow, r.flowsByName.get? n = some flow → flow.name = n
  revision : ∀ i revisions m flow, r.flowRevisions.get? i = some revisions →
    revisions.get? m = some flow → flow.definitionId = i ∧ flow.revision = some m

/-- What caching a flow leaves of the cached revisions. -/
theorem flowRevisions_cacheFlowRevision {r : Repository} {flow : FlowDefinition} {i : String}
    {revisions : Dict ℕ FlowDefinition} {m : ℕ} {found : FlowDefinition}
    (h : (r.cacheFlowRevision flow).flowRevisions.get? i = some revisions)
    (hm : revisions.get? m = some found) :
    (found = flow ∧ i = flow.definitionId ∧ flow.revision = some m) ∨
      ∃ old, r.flowRevisions.get? i = some old ∧ old.get? m = some found := by
  cases hrevision : flow.revision with
  | none =>
    rw [cacheFlowRevision, hrevision] at h
    exact .inr ⟨revisions, h, hm⟩
  | some n =>
    simp only [cacheFlowRevision, hrevision] at h
    by_cases hi : i = flow.definitionId
    · subst hi
      rw [Dict.get?_set_self] at h
      obtain rfl := Option.some.inj h
      by_cases hn : m = n
      · subst hn
        rw [Dict.get?_set_self] at hm
        exact .inl ⟨(Option.some.inj hm).symm, rfl, rfl⟩
      · rw [Dict.get?_set_ne _ _ hn] at hm
        cases hold : r.flowRevisions.get? flow.definitionId with
        | none => simp [hold] at hm
        | some old => exact .inr ⟨old, rfl, by simpa [hold] using hm⟩
    · rw [Dict.get?_set_ne _ _ hi] at h
      exact .inr ⟨revisions, h, hm⟩

/-- Caching a flow changes the cached revisions and the counter only. -/
theorem cacheFlowRevision_frame (r : Repository) (flow : FlowDefinition) :
    (r.cacheFlowRevision flow).flowsById = r.flowsById ∧
      (r.cacheFlowRevision flow).flowsByName = r.flowsByName ∧
      (r.cacheFlowRevision flow).storage = r.storage ∧
      (r.cacheFlowRevision flow).keyPrefix = r.keyPrefix ∧
      (r.cacheFlowRevision flow).processes = r.processes ∧
      (r.cacheFlowRevision flow).schemas = r.schemas ∧
      (r.cacheFlowRevision flow).resources = r.resources := by
  unfold cacheFlowRevision
  split <;> exact ⟨rfl, rfl, rfl, rfl, rfl, rfl, rfl⟩

theorem FlowsKeyed.cache {r : Repository} (h : r.FlowsKeyed) (flow : FlowDefinition) :
    (r.cacheFlowRevision flow).FlowsKeyed := by
  obtain ⟨hbyId, hbyName, -⟩ := cacheFlowRevision_frame r flow
  refine ⟨hbyId ▸ h.byId, hbyName ▸ h.byName, fun i revisions m found hget hm => ?_⟩
  rcases flowRevisions_cacheFlowRevision hget hm with ⟨rfl, hi, hrevision⟩ | ⟨old, hold, hm⟩
  · exact ⟨hi.symm, hrevision⟩
  · exact h.revision i old m found hold hm

theorem FlowsKeyed.index {r : Repository} (h : r.FlowsKeyed) (flow : FlowDefinition) :
    (r.indexFlowLatest flow).FlowsKeyed := by
  refine ⟨fun i found hget => ?_, fun n found hget => ?_, h.revision⟩
  · by_cases hi : i = flow.definitionId
    · rw [hi, indexFlowLatest, Dict.get?_set_self] at hget
      rw [hi, ← Option.some.inj hget]
    · rw [indexFlowLatest, Dict.get?_set_ne _ _ hi] at hget
      exact h.byId i found hget
  · by_cases hn : n = flow.name
    · rw [hn, indexFlowLatest, Dict.get?_set_self] at hget
      rw [hn, ← Option.some.inj hget]
    · rw [indexFlowLatest, Dict.get?_set_ne _ _ hn] at hget
      exact h.byName n found hget

/-- Caching a flow adds no other flow. -/
theorem HasFlow.of_cache {r : Repository} {flow : FlowDefinition} {id : String}
    (h : (r.cacheFlowRevision flow).HasFlow id) : r.HasFlow id ∨ flow.definitionId = id := by
  obtain ⟨hbyId, hbyName, hstorage, -⟩ := cacheFlowRevision_frame r flow
  cases h with
  | byId i found hget hid => exact .inl (.byId i found (hbyId ▸ hget) hid)
  | byName n found hget hid => exact .inl (.byName n found (hbyName ▸ hget) hid)
  | revision i revisions m found hget hm hid =>
    rcases flowRevisions_cacheFlowRevision hget hm with ⟨rfl, -, -⟩ | ⟨old, hold, hm⟩
    · exact .inr hid
    · exact .inl (.revision i old m found hold hm hid)
  | stored k found hget hid =>
    rw [fetch, hstorage] at hget
    exact .inl (.stored k found hget hid)

/-- Indexing a flow adds no other flow. -/
theorem HasFlow.of_index {r : Repository} {flow : FlowDefinition} {id : String}
    (h : (r.indexFlowLatest flow).HasFlow id) : r.HasFlow id ∨ flow.definitionId = id := by
  cases h with
  | byId i found hget hid =>
    by_cases hi : i = flow.definitionId
    · rw [hi, indexFlowLatest, Dict.get?_set_self] at hget
      exact .inr (Option.some.inj hget ▸ hid)
    · rw [indexFlowLatest, Dict.get?_set_ne _ _ hi] at hget
      exact .inl (.byId i found hget hid)
  | byName n found hget hid =>
    by_cases hn : n = flow.name
    · rw [hn, indexFlowLatest, Dict.get?_set_self] at hget
      exact .inr (Option.some.inj hget ▸ hid)
    · rw [indexFlowLatest, Dict.get?_set_ne _ _ hn] at hget
      exact .inl (.byName n found hget hid)
  | revision i revisions m found hget hm hid => exact .inl (.revision i revisions m found hget hm hid)
  | stored k found hget hid => exact .inl (.stored k found hget hid)

/-- Loading adds no flow. -/
theorem FlowLoads.hasFlow {r u : Repository} (h : r.FlowLoads u) {id : String} (hid : u.HasFlow id) :
    r.HasFlow id := by
  induction h generalizing id with
  | refl => exact hid
  | cache _ flow hflow ih => exact hid.of_cache.elim ih fun heq => heq ▸ hflow
  | index _ flow hflow ih => exact hid.of_index.elim ih fun heq => heq ▸ hflow
  | counter _ i n ih =>
    refine ih ?_
    cases hid with
    | byId i found hget hid => exact .byId i found hget hid
    | byName n found hget hid => exact .byName n found hget hid
    | revision i revisions m found hget hm hid => exact .revision i revisions m found hget hm hid
    | stored k found hget hid => exact .stored k found hget hid

theorem FlowLoads.trans {r u v : Repository} (h : r.FlowLoads u) (h' : u.FlowLoads v) :
    r.FlowLoads v := by
  induction h' with
  | refl => exact h
  | cache _ flow hflow ih => exact ih.cache flow (h.hasFlow hflow)
  | index _ flow hflow ih => exact ih.index flow (h.hasFlow hflow)
  | counter _ i n ih => exact ih.counter i n

/-- Loading keeps the maps keyed. -/
theorem FlowLoads.keyed {r u : Repository} (h : r.FlowLoads u) (hkeyed : r.FlowsKeyed) :
    u.FlowsKeyed := by
  induction h with
  | refl => exact hkeyed
  | cache _ flow _ ih => exact ih.cache flow
  | index _ flow _ ih => exact ih.index flow
  | counter _ i n ih => exact ⟨ih.byId, ih.byName, ih.revision⟩

/-- Loading changes neither what is stored nor what is in memory of the other kinds. -/
theorem FlowLoads.frame {r u : Repository} (h : r.FlowLoads u) :
    u.storage = r.storage ∧ u.keyPrefix = r.keyPrefix ∧ u.processes = r.processes ∧
      u.schemas = r.schemas ∧ u.resources = r.resources := by
  induction h with
  | refl => exact ⟨rfl, rfl, rfl, rfl, rfl⟩
  | @cache u _ flow _ ih =>
    obtain ⟨-, -, hstorage, hbase, hprocesses, hschemas, hresources⟩ := cacheFlowRevision_frame u flow
    exact ⟨hstorage.trans ih.1, hbase.trans ih.2.1, hprocesses.trans ih.2.2.1,
      hschemas.trans ih.2.2.2.1, hresources.trans ih.2.2.2.2⟩
  | index _ flow _ ih => exact ih
  | counter _ i n ih => exact ih

/-- The id of a flow is that of its record. -/
theorem definitionId_fromDict (flow : FlowDefinition) :
    (FlowDefinition.fromDict flow).definitionId = flow.definitionId := rfl

/-- What is found by a revision is there, and finding it loads. -/
theorem getFlowRevision_loads (r : Repository) (i : String) (m : ℕ) :
    r.FlowLoads (r.getFlowRevision i m).2 ∧
      ∀ flow, (r.getFlowRevision i m).1 = .ok flow → r.HasFlow flow.definitionId := by
  unfold getFlowRevision
  split
  · rename_i cached hcached
    obtain ⟨revisions, hrevisions, hm⟩ := Option.bind_eq_some_iff.mp hcached
    refine ⟨.refl, fun flow hflow => ?_⟩
    cases hflow
    exact .revision i revisions m cached hrevisions hm rfl
  · split
    · rename_i record hload
      have hrecord : r.HasFlow (FlowDefinition.fromDict record).definitionId :=
        .stored _ record (fetch_of_loadFlowRevisionRecord hload) rfl
      refine ⟨FlowLoads.refl.cache _ hrecord, fun flow hflow => ?_⟩
      cases hflow
      exact hrecord
    · exact ⟨.refl, fun flow hflow => by cases hflow⟩

/-- What is found by an id is there, and finding it loads. -/
theorem getFlowById_loads (r : Repository) (i : String) (revision : Option ℕ) :
    r.FlowLoads (r.getFlowById i revision).2 ∧
      ∀ flow, (r.getFlowById i revision).1 = .ok flow → r.HasFlow flow.definitionId := by
  unfold getFlowById
  split
  · exact getFlowRevision_loads r i _
  · split
    · rename_i cached hcached
      refine ⟨.refl, fun flow hflow => ?_⟩
      cases hflow
      exact .byId i cached hcached rfl
    · split
      · exact getFlowRevision_loads r i _
      · split
        · exact ⟨.refl, fun flow hflow => by cases hflow⟩
        · rename_i record hload
          have hrecord : r.HasFlow (FlowDefinition.fromDict record).definitionId := by
            unfold loadRecord at hload
            split at hload <;> cases hload
            rename_i hfetch
            exact .stored _ record hfetch rfl
          have hnumbered (n : Option ℕ) :
              r.HasFlow { FlowDefinition.fromDict record with revision := n }.definitionId := hrecord
          refine ⟨(FlowLoads.refl.cache _ (hnumbered _)).index _ (hnumbered _),
            fun flow hflow => ?_⟩
          cases hflow
          exact hrecord

/-- What a scan finds is there and has the name, and scanning loads. -/
theorem scanStorageForName_loads (name : String) (r : Repository) (ids : List String) :
    r.FlowLoads (scanStorageForName name r ids).2 ∧
      ∀ flow, (scanStorageForName name r ids).1 = some flow → r.HasFlow flow.definitionId := by
  induction ids generalizing r with
  | nil => exact ⟨.refl, fun flow hflow => by cases hflow⟩
  | cons i rest ih =>
    obtain ⟨hload, hfound⟩ := getFlowById_loads r i none
    unfold scanStorageForName
    split
    · rename_i flow u hget
      rw [hget] at hload hfound
      split
      · refine ⟨hload, fun flow' hflow => ?_⟩
        cases hflow
        exact hfound flow rfl
      · exact ⟨hload.trans (ih u).1, fun flow' hflow => hload.hasFlow ((ih u).2 flow' hflow)⟩
    · rename_i e u hget
      rw [hget] at hload
      exact ⟨hload.trans (ih u).1, fun flow' hflow => hload.hasFlow ((ih u).2 flow' hflow)⟩

/-- What is found by a name is there, and finding it loads. -/
theorem getFlowByName_loads (r : Repository) (name : String) (revision : Option ℕ) :
    r.FlowLoads (r.getFlowByName name revision).2 ∧
      ∀ flow, (r.getFlowByName name revision).1 = .ok flow → r.HasFlow flow.definitionId := by
  unfold getFlowByName
  split
  · rename_i cached hcached
    refine ⟨.refl, fun flow hflow => ?_⟩
    cases hflow
    exact .byName name cached hcached rfl
  · split
    · rename_i found hfound
      split
      · refine ⟨.refl, fun flow hflow => ?_⟩
        cases hflow
        obtain ⟨i, hi⟩ := (Dict.mem_values_iff _ _).mp (List.mem_of_find?_eq_some hfound)
        exact .byId i found hi rfl
      · exact getFlowById_loads r _ _
    · obtain ⟨hload, hfound⟩ := scanStorageForName_loads name r r.collectIds
      split
      · rename_i loaded u hscan
        rw [hscan] at hload hfound
        have hthere := hfound loaded rfl
        have hput := (hload.cache loaded hthere).index loaded hthere
        exact ⟨hput.trans (getFlowById_loads _ _ _).1,
          fun flow hflow => hput.hasFlow ((getFlowById_loads _ _ _).2 flow hflow)⟩
      · rename_i u hscan
        rw [hscan] at hload
        exact ⟨hload, fun flow hflow => by cases hflow⟩

/-- Reading the latest revision loads. -/
theorem getLatestRevision_loads (r : Repository) (i : String) :
    r.FlowLoads (r.getLatestRevision i).2 := by
  unfold getLatestRevision
  split
  · exact .refl
  · split
    · exact FlowLoads.refl.counter _ _
    · exact .refl

/-- Listing the revisions of a flow loads. -/
theorem listFlowRevisions_loads (r : Repository) (i : String) :
    r.FlowLoads (r.listFlowRevisions i).2 := by
  have hload := (getFlowById_loads r i none).1
  unfold listFlowRevisions
  split <;> rename_i hget <;> rw [hget] at hload <;> exact hload

/-- A revision of a flow: the cached one, or else the stored one. -/
def revisionAt (r : Repository) (i : String) (m : ℕ) : Option FlowDefinition :=
  ((r.flowRevisions.get? i).bind (·.get? m)).or ((r.loadFlowRevisionRecord i m).map .fromDict)

/-- A flow by id: a revision of it, the one in memory, the latest stored revision, or a record
without revisions. -/
def flowAt (r : Repository) (i : String) : Option ℕ → Option FlowDefinition
  | some m => r.revisionAt i m
  | none => (r.flowsById.get? i).or
    (match r.loadLatestRevisionNumber i with
    | some latest => r.revisionAt i latest
    | none => (r.loadRecord "flow" i).map FlowDefinition.fromPlain)

/-- What the lookup of a revision finds. -/
theorem getFlowRevision_toOption (r : Repository) (i : String) (m : ℕ) :
    (r.getFlowRevision i m).1.toOption = r.revisionAt i m := by
  unfold getFlowRevision revisionAt
  split
  · rename_i hcached
    rw [hcached]
    rfl
  · rename_i hnone
    rw [hnone]
    split <;> rename_i hload <;> rw [hload] <;> rfl

/-- What the lookup by id finds. -/
theorem getFlowById_toOption (r : Repository) (i : String) (revision : Option ℕ) :
    (r.getFlowById i revision).1.toOption = r.flowAt i revision := by
  unfold getFlowById flowAt
  cases revision with
  | some m => exact getFlowRevision_toOption r i m
  | none =>
    cases r.flowsById.get? i with
    | some cached => rfl
    | none =>
      rw [Option.none_or]
      cases r.loadLatestRevisionNumber i with
      | some latest => exact getFlowRevision_toOption r i latest
      | none => cases r.loadRecord "flow" i <;> rfl

/-- Two states of which lookups by id find the same. -/
structure SameFlows (r u : Repository) : Prop where
  flowsById_eq : u.flowsById = r.flowsById
  flowsByName_eq : u.flowsByName = r.flowsByName
  storage_eq : u.storage = r.storage
  keyPrefix_eq : u.keyPrefix = r.keyPrefix
  revisionAt_eq : u.revisionAt = r.revisionAt

theorem SameFlows.refl (r : Repository) : r.SameFlows r := ⟨rfl, rfl, rfl, rfl, rfl⟩

theorem SameFlows.trans {r u v : Repository} (h : r.SameFlows u) (h' : u.SameFlows v) :
    r.SameFlows v :=
  ⟨h'.flowsById_eq.trans h.flowsById_eq, h'.flowsByName_eq.trans h.flowsByName_eq,
    h'.storage_eq.trans h.storage_eq, h'.keyPrefix_eq.trans h.keyPrefix_eq,
    h'.revisionAt_eq.trans h.revisionAt_eq⟩

theorem SameFlows.loadLatestRevisionNumber_eq {r u : Repository} (h : r.SameFlows u) :
    u.loadLatestRevisionNumber = r.loadLatestRevisionNumber := by
  funext i
  simp only [loadLatestRevisionNumber, fetch, flowLatestKey, h.storage_eq, h.keyPrefix_eq]

theorem SameFlows.flowAt_eq {r u : Repository} (h : r.SameFlows u) : u.flowAt = r.flowAt := by
  have hrecord : u.loadRecord = r.loadRecord := by
    funext kind i
    simp only [loadRecord, fetch, key, h.storage_eq, h.keyPrefix_eq]
  funext i revision
  cases revision with
  | some m => rw [flowAt, flowAt, h.revisionAt_eq]
  | none =>
    rw [flowAt, flowAt, h.flowsById_eq, h.loadLatestRevisionNumber_eq, hrecord, h.revisionAt_eq]

/-- Caching a revision that a lookup finds changes no lookup. -/
theorem sameFlows_cache {r : Repository} {flow : FlowDefinition} {n : ℕ}
    (hfound : r.revisionAt flow.definitionId n = some flow) (hn : flow.revision = some n) :
    r.SameFlows (r.cacheFlowRevision flow) := by
  obtain ⟨hbyId, hbyName, hstorage, hbase, -⟩ := cacheFlowRevision_frame r flow
  refine ⟨hbyId, hbyName, hstorage, hbase, ?_⟩
  funext i m
  have hload : (r.cacheFlowRevision flow).loadFlowRevisionRecord i m =
      r.loadFlowRevisionRecord i m := by
    simp only [loadFlowRevisionRecord, fetch, flowRevisionKey, hstorage, hbase]
  rw [revisionAt, hload]
  by_cases hi : i = flow.definitionId
  · subst hi
    by_cases hm : m = n
    · subst hm
      simp only [cacheFlowRevision, hn, Dict.get?_set_self, Option.bind_some, hfound]
      rfl
    · simp only [cacheFlowRevision, hn, Dict.get?_set_self, Option.bind_some,
        Dict.get?_set_ne _ _ hm, revisionAt]
      cases r.flowRevisions.get? flow.definitionId <;> rfl
  · simp only [cacheFlowRevision, hn, Dict.get?_set_ne _ _ hi, revisionAt]

/-- A revision is found under its own id and number. -/
theorem revisionAt_keyed {r : Repository} (hplaced : r.Placed) (hkeyed : r.FlowsKeyed) {i : String}
    {m : ℕ} {flow : FlowDefinition} (h : r.revisionAt i m = some flow) :
    flow.definitionId = i ∧ flow.revision = some m := by
  rcases Option.or_eq_some_iff.mp h with hcached | ⟨-, hload⟩
  · obtain ⟨revisions, hrevisions, hm⟩ := Option.bind_eq_some_iff.mp hcached
    exact hkeyed.revision i revisions m flow hrevisions hm
  · obtain ⟨record, hrecord, rfl⟩ := Option.map_eq_some_iff.mp hload
    obtain ⟨m', hm', hkey⟩ := hplaced.record _ record (fetch_of_loadFlowRevisionRecord hrecord)
    obtain ⟨rfl, rfl⟩ := flowRevisionKey_inj.mp hkey
    exact ⟨rfl, hm'⟩

/-- The lookup of a revision changes no lookup. -/
theorem sameFlows_getFlowRevision {r : Repository} (hplaced : r.Placed) (hkeyed : r.FlowsKeyed)
    (i : String) (m : ℕ) : r.SameFlows (r.getFlowRevision i m).2 := by
  have hfound := getFlowRevision_toOption r i m
  revert hfound
  unfold getFlowRevision
  split
  · exact fun _ => .refl r
  · split
    · intro hfound
      obtain ⟨rfl, hm⟩ := revisionAt_keyed hplaced hkeyed hfound.symm
      exact sameFlows_cache hfound.symm hm
    · exact fun _ => .refl r

/-- What the lookups of flows rely on: documents are in their places, the maps are keyed, and every
flow that is listed has a latest pointer. -/
structure Readable (r : Repository) : Prop where
  placed : r.Placed
  keyed : r.FlowsKeyed
  pointed : ∀ flowId ∈ r.indexedIds "flow", (r.loadLatestRevisionNumber flowId).isSome

/-- A repository that keeps its storage well can be read. -/
theorem WellKept.readable {r : Repository} (h : r.WellKept) (hkeyed : r.FlowsKeyed) : r.Readable :=
  ⟨h.placed, hkeyed, h.pointed⟩

/-- The ids that are known have a flow in memory or a latest pointer. -/
theorem known_of_mem_collectIds {r : Repository} (hread : r.Readable) {i : String}
    (h : i ∈ r.collectIds) :
    (∃ flow, r.flowsById.get? i = some flow) ∨ (r.loadLatestRevisionNumber i).isSome := by
  have hmem : i ∈ r.flowsById.keys ++ r.indexedIds "flow" :=
    List.mem_dedup.mp (List.mem_mergeSort.mp h)
  rcases List.mem_append.mp hmem with hkey | hindexed
  · exact .inl ((Dict.mem_keys_iff _ _).mp hkey)
  · exact .inr (hread.pointed i hindexed)

/-- The lookup of a known id changes no lookup. -/
theorem sameFlows_getFlowById {r : Repository} (hplaced : r.Placed) (hkeyed : r.FlowsKeyed)
    {i : String} (hknown : (∃ flow, r.flowsById.get? i = some flow) ∨ (r.loadLatestRevisionNumber i).isSome) :
    r.SameFlows (r.getFlowById i none).2 := by
  unfold getFlowById
  simp only
  split
  · exact .refl r
  · rename_i hnone
    split
    · exact sameFlows_getFlowRevision hplaced hkeyed i _
    · rename_i hlatest
      rw [hlatest] at hknown
      rcases hknown with ⟨flow, hflow⟩ | hsome
      · rw [hnone] at hflow
        cases hflow
      · cases hsome

/-- What is in its place stays there in the same storage. -/
theorem placed_of_storage {r u : Repository} (h : r.Placed) (hstorage : u.storage = r.storage)
    (hbase : u.keyPrefix = r.keyPrefix) : u.Placed := by
  obtain ⟨hkey, -, hrevision, -, -⟩ := keys_congr hbase
  have hfetch : u.fetch = r.fetch := by
    funext k
    rw [fetch, fetch, hstorage]
  exact ⟨fun k value place => by rw [hfetch, hkey]; exact h.document k value place,
    fun k flow => by rw [hfetch, hrevision]; exact h.record k flow⟩

/-- A scan of known ids finds the first one with the name, and changes no lookup. -/
theorem scanStorageForName_eq (name : String) {r : Repository} (hplaced : r.Placed)
    (hkeyed : r.FlowsKeyed) {ids : List String}
    (hids : ∀ i ∈ ids, (∃ flow, r.flowsById.get? i = some flow) ∨
      (r.loadLatestRevisionNumber i).isSome) :
    (scanStorageForName name r ids).1 =
        ids.findSome? (fun i => (r.flowAt i none).filter (·.name = name)) ∧
      r.SameFlows (scanStorageForName name r ids).2 := by
  induction ids generalizing r with
  | nil => exact ⟨rfl, .refl r⟩
  | cons i rest ih =>
    have hsame := sameFlows_getFlowById hplaced hkeyed (hids i List.mem_cons_self)
    have hfound := getFlowById_toOption r i none
    have hloads := (getFlowById_loads r i none).1
    rw [List.findSome?_cons, ← hfound]
    unfold scanStorageForName
    cases hget : r.getFlowById i none with
    | mk found u =>
      rw [hget] at hsame hloads
      have hlatest : u.loadLatestRevisionNumber = r.loadLatestRevisionNumber :=
        hsame.loadLatestRevisionNumber_eq
      have hplacedU := placed_of_storage hplaced hsame.storage_eq hsame.keyPrefix_eq
      have hrest := ih hplacedU (hloads.keyed hkeyed) fun j hj => by
        rw [hsame.flowsById_eq, hlatest]
        exact hids j (List.mem_cons_of_mem _ hj)
      rw [hsame.flowAt_eq] at hrest
      cases found with
      | error e => exact ⟨hrest.1, hsame.trans hrest.2⟩
      | ok flow =>
        simp only [Except.toOption, Option.filter_some]
        by_cases hname : flow.name = name
        · simp [hname, hsame]
        · simpa [hname] using ⟨hrest.1, hsame.trans hrest.2⟩

/-- A flow that was found, or the revision of it that is asked for. -/
def revisionOf (r : Repository) (flow : FlowDefinition) : Option ℕ → Option FlowDefinition
  | none => some flow
  | some m => r.revisionAt flow.definitionId m

/-- The first stored flow with a name. -/
def scannedFlow (r : Repository) (name : String) : Option FlowDefinition :=
  r.collectIds.findSome? fun i => (r.flowAt i none).filter (·.name = name)

/-- A flow by name: the one that the name leads to in memory, unless a revision is asked for, or
another one in memory with this name, or the first stored one. -/
def flowNamed (r : Repository) (name : String) (revision : Option ℕ) : Option FlowDefinition :=
  ((r.flowsByName.get? name).filter fun _ => revision.isNone).or
    (((r.flowsById.values.find? (·.name = name)).or (r.scannedFlow name)).bind
      (r.revisionOf · revision))

/-- A flow that a scan finds and that is not in memory is a revision that a lookup finds. -/
theorem revisionAt_of_scan {r : Repository} (hread : r.Readable) {name : String}
    (hnone : r.flowsById.values.find? (·.name = name) = none) {flow : FlowDefinition}
    (hscan : r.scannedFlow name = some flow) :
    flow.name = name ∧
      ∃ n, r.revisionAt flow.definitionId n = some flow ∧ flow.revision = some n := by
  obtain ⟨i, hi, hfound⟩ := List.exists_of_findSome?_eq_some hscan
  obtain ⟨hflow, hname⟩ := Option.filter_eq_some_iff.mp hfound
  refine ⟨by simpa using hname, ?_⟩
  rcases known_of_mem_collectIds hread hi with ⟨cached, hcached⟩ | hlatest
  · simp only [flowAt, hcached, Option.some_or, Option.some.injEq] at hflow
    subst hflow
    exact absurd hname (List.find?_eq_none.mp hnone cached
      ((Dict.mem_values_iff _ _).mpr ⟨i, hcached⟩))
  · obtain ⟨n, hn⟩ := Option.isSome_iff_exists.mp hlatest
    simp only [flowAt, hn] at hflow
    rcases Option.or_eq_some_iff.mp hflow with hcached | ⟨-, hrevision⟩
    · exact absurd hname (List.find?_eq_none.mp hnone flow
        ((Dict.mem_values_iff _ _).mpr ⟨i, hcached⟩))
    · obtain ⟨rfl, hn'⟩ := revisionAt_keyed hread.placed hread.keyed hrevision
      exact ⟨n, hrevision, hn'⟩

/-- What the lookup by name finds. -/
theorem getFlowByName_toOption {r : Repository} (hread : r.Readable) (name : String) (revision : Option ℕ) :
    (r.getFlowByName name revision).1.toOption = r.flowNamed name revision := by
  unfold getFlowByName flowNamed
  split
  · rename_i hcached
    rw [hcached]
    rfl
  · rename_i revision _ _ hnot
    have hnone : ((r.flowsByName.get? name).filter fun _ => revision.isNone) = none := by
      rw [Option.filter_eq_none_iff]
      intro cached hcached hrevision
      exact hnot cached hcached (Option.isNone_iff_eq_none.mp hrevision)
    rw [hnone, Option.none_or]
    split
    · rename_i flow hfound
      rw [hfound]
      cases revision with
      | none => rfl
      | some m => exact getFlowById_toOption r flow.definitionId (some m)
    · rename_i hnovalue
      rw [hnovalue, Option.none_or]
      obtain ⟨hscan, hsame⟩ := scanStorageForName_eq name hread.placed hread.keyed
        (fun i hi => known_of_mem_collectIds hread hi)
      change _ = r.scannedFlow name at hscan
      rw [← hscan]
      split
      · rename_i loaded u heq
        rw [heq] at hscan hsame ⊢
        obtain ⟨-, n, hfound, hn⟩ := revisionAt_of_scan hread hnovalue hscan.symm
        have hcached := hsame.trans (sameFlows_cache (hsame.revisionAt_eq ▸ hfound) hn)
        rw [getFlowById_toOption]
        cases revision with
        | none => simp [flowAt, indexFlowLatest, revisionOf]
        | some m => exact congrFun (congrFun hcached.revisionAt_eq loaded.definitionId) m
      · rename_i u heq
        rw [heq]
        rfl

/-- What finding a flow leaves: the lookups of the others, and a name that led nowhere may lead to the
flow that was found. -/
structure FlowFinds (r : Repository) (flow : FlowDefinition) (u : Repository) : Prop where
  loads : r.FlowLoads u
  byId_eq : u.flowsById.erase flow.definitionId = r.flowsById.erase flow.definitionId
  byName : u.flowsByName = r.flowsByName ∨
    r.flowsByName.get? flow.name = none ∧ u.flowsByName = r.flowsByName.set flow.name flow
  revisionAt_eq : u.revisionAt = r.revisionAt

/-- Finding a flow when lookups stay the same. -/
theorem FlowFinds.of_same {r u : Repository} (flow : FlowDefinition) (hloads : r.FlowLoads u)
    (hsame : r.SameFlows u) : r.FlowFinds flow u :=
  ⟨hloads, by rw [hsame.flowsById_eq], .inl hsame.flowsByName_eq, hsame.revisionAt_eq⟩

/-- A record without revisions is read only where something is stored. -/
theorem loadRecord_eq_none {r : Repository} {kind i : String} (h : r.fetch (r.key kind i) = none) :
    r.loadRecord kind i = none := by
  rw [loadRecord, h]

/-- A lookup finds a flow so, unless it reads by its id what belongs to another flow. -/
theorem getFlow_finds {r u : Repository} (hkept : r.WellKept) (hkeyed : r.FlowsKeyed) {ref : String}
    {byId : Bool} {flow : FlowDefinition} (hplain : byId = true → r.fetch (r.key "flow" ref) = none)
    (h : r.getFlow ref byId none = (.ok flow, u)) : r.FlowFinds flow u := by
  cases byId with
  | true =>
    have hloads := (getFlowById_loads r ref none).1
    have hget : r.getFlowById ref none = (.ok flow, u) := h
    rw [hget] at hloads
    unfold getFlowById at hget
    simp only at hget
    split at hget
    · cases hget
      exact .of_same flow .refl (.refl r)
    · split at hget
      · have hsame := sameFlows_getFlowRevision hkept.placed hkeyed ref ‹ℕ›
        rw [hget] at hsame
        exact .of_same flow hloads hsame
      · rw [loadRecord_eq_none (hplain rfl)] at hget
        cases hget
  | false =>
    have hget : r.getFlowByName ref none = (.ok flow, u) := h
    unfold getFlowByName at hget
    split at hget
    · cases hget
      exact .of_same flow .refl (.refl r)
    · rename_i hnoname
      split at hget
      · cases hget
        exact .of_same flow .refl (.refl r)
      · rename_i hnovalue
        obtain ⟨hscan, hsame⟩ := scanStorageForName_eq ref hkept.placed hkeyed
          (fun i hi => known_of_mem_collectIds (hkept.readable hkeyed) hi)
        obtain ⟨hloads, hthere⟩ := scanStorageForName_loads ref r r.collectIds
        split at hget
        · rename_i loaded v heq
          rw [heq] at hscan hsame hloads hthere
          obtain ⟨hname, n, hfound, hn⟩ :=
            revisionAt_of_scan (hkept.readable hkeyed) hnovalue hscan.symm
          have hcached := hsame.trans (sameFlows_cache (hsame.revisionAt_eq ▸ hfound) hn)
          -- the flow that was indexed last is the one that is found by its id
          have hlast : ((v.cacheFlowRevision loaded).indexFlowLatest loaded).getFlowById
              loaded.definitionId none =
                (.ok loaded, (v.cacheFlowRevision loaded).indexFlowLatest loaded) := by
            simp [getFlowById, indexFlowLatest]
          rw [hlast] at hget
          cases hget
          have hfree : r.flowsByName.get? ref = none := by
            by_contra hsome
            obtain ⟨cached, hcached⟩ := Option.ne_none_iff_exists'.mp hsome
            exact hnoname cached hcached rfl
          refine ⟨(hloads.cache _ (hthere flow rfl)).index _ (hthere flow rfl), ?_,
            .inr ⟨hname ▸ hfree, ?_⟩, ?_⟩
          · rw [indexFlowLatest, Dict.erase_set, hcached.flowsById_eq]
          · rw [indexFlowLatest, hcached.flowsByName_eq]
          · exact hcached.revisionAt_eq
        · cases hget

/-- What is left of the flows after one of them was deleted. -/
structure FlowRemoved (s : Repository) (flow : FlowDefinition) (t : Repository) : Prop where
  byId_eq : t.flowsById = s.flowsById.erase flow.definitionId
  byName_iff : ∀ n o, t.flowsByName.get? n = some o ↔
    s.flowsByName.get? n = some o ∧ o.definitionId ≠ flow.definitionId
  revisionAt_eq : ∀ i ≠ flow.definitionId, t.revisionAt i = s.revisionAt i
  erased : ∃ ns, s.Erased flow.definitionId ns t ∧ ∀ m ∈ s.listedRevisions flow.definitionId, m ∈ ns
  placed : t.Placed
  keyed : t.FlowsKeyed
  absent : ¬ t.HasFlow flow.definitionId
  hasFlow : ∀ id, t.HasFlow id → s.HasFlow id
  processes_eq : t.processes = s.processes
  schemas_eq : t.schemas = s.schemas
  resources_eq : t.resources = s.resources

/-- The listed revisions are among the known ones. -/
theorem mem_revisionNumbers {r : Repository} {flowId : String} {m : ℕ}
    (h : m ∈ r.listedRevisions flowId) : m ∈ r.revisionNumbers flowId := by
  have hmem : m ∈ (((r.flowRevisions.get? flowId).map Dict.keys).getD [] ++
      r.listedRevisions flowId).dedup :=
    List.mem_dedup.mpr (List.mem_append_right _ h)
  unfold listedRevisions at hmem
  unfold revisionNumbers
  simp only
  generalize (((r.flowRevisions.get? flowId).map Dict.keys).getD [] ++ _).dedup = numbers at hmem ⊢
  cases numbers with
  | nil => cases hmem
  | cons first rest => exact List.mem_mergeSort.mpr hmem

/-- What a deletion does with the flow that it has found. -/
private def deleteFound (u : Repository) (flow : FlowDefinition) : Repository :=
  let v := (((u.unindexFlow flow).revisionNumbers flow.definitionId).foldl
    (·.deleteFlowRevisionRecord flow.definitionId ·) (u.unindexFlow flow))
  ((({ v with
    flowRevisions := v.flowRevisions.erase flow.definitionId
    flowLatestRevision := v.flowLatestRevision.erase flow.definitionId } : Repository).deleteRecord
      "flow" flow.definitionId).deleteLatestRevisionPointer flow.definitionId)

/-- In memory a deletion takes out the flow and its revisions. -/
private theorem deleteFound_memory (u : Repository) (flow : FlowDefinition) :
    ∃ x, u.deleteFound flow = { u.unindexFlow flow with
      storage := x
      flowRevisions := u.flowRevisions.erase flow.definitionId
      flowLatestRevision := u.flowLatestRevision.erase flow.definitionId } := by
  unfold deleteFound
  obtain ⟨x, hx⟩ := (deleteRevisions_writesAt (u.unindexFlow flow) flow.definitionId
    ((u.unindexFlow flow).revisionNumbers flow.definitionId)).only
  simp only [hx]
  obtain ⟨y, hy⟩ := (deleteRecord_writesAt { u.unindexFlow flow with
    storage := x
    flowRevisions := u.flowRevisions.erase flow.definitionId
    flowLatestRevision := u.flowLatestRevision.erase flow.definitionId } "flow" flow.definitionId).only
  obtain ⟨z, hz⟩ := (deleteLatestRevisionPointer_writesAt
    ({ u.unindexFlow flow with
      storage := x
      flowRevisions := u.flowRevisions.erase flow.definitionId
      flowLatestRevision := u.flowLatestRevision.erase flow.definitionId }.deleteRecord "flow"
        flow.definitionId) flow.definitionId).only
  exact ⟨z, hz.trans (by rw [hy])⟩

/-- In the storage a deletion erases the flow. -/
private theorem deleteFound_erased {s u : Repository} (flow : FlowDefinition) (hplaced : u.Placed)
    (hfetch : u.fetch = s.fetch) (hbase : u.keyPrefix = s.keyPrefix)
    (hplain : s.fetch (s.key "flow" flow.definitionId) = none) :
    (∃ ns, s.Erased flow.definitionId ns (u.deleteFound flow) ∧
      ∀ m ∈ s.listedRevisions flow.definitionId, m ∈ ns) ∧ (u.deleteFound flow).Placed := by
  obtain ⟨hkey, -, -, -, -⟩ := keys_congr hbase
  set ns := (u.unindexFlow flow).revisionNumbers flow.definitionId with hns
  have hrevisions := deleteRevisions_writesAt (u.unindexFlow flow) flow.definitionId ns
  have hplacedV := (placed_of_storage hplaced rfl rfl : (u.unindexFlow flow).Placed).deleteRevisions
    flow.definitionId ns
  refine ⟨⟨ns, ?_, fun m hm => mem_revisionNumbers ?_⟩, ?_⟩
  · have herased : (u.unindexFlow flow).Erased flow.definitionId ns (u.deleteFound flow) :=
      erased_deleteRecord hrevisions.keyPrefix_eq rfl (by
        change u.fetch (u.key "flow" flow.definitionId) = none
        rw [hfetch, hkey]
        exact hplain)
    exact herased.congr hfetch hbase
  · have hlisted : (u.unindexFlow flow).listedRevisions flow.definitionId =
        s.listedRevisions flow.definitionId :=
      listedRevisions_congr hbase (congrFun hfetch _)
    exact hlisted ▸ hm
  · refine Placed.remove (Placed.remove (Placed.deleteRecord (placed_of_storage hplacedV ?_ ?_)
      "flow" flow.definitionId) _) _ <;> rfl

/-- What the maps have after a flow was taken out. -/
theorem get?_unindexFlow (u : Repository) (flow : FlowDefinition) (n : String) :
    (u.unindexFlow flow).flowsByName.get? n =
      if n = flow.name ∧ u.flowsByName.get? flow.name = some flow then none
      else u.flowsByName.get? n := by
  simp only [unindexFlow]
  split_ifs with hname hn hn
  · rw [Dict.get?_erase, if_pos hn.1]
  · rw [Dict.get?_erase, if_neg fun heq => hn ⟨heq, hname⟩]
  · exact absurd hn.2 hname
  · rfl

/-- A flow that was found is deleted completely if the names that lead to its id lead to it, and if
nothing of another one is stored under its key. -/
private theorem FlowFinds.removed {s u : Repository} {flow : FlowDefinition} (h : s.FlowFinds flow u)
    (hkept : s.WellKept) (hkeyed : s.FlowsKeyed)
    (hnames : ∀ o ∈ s.flowsByName.values, o.definitionId = flow.definitionId → o = flow)
    (hplain : s.fetch (s.key "flow" flow.definitionId) = none) :
    s.FlowRemoved flow (u.deleteFound flow) := by
  obtain ⟨hstorage, hbase, hprocesses, hschemas, hresources⟩ := h.loads.frame
  have hfetch : u.fetch = s.fetch := by
    funext k
    rw [fetch, fetch, hstorage]
  have hplacedU : u.Placed := placed_of_storage hkept.placed hstorage hbase
  have hkeyedU : u.FlowsKeyed := h.loads.keyed hkeyed
  have hkeyedW : (u.unindexFlow flow).FlowsKeyed := by
    refine ⟨fun i o ho => ?_, fun n o ho => ?_, hkeyedU.revision⟩
    · rw [unindexFlow, Dict.get?_erase] at ho
      split_ifs at ho
      exact hkeyedU.byId i o ho
    · rw [get?_unindexFlow] at ho
      split_ifs at ho
      exact hkeyedU.byName n o ho
  obtain ⟨x, hx⟩ := deleteFound_memory u flow
  obtain ⟨herased, hplaced⟩ := deleteFound_erased flow hplacedU hfetch hbase hplain
  have hkeyedT : (u.deleteFound flow).FlowsKeyed := by
    refine ⟨fun i o ho => ?_, fun n o ho => ?_, fun i revisions m o hget hm => ?_⟩
    · rw [hx] at ho
      exact hkeyedW.byId i o ho
    · rw [hx] at ho
      exact hkeyedW.byName n o ho
    · rw [hx] at hget
      simp only [Dict.get?_erase] at hget
      split_ifs at hget
      exact hkeyedU.revision i revisions m o hget hm
  have hbyName (n : String) (o : FlowDefinition) :
      (u.deleteFound flow).flowsByName.get? n = some o ↔
        s.flowsByName.get? n = some o ∧ o.definitionId ≠ flow.definitionId := by
    rw [hx]
    change (u.unindexFlow flow).flowsByName.get? n = some o ↔ _
    rw [get?_unindexFlow]
    rcases h.byName with hsame | ⟨hfree, hset⟩
    · rw [hsame]
      constructor
      · intro ho
        split_ifs at ho with hn
        refine ⟨ho, fun hid => ?_⟩
        obtain rfl := hnames o ((Dict.mem_values_iff _ _).mpr ⟨n, ho⟩) hid
        obtain rfl := hkeyed.byName n o ho
        exact hn ⟨rfl, ho⟩
      · rintro ⟨ho, hid⟩
        rw [if_neg]
        · exact ho
        · rintro ⟨rfl, hflow⟩
          rw [ho] at hflow
          exact hid (congrArg FlowDefinition.definitionId (Option.some.inj hflow))
    · simp only [hset, Dict.get?_set_self, and_true]
      by_cases hn : n = flow.name
      · subst hn
        simp [hfree]
      · rw [if_neg hn, Dict.get?_set_ne _ _ hn]
        refine ⟨fun ho => ⟨ho, fun hid => ?_⟩, fun ho => ho.1⟩
        obtain rfl := hnames o ((Dict.mem_values_iff _ _).mpr ⟨n, ho⟩) hid
        exact hn (hkeyed.byName n o ho).symm
  have hbyId : (u.deleteFound flow).flowsById = s.flowsById.erase flow.definitionId := by
    rw [hx]
    exact h.byId_eq
  refine ⟨hbyId, hbyName, fun i hi => ?_, herased, hplaced, hkeyedT, fun hflow => ?_,
    fun id hid => ?_, ?_, ?_, ?_⟩
  · obtain ⟨ns, herased, -⟩ := herased
    obtain ⟨-, -, hrevisionKey, -, -⟩ := keys_congr herased.keyPrefix_eq
    have hload (r : Repository) (hr : ∀ m, r.fetch (r.flowRevisionKey i m) =
        s.fetch (s.flowRevisionKey i m)) (m : ℕ) :
        r.loadFlowRevisionRecord i m = s.loadFlowRevisionRecord i m := by
      rw [loadFlowRevisionRecord, hr, loadFlowRevisionRecord]
    have hloadU := hload u fun m => by rw [hfetch, flowRevisionKey, hbase, flowRevisionKey]
    have hloadT := hload (u.deleteFound flow) fun m => by
      rw [hrevisionKey, (herased.fetch_other hi).1]
    rw [← h.revisionAt_eq]
    funext m
    rw [revisionAt, revisionAt, hloadT, hloadU, hx]
    simp only [Dict.get?_erase, if_neg hi]
  · obtain ⟨ns, herased, hns⟩ := herased
    cases hflow with
    | byId i o ho hid =>
      rw [hbyId, Dict.get?_erase] at ho
      split_ifs at ho with hi
      exact hi ((hkeyed.byId i o ho).symm.trans hid)
    | byName n o ho hid => exact ((hbyName n o).mp ho).2 hid
    | revision i revisions m o hget hm hid =>
      have hi := (hkeyedT.revision i revisions m o hget hm).1.symm.trans hid
      rw [hx] at hget
      simp only [Dict.get?_erase, if_pos hi] at hget
      cases hget
    | stored k o ho hid => exact herased.no_record hkept hplaced hns ho hid
  · obtain ⟨ns, herased, -⟩ := herased
    cases hid with
    | byId i o ho hid =>
      rw [hbyId, Dict.get?_erase] at ho
      split_ifs at ho
      exact .byId i o ho hid
    | byName n o ho hid => exact .byName n o ((hbyName n o).mp ho).1 hid
    | revision i revisions m o hget hm hid =>
      rw [hx] at hget
      simp only [Dict.get?_erase] at hget
      split_ifs at hget
      exact h.loads.hasFlow (.revision i revisions m o hget hm hid)
    | stored k o ho hid => exact .stored k o (herased.fetch_record hplaced ho) hid
  · rw [hx]
    exact hprocesses
  · rw [hx]
    exact hschemas
  · rw [hx]
    exact hresources

/-- What a lookup of a flow finds. -/
def findFlow (r : Repository) (ref : String) (byId : Bool) (revision : Option ℕ) :
    Option FlowDefinition :=
  (r.getFlow ref byId revision).1.toOption

/-- What a lookup finds by id or by name. -/
theorem findFlow_eq {r : Repository} (hread : r.Readable) (ref : String) (byId : Bool) (revision : Option ℕ) :
    r.findFlow ref byId revision =
      if byId then r.flowAt ref revision else r.flowNamed ref revision := by
  cases byId with
  | true => exact getFlowById_toOption r ref revision
  | false => exact getFlowByName_toOption hread ref revision

/-- What is found is there. -/
theorem findFlow_hasFlow {r : Repository} {ref : String} {byId : Bool} {revision : Option ℕ}
    {flow : FlowDefinition} (h : r.findFlow ref byId revision = some flow) :
    r.HasFlow flow.definitionId := by
  have hok {found : Except RepositoryError FlowDefinition} (hfound : found.toOption = some flow) :
      found = .ok flow := by
    cases found <;> cases hfound
    rfl
  cases byId with
  | true => exact (getFlowById_loads r ref revision).2 flow (hok h)
  | false => exact (getFlowByName_loads r ref revision).2 flow (hok h)

/-- A known id of another flow finds the same after a deletion. -/
theorem FlowRemoved.flowAt_known {s t : Repository} {flow : FlowDefinition} (h : s.FlowRemoved flow t)
    {i : String} (hi : i ≠ flow.definitionId)
    (hknown : (∃ found, s.flowsById.get? i = some found) ∨ (s.loadLatestRevisionNumber i).isSome) :
    t.flowAt i none = s.flowAt i none := by
  obtain ⟨ns, herased, -⟩ := h.erased
  have hlatest := (herased.fetch_other hi).2.2
  simp only [flowAt, h.byId_eq, Dict.get?_erase, if_neg hi, hlatest, h.revisionAt_eq i hi]
  rcases hknown with ⟨found, hfound⟩ | hsome
  · rw [hfound, Option.some_or, Option.some_or]
  · obtain ⟨n, hn⟩ := Option.isSome_iff_exists.mp hsome
    rw [hn]

/-- A lookup by id that finds another flow finds it after the deletion. -/
theorem FlowRemoved.flowAt_eq {s t : Repository} {flow : FlowDefinition} (h : s.FlowRemoved flow t)
    (hkept : s.WellKept) (hkeyed : s.FlowsKeyed)
    (hplain : s.fetch (s.key "flow" flow.definitionId) = none) {i : String} {revision : Option ℕ}
    {e : FlowDefinition} (hfind : s.flowAt i revision = some e)
    (hne : e.definitionId ≠ flow.definitionId) : t.flowAt i revision = some e := by
  have hother {m : ℕ} (hrevision : s.revisionAt i m = some e) : i ≠ flow.definitionId := by
    obtain ⟨rfl, -⟩ := revisionAt_keyed hkept.placed hkeyed hrevision
    exact hne
  cases revision with
  | some m =>
    rw [flowAt, h.revisionAt_eq i (hother hfind)]
    exact hfind
  | none =>
    cases hbyId : s.flowsById.get? i with
    | some found =>
      have hi : i ≠ flow.definitionId := by
        simp only [flowAt, hbyId, Option.some_or, Option.some.injEq] at hfind
        rintro rfl
        exact hne (hfind ▸ hkeyed.byId _ _ hbyId)
      rw [h.flowAt_known hi (.inl ⟨found, hbyId⟩)]
      exact hfind
    | none =>
      cases hlatest : s.loadLatestRevisionNumber i with
      | some n =>
        have hi : i ≠ flow.definitionId := by
          simp only [flowAt, hbyId, hlatest, Option.none_or] at hfind
          exact hother hfind
        rw [h.flowAt_known hi (.inr (by rw [hlatest]; rfl))]
        exact hfind
      | none =>
        -- a document is read that stands under the key of the id: it is a revision of the flow found
        obtain ⟨ns, herased, -⟩ := h.erased
        have hload := hfind
        simp only [flowAt, hbyId, hlatest, Option.none_or] at hload
        obtain ⟨record, hrecord, rfl⟩ := Option.map_eq_some_iff.mp hload
        have hfetch : s.fetch (s.key "flow" i) = some (.record record) := by
          unfold loadRecord at hrecord
          split at hrecord <;> cases hrecord
          assumption
        have hi : i ≠ flow.definitionId := by
          rintro rfl
          rw [hplain] at hfetch
          cases hfetch
        obtain ⟨m, -, hkey⟩ := hkept.placed.record _ record hfetch
        have hsame : t.fetch (s.key "flow" i) = s.fetch (s.key "flow" i) := by
          rw [hkey]
          exact (herased.fetch_other hne).1 m
        have hrecordT : t.loadRecord "flow" i = some record := by
          rw [loadRecord, (keys_congr herased.keyPrefix_eq).1, hsame, hfetch]
        simp only [flowAt, h.byId_eq, Dict.get?_erase, if_neg hi, hbyId,
          (herased.fetch_other hi).2.2, hlatest, hrecordT, Option.none_or]
        rfl

/-- The ids that are known after a deletion. -/
theorem FlowRemoved.collectIds_eq {s t : Repository} {flow : FlowDefinition}
    (h : s.FlowRemoved flow t) : t.collectIds = s.collectIds.filter (· ≠ flow.definitionId) := by
  obtain ⟨ns, herased, -⟩ := h.erased
  have hids (r : Repository) : r.collectIds =
      (r.flowsById.keys ++ r.indexedIds "flow").dedup.mergeSort (· ≤ ·) := rfl
  rw [hids, hids, ← sortedIds_filter, List.filter_append, herased.indexedIds_eq, h.byId_eq]
  simp only [Dict.keys, Dict.erase, List.filter_map]
  rfl

/-- A flow is found under its own id unless a document is read that stands under the key of the id. -/
theorem definitionId_of_flowAt {r : Repository} (hkept : r.WellKept) (hkeyed : r.FlowsKeyed)
    {i : String} (hplain : r.fetch (r.key "flow" i) = none) {flow : FlowDefinition}
    (h : r.flowAt i none = some flow) : flow.definitionId = i := by
  rcases Option.or_eq_some_iff.mp h with hbyId | ⟨-, hstored⟩
  · exact hkeyed.byId i flow hbyId
  · split at hstored
    · exact (revisionAt_keyed hkept.placed hkeyed hstored).1
    · rw [loadRecord_eq_none hplain] at hstored
      cases hstored

/-- A lookup by name that finds another flow finds it after the deletion. -/
theorem FlowRemoved.flowNamed_eq {s t : Repository} {flow : FlowDefinition} (h : s.FlowRemoved flow t)
    (hkept : s.WellKept) (hkeyed : s.FlowsKeyed)
    (hplain : s.fetch (s.key "flow" flow.definitionId) = none) {name : String} {revision : Option ℕ}
    {e : FlowDefinition} (hfind : s.flowNamed name revision = some e)
    (hne : e.definitionId ≠ flow.definitionId) : t.flowNamed name revision = some e := by
  unfold flowNamed at hfind ⊢
  rcases Option.or_eq_some_iff.mp hfind with hname | ⟨hnoname, hvalue⟩
  · obtain ⟨hname, hrevision⟩ := Option.filter_eq_some_iff.mp hname
    rw [(h.byName_iff name e).mpr ⟨hname, hne⟩, Option.filter_some, if_pos hrevision]
    rfl
  · obtain ⟨found, hfound, hof⟩ := Option.bind_eq_some_iff.mp hvalue
    have hid : found.definitionId ≠ flow.definitionId := by
      cases revision with
      | none => exact Option.some.inj hof ▸ hne
      | some m =>
        obtain ⟨hid, -⟩ := revisionAt_keyed hkept.placed hkeyed hof
        exact hid ▸ hne
    have hnone : ((t.flowsByName.get? name).filter fun _ => revision.isNone) = none := by
      rw [Option.filter_eq_none_iff] at hnoname ⊢
      exact fun o ho => hnoname o ((h.byName_iff name o).mp ho).1
    have hfoundT : (t.flowsById.values.find? (·.name = name)).or (t.scannedFlow name) =
        some found := by
      rw [h.byId_eq]
      rcases Option.or_eq_some_iff.mp hfound with hvalue | ⟨hnovalue, hscan⟩
      · rw [Dict.find?_values_erase hvalue fun hget => hid (hkeyed.byId _ _ hget)]
        rfl
      · rw [Dict.find?_values_erase_none hnovalue, Option.none_or]
        unfold scannedFlow at hscan ⊢
        rw [h.collectIds_eq]
        refine findSome?_filter_ne hscan (fun hflow => ?_) fun i hi hne' => by
          rw [h.flowAt_known hne' (known_of_mem_collectIds (hkept.readable hkeyed) hi)]
        exact hid (definitionId_of_flowAt hkept hkeyed hplain (Option.filter_eq_some_iff.mp hflow).1)
    rw [hnone, Option.none_or, hfoundT, Option.bind_some]
    cases revision with
    | none => exact hof
    | some m =>
      rw [revisionOf, h.revisionAt_eq _ hid]
      exact hof

/-- When a call deletes a flow completely and nothing else: the names in memory that lead to its id
lead to the flow that is found, and nothing of another flow is stored under the key of this flow, or
under that of the id that is given. -/
def FlowDeletable (r : Repository) (ref : String) (byId : Bool) : Prop :=
  ∀ flow ∈ r.findFlow ref byId none,
    (∀ o ∈ r.flowsByName.values, o.definitionId = flow.definitionId → o = flow) ∧
    r.fetch (r.key "flow" flow.definitionId) = none ∧
    (byId = true → r.fetch (r.key "flow" ref) = none)

instance (r : Repository) (ref : String) (byId : Bool) : Decidable (r.FlowDeletable ref byId) :=
  inferInstanceAs (Decidable (∀ flow ∈ r.findFlow ref byId none, _))

/-- A deletion that meets the condition removes the flow that it finds. -/
theorem FlowDeletable.removed {s : Repository} {ref : String} {byId : Bool}
    (h : s.FlowDeletable ref byId) (hkept : s.WellKept) (hkeyed : s.FlowsKeyed)
    {flow : FlowDefinition} (hfind : s.findFlow ref byId none = some flow) :
    s.FlowRemoved flow (s.deleteFlow ref byId).2 := by
  obtain ⟨hnames, hplain, href⟩ := h flow hfind
  unfold findFlow at hfind
  unfold deleteFlow
  cases hget : s.getFlow ref byId none with
  | mk found u =>
    rw [hget] at hfind
    cases found with
    | error e => cases hfind
    | ok o =>
      cases hfind
      exact (getFlow_finds hkept hkeyed href hget).removed hkept hkeyed hnames hplain

/-- A deletion that finds nothing loads only. -/
theorem deleteFlow_error {s : Repository} {ref : String} {byId : Bool}
    (h : s.findFlow ref byId none = none) : s.FlowLoads (s.deleteFlow ref byId).2 := by
  have hloads : s.FlowLoads (s.getFlow ref byId none).2 := by
    cases byId with
    | true => exact (getFlowById_loads s ref none).1
    | false => exact (getFlowByName_loads s ref none).1
  unfold findFlow at h
  unfold deleteFlow
  cases hget : s.getFlow ref byId none with
  | mk found u =>
    rw [hget] at h hloads
    cases found with
    | error e => exact hloads
    | ok o => cases h

/-- What is kept stays so when a flow is removed. -/
theorem FlowRemoved.wellKept {s t : Repository} {flow : FlowDefinition} (h : s.FlowRemoved flow t)
    (hkept : s.WellKept) : t.WellKept := by
  obtain ⟨ns, herased, hns⟩ := h.erased
  exact herased.wellKept hkept h.placed hns

/-- A lookup that finds another flow finds it after the deletion. -/
theorem FlowRemoved.findFlow_eq {s t : Repository} {flow : FlowDefinition} (h : s.FlowRemoved flow t)
    (hkept : s.WellKept) (hkeyed : s.FlowsKeyed)
    (hplain : s.fetch (s.key "flow" flow.definitionId) = none) {ref : String} {byId : Bool}
    {revision : Option ℕ} {e : FlowDefinition} (hfind : s.findFlow ref byId revision = some e)
    (hne : e.definitionId ≠ flow.definitionId) : t.findFlow ref byId revision = some e := by
  rw [Repository.findFlow_eq (hkept.readable hkeyed)] at hfind
  rw [Repository.findFlow_eq ((h.wellKept hkept).readable h.keyed)]
  cases byId with
  | true => exact h.flowAt_eq hkept hkeyed hplain hfind hne
  | false => exact h.flowNamed_eq hkept hkeyed hplain hfind hne

end Repository

end PalmEngine.Persistence
