import PalmEngine.Lib.Runs
import PalmEngine.Persistence.KindDeletion
import PalmEngine.Persistence.FlowDeletion

/-!
# Deletions are complete while names lead to what is deleted

A definition that was registered under another name before is still found under that name after it
is deleted: the map by name is only cleaned up under the name that the definition has when it is
deleted. A deletion is complete, and leaves all other definitions as they are, while the names in
memory that lead to the id lead to the definition that is found, while no definition is loaded in
order to be deleted that takes its name from another one, and while no flow is deleted under whose
key something of another flow is stored.
-/

namespace PalmEngine.Persistence

open PalmEngine.Lib

namespace Repository

/-- What a call about the flows leaves alone: the other kinds, and what is stored under other keys
than those of the flows. -/
structure FlowsAct (r u : Repository) : Prop where
  keyPrefix_eq : u.keyPrefix = r.keyPrefix
  processes_eq : u.processes = r.processes
  schemas_eq : u.schemas = r.schemas
  resources_eq : u.resources = r.resources
  fetch_eq : ∀ k, ¬ r.FlowsKey k → u.fetch k = r.fetch k

theorem FlowLoads.acts {r u : Repository} (h : r.FlowLoads u) : r.FlowsAct u := by
  obtain ⟨hstorage, hbase, hprocesses, hschemas, hresources⟩ := h.frame
  exact ⟨hbase, hprocesses, hschemas, hresources, fun k _ => by rw [fetch, fetch, hstorage]⟩

theorem FlowRemoved.acts {s t : Repository} {flow : FlowDefinition} (h : s.FlowRemoved flow t) :
    s.FlowsAct t := by
  obtain ⟨ns, herased, -⟩ := h.erased
  refine ⟨herased.keyPrefix_eq, h.processes_eq, h.schemas_eq, h.resources_eq, fun k hk => ?_⟩
  exact herased.fetch_eq k (fun n heq => hk (heq ▸ flowsKey_revision s _ n))
    (fun heq => hk (heq ▸ flowsKey_list s _)) (fun heq => hk (heq ▸ flowsKey_latest s _))
    fun heq => hk (.inr heq)

/-- What a kind has in memory after a call about the flows. -/
theorem FlowsAct.index_eq {D : Type} {r u : Repository} (h : r.FlowsAct u)
    (K : DefinitionKind D) : K.index u = K.index r :=
  K.index_congr u r h.processes_eq h.schemas_eq h.resources_eq

/-- Persisting a revision writes under the keys of the flows. -/
theorem persistRevision_writesAt (r : Repository) (flowId : String) (n : ℕ)
    (published : FlowDefinition) :
    r.WritesAt r.FlowsKey (r.persistRevision flowId n published) := by
  have hrevision := (store_writesAt r (r.flowRevisionKey flowId n)
    (.record published.toStorageRecord)).mono fun k hk => hk ▸ flowsKey_revision r flowId n
  have hlatest := hrevision.trans ((store_writesAt _ (r.flowLatestKey flowId) (.number n)).mono
    fun k hk => hk ▸ flowsKey_latest r flowId)
  have hlist := hlatest.trans ((appendRevisionIndex_writesAt _ flowId n).mono
    fun k hk => hk ▸ flowsKey_list r flowId)
  refine hlist.trans ((updateIndex_writesAt _ "flow" flowId).mono fun k hk => .inr ?_)
  rw [hk, (keys_congr hlist.keyPrefix_eq).2.1]

/-- What holds of the repository in every run. -/
structure Sound (r : Repository) : Prop where
  kept : r.WellKept
  flows : r.FlowsKeyed
  processes : processKind.Keyed (processKind.index r)
  schemas : schemaKind.Keyed (schemaKind.index r)
  resources : resourceKind.Keyed (resourceKind.index r)

/-- Nothing is in an empty repository. -/
theorem sound_overEmpty (attached : Bool) (keyPrefix : String) :
    (overEmpty attached keyPrefix).Sound := by
  refine ⟨wellKept_overEmpty attached keyPrefix, ⟨?_, ?_, ?_⟩, ⟨?_, ?_⟩, ⟨?_, ?_⟩, ⟨?_, ?_⟩⟩
  case refine_3 =>
    intro i revisions m flow h
    cases h
  all_goals
    intro i d h
    cases h

/-- A call about the flows that keeps them sound keeps the repository sound. -/
theorem Sound.of_flowsAct {r u : Repository} (h : r.Sound) (hact : r.FlowsAct u) (hkept : u.WellKept)
    (hflows : u.FlowsKeyed) : u.Sound where
  kept := hkept
  flows := hflows
  processes := hact.index_eq processKind ▸ h.processes
  schemas := hact.index_eq schemaKind ▸ h.schemas
  resources := hact.index_eq resourceKind ▸ h.resources

/-- Loading flows keeps the repository sound. -/
theorem Sound.of_loads {r u : Repository} (h : r.Sound) (hloads : r.FlowLoads u) : u.Sound := by
  obtain ⟨hstorage, hbase, -⟩ := hloads.frame
  exact h.of_flowsAct hloads.acts (h.kept.of_storage hstorage hbase) (hloads.keyed h.flows)

/-- Persisting a revision adds no other flow, and changes nothing in memory. -/
theorem persistRevision_flows {r : Repository} (hkept : r.WellKept) (hstorage : r.storage.isSome)
    (hflows : r.FlowsKeyed) {flow : FlowDefinition} {n : ℕ} (hn : flow.revision = some n) :
    (r.persistRevision flow.definitionId n flow).FlowsKeyed ∧
      ∀ id, (r.persistRevision flow.definitionId n flow).HasFlow id →
        r.HasFlow id ∨ flow.definitionId = id := by
  have hplaced := hkept.placed.persistRevision hn
  have hload := (load_persistRevision hstorage flow.definitionId n flow).1
  obtain ⟨x, hx⟩ := (persistRevision_writesAt r flow.definitionId n flow).only
  refine ⟨?_, fun id hid => ?_⟩
  · rw [hx]
    exact ⟨hflows.byId, hflows.byName, hflows.revision⟩
  · cases hid with
    | byId i found hget hid =>
      rw [hx] at hget
      exact .inl (.byId i found hget hid)
    | byName n found hget hid =>
      rw [hx] at hget
      exact .inl (.byName n found hget hid)
    | revision i revisions m found hget hm hid =>
      rw [hx] at hget
      exact .inl (.revision i revisions m found hget hm hid)
    | stored k found hget hid =>
      obtain ⟨m, -, hkey⟩ := hplaced.record k found hget
      have hfound := hload found.definitionId m
      rw [loadFlowRevisionRecord, ← hkey, hget] at hfound
      split_ifs at hfound with hsame
      · exact .inr (hsame.1.symm.trans hid)
      · exact .inl (.stored _ found (fetch_of_loadFlowRevisionRecord hfound.symm) hid)

theorem FlowsAct.trans {r u v : Repository} (h : r.FlowsAct u) (h' : u.FlowsAct v) :
    r.FlowsAct v := by
  refine ⟨h'.keyPrefix_eq.trans h.keyPrefix_eq, h'.processes_eq.trans h.processes_eq,
    h'.schemas_eq.trans h.schemas_eq, h'.resources_eq.trans h.resources_eq, fun k hk => ?_⟩
  refine (h'.fetch_eq k fun hin => hk ?_).trans (h.fetch_eq k hk)
  unfold FlowsKey at hin ⊢
  rwa [(keys_congr h.keyPrefix_eq).1, (keys_congr h.keyPrefix_eq).2.1] at hin

theorem FlowsAct.of_writesAt {r u : Repository} (h : r.WritesAt r.FlowsKey u) : r.FlowsAct u := by
  have hfetch := h.fetch_eq
  obtain ⟨⟨x, rfl⟩, -⟩ := h
  exact ⟨rfl, rfl, rfl, rfl, hfetch⟩

/-- A call about the flows that is sound and adds at most the flows that are given. -/
structure FlowsStep (r : Repository) (added : Option FlowDefinition) (u : Repository) : Prop where
  acts : r.FlowsAct u
  kept : u.WellKept
  keyed : u.FlowsKeyed
  hasFlow : ∀ id, u.HasFlow id → r.HasFlow id ∨ ∃ flow ∈ added, flow.definitionId = id

/-- Loading flows is such a call. -/
theorem FlowsStep.of_loads {r u : Repository} (hkept : r.WellKept) (hkeyed : r.FlowsKeyed)
    (h : r.FlowLoads u) (added : Option FlowDefinition) : r.FlowsStep added u :=
  ⟨h.acts, hkept.of_storage h.frame.1 h.frame.2.1, h.keyed hkeyed, fun _ hid => .inl (h.hasFlow hid)⟩

/-- A publication is such a call. -/
theorem publish_flowsStep {r : Repository} (hkept : r.WellKept) (hkeyed : r.FlowsKeyed)
    (flow : FlowDefinition) (persist : Bool) :
    r.FlowsStep (some flow) (r.publishFlowRevisionWith flow persist).2 := by
  set published : FlowDefinition := { flow with revision := some (r.nextRevision flow.definitionId) }
    with hpublished
  set cached := (r.cacheFlowRevision published).indexFlowLatest published with hcached
  obtain ⟨-, -, hstorage, hbase, hprocesses, hschemas, hresources⟩ :=
    cacheFlowRevision_frame r published
  have hcachedStep : r.FlowsStep (some flow) cached := by
    refine ⟨⟨hbase, hprocesses, hschemas, hresources, fun k _ => ?_⟩,
      hkept.of_storage hstorage hbase, (hkeyed.cache published).index published, fun id hid => ?_⟩
    · rw [fetch, fetch]
      change (r.cacheFlowRevision published).storage.bind _ = _
      rw [hstorage]
    · exact hid.of_index.elim (fun h => h.of_cache.imp_right fun h => ⟨flow, rfl, h⟩)
        fun h => .inr ⟨flow, rfl, h⟩
  have hpublish : (r.publishFlowRevisionWith flow persist).2 =
      if persist ∧ r.storage.isSome then cached.persistRevision published.definitionId
        (r.nextRevision flow.definitionId) published else cached := by
    have hid : flow.definitionId = published.definitionId := rfl
    simp only [publishFlowRevisionWith, ← hid]
    cases persist <;> cases r.storage <;> simp [hcached, hpublished]
  have hnumbered : published.revision = some (r.nextRevision flow.definitionId) := rfl
  rw [hpublish]
  split_ifs with hpersist
  · have hsome : cached.storage.isSome := by
      change (r.cacheFlowRevision published).storage.isSome
      rw [hstorage]
      exact hpersist.2
    obtain ⟨hkeyedU, hhas⟩ := persistRevision_flows hcachedStep.kept hsome hcachedStep.keyed
      hnumbered
    refine ⟨hcachedStep.acts.trans (.of_writesAt (persistRevision_writesAt cached _ _ _)),
      hcachedStep.kept.persistRevision hsome hnumbered, hkeyedU, fun id hid => ?_⟩
    exact (hhas id hid).elim (hcachedStep.hasFlow id) fun h => .inr ⟨flow, rfl, h⟩
  · exact hcachedStep

/-- Every call about the flows but the re-creation of the repository is such a call. -/
theorem step_flowsStep {r u : Repository} (hkept : r.WellKept) (hkeyed : r.FlowsKeyed)
    {op : RepositoryOp} (hop : op ≠ .recreate) (hstep : r.step op = some u) :
    r.FlowsStep op.flow? u := by
  cases op with
  | registerFlow flow =>
    cases hstep
    exact publish_flowsStep hkept hkeyed flow false
  | saveFlow flow =>
    cases hstep
    exact publish_flowsStep hkept hkeyed flow true
  | publishFlowRevision flow =>
    cases hstep
    exact publish_flowsStep hkept hkeyed flow r.storage.isSome
  | getLatestRevision i =>
    cases hstep
    exact .of_loads hkept hkeyed (getLatestRevision_loads r i) none
  | getFlowById i revision =>
    cases hstep
    exact .of_loads hkept hkeyed (getFlowById_loads r i revision).1 none
  | getFlowByName name revision =>
    cases hstep
    exact .of_loads hkept hkeyed (getFlowByName_loads r name revision).1 none
  | listFlowRevisions i =>
    cases hstep
    exact .of_loads hkept hkeyed (listFlowRevisions_loads r i) none
  | recreate => exact absurd rfl hop

/-- A deletion that meets the condition is such a call, and adds no flow. -/
theorem deleteFlow_flowsStep {r : Repository} (hkept : r.WellKept) (hkeyed : r.FlowsKeyed)
    {ref : String} {byId : Bool} (h : r.FlowDeletable ref byId) :
    r.FlowsStep none (r.deleteFlow ref byId).2 := by
  cases hfind : r.findFlow ref byId none with
  | none => exact .of_loads hkept hkeyed (deleteFlow_error hfind) none
  | some flow =>
    have hremoved := h.removed hkept hkeyed hfind
    exact ⟨hremoved.acts, hremoved.wellKept hkept, hremoved.keyed,
      fun id hid => .inl (hremoved.hasFlow id hid)⟩

/-- What a lookup of a flow finds is seen in the maps and under the keys of the flows. -/
theorem findFlow_congr {r u : Repository} (hr : r.Readable) (hu : u.Readable)
    (hbyId : u.flowsById = r.flowsById) (hbyName : u.flowsByName = r.flowsByName)
    (hrevisions : u.flowRevisions = r.flowRevisions) (hbase : u.keyPrefix = r.keyPrefix)
    (hfetch : ∀ k, r.FlowsKey k → u.fetch k = r.fetch k) (ref : String) (byId : Bool)
    (revision : Option ℕ) : u.findFlow ref byId revision = r.findFlow ref byId revision := by
  obtain ⟨hrevision, -, hindexed, hlatest, hrecord⟩ := flows_congr hbase hfetch
  have hrevisionAt : u.revisionAt = r.revisionAt := by
    funext i m
    rw [revisionAt, revisionAt, hrevisions, loadFlowRevisionRecord, loadFlowRevisionRecord, hrevision]
  have hflowAt : u.flowAt = r.flowAt := by
    funext i m
    cases m with
    | some m => exact congrFun (congrFun hrevisionAt i) m
    | none => rw [flowAt, flowAt, hbyId, hlatest, hrecord, hrevisionAt]
  have hids : u.collectIds = r.collectIds := by
    change (u.flowsById.keys ++ u.indexedIds "flow").dedup.mergeSort (· ≤ ·) = _
    rw [hbyId, hindexed]
    rfl
  have hscanned : u.scannedFlow = r.scannedFlow := by
    funext name
    rw [scannedFlow, scannedFlow, hids, hflowAt]
  have hrevisionOf : u.revisionOf = r.revisionOf := by
    funext flow m
    cases m with
    | some m => rw [revisionOf, revisionOf, hrevisionAt]
    | none => rfl
  rw [findFlow_eq hr, findFlow_eq hu, hflowAt, flowNamed, flowNamed,
    hbyName, hbyId, hscanned, hrevisionOf]

end Repository

/-- A kind that is apart from the kinds with another text. -/
structure DefinitionKind.Separate {D : Type} (K : DefinitionKind D) : Prop where
  process : K.kind ≠ "process" → K.Apart processKind
  schema : K.kind ≠ "state_schema" → K.Apart schemaKind
  resource : K.kind ≠ "resource" → K.Apart resourceKind

theorem process_separate : processKind.Separate :=
  ⟨fun h => absurd rfl h, fun h => ⟨h, fun _ _ => rfl⟩, fun h => ⟨h, fun _ _ => rfl⟩⟩

theorem schema_separate : schemaKind.Separate :=
  ⟨fun h => ⟨h, fun _ _ => rfl⟩, fun h => absurd rfl h, fun h => ⟨h, fun _ _ => rfl⟩⟩

theorem resource_separate : resourceKind.Separate :=
  ⟨fun h => ⟨h, fun _ _ => rfl⟩, fun h => ⟨h, fun _ _ => rfl⟩, fun h => absurd rfl h⟩

namespace DefinitionKind

open Repository

variable {D D' : Type} {K : DefinitionKind D}
  {K' : DefinitionKind D'} {r u : Repository}

/-- Kinds that are apart have different keys. -/
theorem Apart.not_key (h : K.Apart K') {k : String} (hk : K'.Key r k) : ¬ K.Key r k := by
  have hindex : ':' ∉ "index".toList := by decide
  rintro (⟨y, hy⟩ | hy) <;> rcases hk with ⟨x, hx⟩ | hx <;> rw [hx] at hy
  · exact h.kind_ne ((key_inj K'.kind_colon K.kind_colon).mp hy).1.symm
  · rw [indexKey_eq_key] at hy
    exact K.kind_ne.2 ((key_inj hindex K.kind_colon).mp hy).1.symm
  · rw [indexKey_eq_key] at hy
    exact K'.kind_ne.2 ((key_inj K'.kind_colon hindex).mp hy).1
  · rw [indexKey_eq_key, indexKey_eq_key] at hy
    exact h.kind_ne ((key_inj hindex hindex).mp hy).2.symm

/-- A call about one kind changes no lookup of another. -/
theorem Acts.find_eq (h : K.Acts r u) (hapart : K.Apart K') (ref : String) (byId : Bool) :
    K'.find u ref byId = K'.find r ref byId :=
  find_congr (h.index_eq K' hapart) h.keyPrefix_eq
    (fun k hk => h.fetch_eq k (hapart.not_key hk)) ref byId

/-- A call about one kind adds nothing to another. -/
theorem Acts.absent (h : K.Acts r u) (hapart : K.Apart K') {i : String} (habsent : K'.Absent r i) :
    K'.Absent u i :=
  habsent.congr (h.index_eq K' hapart) (K'.loadRecord_congr h.keyPrefix_eq fun x =>
    h.fetch_eq _ (hapart.not_key (.inl ⟨x, rfl⟩)))

/-- A call about a kind keeps what is stored of the flows, and their maps. -/
theorem Acts.flows (h : K.Acts r u) (hr : r.Sound) (hplaced : u.Placed) :
    u.WellKept ∧ u.FlowsKeyed ∧ ∀ id, u.HasFlow id → r.HasFlow id := by
  have hfetch (k : String) (hk : r.FlowsKey k) : u.fetch k = r.fetch k :=
    h.fetch_eq k fun hin => K.not_flowsKey hin hk
  refine ⟨hr.kept.of_flows h.keyPrefix_eq hfetch hplaced, ⟨?_, ?_, ?_⟩, fun id hid => ?_⟩
  · exact h.flowsById_eq ▸ hr.flows.byId
  · exact h.flowsByName_eq ▸ hr.flows.byName
  · exact h.flowRevisions_eq ▸ hr.flows.revision
  · cases hid with
    | byId i found hget hid => exact .byId i found (h.flowsById_eq ▸ hget) hid
    | byName n found hget hid => exact .byName n found (h.flowsByName_eq ▸ hget) hid
    | revision i revisions m found hget hm hid =>
      exact .revision i revisions m found (h.flowRevisions_eq ▸ hget) hm hid
    | stored k found hget hid =>
      obtain ⟨m, -, hkey⟩ := hplaced.record k found hget
      refine .stored k found (hfetch k ?_ ▸ hget) hid
      rw [hkey, (keys_congr h.keyPrefix_eq).2.2.1]
      exact flowsKey_revision r _ m

/-- A call about a kind changes no lookup of a flow. -/
theorem Acts.findFlow_eq (h : K.Acts r u) (hr : r.Readable) (hu : u.Readable) (ref : String)
    (byId : Bool) (revision : Option ℕ) : u.findFlow ref byId revision = r.findFlow ref byId revision :=
  findFlow_congr hr hu h.flowsById_eq h.flowsByName_eq h.flowRevisions_eq h.keyPrefix_eq
    (fun k hk => h.fetch_eq k fun hin => K.not_flowsKey hin hk) ref byId revision

/-- A call about the flows changes no lookup of another kind. -/
theorem find_of_flowsAct (h : r.FlowsAct u) (ref : String) (byId : Bool) :
    K.find u ref byId = K.find r ref byId :=
  find_congr (h.index_eq K) h.keyPrefix_eq (fun k hk => h.fetch_eq k (K.not_flowsKey hk)) ref byId

/-- A call about the flows adds nothing to another kind. -/
theorem Absent.of_flowsAct (h : r.FlowsAct u) {i : String} (habsent : K.Absent r i) : K.Absent u i :=
  habsent.congr (h.index_eq K) (K.loadRecord_congr h.keyPrefix_eq fun x =>
    h.fetch_eq _ (K.not_flowsKey (.inl ⟨x, rfl⟩)))

end DefinitionKind

namespace Repository

/-- The condition on a call: what it deletes, if it deletes something, is deleted completely. -/
def DeletesOne (r : Repository) : DefinitionOp → Prop
  | .deleteFlow ref byId => r.FlowDeletable ref byId
  | .process (.delete ref byId) => processKind.Deletable r ref byId
  | .schema (.delete ref byId) => schemaKind.Deletable r ref byId
  | .resource (.delete ref byId) => resourceKind.Deletable r ref byId
  | _ => True

instance (r : Repository) : ∀ op, Decidable (r.DeletesOne op)
  | .deleteFlow ref byId => inferInstanceAs (Decidable (r.FlowDeletable ref byId))
  | .process (.delete ref byId) => inferInstanceAs (Decidable (processKind.Deletable r ref byId))
  | .schema (.delete ref byId) => inferInstanceAs (Decidable (schemaKind.Deletable r ref byId))
  | .resource (.delete ref byId) => inferInstanceAs (Decidable (resourceKind.Deletable r ref byId))
  | .flow _ | .process (.register _) | .process (.save _) | .process (.get _ _)
  | .schema (.register _) | .schema (.save _) | .schema (.get _ _)
  | .resource (.register _) | .resource (.save _) | .resource (.get _ _) => .isTrue trivial

/-- The calls about a kind. -/
theorem call_kind (r : Repository) :
    (∀ op, r.call (.process op) = some (processKind.call r op)) ∧
      (∀ op, r.call (.schema op) = some (schemaKind.call r op)) ∧
      ∀ op, r.call (.resource op) = some (resourceKind.call r op) :=
  ⟨fun op => by cases op <;> rfl, fun op => by cases op <;> rfl, fun op => by cases op <;> rfl⟩

/-- A new repository over the same storage has what is stored. -/
theorem sound_recreate {r : Repository} (h : r.Sound) :
    ({ storage := r.storage, keyPrefix := r.keyPrefix } : Repository).Sound := by
  refine ⟨h.kept.of_storage rfl rfl, ⟨?_, ?_, ?_⟩, ⟨?_, ?_⟩, ⟨?_, ?_⟩, ⟨?_, ?_⟩⟩
  case refine_3 =>
    intro i revisions m flow h
    cases h
  all_goals
    intro i d h
    cases h

/-- Every call that meets the condition keeps the repository sound. -/
theorem Sound.call {r u : Repository} (h : r.Sound) {op : DefinitionOp} (hcall : r.call op = some u)
    (hok : r.DeletesOne op) : u.Sound := by
  have hflows {added : Option FlowDefinition} (hstep : r.FlowsStep added u) : u.Sound :=
    h.of_flowsAct hstep.acts hstep.kept hstep.keyed
  cases op with
  | flow op =>
    by_cases hop : op = .recreate
    · subst hop
      cases hcall
      exact sound_recreate h
    · exact hflows (step_flowsStep h.kept h.flows hop hcall)
  | deleteFlow ref byId =>
    cases hcall
    exact hflows (deleteFlow_flowsStep h.kept h.flows hok)
  | process op =>
    rw [r.call_kind.1 op] at hcall
    cases hcall
    have hact := processKind.call_acts r op
    obtain ⟨hkept, hkeyed, -⟩ := hact.flows h (DefinitionKind.placed_call h.kept.placed op)
    exact ⟨hkept, hkeyed, h.processes.call op,
      hact.index_eq schemaKind (process_separate.schema (by decide)) ▸ h.schemas,
      hact.index_eq resourceKind (process_separate.resource (by decide)) ▸ h.resources⟩
  | schema op =>
    rw [r.call_kind.2.1 op] at hcall
    cases hcall
    have hact := schemaKind.call_acts r op
    obtain ⟨hkept, hkeyed, -⟩ := hact.flows h (DefinitionKind.placed_call h.kept.placed op)
    exact ⟨hkept, hkeyed,
      hact.index_eq processKind (schema_separate.process (by decide)) ▸ h.processes,
      h.schemas.call op,
      hact.index_eq resourceKind (schema_separate.resource (by decide)) ▸ h.resources⟩
  | resource op =>
    rw [r.call_kind.2.2 op] at hcall
    cases hcall
    have hact := resourceKind.call_acts r op
    obtain ⟨hkept, hkeyed, -⟩ := hact.flows h (DefinitionKind.placed_call h.kept.placed op)
    exact ⟨hkept, hkeyed,
      hact.index_eq processKind (resource_separate.process (by decide)) ▸ h.processes,
      hact.index_eq schemaKind (resource_separate.schema (by decide)) ▸ h.schemas,
      h.resources.call op⟩

end Repository

/-- The definition that a call registers. -/
def DefinitionOp.published : DefinitionOp → Option Definition
  | .flow op => op.flow?.map .flow
  | .deleteFlow _ _ => none
  | .process op => op.published.map .process
  | .schema op => op.published.map .schema
  | .resource op => op.published.map .resource

namespace Repository

/-- The repository has nothing of a definition. -/
def Gone (r : Repository) : Definition → Prop
  | .flow f => ¬ r.HasFlow f.definitionId
  | .process p => processKind.Absent r p.definitionId
  | .schema s => schemaKind.Absent r s.definitionId
  | .resource s => resourceKind.Absent r s.definitionId

/-- No lookup finds a definition that is gone. -/
theorem Gone.lookup_ne {r : Repository} {d : Definition} (h : r.Gone d) {q : DefinitionQuery}
    {found : Definition} (hlookup : r.lookup q = some found) : found.identity ≠ d.identity := by
  cases q with
  | flow ref byId revision =>
    obtain ⟨f, hf, rfl⟩ := Option.map_eq_some_iff.mp hlookup
    cases d with
    | flow f' => exact fun heq => h ((Prod.mk.inj heq).2 ▸ findFlow_hasFlow hf)
    | process _ | schema _ | resource _ => simp [Definition.identity]
  | process ref byId =>
    obtain ⟨p, hp, rfl⟩ := Option.map_eq_some_iff.mp hlookup
    cases d with
    | process p' => exact fun heq => h.find_ne hp (Prod.mk.inj heq).2
    | flow _ | schema _ | resource _ => simp [Definition.identity]
  | schema ref byId =>
    obtain ⟨s, hs, rfl⟩ := Option.map_eq_some_iff.mp hlookup
    cases d with
    | schema s' => exact fun heq => h.find_ne hs (Prod.mk.inj heq).2
    | flow _ | process _ | resource _ => simp [Definition.identity]
  | resource ref byId =>
    obtain ⟨s, hs, rfl⟩ := Option.map_eq_some_iff.mp hlookup
    cases d with
    | resource s' => exact fun heq => h.find_ne hs (Prod.mk.inj heq).2
    | flow _ | process _ | schema _ => simp [Definition.identity]

/-- A definition that is gone stays so when a call about the flows adds other flows. -/
theorem Gone.of_flowsStep {r u : Repository} {d : Definition} (h : r.Gone d)
    {added : Option FlowDefinition} (hstep : r.FlowsStep added u)
    (hadded : ∀ f ∈ added, (Definition.flow f).identity ≠ d.identity) : u.Gone d := by
  cases d with
  | flow f =>
    refine fun hid => (hstep.hasFlow _ hid).elim h fun ⟨f', hf', heq⟩ => hadded f' hf' ?_
    exact congrArg (Prod.mk "flow") heq
  | process p => exact DefinitionKind.Absent.of_flowsAct hstep.acts h
  | schema s => exact DefinitionKind.Absent.of_flowsAct hstep.acts h
  | resource s => exact DefinitionKind.Absent.of_flowsAct hstep.acts h

/-- A definition that is gone stays so when a call is about another kind. -/
theorem Gone.of_acts {D : Type} {K : DefinitionKind D} (hseparate : K.Separate)
    {r u : Repository} {d : Definition} (h : r.Gone d) (hact : K.Acts r u) (hsound : r.Sound)
    (hplaced : u.Placed) (hd : K.kind ≠ d.identity.1) : u.Gone d := by
  cases d with
  | flow f => exact fun hid => h ((hact.flows hsound hplaced).2.2 _ hid)
  | process p => exact hact.absent (hseparate.process hd) h
  | schema s => exact hact.absent (hseparate.schema hd) h
  | resource s => exact hact.absent (hseparate.resource hd) h

/-- A call about one kind changes no lookup of another. -/
theorem lookup_of_acts {D : Type} {K : DefinitionKind D} (hseparate : K.Separate)
    {r u : Repository} (hact : K.Acts r u) (hr : r.Readable) (hu : u.Readable) {q : DefinitionQuery}
    (hq : K.kind ≠ q.kind) : u.lookup q = r.lookup q := by
  cases q with
  | flow ref byId revision =>
    exact congrArg (Option.map Definition.flow) (hact.findFlow_eq hr hu ref byId revision)
  | process ref byId =>
    exact congrArg (Option.map Definition.process) (hact.find_eq (hseparate.process hq) ref byId)
  | schema ref byId =>
    exact congrArg (Option.map Definition.schema) (hact.find_eq (hseparate.schema hq) ref byId)
  | resource ref byId =>
    exact congrArg (Option.map Definition.resource) (hact.find_eq (hseparate.resource hq) ref byId)

/-- A definition that is gone is so in a new repository over the same storage. -/
theorem Gone.recreate {r : Repository} {d : Definition} (h : r.Gone d) :
    ({ storage := r.storage, keyPrefix := r.keyPrefix } : Repository).Gone d := by
  have hload {D : Type} (K : DefinitionKind D) :
      K.loadRecord { storage := r.storage, keyPrefix := r.keyPrefix } = K.loadRecord r :=
    K.loadRecord_congr rfl fun _ => rfl
  cases d with
  | flow f =>
    intro hid
    cases hid with
    | byId i found hget hid => cases hget
    | byName n found hget hid => cases hget
    | revision i revisions m found hget hm hid => cases hget
    | stored k found hget hid => exact h (.stored k found hget hid)
  | process p =>
    exact ⟨(fun i o ho => by cases ho), (fun n o ho => by cases ho), hload processKind ▸ h.stored⟩
  | schema s =>
    exact ⟨(fun i o ho => by cases ho), (fun n o ho => by cases ho), hload schemaKind ▸ h.stored⟩
  | resource s =>
    exact ⟨(fun i o ho => by cases ho), (fun n o ho => by cases ho), hload resourceKind ▸ h.stored⟩

/-- A definition that is gone stays so until it is registered again. -/
theorem Gone.call {r u : Repository} {d : Definition} (h : r.Gone d) (hsound : r.Sound)
    {op : DefinitionOp} (hcall : r.call op = some u) (hok : r.DeletesOne op)
    (hnew : ∀ o ∈ op.published, o.identity ≠ d.identity) : u.Gone d := by
  cases op with
  | flow op =>
    by_cases hop : op = .recreate
    · subst hop
      cases hcall
      exact h.recreate
    · refine h.of_flowsStep (step_flowsStep hsound.kept hsound.flows hop hcall) fun f hf => ?_
      exact hnew _ (Option.mem_map_of_mem _ hf)
  | deleteFlow ref byId =>
    cases hcall
    exact h.of_flowsStep (deleteFlow_flowsStep hsound.kept hsound.flows hok) fun f hf => by cases hf
  | process op =>
    rw [r.call_kind.1 op] at hcall
    cases hcall
    have hplaced := DefinitionKind.placed_call (K := processKind) hsound.kept.placed op
    cases d with
    | process p =>
      refine DefinitionKind.Absent.call h op fun p' hp' heq => hnew (.process p') ?_ ?_
      · exact Option.mem_map_of_mem _ hp'
      · exact congrArg (Prod.mk "process") heq
    | flow _ | schema _ | resource _ =>
      exact h.of_acts process_separate (processKind.call_acts r op) hsound hplaced
        (by simp [Definition.identity, processKind])
  | schema op =>
    rw [r.call_kind.2.1 op] at hcall
    cases hcall
    have hplaced := DefinitionKind.placed_call (K := schemaKind) hsound.kept.placed op
    cases d with
    | schema s =>
      refine DefinitionKind.Absent.call h op fun s' hs' heq => hnew (.schema s') ?_ ?_
      · exact Option.mem_map_of_mem _ hs'
      · exact congrArg (Prod.mk "state_schema") heq
    | flow _ | process _ | resource _ =>
      exact h.of_acts schema_separate (schemaKind.call_acts r op) hsound hplaced
        (by simp [Definition.identity, schemaKind])
  | resource op =>
    rw [r.call_kind.2.2 op] at hcall
    cases hcall
    have hplaced := DefinitionKind.placed_call (K := resourceKind) hsound.kept.placed op
    cases d with
    | resource s =>
      refine DefinitionKind.Absent.call h op fun s' hs' heq => hnew (.resource s') ?_ ?_
      · exact Option.mem_map_of_mem _ hs'
      · exact congrArg (Prod.mk "resource") heq
    | flow _ | process _ | schema _ =>
      exact h.of_acts resource_separate (resourceKind.call_acts r op) hsound hplaced
        (by simp [Definition.identity, resourceKind])

/-- A kind among the definitions and the lookups. -/
structure Listed {D : Type} (K : DefinitionKind D) (wrap : D → Definition)
    (query : String → Bool → DefinitionQuery) : Prop where
  identity : ∀ d, (wrap d).identity = (K.kind, K.definitionId d)
  lookup : ∀ (r : Repository) ref byId, r.lookup (query ref byId) = (K.find r ref byId).map wrap
  kind : ∀ q : DefinitionQuery, K.kind = q.kind → ∃ ref byId, q = query ref byId

theorem process_listed : Listed processKind .process .process := by
  refine ⟨fun _ => rfl, fun _ _ _ => rfl, fun q hq => ?_⟩
  cases q <;> first
    | exact ⟨_, _, rfl⟩
    | simp [DefinitionQuery.kind, processKind] at hq

theorem schema_listed : Listed schemaKind .schema .schema := by
  refine ⟨fun _ => rfl, fun _ _ _ => rfl, fun q hq => ?_⟩
  cases q <;> first
    | exact ⟨_, _, rfl⟩
    | simp [DefinitionQuery.kind, schemaKind] at hq

theorem resource_listed : Listed resourceKind .resource .resource := by
  refine ⟨fun _ => rfl, fun _ _ _ => rfl, fun q hq => ?_⟩
  cases q <;> first
    | exact ⟨_, _, rfl⟩
    | simp [DefinitionQuery.kind, resourceKind] at hq

/-- A deletion of a kind that meets the condition removes what it deletes, and changes no lookup that
finds another definition. -/
theorem Listed.delete_complete {D : Type} [DecidableEq D] {K : DefinitionKind D}
    {wrap : D → Definition} {query : String → Bool → DefinitionQuery} (h : Listed K wrap query) (hseparate : K.Separate)
    {s : Repository} (hsound : s.Sound) (hkeyed : K.Keyed (K.index s)) {ref : String} {byId : Bool}
    {d : D} (hfind : K.find s ref byId = some d) (hok : K.Deletable s ref byId)
    (ht : (K.delete s ref byId).2.Sound) :
    K.Absent (K.delete s ref byId).2 (K.definitionId d) ∧
      ∀ q found, s.lookup q = some found → found.identity ≠ (wrap d).identity →
        (K.delete s ref byId).2.lookup q = some found := by
  obtain ⟨habsent, hremoved⟩ := hok.absent_and_removed hsound.kept.placed hkeyed hfind
  refine ⟨habsent, fun q found hq hne => ?_⟩
  by_cases hkind : K.kind = q.kind
  · obtain ⟨ref', byId', rfl⟩ := h.kind q hkind
    rw [h.lookup] at hq ⊢
    obtain ⟨e, he, rfl⟩ := Option.map_eq_some_iff.mp hq
    rw [h.identity, h.identity] at hne
    rw [hremoved.find_eq hsound.kept.placed hkeyed he fun heq =>
      hne (congrArg (Prod.mk K.kind) heq)]
    rfl
  · exact (lookup_of_acts hseparate (K.delete_acts s ref byId) (hsound.kept.readable hsound.flows)
      (ht.kept.readable ht.flows) hkind).trans hq

/-- A call that meets the condition removes what it deletes, and changes no lookup that finds another
definition. -/
theorem deleted_complete {s t : Repository} (hsound : s.Sound) {op : DefinitionOp}
    (hcall : s.call op = some t) (hok : s.DeletesOne op) {d : Definition}
    (hdeleted : s.deleted op = some d) :
    t.Gone d ∧ ∀ q found, s.lookup q = some found → found.identity ≠ d.identity →
      t.lookup q = some found := by
  have ht := hsound.call hcall hok
  cases op with
  | flow op => cases hdeleted
  | deleteFlow ref byId =>
    cases hcall
    obtain ⟨f, hf, rfl⟩ := Option.map_eq_some_iff.mp hdeleted
    have hremoved := FlowDeletable.removed hok hsound.kept hsound.flows hf
    refine ⟨hremoved.absent, fun q found hq hne => ?_⟩
    cases q with
    | flow ref' byId' revision =>
      obtain ⟨e, he, rfl⟩ := Option.map_eq_some_iff.mp hq
      exact congrArg (Option.map Definition.flow) (hremoved.findFlow_eq hsound.kept hsound.flows
        (hok f hf).2.1 he fun heq => hne (congrArg (Prod.mk "flow") heq))
    | process ref' byId' =>
      exact (congrArg (Option.map Definition.process)
        (DefinitionKind.find_of_flowsAct (K := processKind) hremoved.acts ref' byId')).trans hq
    | schema ref' byId' =>
      exact (congrArg (Option.map Definition.schema)
        (DefinitionKind.find_of_flowsAct (K := schemaKind) hremoved.acts ref' byId')).trans hq
    | resource ref' byId' =>
      exact (congrArg (Option.map Definition.resource)
        (DefinitionKind.find_of_flowsAct (K := resourceKind) hremoved.acts ref' byId')).trans hq
  | process op =>
    cases op with
    | register _ | save _ | get _ _ => cases hdeleted
    | delete ref byId =>
      cases hcall
      obtain ⟨p, hp, rfl⟩ := Option.map_eq_some_iff.mp hdeleted
      exact process_listed.delete_complete process_separate hsound hsound.processes hp hok ht
  | schema op =>
    cases op with
    | register _ | save _ | get _ _ => cases hdeleted
    | delete ref byId =>
      cases hcall
      obtain ⟨c, hc, rfl⟩ := Option.map_eq_some_iff.mp hdeleted
      exact schema_listed.delete_complete schema_separate hsound hsound.schemas hc hok ht
  | resource op =>
    cases op with
    | register _ | save _ | get _ _ => cases hdeleted
    | delete ref byId =>
      cases hcall
      obtain ⟨c, hc, rfl⟩ := Option.map_eq_some_iff.mp hdeleted
      exact resource_listed.delete_complete resource_separate hsound hsound.resources hc hok ht

/-- In every run of a repository over an empty storage, or over none, whose deletions meet the
condition, no lookup finds a definition from its deletion until it is registered again, and the
deletion changes no lookup that finds another definition. -/
theorem deletesCompletely_run {attached : Bool} {keyPrefix : String} {front back : List DefinitionOp}
    {op : DefinitionOp} {s t u : Repository} {d : Definition}
    (hok : AllSteps call (fun r op _ => r.DeletesOne op) (overEmpty attached keyPrefix)
      (front ++ op :: back))
    (hfront : runSteps call (overEmpty attached keyPrefix) front = some s)
    (hdeleted : s.deleted op = some d) (hcall : s.call op = some t)
    (hback : runSteps call t back = some u)
    (hnew : ∀ o ∈ back, ∀ d' ∈ o.published, d'.identity ≠ d.identity) :
    (∀ q found, u.lookup q = some found → found.identity ≠ d.identity) ∧
      ∀ q found, s.lookup q = some found → found.identity ≠ d.identity →
        t.lookup q = some found := by
  have hs : s.Sound := invariant_of_allSteps (fun _ _ _ h hcall hok => h.call hcall hok)
    (sound_overEmpty attached keyPrefix) hok.left hfront
  obtain ⟨hop, hrest⟩ := hok.of_append hfront t hcall
  obtain ⟨hgone, hothers⟩ := deleted_complete hs hcall hop hdeleted
  have hkeep : ∀ (r : Repository) (o : DefinitionOp) (v : Repository), r.Sound ∧ r.Gone d →
      r.call o = some v → (∀ d' ∈ o.published, d'.identity ≠ d.identity) ∧ r.DeletesOne o →
        v.Sound ∧ v.Gone d :=
    fun r o v h hcall hok => ⟨h.1.call hcall hok.2, h.2.call h.1 hcall hok.2 hok.1⟩
  have hlast := invariant_of_allSteps hkeep ⟨hs.call hcall hop, hgone⟩
    (hrest.and_labels (fun o => ∀ d' ∈ o.published, d'.identity ≠ d.identity) hnew) hback
  exact ⟨fun q found hq => hlast.2.lookup_ne hq, hothers⟩

/-- A process and a flow are saved, and a new repository is made over the storage. -/
def savedAndRecreated : List DefinitionOp :=
  [.process (.save { name := "nightly", id := some "p1" }),
    .flow (.saveFlow { name := "onboard", pattern := "wizard" }), .flow .recreate]

/-- After the calls, a call deletes the definition of the given kind and id, and others follow. -/
def deletesThen (r : Repository) (front : List DefinitionOp) (op : DefinitionOp)
    (back : List DefinitionOp) (identity : String × String) : Bool :=
  (runSteps call r front).any fun s => (s.deleted op).map Definition.identity = some identity ∧
    (s.call op).any fun t => (runSteps call t back).isSome

/-- The states before and after the deletion and at the end. -/
theorem exists_of_deletesThen {r : Repository} {front back : List DefinitionOp} {op : DefinitionOp}
    {identity : String × String} (h : deletesThen r front op back identity = true) :
    ∃ s t u d, runSteps call r front = some s ∧ s.deleted op = some d ∧ d.identity = identity ∧
      s.call op = some t ∧ runSteps call t back = some u := by
  obtain ⟨s, hs, hrest⟩ := (Option.any_eq_true _ _).mp h
  obtain ⟨hdeleted, hcall⟩ := of_decide_eq_true hrest
  obtain ⟨d, hd, hidentity⟩ := Option.map_eq_some_iff.mp hdeleted
  obtain ⟨t, ht, hback⟩ := (Option.any_eq_true _ _).mp hcall
  obtain ⟨u, hu⟩ := Option.isSome_iff_exists.mp hback
  exact ⟨s, t, u, d, hs, hd, hidentity, ht, hu⟩

/-- A stored process is deleted by its name and looked up by its id. -/
theorem deletesCompletely_run_stored :
    ∃ s t u, runSteps call (overEmpty true "palm:definitions") savedAndRecreated = some s ∧
      s.call (.process (.delete "nightly" false)) = some t ∧
      runSteps call t [.process (.get "p1" true)] = some u ∧
      ∀ q found, u.lookup q = some found → found.identity ≠ ("process", "p1") := by
  have hok : AllSteps call (fun r op _ => r.DeletesOne op) (overEmpty true "palm:definitions")
      (savedAndRecreated ++ .process (.delete "nightly" false) :: [.process (.get "p1" true)]) := by
    decide +kernel
  have hruns : deletesThen (overEmpty true "palm:definitions") savedAndRecreated
      (.process (.delete "nightly" false)) [.process (.get "p1" true)] ("process", "p1") = true := by
    decide +kernel
  obtain ⟨s, t, u, d, hs, hd, hidentity, ht, hu⟩ := exists_of_deletesThen hruns
  refine ⟨s, t, u, hs, ht, hu, fun q found hq => ?_⟩
  rw [← hidentity]
  exact (deletesCompletely_run hok hs hd ht hu (by simp [DefinitionOp.published, KindOp.published])).1
    q found hq

/-- A process is registered under two names, one after the other. -/
def registeredTwice : List DefinitionOp :=
  [.process (.register { name := "nightly", id := some "p1" }),
    .process (.register { name := "daily", id := some "p1" })]

/-- A process that was registered under another name before is found under it after its deletion. -/
theorem deletesCompletely_run_fails :
    ∃ s t d, runSteps call (overEmpty false "palm:definitions") registeredTwice = some s ∧
      s.deleted (.process (.delete "p1" true)) = some d ∧
      s.call (.process (.delete "p1" true)) = some t ∧
      ∃ found, t.lookup (.process "nightly" false) = some found ∧ found.identity = d.identity := by
  have hruns : deletesThen (overEmpty false "palm:definitions") registeredTwice
      (.process (.delete "p1" true)) [] ("process", "p1") = true := by
    decide +kernel
  have hfound : (((runSteps call (overEmpty false "palm:definitions") registeredTwice).bind
      (·.call (.process (.delete "p1" true)))).bind fun t =>
        (t.lookup (.process "nightly" false)).map Definition.identity) = some ("process", "p1") := by
    decide +kernel
  obtain ⟨s, t, u, d, hs, hd, hidentity, ht, -⟩ := exists_of_deletesThen hruns
  refine ⟨s, t, d, hs, hd, ht, ?_⟩
  rw [hs, Option.bind_some, ht] at hfound
  obtain ⟨found, hlookup, hsame⟩ := Option.map_eq_some_iff.mp hfound
  exact ⟨found, hlookup, hsame.trans hidentity.symm⟩

end Repository

end PalmEngine.Persistence
