import PalmEngine.Lib.Runs
import PalmEngine.Persistence.DefinitionRepository

/-!
# Revisions are appended while the counter has caught up with storage

A publication numbers its revision from the counter in memory, which a re-created
repository does not have. The stored documents grow and the latest pointer rises exactly
while every publication finds its counter at or above the stored pointer. Reading the
latest revision of a flow after a re-creation, before its first publication, is enough:
the counter then stays caught up until the next re-creation.
-/

namespace PalmEngine.Persistence

open PalmEngine.Lib

namespace Repository

/-- The in-memory revision counter of a flow, zero when it has none. -/
def counter (r : Repository) (flowId : String) : ℕ := (r.flowLatestRevision.get? flowId).getD 0

/-- A constructed repository over an empty storage, or over none. -/
def overEmpty (attached : Bool) (keyPrefix : String) : Repository :=
  .new (if attached then some fun _ => none else none) keyPrefix

end Repository

/-- What one call does to the stored revisions: the revision it publishes is greater than every
stored one of its flow, no stored document changes, and no latest pointer decreases. -/
structure AppendsOnly (r : Repository) (op : RepositoryOp) (u : Repository) : Prop where
  newest : ∀ (flow : FlowDefinition) (n m : ℕ), r.published op = some flow →
    flow.revision = some n → (r.loadFlowRevisionRecord flow.definitionId m).isSome → m < n
  kept : ∀ (flowId : String) (m : ℕ) (document : FlowDefinition),
    r.loadFlowRevisionRecord flowId m = some document →
      u.loadFlowRevisionRecord flowId m = some document
  latest : ∀ (flowId : String) (m : ℕ), r.loadLatestRevisionNumber flowId = some m →
    ∃ n, u.loadLatestRevisionNumber flowId = some n ∧ m ≤ n

/-- The counter of the flow is below its stored latest pointer. -/
def Repository.behind (r : Repository) (flowId : String) : Prop :=
  r.counter flowId < (r.loadLatestRevisionNumber flowId).getD 0

/-- The flow a publishing call is given. -/
def RepositoryOp.flow? : RepositoryOp → Option FlowDefinition
  | .registerFlow flow | .saveFlow flow | .publishFlowRevision flow => some flow
  | _ => none

/-- The call publishes a flow whose counter has not caught up with its stored pointer. -/
def PublishesBehind (r : Repository) (op : RepositoryOp) : Prop :=
  ∃ flow, op.flow? = some flow ∧ r.behind flow.definitionId

/-- The latest pointer of a flow is its largest stored revision. -/
structure WellStored (r : Repository) : Prop where
  le_latest : ∀ (flowId : String) (m : ℕ), (r.loadFlowRevisionRecord flowId m).isSome →
    m ≤ (r.loadLatestRevisionNumber flowId).getD 0
  latest_stored : ∀ (flowId : String) (m : ℕ), r.loadLatestRevisionNumber flowId = some m →
    (r.loadFlowRevisionRecord flowId m).isSome

/-- A string has at most one last colon. -/
private theorem append_colon_inj {a b a' b' : String} (hb : ':' ∉ b.toList) (hb' : ':' ∉ b'.toList) :
    a ++ ":" ++ b = a' ++ ":" ++ b' ↔ a = a' ∧ b = b' := by
  constructor
  · intro h
    have hlist : a.toList ++ ':' :: b.toList = a'.toList ++ ':' :: b'.toList := by
      simpa using congrArg String.toList h
    rcases List.append_eq_append_iff.mp hlist with ⟨c, ha', hc⟩ | ⟨c, ha, hc⟩ <;>
      rcases c with - | ⟨x, c⟩
    · simp only [List.append_nil, List.nil_append, List.cons.injEq, true_and] at ha' hc
      exact ⟨(String.toList_inj.mp ha').symm, String.toList_inj.mp hc⟩
    · simp only [List.cons_append, List.cons.injEq] at hc
      exact (hb (by rw [hc.2]; simp)).elim
    · simp only [List.append_nil, List.nil_append, List.cons.injEq, true_and] at ha hc
      exact ⟨String.toList_inj.mp ha, (String.toList_inj.mp hc).symm⟩
    · simp only [List.cons_append, List.cons.injEq] at hc
      exact (hb' (by rw [hc.2]; simp)).elim
  · rintro ⟨rfl, rfl⟩
    rfl

/-- A revision number is written in digits. -/
private theorem isDigit_of_mem_toString {n : ℕ} {c : Char} (h : c ∈ (toString n).toList) :
    c.isDigit = true :=
  Nat.isDigit_of_mem_toDigits (by decide) (by decide)
    (show c ∈ Nat.toDigits 10 n by simpa using h)

/-- A revision number is written without a colon. -/
private theorem colon_notMem_toString (n : ℕ) : ':' ∉ (toString n).toList := fun h =>
  absurd (isDigit_of_mem_toString h) (by decide)

/-- No revision number is a word with another character than digits. -/
private theorem toString_ne {n : ℕ} {word : String} (h : word.toList.all Char.isDigit = false) :
    toString n ≠ word := by
  rintro rfl
  obtain ⟨c, hc, hdigit⟩ := List.all_eq_false.mp h
  exact hdigit (isDigit_of_mem_toString hc)

namespace Repository

/-- A revision key ends in the revision number. -/
private theorem flowRevisionKey_eq (r : Repository) (flowId : String) (n : ℕ) :
    r.flowRevisionKey flowId n = r.keyPrefix ++ ":flow:" ++ flowId ++ ":rev" ++ ":" ++ toString n := by
  simp only [flowRevisionKey, String.append_assoc]
  rfl

/-- A pointer key ends in the word for the latest revision. -/
private theorem flowLatestKey_eq (r : Repository) (flowId : String) :
    r.flowLatestKey flowId = r.keyPrefix ++ ":flow:" ++ flowId ++ ":" ++ "latest" := by
  simp only [flowLatestKey, String.append_assoc]
  rfl

/-- A revision list key ends in the word for it. -/
private theorem flowRevisionsIndexKey_eq (r : Repository) (flowId : String) :
    r.flowRevisionsIndexKey flowId = r.keyPrefix ++ ":flow:" ++ flowId ++ ":" ++ "revs" := by
  simp only [flowRevisionsIndexKey, String.append_assoc]
  rfl

/-- An index key ends in its kind. -/
private theorem indexKey_eq (r : Repository) :
    r.indexKey "flow" = r.keyPrefix ++ ":index" ++ ":" ++ "flow" := by
  simp only [indexKey, String.append_assoc]
  rfl

/-- Revision keys name their flow and their revision. -/
theorem flowRevisionKey_inj {r : Repository} {flowId flowId' : String} {n n' : ℕ} :
    r.flowRevisionKey flowId n = r.flowRevisionKey flowId' n' ↔ flowId = flowId' ∧ n = n' := by
  rw [flowRevisionKey_eq, flowRevisionKey_eq,
    append_colon_inj (colon_notMem_toString n) (colon_notMem_toString n')]
  constructor
  · rintro ⟨hid, hn⟩
    exact ⟨by simpa using hid, Nat.repr_injective hn⟩
  · rintro ⟨rfl, rfl⟩
    exact ⟨rfl, rfl⟩

/-- Pointer keys name their flow. -/
theorem flowLatestKey_inj {r : Repository} {flowId flowId' : String} :
    r.flowLatestKey flowId = r.flowLatestKey flowId' ↔ flowId = flowId' := by
  simp [flowLatestKey]

/-- A revision key is neither a pointer key, nor a list key, nor the index key. -/
theorem flowRevisionKey_ne (r : Repository) (flowId flowId' : String) (n : ℕ) :
    r.flowRevisionKey flowId n ≠ r.flowLatestKey flowId' ∧
      r.flowRevisionKey flowId n ≠ r.flowRevisionsIndexKey flowId' ∧
      r.flowRevisionKey flowId n ≠ r.indexKey "flow" := by
  rw [flowRevisionKey_eq, flowLatestKey_eq, flowRevisionsIndexKey_eq, indexKey_eq]
  refine ⟨fun h => ?_, fun h => ?_, fun h => ?_⟩ <;>
    exact toString_ne (by decide)
      ((append_colon_inj (colon_notMem_toString n) (by decide)).mp h).2

/-- A pointer key is neither a list key nor the index key. -/
theorem flowLatestKey_ne (r : Repository) (flowId flowId' : String) :
    r.flowLatestKey flowId ≠ r.flowRevisionsIndexKey flowId' ∧
      r.flowLatestKey flowId ≠ r.indexKey "flow" := by
  rw [flowLatestKey_eq, flowRevisionsIndexKey_eq, indexKey_eq]
  refine ⟨fun h => ?_, fun h => ?_⟩ <;>
    exact absurd ((append_colon_inj (by decide) (by decide)).mp h).2 (by decide)

/-- A call that only loads or caches leaves the storage and lowers no counter. -/
structure LoadsOnly (r u : Repository) : Prop where
  storage : u.storage = r.storage
  keyPrefix : u.keyPrefix = r.keyPrefix
  counter_le : ∀ flowId, r.counter flowId ≤ u.counter flowId

theorem LoadsOnly.refl (r : Repository) : r.LoadsOnly r := ⟨rfl, rfl, fun _ => le_rfl⟩

theorem LoadsOnly.trans {r s u : Repository} (h : r.LoadsOnly s) (h' : s.LoadsOnly u) :
    r.LoadsOnly u :=
  ⟨h'.storage.trans h.storage, h'.keyPrefix.trans h.keyPrefix,
    fun flowId => (h.counter_le flowId).trans (h'.counter_le flowId)⟩

/-- What is stored can be read through the storage and the key prefix alone. -/
theorem LoadsOnly.loads {r u : Repository} (h : r.LoadsOnly u) :
    u.loadFlowRevisionRecord = r.loadFlowRevisionRecord ∧
      u.loadLatestRevisionNumber = r.loadLatestRevisionNumber := by
  constructor <;> funext <;>
    simp only [loadFlowRevisionRecord, loadLatestRevisionNumber, fetch, flowRevisionKey,
      flowLatestKey, h.storage, h.keyPrefix]

/-- The counter after caching one revision of a flow. -/
theorem counter_cacheFlowRevision (r : Repository) (flow : FlowDefinition) {n : ℕ}
    (h : flow.revision = some n) (flowId : String) :
    (r.cacheFlowRevision flow).counter flowId =
      if flowId = flow.definitionId then max (r.counter flowId) n else r.counter flowId := by
  simp only [cacheFlowRevision, h, counter]
  split
  · rename_i heq
    rw [heq, Dict.get?_set_self]
    rfl
  · rename_i hne
    rw [Dict.get?_set_ne _ _ hne]

/-- Caching a revision loads only. -/
theorem cacheFlowRevision_loadsOnly (r : Repository) (flow : FlowDefinition) :
    r.LoadsOnly (r.cacheFlowRevision flow) := by
  cases h : flow.revision with
  | none => simpa [cacheFlowRevision, h] using LoadsOnly.refl r
  | some n =>
    refine ⟨by simp [cacheFlowRevision, h], by simp [cacheFlowRevision, h], fun flowId => ?_⟩
    rw [counter_cacheFlowRevision r flow h]
    split
    · exact le_max_left _ _
    · exact le_rfl

/-- Indexing a flow loads only. -/
theorem indexFlowLatest_loadsOnly (r : Repository) (flow : FlowDefinition) :
    r.LoadsOnly (r.indexFlowLatest flow) := ⟨rfl, rfl, fun _ => le_rfl⟩

/-- Reading one revision loads only. -/
theorem getFlowRevision_loadsOnly (r : Repository) (definitionId : String) (n : ℕ) :
    r.LoadsOnly (r.getFlowRevision definitionId n).2 := by
  unfold getFlowRevision
  split
  · exact .refl r
  · split
    · exact cacheFlowRevision_loadsOnly r _
    · exact .refl r

/-- Reading a flow by id loads only. -/
theorem getFlowById_loadsOnly (r : Repository) (definitionId : String) (revision : Option ℕ) :
    r.LoadsOnly (r.getFlowById definitionId revision).2 := by
  unfold getFlowById
  split
  · exact getFlowRevision_loadsOnly r _ _
  · split
    · exact .refl r
    · split
      · exact getFlowRevision_loadsOnly r _ _
      · split
        · exact .refl r
        · exact (cacheFlowRevision_loadsOnly r _).trans (indexFlowLatest_loadsOnly _ _)

/-- Scanning the stored flows for a name loads only. -/
theorem scanStorageForName_loadsOnly (name : String) (r : Repository) (definitionIds : List String) :
    r.LoadsOnly (scanStorageForName name r definitionIds).2 := by
  induction definitionIds generalizing r with
  | nil => exact .refl r
  | cons definitionId rest ih =>
    have hload := getFlowById_loadsOnly r definitionId none
    unfold scanStorageForName
    split
    · rename_i flow r' heq
      rw [heq] at hload
      split
      · exact hload
      · exact hload.trans (ih r')
    · rename_i e r' heq
      rw [heq] at hload
      exact hload.trans (ih r')

/-- Reading a flow by name loads only. -/
theorem getFlowByName_loadsOnly (r : Repository) (name : String) (revision : Option ℕ) :
    r.LoadsOnly (r.getFlowByName name revision).2 := by
  unfold getFlowByName
  split
  · exact .refl r
  · split
    · split
      · exact .refl r
      · exact getFlowById_loadsOnly r _ _
    · have hscan := scanStorageForName_loadsOnly name r r.collectIds
      split <;> rename_i heq <;> rw [heq] at hscan
      · exact hscan.trans ((cacheFlowRevision_loadsOnly _ _).trans
          ((indexFlowLatest_loadsOnly _ _).trans (getFlowById_loadsOnly _ _ _)))
      · exact hscan

/-- Reading the latest revision loads only. -/
theorem getLatestRevision_loadsOnly (r : Repository) (flowId : String) :
    r.LoadsOnly (r.getLatestRevision flowId).2 := by
  unfold getLatestRevision
  split
  · exact .refl r
  · rename_i hnone
    split
    · refine ⟨rfl, rfl, fun other => ?_⟩
      by_cases hother : other = flowId
      · subst hother
        simp [counter, hnone]
      · simp [counter, Dict.get?_set_ne _ _ hother]
    · exact .refl r

/-- Listing the revisions of a flow loads only. -/
theorem listFlowRevisions_loadsOnly (r : Repository) (flowId : String) :
    r.LoadsOnly (r.listFlowRevisions flowId).2 := by
  have hload := getFlowById_loadsOnly r flowId none
  unfold listFlowRevisions
  split <;> rename_i heq <;> rw [heq] at hload <;> exact hload

/-- A stored value is what its key reads. -/
theorem fetch_store_self {r : Repository} (h : r.storage.isSome) (k : String) (value : StoredValue) :
    (r.store k value).fetch k = some value := by
  obtain ⟨storage, hstorage⟩ := Option.isSome_iff_exists.mp h
  simp [fetch, store, hstorage]

/-- Storing under one key leaves what the others read. -/
theorem fetch_store_ne (r : Repository) {i k : String} (value : StoredValue) (h : i ≠ k) :
    (r.store k value).fetch i = r.fetch i := by
  cases hstorage : r.storage <;> simp [fetch, store, hstorage, Function.update_of_ne h]

/-- The revision list is stored under its own key. -/
private theorem appendRevisionIndex_frame (r : Repository) (flowId : String) (n : ℕ) :
    (r.appendRevisionIndex flowId n).keyPrefix = r.keyPrefix ∧
      ∀ i, i ≠ r.flowRevisionsIndexKey flowId → (r.appendRevisionIndex flowId n).fetch i = r.fetch i := by
  simp only [appendRevisionIndex]
  split <;> split <;> first
    | exact ⟨rfl, fun _ _ => rfl⟩
    | exact ⟨rfl, fun _ hi => fetch_store_ne r _ hi⟩

/-- The id list is stored under its own key. -/
private theorem updateIndex_frame (r : Repository) (kind definitionId : String) :
    (r.updateIndex kind definitionId).keyPrefix = r.keyPrefix ∧
      ∀ i, i ≠ r.indexKey kind → (r.updateIndex kind definitionId).fetch i = r.fetch i := by
  simp only [updateIndex]
  split <;> split <;> first
    | exact ⟨rfl, fun _ _ => rfl⟩
    | exact ⟨rfl, fun _ hi => fetch_store_ne r _ hi⟩

/-- What the persisted part of a publication leaves under the keys that are not its indexes. -/
theorem fetch_persistRevision {r : Repository} {flowId : String} (n : ℕ)
    (published : FlowDefinition) {i : String} (hlist : i ≠ r.flowRevisionsIndexKey flowId)
    (hindex : i ≠ r.indexKey "flow") :
    (r.persistRevision flowId n published).keyPrefix = r.keyPrefix ∧
      (r.persistRevision flowId n published).fetch i =
        ((r.store (r.flowRevisionKey flowId n) (.record published)).store (r.flowLatestKey flowId)
          (.number n)).fetch i := by
  have hlast := updateIndex_frame (((r.store (r.flowRevisionKey flowId n)
    (.record published.toStorageRecord)).store (r.flowLatestKey flowId)
    (.number n)).appendRevisionIndex flowId n) "flow" flowId
  have happend := appendRevisionIndex_frame ((r.store (r.flowRevisionKey flowId n)
    (.record published.toStorageRecord)).store (r.flowLatestKey flowId) (.number n)) flowId n
  refine ⟨hlast.1.trans happend.1, (hlast.2 i ?_).trans (happend.2 i hlist)⟩
  rw [indexKey, happend.1]
  exact hindex

/-- A publication that persists adds its own document and moves its own pointer. -/
theorem load_persistRevision {r : Repository} (h : r.storage.isSome) (flowId : String) (n : ℕ)
    (published : FlowDefinition) :
    (∀ id m, (r.persistRevision flowId n published).loadFlowRevisionRecord id m =
      if id = flowId ∧ m = n then some published else r.loadFlowRevisionRecord id m) ∧
    ∀ id, (r.persistRevision flowId n published).loadLatestRevisionNumber id =
      if id = flowId then some n else r.loadLatestRevisionNumber id := by
  have hstored : (r.store (r.flowRevisionKey flowId n) (.record published)).storage.isSome := by
    simpa [store] using h
  constructor
  · intro id m
    obtain ⟨hlatest, hlist, hindex⟩ := flowRevisionKey_ne r id flowId m
    obtain ⟨hkeyed, hfetch⟩ := fetch_persistRevision n published hlist hindex
    rw [fetch_store_ne _ _ hlatest] at hfetch
    have hkey : (r.persistRevision flowId n published).flowRevisionKey id m =
        r.flowRevisionKey id m := by rw [flowRevisionKey, hkeyed]; rfl
    rw [loadFlowRevisionRecord, hkey, hfetch]
    split_ifs with heq
    · rw [heq.1, heq.2, fetch_store_self h]
    · rw [fetch_store_ne _ _ fun hk => heq (flowRevisionKey_inj.mp hk)]
      rfl
  · intro id
    obtain ⟨hlist, hindex⟩ := flowLatestKey_ne r id flowId
    obtain ⟨hkeyed, hfetch⟩ := fetch_persistRevision n published hlist hindex
    have hkey : (r.persistRevision flowId n published).flowLatestKey id = r.flowLatestKey id := by
      rw [flowLatestKey, hkeyed]; rfl
    rw [loadLatestRevisionNumber, hkey, hfetch]
    split_ifs with heq
    · subst heq
      rw [fetch_store_self hstored]
    · rw [fetch_store_ne _ _ fun hk => heq (flowLatestKey_inj.mp hk),
        fetch_store_ne _ _ (flowRevisionKey_ne r flowId id n).1.symm]
      rfl

/-- Persisting a revision changes no counter. -/
private theorem counter_persistRevision (r : Repository) (flowId : String) (n : ℕ)
    (published : FlowDefinition) (id : String) :
    (r.persistRevision flowId n published).counter id = r.counter id := by
  have hupdate (r : Repository) : (r.updateIndex "flow" flowId).counter id = r.counter id := by
    simp only [updateIndex]
    split <;> split <;> rfl
  have happend (r : Repository) : (r.appendRevisionIndex flowId n).counter id = r.counter id := by
    simp only [appendRevisionIndex]
    split <;> split <;> rfl
  rw [persistRevision, hupdate, happend]
  rfl

end Repository

/-- The revision a publishing call assigns to the flow, whether or not the call then raises. -/
def FlowDefinition.numbered (flow : FlowDefinition) (r : Repository) : FlowDefinition :=
  { flow with revision := some (r.counter flow.definitionId + 1) }

theorem FlowDefinition.numbered_definitionId (flow : FlowDefinition) (r : Repository) :
    (flow.numbered r).definitionId = flow.definitionId := rfl

/-- What one call does, seen from storage and counters: it re-creates the repository, it loads
only, or it publishes the next revision of a flow, and persists it or not. -/
inductive Effect (r : Repository) (op : RepositoryOp) (u : Repository) : Prop
  | recreated : op = .recreate → r.published op = none →
      u.loadFlowRevisionRecord = r.loadFlowRevisionRecord →
      u.loadLatestRevisionNumber = r.loadLatestRevisionNumber → Effect r op u
  | loaded : op ≠ .recreate → op.flow? = none → r.published op = none → r.LoadsOnly u → Effect r op u
  | cached (flow : FlowDefinition) : op.flow? = some flow →
      (r.published op = none ∧ r.storage = none ∨ r.published op = some (flow.numbered r)) →
      r.LoadsOnly u → Effect r op u
  | persisted (flow : FlowDefinition) : op.flow? = some flow →
      r.published op = some (flow.numbered r) →
      (∀ id m, u.loadFlowRevisionRecord id m =
        if id = flow.definitionId ∧ m = r.counter flow.definitionId + 1 then some (flow.numbered r)
        else r.loadFlowRevisionRecord id m) →
      (∀ id, u.loadLatestRevisionNumber id =
        if id = flow.definitionId then some (r.counter flow.definitionId + 1)
        else r.loadLatestRevisionNumber id) →
      (∀ id, r.counter id ≤ u.counter id) →
      r.counter flow.definitionId + 1 ≤ u.counter flow.definitionId → Effect r op u

/-- The caches after a publication hold the new revision, and its number is the counter. -/
private theorem cached_publication (r : Repository) (flow : FlowDefinition) :
    r.LoadsOnly ((r.cacheFlowRevision (flow.numbered r)).indexFlowLatest (flow.numbered r)) ∧
      r.counter flow.definitionId + 1 ≤
        ((r.cacheFlowRevision (flow.numbered r)).indexFlowLatest (flow.numbered r)).counter
          flow.definitionId := by
  refine ⟨(r.cacheFlowRevision_loadsOnly _).trans (Repository.indexFlowLatest_loadsOnly _ _), ?_⟩
  have hcounter := r.counter_cacheFlowRevision (flow.numbered r) rfl flow.definitionId
  rw [if_pos (flow.numbered_definitionId r).symm] at hcounter
  exact (le_max_right _ _).trans hcounter.ge

/-- A publication into storage adds its document, moves its pointer and raises its counter. -/
private theorem publish_persisted {r : Repository} {op : RepositoryOp} {flow : FlowDefinition}
    (h : r.storage.isSome) (hop : op.flow? = some flow)
    (hpublished : r.published op = (r.publishFlowRevisionWith flow true).1.toOption) :
    Effect r op (r.publishFlowRevisionWith flow true).2 := by
  obtain ⟨hcached, hcounter⟩ := cached_publication r flow
  have hresult : r.publishFlowRevisionWith flow true = (.ok (flow.numbered r),
      ((r.cacheFlowRevision (flow.numbered r)).indexFlowLatest (flow.numbered r)).persistRevision
        flow.definitionId (r.counter flow.definitionId + 1) (flow.numbered r)) := by
    simp only [Repository.publishFlowRevisionWith, h, if_true]
    rfl
  rw [hresult] at hpublished ⊢
  have hsome : ((r.cacheFlowRevision (flow.numbered r)).indexFlowLatest
      (flow.numbered r)).storage.isSome := by rw [hcached.storage]; exact h
  obtain ⟨hdocuments, hpointers⟩ := Repository.load_persistRevision hsome flow.definitionId
    (r.counter flow.definitionId + 1) (flow.numbered r)
  refine .persisted flow hop hpublished (fun id m => ?_) (fun id => ?_) (fun id => ?_) ?_
  · rw [hdocuments, hcached.loads.1]
  · rw [hpointers, hcached.loads.2]
  · rw [Repository.counter_persistRevision]
    exact hcached.counter_le id
  · rw [Repository.counter_persistRevision]
    exact hcounter

/-- A publication that does not reach storage changes the caches only. -/
private theorem publish_cached {r : Repository} {op : RepositoryOp} {flow : FlowDefinition}
    {persist : Bool} (h : persist = false ∨ r.storage = none)
    (hop : op.flow? = some flow)
    (hpublished : r.published op = (r.publishFlowRevisionWith flow persist).1.toOption) :
    Effect r op (r.publishFlowRevisionWith flow persist).2 := by
  obtain ⟨hcached, -⟩ := cached_publication r flow
  cases persist with
  | false => exact .cached flow hop (.inr hpublished) hcached
  | true =>
    have hnone : r.storage = none := h.resolve_left (by simp)
    have hresult : r.publishFlowRevisionWith flow true = (.error .storageNotConfigured,
        (r.cacheFlowRevision (flow.numbered r)).indexFlowLatest (flow.numbered r)) := by
      simp only [Repository.publishFlowRevisionWith, hnone, if_true]
      rfl
    rw [hresult] at hpublished ⊢
    exact .cached flow hop (.inl ⟨hpublished, hnone⟩) hcached

/-- Every call has one of those effects. -/
theorem step_effect {r u : Repository} {op : RepositoryOp} (h : r.step op = some u) :
    Effect r op u := by
  cases op with
  | registerFlow flow =>
    cases h
    exact publish_cached (.inl rfl) rfl rfl
  | saveFlow flow =>
    cases h
    cases hstorage : r.storage with
    | none => exact publish_cached (.inr hstorage) rfl rfl
    | some storage => exact publish_persisted (by simp [hstorage]) rfl rfl
  | publishFlowRevision flow =>
    cases h
    cases hstorage : r.storage with
    | none =>
      have hpersist : r.storage.isSome = false := by simp [hstorage]
      rw [Repository.publishFlowRevision, hpersist]
      exact publish_cached (.inl rfl) rfl
        (by rw [Repository.published, Repository.publishFlowRevision, hpersist])
    | some storage =>
      have hpersist : r.storage.isSome = true := by simp [hstorage]
      rw [Repository.publishFlowRevision, hpersist]
      exact publish_persisted hpersist rfl
        (by rw [Repository.published, Repository.publishFlowRevision, hpersist])
  | getLatestRevision flowId =>
    cases h
    exact .loaded (by simp) rfl rfl (r.getLatestRevision_loadsOnly flowId)
  | getFlowById definitionId revision =>
    cases h
    exact .loaded (by simp) rfl rfl (r.getFlowById_loadsOnly definitionId revision)
  | getFlowByName name revision =>
    cases h
    exact .loaded (by simp) rfl rfl (r.getFlowByName_loadsOnly name revision)
  | listFlowRevisions flowId =>
    cases h
    exact .loaded (by simp) rfl rfl (r.listFlowRevisions_loadsOnly flowId)
  | recreate =>
    cases h
    exact .recreated rfl rfl rfl rfl

/-- Without a storage no pointer is read, so nothing is behind. -/
private theorem not_behind_of_none {r : Repository} (h : r.storage = none) (flowId : String) :
    ¬ r.behind flowId := by
  simp [Repository.behind, Repository.loadLatestRevisionNumber, Repository.fetch, h]

/-- A publication behind its stored pointer takes a number that is not above all stored ones. -/
theorem AppendsOnly.not_behind {r u : Repository} {op : RepositoryOp} {flow : FlowDefinition}
    (h : AppendsOnly r op u) (hs : WellStored r) (hpublished : r.published op = some (flow.numbered r)) :
    ¬ r.behind flow.definitionId := by
  intro hbehind
  cases hlatest : r.loadLatestRevisionNumber flow.definitionId with
  | none => simp [Repository.behind, hlatest] at hbehind
  | some m =>
    have hm := h.newest (flow.numbered r) _ m hpublished rfl (hs.latest_stored _ m hlatest)
    simp only [Repository.behind, hlatest, Option.getD_some] at hbehind
    omega

/-- The next revision of a flow that is not behind is above all its stored revisions. -/
theorem lt_of_not_behind {r : Repository} (hs : WellStored r) {flowId : String}
    (h : ¬ r.behind flowId) {m : ℕ} (hm : (r.loadFlowRevisionRecord flowId m).isSome) :
    m < r.counter flowId + 1 := by
  have hle := hs.le_latest flowId m hm
  rw [Repository.behind, not_lt] at h
  omega

/-- A call that leaves the storage as it was appends only, if what it publishes is new. -/
private theorem appendsOnly_of_unstored {r u : Repository} {op : RepositoryOp}
    (hdocuments : u.loadFlowRevisionRecord = r.loadFlowRevisionRecord)
    (hpointers : u.loadLatestRevisionNumber = r.loadLatestRevisionNumber)
    (hnewest : ∀ (flow : FlowDefinition) (n m : ℕ), r.published op = some flow →
      flow.revision = some n → (r.loadFlowRevisionRecord flow.definitionId m).isSome → m < n) :
    AppendsOnly r op u :=
  ⟨hnewest, fun flowId m document h => by rw [hdocuments]; exact h,
    fun flowId m h => ⟨m, by rw [hpointers]; exact h, le_rfl⟩⟩

/-- From well-stored revisions, a call appends only exactly when it publishes no flow behind its
stored pointer. -/
theorem appendsOnly_iff {r u : Repository} {op : RepositoryOp} (hs : WellStored r)
    (h : r.step op = some u) : AppendsOnly r op u ↔ ¬ PublishesBehind r op := by
  have hnewest {flow : FlowDefinition} (hbehind : ¬ r.behind flow.definitionId)
      (other : FlowDefinition) (n m : ℕ) (hpublished : some (flow.numbered r) = some other)
      (hn : other.revision = some n) (hm : (r.loadFlowRevisionRecord other.definitionId m).isSome) :
      m < n := by
    cases hpublished
    cases hn
    exact lt_of_not_behind hs hbehind hm
  cases step_effect h with
  | recreated hop hpublished hdocuments hpointers =>
    refine iff_of_true ?_ (by simp [hop, PublishesBehind, RepositoryOp.flow?])
    exact appendsOnly_of_unstored hdocuments hpointers (by simp [hpublished])
  | loaded _ hop hpublished hloads =>
    refine iff_of_true ?_ (by simp [hop, PublishesBehind])
    exact appendsOnly_of_unstored hloads.loads.1 hloads.loads.2 (by simp [hpublished])
  | cached flow hop hpublished hloads =>
    rcases hpublished with ⟨hpublished, hnone⟩ | hpublished
    · refine iff_of_true ?_ ?_
      · exact appendsOnly_of_unstored hloads.loads.1 hloads.loads.2 (by simp [hpublished])
      · rintro ⟨other, -, hbehind⟩
        exact not_behind_of_none hnone _ hbehind
    · constructor
      · rintro happends ⟨other, hother, hbehind⟩
        cases hop.symm.trans hother
        exact happends.not_behind hs hpublished hbehind
      · intro hbehind
        refine appendsOnly_of_unstored hloads.loads.1 hloads.loads.2 ?_
        rw [hpublished]
        exact hnewest fun hb => hbehind ⟨flow, hop, hb⟩
  | persisted flow hop hpublished hdocuments hpointers _ _ =>
    constructor
    · rintro happends ⟨other, hother, hbehind⟩
      cases hop.symm.trans hother
      exact happends.not_behind hs hpublished hbehind
    · intro hbehind
      replace hbehind : ¬ r.behind flow.definitionId := fun hb => hbehind ⟨flow, hop, hb⟩
      refine ⟨by rw [hpublished]; exact hnewest hbehind, fun flowId m document hm => ?_,
        fun flowId m hm => ?_⟩
      · rw [hdocuments, if_neg, hm]
        rintro ⟨rfl, rfl⟩
        exact absurd (lt_of_not_behind hs hbehind (by rw [hm]; rfl)) (lt_irrefl _)
      · rw [hpointers]
        split_ifs with heq
        · subst heq
          refine ⟨_, rfl, ?_⟩
          rw [Repository.behind, hm, not_lt, Option.getD_some] at hbehind
          omega
        · exact ⟨m, hm, le_rfl⟩

/-- A call that appends only keeps every latest pointer the largest stored revision. -/
theorem WellStored.step {r u : Repository} {op : RepositoryOp} (hs : WellStored r)
    (h : r.step op = some u) (happends : AppendsOnly r op u) : WellStored u := by
  have hsame (hdocuments : u.loadFlowRevisionRecord = r.loadFlowRevisionRecord)
      (hpointers : u.loadLatestRevisionNumber = r.loadLatestRevisionNumber) : WellStored u := by
    refine ⟨fun flowId m hm => ?_, fun flowId m hm => ?_⟩
    · rw [hpointers]
      exact hs.le_latest flowId m (by rw [← hdocuments]; exact hm)
    · rw [hdocuments]
      exact hs.latest_stored flowId m (by rw [← hpointers]; exact hm)
  cases step_effect h with
  | recreated _ _ hdocuments hpointers => exact hsame hdocuments hpointers
  | loaded _ _ _ hloads => exact hsame hloads.loads.1 hloads.loads.2
  | cached _ _ _ hloads => exact hsame hloads.loads.1 hloads.loads.2
  | persisted flow hop hpublished hdocuments hpointers _ _ =>
    refine ⟨fun flowId m hm => ?_, fun flowId m hm => ?_⟩
    · rw [hdocuments] at hm
      rw [hpointers]
      by_cases hid : flowId = flow.definitionId
      · subst hid
        rw [if_pos rfl]
        by_cases hmn : m = r.counter flow.definitionId + 1
        · exact hmn.le
        · rw [if_neg fun hk => hmn hk.2] at hm
          exact (happends.newest (flow.numbered r) _ m hpublished rfl hm).le
      · rw [if_neg hid]
        rw [if_neg fun hk => hid hk.1] at hm
        exact hs.le_latest flowId m hm
    · rw [hpointers] at hm
      rw [hdocuments]
      split_ifs at hm with hid
      · cases hm
        rw [if_pos ⟨hid, rfl⟩]
        rfl
      · rw [if_neg fun hk => hid hk.1]
        exact hs.latest_stored flowId m hm

/-- An empty storage, and no storage, hold no revision and no pointer. -/
theorem WellStored.overEmpty (attached : Bool) (keyPrefix : String) :
    WellStored (.overEmpty attached keyPrefix) := by
  cases attached <;>
    exact ⟨fun _ _ hm => (nomatch hm), fun _ _ hm => (nomatch hm)⟩

/-- In every run of registrations, saves, publications, loads and re-creations, every call appends
only exactly when every publication finds its counter at or above the stored latest pointer. -/
theorem appendsOnly_run_iff (attached : Bool) (keyPrefix : String) (ops : List RepositoryOp) :
    AllSteps Repository.step AppendsOnly (.overEmpty attached keyPrefix) ops ↔
      AllSteps Repository.step (fun r op _ => ¬ PublishesBehind r op)
        (.overEmpty attached keyPrefix) ops :=
  allSteps_congr WellStored (fun _ _ _ hs h happends => hs.step h happends)
    (fun _ _ _ hs h => appendsOnly_iff hs h) (.overEmpty attached keyPrefix)

/-- A flow that is not behind stays so until the repository is re-created. -/
theorem not_behind_step {r u : Repository} (op : RepositoryOp) {flowId : String}
    (h : r.step op = some u) (hop : op ≠ .recreate) (hs : ¬ r.behind flowId) :
    ¬ u.behind flowId := by
  rw [Repository.behind, not_lt] at hs ⊢
  cases step_effect h with
  | recreated heq => exact (hop heq).elim
  | loaded _ _ _ hloads | cached _ _ _ hloads =>
    rw [hloads.loads.2]
    exact hs.trans (hloads.counter_le flowId)
  | persisted flow _ _ _ hpointers hcounter hnext =>
    rw [hpointers]
    split_ifs with hid
    · subst hid
      exact hnext
    · exact hs.trans (hcounter flowId)

/-- A repository that has no counter of a flow, or one that is not behind, is not behind once it has
read the flow's latest revision. -/
theorem not_behind_getLatestRevision {r : Repository} {flowId : String}
    (h : r.flowLatestRevision.get? flowId = none ∨ ¬ r.behind flowId) :
    ¬ (r.getLatestRevision flowId).2.behind flowId := by
  rcases h with h | h
  · rw [Repository.behind, (r.getLatestRevision_loadsOnly flowId).loads.2, not_lt]
    cases hlatest : r.loadLatestRevisionNumber flowId with
    | none => exact Nat.zero_le _
    | some latest => simp [Repository.getLatestRevision, h, hlatest, Repository.counter]
  · exact not_behind_step (.getLatestRevision flowId) rfl (by simp) h

/-- Reading one flow's latest revision gives no other flow a counter. -/
private theorem get?_getLatestRevision {r : Repository} {flowId other : String} (h : other ≠ flowId) :
    (r.getLatestRevision flowId).2.flowLatestRevision.get? other =
      r.flowLatestRevision.get? other := by
  unfold Repository.getLatestRevision
  split
  · rfl
  · split
    · exact Dict.get?_set_ne _ _ h
    · rfl

/-- After calls that publish nothing, a run appends only if its remainder does. -/
private theorem appendsOnly_cons {r u : Repository} {op : RepositoryOp} {rest : List RepositoryOp}
    (hs : WellStored r) (h : r.step op = some u) (hop : op.flow? = none)
    (hrest : WellStored u → AllSteps Repository.step AppendsOnly u rest) :
    AllSteps Repository.step AppendsOnly r (op :: rest) := by
  intro v hv
  cases Option.some.inj (h.symm.trans hv)
  have happends : AppendsOnly r op u := (appendsOnly_iff hs h).mpr (by simp [PublishesBehind, hop])
  exact ⟨happends, hrest (hs.step h happends)⟩

/-- Until the next re-creation, publishing flows that are not behind appends only. -/
theorem appendsOnly_of_not_behind {r : Repository} (hs : WellStored r) {flowIds : List String}
    {ops : List RepositoryOp} (hbehind : ∀ flowId ∈ flowIds, ¬ r.behind flowId)
    (hops : ∀ op ∈ ops, op ≠ .recreate ∧ ∀ flow, op.flow? = some flow → flow.definitionId ∈ flowIds) :
    AllSteps Repository.step AppendsOnly r ops := by
  induction ops generalizing r with
  | nil => trivial
  | cons op rest ih =>
    intro u hu
    obtain ⟨hop, hflow⟩ := hops op List.mem_cons_self
    have happends : AppendsOnly r op u := (appendsOnly_iff hs hu).mpr fun ⟨flow, hf, hb⟩ =>
      hbehind _ (hflow flow hf) hb
    exact ⟨happends, ih (hs.step hu happends)
      (fun flowId hmem => not_behind_step op hu hop (hbehind flowId hmem))
      fun op hmem => hops op (List.mem_cons_of_mem _ hmem)⟩

/-- A run appends only if its first part does and its second one does from what this leaves. -/
private theorem allSteps_append {r : Repository} {front back : List RepositoryOp}
    (hfront : AllSteps Repository.step AppendsOnly r front)
    (hback : ∀ u, runSteps Repository.step r front = some u →
      AllSteps Repository.step AppendsOnly u back) :
    AllSteps Repository.step AppendsOnly r (front ++ back) := by
  induction front generalizing r with
  | nil => exact hback r rfl
  | cons op rest ih =>
    intro u hu
    obtain ⟨happends, hrest⟩ := hfront u hu
    exact ⟨happends, ih hrest fun v hv => hback v (Option.bind_eq_some_iff.mpr ⟨u, hu, hv⟩)⟩

/-- A session that re-creates the repository and reads the latest revision of every flow it is going
to publish appends only, whatever the storage held before. -/
theorem appendsOnly_session {r : Repository} (hs : WellStored r) {flowIds : List String}
    {ops : List RepositoryOp}
    (hops : ∀ op ∈ ops, op ≠ .recreate ∧ ∀ flow, op.flow? = some flow → flow.definitionId ∈ flowIds) :
    AllSteps Repository.step AppendsOnly r
      (.recreate :: (flowIds.map .getLatestRevision ++ ops)) := by
  refine appendsOnly_cons hs rfl rfl fun hu => ?_
  have hreads (u : Repository) (unread : List String) (hu : WellStored u)
      (hread : ∀ flowId ∈ flowIds, flowId ∉ unread → ¬ u.behind flowId)
      (hunread : ∀ flowId ∈ unread, u.flowLatestRevision.get? flowId = none ∨ ¬ u.behind flowId) :
      AllSteps Repository.step AppendsOnly u (unread.map .getLatestRevision ++ ops) := by
    induction unread generalizing u with
    | nil => exact appendsOnly_of_not_behind hu (fun flowId h => hread flowId h (by simp)) hops
    | cons flowId rest ih =>
      refine appendsOnly_cons hu rfl rfl fun hv => ih _ hv (fun other hother hrest => ?_) ?_
      · by_cases heq : other = flowId
        · subst heq
          exact not_behind_getLatestRevision (hunread other List.mem_cons_self)
        · exact not_behind_step (.getLatestRevision flowId) rfl (by simp)
            (hread other hother (by simp [heq, hrest]))
      · intro other hother
        by_cases heq : other = flowId
        · subst heq
          exact .inr (not_behind_getLatestRevision (hunread other List.mem_cons_self))
        · rw [get?_getLatestRevision heq]
          exact (hunread other (List.mem_cons_of_mem _ hother)).imp_right
            (not_behind_step (.getLatestRevision flowId) rfl (by simp))
  exact hreads _ flowIds hu (fun flowId h hnot => (hnot h).elim) fun _ _ => .inl rfl

/-- The calls of a session: it re-creates the repository and reads the latest revision of each of the
given flows before the others. -/
def sessionOps (session : List String × List RepositoryOp) : List RepositoryOp :=
  .recreate :: (session.1.map .getLatestRevision ++ session.2)

/-- A session publishes none but the flows that it has read. -/
def ReadsFirst (session : List String × List RepositoryOp) : Prop :=
  ∀ op ∈ session.2, op ≠ .recreate ∧ ∀ flow, op.flow? = some flow → flow.definitionId ∈ session.1

/-- Over any sessions that read the flows first which they publish, every call appends only. -/
theorem appendsOnly_sessions (attached : Bool) (keyPrefix : String)
    (sessions : List (List String × List RepositoryOp))
    (hsessions : ∀ session ∈ sessions, ReadsFirst session) :
    AllSteps Repository.step AppendsOnly (.overEmpty attached keyPrefix)
      (sessions.flatMap sessionOps) := by
  have hall (r : Repository) (hs : WellStored r) :
      AllSteps Repository.step AppendsOnly r (sessions.flatMap sessionOps) := by
    induction sessions generalizing r with
    | nil => trivial
    | cons session rest ih =>
      have hsession : AllSteps Repository.step AppendsOnly r (sessionOps session) :=
        appendsOnly_session hs (hsessions session List.mem_cons_self)
      refine allSteps_append hsession fun u hu => ?_
      exact ih (fun later hlater => hsessions later (List.mem_cons_of_mem _ hlater)) u
        (invariant_of_allSteps (fun _ _ _ hs hstep happends => hs.step hstep happends) hs hsession hu)
  exact hall _ (.overEmpty attached keyPrefix)

/-- The flow has a name. -/
private theorem republished_name_ne : "onboard" ≠ "" := by decide

/-- The flow has a pattern. -/
private theorem republished_pattern_ne : "wizard" ≠ "" := by decide

/-- Two repositories over one storage each publish the first revision of the same flow. -/
def republishedTrace : List RepositoryOp :=
  [.saveFlow { name := "onboard", pattern := "wizard", options := "v1"
               name_ne := republished_name_ne, pattern_ne := republished_pattern_ne }, .recreate,
    .saveFlow { name := "onboard", pattern := "wizard", options := "v2"
                name_ne := republished_name_ne, pattern_ne := republished_pattern_ne }]

/-- Two repositories over one storage publish the same flow, each after it has read it. -/
theorem appendsOnly_sessions_republished :
    AllSteps Repository.step AppendsOnly (.overEmpty true "palm:definitions")
      ([(["onboard"], [republishedTrace.head (by decide)]),
        (["onboard"], republishedTrace.drop 2)].flatMap sessionOps) :=
  appendsOnly_sessions true "palm:definitions" _ fun session hsession op hop => by
    fin_cases hsession <;> fin_cases hop <;>
      exact ⟨by simp [republishedTrace], fun flow hflow => by cases hflow; decide⟩

/-- A re-created repository overwrites the stored first revision of a flow it has not read. -/
theorem appendsOnly_run_fails :
    ¬ ∀ (attached : Bool) (keyPrefix : String) (ops : List RepositoryOp),
      AllSteps Repository.step AppendsOnly (.overEmpty attached keyPrefix) ops := by
  intro h
  have hfirst : AllSteps Repository.step (fun r op _ => (r.published op).all (fun flow =>
      flow.revision ≠ some 1 || (r.loadFlowRevisionRecord flow.definitionId 1).isNone) = true)
      (.overEmpty true "palm:definitions") republishedTrace := by
    refine (h _ _ _).mono fun r op u happends => ?_
    cases hpublished : r.published op with
    | none => rfl
    | some flow =>
      by_contra hboth
      simp only [Option.all_some, Bool.or_eq_true, decide_eq_true_eq, not_or, not_not,
        Option.isNone_iff_eq_none, ← Option.isSome_iff_ne_none] at hboth
      exact absurd (happends.newest flow 1 1 hpublished hboth.1 hboth.2) (lt_irrefl 1)
  revert hfirst
  decide

end PalmEngine.Persistence
