import PalmEngine.Persistence.FlowRevisions
import PalmEngine.Persistence.DefinitionDeletion

/-!
# What the definition repository stores

All keys are those of a kind, so that what is stored about one kind is left alone by the calls
about another. A stored document stands under the key of its own id, a revision document under
the key of its own flow and number; the numbers of the stored revisions of a flow are in its list,
and a stored flow has a latest pointer. A deletion keeps this unless it removes, under the key of
the flow, what belongs to another one.
-/

namespace PalmEngine.Persistence

open PalmEngine.Lib

/-- A search through a list goes on past an element that finds nothing of interest. -/
theorem findSome?_filter_ne {α β : Type*} [DecidableEq α] {f g : α → Option β} {xs : List α} {x : α}
    {found : β} (h : xs.findSome? f = some found) (hx : f x ≠ some found)
    (hfg : ∀ y ∈ xs, y ≠ x → g y = f y) : (xs.filter (· ≠ x)).findSome? g = some found := by
  induction xs with
  | nil => cases h
  | cons y ys ih =>
    rw [List.findSome?_cons] at h
    by_cases hy : y = x
    · subst hy
      rw [List.filter_cons_of_neg (by simp)]
      split at h
      · rename_i hfound
        exact absurd (hfound.trans h) hx
      · exact ih h fun z hz => hfg z (List.mem_cons_of_mem _ hz)
    · rw [List.filter_cons_of_pos (by simpa using hy), List.findSome?_cons,
        hfg y List.mem_cons_self hy]
      split at h
      · assumption
      · exact ih h fun z hz => hfg z (List.mem_cons_of_mem _ hz)

/-- Ids that are collected without one of them are those that are collected, without it. -/
theorem sortedIds_filter (xs : List String) (x : String) :
    (xs.filter (· ≠ x)).dedup.mergeSort (· ≤ ·) = (xs.dedup.mergeSort (· ≤ ·)).filter (· ≠ x) := by
  have hsorted (ys : List String) : (ys.mergeSort (· ≤ ·)).Pairwise (· ≤ ·) := by
    have h := @List.pairwise_mergeSort String (fun a b => decide (a ≤ b))
      (fun a b c => by simpa using le_trans) (fun a b => by simpa using le_total a b) ys
    simpa using h
  refine List.Perm.eq_of_pairwise' (hsorted _) ((hsorted _).filter _) ?_
  refine (List.mergeSort_perm _ _).trans ?_
  refine .trans ?_ ((List.mergeSort_perm _ _).filter _).symm
  refine (List.perm_ext_iff_of_nodup (List.nodup_dedup _) ((List.nodup_dedup _).filter _)).mpr ?_
  intro a
  simp only [List.mem_dedup, List.mem_filter]

/-- A list has at most one first colon. -/
private theorem append_colon_cons_inj {a b a' b' : List Char} (h : ':' ∉ a) (h' : ':' ∉ a') :
    a ++ ':' :: b = a' ++ ':' :: b' ↔ a = a' ∧ b = b' := by
  induction a generalizing a' with
  | nil => cases a' <;> grind
  | cons c a ih => cases a' <;> grind

namespace Repository

/-- The stored list of the revision numbers of a flow. -/
def listedRevisions (r : Repository) (flowId : String) : List ℕ :=
  match r.fetch (r.flowRevisionsIndexKey flowId) with
  | some (.numbers ns) => ns
  | _ => []

/-- Keys name their kind and what follows it. -/
theorem key_inj {r : Repository} {kind kind' x x' : String} (h : ':' ∉ kind.toList)
    (h' : ':' ∉ kind'.toList) : r.key kind x = r.key kind' x' ↔ kind = kind' ∧ x = x' := by
  have hlist : r.key kind x = r.key kind' x' ↔
      kind.toList ++ ':' :: x.toList = kind'.toList ++ ':' :: x'.toList := by
    rw [← String.toList_inj]
    simp [key]
  rw [hlist, append_colon_cons_inj h h', String.toList_inj, String.toList_inj]

/-- A revision key is a key of the flows. -/
theorem flowRevisionKey_eq_key (r : Repository) (flowId : String) (n : ℕ) :
    r.flowRevisionKey flowId n = r.key "flow" (flowId ++ ":rev:" ++ toString n) := by
  rw [← String.toList_inj]
  simp [flowRevisionKey, key]

/-- A pointer key is a key of the flows. -/
theorem flowLatestKey_eq_key (r : Repository) (flowId : String) :
    r.flowLatestKey flowId = r.key "flow" (flowId ++ ":latest") := by
  rw [← String.toList_inj]
  simp [flowLatestKey, key]

/-- A revision list key is a key of the flows. -/
theorem flowRevisionsIndexKey_eq_key (r : Repository) (flowId : String) :
    r.flowRevisionsIndexKey flowId = r.key "flow" (flowId ++ ":revs") := by
  rw [← String.toList_inj]
  simp [flowRevisionsIndexKey, key]

/-- The key of a list of ids is a key of its own kind. -/
theorem indexKey_eq_key (r : Repository) (kind : String) :
    r.indexKey kind = r.key "index" kind := by
  rw [← String.toList_inj]
  simp [indexKey, key]

/-- Revision list keys name their flow. -/
theorem flowRevisionsIndexKey_inj {r : Repository} {flowId flowId' : String} :
    r.flowRevisionsIndexKey flowId = r.flowRevisionsIndexKey flowId' ↔ flowId = flowId' := by
  simp [flowRevisionsIndexKey]

/-- Keys of different kinds differ. -/
theorem key_ne_of_kind (r : Repository) {kind kind' : String} (x x' : String)
    (h : ':' ∉ kind.toList) (h' : ':' ∉ kind'.toList) (hne : kind ≠ kind') :
    r.key kind x ≠ r.key kind' x' :=
  fun heq => hne ((key_inj h h').mp heq).1

/-- What is read after a value was stored. -/
theorem fetch_store (r : Repository) (k i : String) (value : StoredValue) :
    (r.store k value).fetch i = if i = k then r.storage.map fun _ => value else r.fetch i := by
  split_ifs with h
  · subst h
    cases hstorage : r.storage <;> simp [fetch, store, hstorage]
  · exact fetch_store_ne r value h

/-- What is read after a key was deleted. -/
theorem fetch_remove (r : Repository) (k i : String) :
    (r.remove k).fetch i = if i = k then none else r.fetch i := by
  cases hstorage : r.storage <;> simp [fetch, remove, hstorage, Function.update_apply]

/-- A call that only writes to the storage, under some of the keys. -/
structure WritesAt (r : Repository) (keys : String → Prop) (u : Repository) : Prop where
  only : ∃ s, u = { r with storage := s }
  fetch_eq : ∀ k, ¬ keys k → u.fetch k = r.fetch k

theorem WritesAt.refl (r : Repository) (keys : String → Prop) : r.WritesAt keys r :=
  ⟨⟨r.storage, rfl⟩, fun _ _ => rfl⟩

theorem WritesAt.trans {r u v : Repository} {keys : String → Prop} (h : r.WritesAt keys u)
    (h' : u.WritesAt keys v) : r.WritesAt keys v := by
  obtain ⟨⟨s, rfl⟩, hfetch⟩ := h
  obtain ⟨⟨s', rfl⟩, hfetch'⟩ := h'
  exact ⟨⟨s', rfl⟩, fun k hk => (hfetch' k hk).trans (hfetch k hk)⟩

theorem WritesAt.keyPrefix_eq {r u : Repository} {keys : String → Prop} (h : r.WritesAt keys u) :
    u.keyPrefix = r.keyPrefix := by
  obtain ⟨⟨s, rfl⟩, -⟩ := h
  rfl

/-- What is written under some keys is written under more of them. -/
theorem WritesAt.mono {r u : Repository} {keys keys' : String → Prop} (h : r.WritesAt keys u)
    (hkeys : ∀ k, keys k → keys' k) : r.WritesAt keys' u :=
  ⟨h.only, fun k hk => h.fetch_eq k fun hin => hk (hkeys k hin)⟩

theorem store_writesAt (r : Repository) (k : String) (value : StoredValue) :
    r.WritesAt (· = k) (r.store k value) :=
  ⟨⟨_, rfl⟩, fun _ hk => fetch_store_ne r value hk⟩

theorem remove_writesAt (r : Repository) (k : String) : r.WritesAt (· = k) (r.remove k) :=
  ⟨⟨_, rfl⟩, fun i hi => by rw [fetch_remove, if_neg hi]⟩

theorem appendRevisionIndex_writesAt (r : Repository) (flowId : String) (n : ℕ) :
    r.WritesAt (· = r.flowRevisionsIndexKey flowId) (r.appendRevisionIndex flowId n) := by
  simp only [appendRevisionIndex]
  split <;> split <;> first
    | exact .refl _ _
    | exact store_writesAt _ _ _

theorem updateIndex_writesAt (r : Repository) (kind definitionId : String) :
    r.WritesAt (· = r.indexKey kind) (r.updateIndex kind definitionId) := by
  simp only [updateIndex]
  split <;> split <;> first
    | exact .refl _ _
    | exact store_writesAt _ _ _

theorem removeFromIndex_writesAt (r : Repository) (kind definitionId : String) :
    r.WritesAt (· = r.indexKey kind) (r.removeFromIndex kind definitionId) := by
  unfold removeFromIndex
  split
  · exact store_writesAt _ _ _
  · exact .refl _ _

/-- Deleting a document writes under its key and under that of the list of its kind. -/
theorem deleteRecord_writesAt (r : Repository) (kind definitionId : String) :
    r.WritesAt (fun k => k = r.key kind definitionId ∨ k = r.indexKey kind)
      (r.deleteRecord kind definitionId) :=
  ((remove_writesAt r _).mono fun _ h => .inl h).trans
    ((removeFromIndex_writesAt _ kind definitionId).mono fun _ h => .inr h)

/-- Deleting a revision document writes under its key and under that of the list of its flow. -/
theorem deleteFlowRevisionRecord_writesAt (r : Repository) (flowId : String) (n : ℕ) :
    r.WritesAt (fun k => k = r.flowRevisionKey flowId n ∨ k = r.flowRevisionsIndexKey flowId)
      (r.deleteFlowRevisionRecord flowId n) := by
  have hremoved := (remove_writesAt r (r.flowRevisionKey flowId n)).mono
    (fun _ h => Or.inl h : ∀ k, k = _ → k = _ ∨ k = r.flowRevisionsIndexKey flowId)
  simp only [deleteFlowRevisionRecord]
  split
  · exact hremoved.trans ((store_writesAt _ _ _).mono fun _ h => .inr h)
  · exact hremoved

/-- Deleting the pointer of a flow writes under its key and under that of the list. -/
theorem deleteLatestRevisionPointer_writesAt (r : Repository) (flowId : String) :
    r.WritesAt (fun k => k = r.flowLatestKey flowId ∨ k = r.flowRevisionsIndexKey flowId)
      (r.deleteLatestRevisionPointer flowId) :=
  ((remove_writesAt r _).mono fun _ h => .inl h).trans
    ((remove_writesAt _ _).mono fun _ h => .inr h)

/-- The listed revisions after a list was stored. -/
theorem listedRevisions_store {r : Repository} (h : r.storage.isSome) (flowId : String)
    (ns : List ℕ) :
    (r.store (r.flowRevisionsIndexKey flowId) (.numbers ns)).listedRevisions flowId = ns := by
  change (match (r.store _ _).fetch (r.flowRevisionsIndexKey flowId) with
    | some (.numbers ns) => ns
    | _ => []) = ns
  rw [fetch_store_self h]

/-- The listed ids after a list was stored. -/
theorem indexedIds_store {r : Repository} (h : r.storage.isSome) (kind : String)
    (ids : List String) : (r.store (r.indexKey kind) (.ids ids)).indexedIds kind = ids := by
  have hkey : (r.store (r.indexKey kind) (.ids ids)).indexKey kind = r.indexKey kind := rfl
  rw [indexedIds, hkey, fetch_store_self h]

/-- The listed revisions after one was added. -/
theorem mem_listedRevisions_append {r : Repository} (h : r.storage.isSome) (flowId : String)
    (n m : ℕ) :
    m ∈ (r.appendRevisionIndex flowId n).listedRevisions flowId ↔
      m = n ∨ m ∈ r.listedRevisions flowId := by
  have happend : r.appendRevisionIndex flowId n = if n ∈ r.listedRevisions flowId then r else
      r.store (r.flowRevisionsIndexKey flowId)
        (.numbers ((r.listedRevisions flowId ++ [n]).mergeSort (· ≤ ·))) := rfl
  rw [happend]
  split_ifs with hn
  · exact ⟨.inr, fun h => h.elim (· ▸ hn) id⟩
  · rw [listedRevisions_store h]
    simp [or_comm]

/-- The listed ids after one was added. -/
theorem mem_indexedIds_update {r : Repository} (h : r.storage.isSome) (kind i j : String) :
    j ∈ (r.updateIndex kind i).indexedIds kind ↔ j = i ∨ j ∈ r.indexedIds kind := by
  have hupdate : r.updateIndex kind i = if i ∈ r.indexedIds kind then r else
      r.store (r.indexKey kind) (.ids (r.indexedIds kind ++ [i])) := rfl
  rw [hupdate]
  split_ifs with hn
  · exact ⟨.inr, fun h => h.elim (· ▸ hn) id⟩
  · rw [indexedIds_store h]
    simp [or_comm]

/-- A value is read from a storage. -/
theorem isSome_of_fetch {r : Repository} {k : String} {value : StoredValue}
    (h : r.fetch k = some value) : r.storage.isSome := by
  obtain ⟨s, hs, -⟩ := Option.bind_eq_some_iff.mp h
  exact Option.isSome_iff_exists.mpr ⟨s, hs⟩

/-- The listed ids after one was taken out. -/
theorem indexedIds_removeFromIndex (r : Repository) (kind i : String) :
    (r.removeFromIndex kind i).indexedIds kind = (r.indexedIds kind).filter (· ≠ i) := by
  unfold removeFromIndex
  split
  · rename_i ids hfetch
    rw [indexedIds_store (isSome_of_fetch hfetch), indexedIds, hfetch]
  · rename_i hno
    unfold indexedIds
    split
    · rename_i ids hfetch
      exact absurd hfetch (hno ids)
    · rfl

/-- A stored document stands under the key of its kind and id, and a revision document under that of
its flow and number. -/
structure Placed (r : Repository) : Prop where
  document : ∀ k value place, r.fetch k = some value → value.document = some place →
    k = r.key place.1 place.2
  record : ∀ k flow, r.fetch k = some (.record flow) →
    ∃ m, flow.revision = some m ∧ k = r.flowRevisionKey flow.definitionId m

/-- What is stored in its place keeps everything in its place. -/
theorem Placed.store {r : Repository} (h : r.Placed) {k : String} {value : StoredValue}
    (hdocument : ∀ place, value.document = some place → k = r.key place.1 place.2)
    (hrecord : ∀ flow, value = .record flow →
      ∃ m, flow.revision = some m ∧ k = r.flowRevisionKey flow.definitionId m) :
    (r.store k value).Placed where
  document i value' place hfetch hplace := by
    rw [fetch_store] at hfetch
    split_ifs at hfetch with hi
    · obtain ⟨_, -, rfl⟩ := Option.map_eq_some_iff.mp hfetch
      exact hi ▸ hdocument place hplace
    · exact h.document i value' place hfetch hplace
  record i flow hfetch := by
    rw [fetch_store] at hfetch
    split_ifs at hfetch with hi
    · obtain ⟨_, -, hvalue⟩ := Option.map_eq_some_iff.mp hfetch
      exact hi ▸ hrecord flow hvalue
    · exact h.record i flow hfetch

/-- A value that is no document can be stored under any key. -/
theorem Placed.storeOther {r : Repository} (h : r.Placed) (k : String) {value : StoredValue}
    (hdocument : value.document = none) (hrecord : ∀ flow, value ≠ .record flow) :
    (r.store k value).Placed :=
  h.store (fun place hplace => by rw [hdocument] at hplace; cases hplace)
    fun flow hvalue => absurd hvalue (hrecord flow)

theorem Placed.remove {r : Repository} (h : r.Placed) (k : String) : (r.remove k).Placed where
  document i value place hfetch hplace := by
    rw [fetch_remove] at hfetch
    split_ifs at hfetch
    exact h.document i value place hfetch hplace
  record i flow hfetch := by
    rw [fetch_remove] at hfetch
    split_ifs at hfetch
    exact h.record i flow hfetch

theorem Placed.appendRevisionIndex {r : Repository} (h : r.Placed) (flowId : String) (n : ℕ) :
    (r.appendRevisionIndex flowId n).Placed := by
  simp only [Repository.appendRevisionIndex]
  split <;> split <;> first
    | exact h
    | exact h.storeOther _ rfl (by simp)

theorem Placed.updateIndex {r : Repository} (h : r.Placed) (kind definitionId : String) :
    (r.updateIndex kind definitionId).Placed := by
  simp only [Repository.updateIndex]
  split <;> split <;> first
    | exact h
    | exact h.storeOther _ rfl (by simp)

theorem Placed.deleteRecord {r : Repository} (h : r.Placed) (kind definitionId : String) :
    (r.deleteRecord kind definitionId).Placed := by
  have hremoved := h.remove (r.key kind definitionId)
  unfold Repository.deleteRecord removeFromIndex
  split
  · exact hremoved.storeOther _ rfl (by simp)
  · exact hremoved

theorem Placed.deleteFlowRevisionRecord {r : Repository} (h : r.Placed) (flowId : String) (n : ℕ) :
    (r.deleteFlowRevisionRecord flowId n).Placed := by
  have hremoved := h.remove (r.flowRevisionKey flowId n)
  simp only [Repository.deleteFlowRevisionRecord]
  split
  · exact hremoved.storeOther _ rfl (by simp)
  · exact hremoved

theorem Placed.persistRevision {r : Repository} (h : r.Placed) {flow : FlowDefinition} {n : ℕ}
    (hn : flow.revision = some n) : (r.persistRevision flow.definitionId n flow).Placed := by
  have hrecord : (r.store (r.flowRevisionKey flow.definitionId n) (.record flow)).Placed := by
    refine h.store (fun place hplace => by cases hplace) fun flow' hflow => ?_
    cases hflow
    exact ⟨n, hn, rfl⟩
  exact ((hrecord.storeOther _ rfl (by simp)).appendRevisionIndex _ n).updateIndex "flow" _

/-- What the storage keeps: every document is in its place, the numbers of the revision documents of
a flow are listed, and every flow that is listed has a latest pointer. -/
structure WellKept (r : Repository) : Prop where
  placed : r.Placed
  listed : ∀ flowId m flow, r.fetch (r.flowRevisionKey flowId m) = some (.record flow) →
    m ∈ r.listedRevisions flowId
  pointed : ∀ flowId ∈ r.indexedIds "flow", (r.loadLatestRevisionNumber flowId).isSome

/-- Nothing is kept in an empty storage. -/
theorem wellKept_overEmpty (attached : Bool) (keyPrefix : String) :
    (overEmpty attached keyPrefix).WellKept := by
  have hfetch (k : String) : (overEmpty attached keyPrefix).fetch k = none := by
    cases attached <;> rfl
  refine ⟨⟨fun k value place h => ?_, fun k flow h => ?_⟩, fun flowId m flow h => ?_,
    fun flowId h => ?_⟩
  · simp [hfetch] at h
  · simp [hfetch] at h
  · simp [hfetch] at h
  · simp [indexedIds, hfetch] at h

/-- What is kept is seen in the storage and the prefix of the keys. -/
theorem WellKept.of_storage {r u : Repository} (h : r.WellKept) (hstorage : u.storage = r.storage)
    (hbase : u.keyPrefix = r.keyPrefix) : u.WellKept := by
  have hfetch : u.fetch = r.fetch := by
    funext k
    rw [fetch, fetch, hstorage]
  refine ⟨⟨fun k value place => ?_, fun k flow => ?_⟩, fun flowId m flow => ?_, fun flowId => ?_⟩
  · rw [hfetch, key, hbase]
    exact h.placed.document k value place
  · simp only [hfetch, flowRevisionKey, hbase]
    exact h.placed.record k flow
  · simp only [listedRevisions, flowRevisionsIndexKey, hfetch, flowRevisionKey, hbase]
    exact h.listed flowId m flow
  · simp only [indexedIds, indexKey, loadLatestRevisionNumber, flowLatestKey, hfetch, hbase]
    exact h.pointed flowId

/-- A key under which the repository keeps what belongs to the flows. -/
def FlowsKey (r : Repository) (k : String) : Prop := (∃ x, k = r.key "flow" x) ∨ k = r.indexKey "flow"

theorem flowsKey_revision (r : Repository) (flowId : String) (n : ℕ) :
    r.FlowsKey (r.flowRevisionKey flowId n) := .inl ⟨_, flowRevisionKey_eq_key r flowId n⟩

theorem flowsKey_latest (r : Repository) (flowId : String) : r.FlowsKey (r.flowLatestKey flowId) :=
  .inl ⟨_, flowLatestKey_eq_key r flowId⟩

theorem flowsKey_list (r : Repository) (flowId : String) :
    r.FlowsKey (r.flowRevisionsIndexKey flowId) := .inl ⟨_, flowRevisionsIndexKey_eq_key r flowId⟩

/-- What the repository has stored of the flows is seen under the keys of the flows. -/
theorem flows_congr {r u : Repository} (hbase : u.keyPrefix = r.keyPrefix)
    (hfetch : ∀ k, r.FlowsKey k → u.fetch k = r.fetch k) :
    (∀ flowId m, u.fetch (u.flowRevisionKey flowId m) = r.fetch (r.flowRevisionKey flowId m)) ∧
      u.listedRevisions = r.listedRevisions ∧ u.indexedIds "flow" = r.indexedIds "flow" ∧
      u.loadLatestRevisionNumber = r.loadLatestRevisionNumber ∧
      u.loadRecord "flow" = r.loadRecord "flow" := by
  refine ⟨fun flowId m => ?_, ?_, ?_, ?_, ?_⟩
  · rw [flowRevisionKey, hbase]
    exact hfetch _ (flowsKey_revision r flowId m)
  · funext flowId
    simp only [listedRevisions, flowRevisionsIndexKey, hbase]
    rw [← flowRevisionsIndexKey, hfetch _ (flowsKey_list r flowId)]
  · simp only [indexedIds, indexKey, hbase]
    rw [← indexKey, hfetch _ (.inr rfl)]
  · funext flowId
    simp only [loadLatestRevisionNumber, flowLatestKey, hbase]
    rw [← flowLatestKey, hfetch _ (flowsKey_latest r flowId)]
  · funext flowId
    simp only [loadRecord, key, hbase]
    rw [← key, hfetch _ (.inl ⟨_, rfl⟩)]

/-- What is stored of the flows is kept if it is left alone. -/
theorem WellKept.of_flows {r u : Repository} (h : r.WellKept) (hbase : u.keyPrefix = r.keyPrefix)
    (hfetch : ∀ k, r.FlowsKey k → u.fetch k = r.fetch k) (hplaced : u.Placed) : u.WellKept := by
  obtain ⟨hrevision, hlisted, hindexed, hlatest, -⟩ := flows_congr hbase hfetch
  refine ⟨hplaced, fun flowId m flow hfetch => ?_, fun flowId hin => ?_⟩
  · rw [hrevision] at hfetch
    rw [hlisted]
    exact h.listed flowId m flow hfetch
  · rw [hindexed] at hin
    rw [hlatest]
    exact h.pointed flowId hin

/-- The listed revisions are seen under their key. -/
theorem listedRevisions_congr {r u : Repository} {flowId : String} (hbase : u.keyPrefix = r.keyPrefix)
    (hfetch : u.fetch (r.flowRevisionsIndexKey flowId) = r.fetch (r.flowRevisionsIndexKey flowId)) :
    u.listedRevisions flowId = r.listedRevisions flowId := by
  simp only [listedRevisions, flowRevisionsIndexKey, hbase]
  rw [← flowRevisionsIndexKey, hfetch]

/-- The listed ids are seen under their key. -/
theorem indexedIds_congr {r u : Repository} {kind : String} (hbase : u.keyPrefix = r.keyPrefix)
    (hfetch : u.fetch (r.indexKey kind) = r.fetch (r.indexKey kind)) :
    u.indexedIds kind = r.indexedIds kind := by
  simp only [indexedIds, indexKey, hbase]
  rw [← indexKey, hfetch]

/-- A revision list key is not the key of a list of ids. -/
theorem flowRevisionsIndexKey_ne (r : Repository) (flowId kind : String) :
    r.flowRevisionsIndexKey flowId ≠ r.indexKey kind := by
  rw [flowRevisionsIndexKey_eq_key, indexKey_eq_key]
  exact key_ne_of_kind r _ _ (by decide) (by decide) (by decide)

/-- The document and the pointer of a revision, before its number and its flow are listed. -/
private def persisted (r : Repository) (flowId : String) (n : ℕ) (published : FlowDefinition) :
    Repository :=
  (r.store (r.flowRevisionKey flowId n) (.record published)).store (r.flowLatestKey flowId)
    (.number n)

/-- A document and a pointer are stored under the keys of the flow. -/
private theorem fetch_persisted (r : Repository) {flowId : String} {n : ℕ}
    {published : FlowDefinition} {k : String} (hrevision : k ≠ r.flowRevisionKey flowId n) (hlatest : k ≠ r.flowLatestKey flowId) :
    (r.persisted flowId n published).fetch k = r.fetch k := by
  rw [persisted, fetch_store_ne _ _ hlatest, fetch_store_ne _ _ hrevision]

/-- The listed revisions after a revision was persisted. -/
theorem mem_listedRevisions_persist {r : Repository} (h : r.storage.isSome) (flowId i : String)
    (n m : ℕ) (published : FlowDefinition) :
    m ∈ (r.persistRevision flowId n published).listedRevisions i ↔
      (i = flowId ∧ m = n) ∨ m ∈ r.listedRevisions i := by
  set u := r.persisted flowId n published with hu
  have husome : u.storage.isSome := by simpa [hu, persisted, store] using h
  have hsame : u.listedRevisions i = r.listedRevisions i :=
    listedRevisions_congr rfl (fetch_persisted r (flowRevisionKey_ne r flowId i n).2.1.symm
      (flowLatestKey_ne r flowId i).1.symm)
  have happend := appendRevisionIndex_writesAt u flowId n
  have hupdate := updateIndex_writesAt (u.appendRevisionIndex flowId n) "flow" flowId
  have hlast : (r.persistRevision flowId n published).listedRevisions i =
      (u.appendRevisionIndex flowId n).listedRevisions i :=
    listedRevisions_congr hupdate.keyPrefix_eq
      (hupdate.fetch_eq _ (flowRevisionsIndexKey_ne _ i "flow"))
  rw [hlast]
  by_cases hi : i = flowId
  · subst hi
    rw [mem_listedRevisions_append husome, hsame]
    simp
  · rw [listedRevisions_congr happend.keyPrefix_eq
      (happend.fetch_eq _ fun heq => hi (flowRevisionsIndexKey_inj.mp heq)), hsame]
    simp [hi]

/-- The listed flows after a revision was persisted. -/
theorem mem_indexedIds_persist {r : Repository} (h : r.storage.isSome) (flowId i : String) (n : ℕ)
    (published : FlowDefinition) :
    i ∈ (r.persistRevision flowId n published).indexedIds "flow" ↔
      i = flowId ∨ i ∈ r.indexedIds "flow" := by
  set u := r.persisted flowId n published with hu
  have happend := appendRevisionIndex_writesAt u flowId n
  have hsome : (u.appendRevisionIndex flowId n).storage.isSome := by
    have husome : u.storage.isSome := by simpa [hu, persisted, store] using h
    simp only [appendRevisionIndex]
    split <;> split <;> simpa [store] using husome
  have hsame : (u.appendRevisionIndex flowId n).indexedIds "flow" = r.indexedIds "flow" :=
    (indexedIds_congr happend.keyPrefix_eq
      (happend.fetch_eq _ (flowRevisionsIndexKey_ne _ flowId "flow").symm)).trans
    (indexedIds_congr rfl (fetch_persisted r (flowRevisionKey_ne r flowId flowId n).2.2.symm
      (flowLatestKey_ne r flowId flowId).2.symm))
  rw [← hsame]
  exact mem_indexedIds_update hsome "flow" flowId i

/-- A revision document that is read is stored. -/
theorem fetch_of_loadFlowRevisionRecord {r : Repository} {flowId : String} {m : ℕ}
    {flow : FlowDefinition} (h : r.loadFlowRevisionRecord flowId m = some flow) :
    r.fetch (r.flowRevisionKey flowId m) = some (.record flow) := by
  unfold loadFlowRevisionRecord at h
  split at h
  · rename_i hfetch
    rw [hfetch, Option.some.inj h]
  · cases h

/-- A persisted revision is kept with its number and its pointer. -/
theorem WellKept.persistRevision {r : Repository} (h : r.WellKept) (hstorage : r.storage.isSome)
    {flow : FlowDefinition} {n : ℕ} (hn : flow.revision = some n) :
    (r.persistRevision flow.definitionId n flow).WellKept := by
  obtain ⟨hrecords, hlatest⟩ := load_persistRevision hstorage flow.definitionId n flow
  refine ⟨h.placed.persistRevision hn, fun flowId m flow' hfetch => ?_, fun flowId hin => ?_⟩
  · rw [mem_listedRevisions_persist hstorage]
    have hload : (r.persistRevision flow.definitionId n flow).loadFlowRevisionRecord flowId m =
        some flow' := by
      rw [loadFlowRevisionRecord, hfetch]
    rw [hrecords] at hload
    split_ifs at hload with hsame
    · exact .inl hsame
    · exact .inr (h.listed flowId m flow' (fetch_of_loadFlowRevisionRecord hload))
  · rw [hlatest]
    split_ifs with hsame
    · rfl
    · rw [mem_indexedIds_persist hstorage] at hin
      exact h.pointed flowId (hin.resolve_left hsame)

/-- Keys are the same under the same prefix. -/
theorem keys_congr {r u : Repository} (h : u.keyPrefix = r.keyPrefix) :
    u.key = r.key ∧ u.indexKey = r.indexKey ∧ u.flowRevisionKey = r.flowRevisionKey ∧
      u.flowLatestKey = r.flowLatestKey ∧ u.flowRevisionsIndexKey = r.flowRevisionsIndexKey := by
  refine ⟨?_, ?_, ?_, ?_, ?_⟩ <;> funext <;>
    simp only [key, indexKey, flowRevisionKey, flowLatestKey, flowRevisionsIndexKey, h]

/-- The revision documents after one was deleted. -/
theorem fetch_deleteFlowRevisionRecord (r : Repository) (flowId i : String) (n m : ℕ) :
    (r.deleteFlowRevisionRecord flowId n).fetch (r.flowRevisionKey i m) =
      if i = flowId ∧ m = n then none else r.fetch (r.flowRevisionKey i m) := by
  have hremoved : (r.remove (r.flowRevisionKey flowId n)).fetch (r.flowRevisionKey i m) =
      if i = flowId ∧ m = n then none else r.fetch (r.flowRevisionKey i m) := by
    rw [fetch_remove]
    exact if_congr flowRevisionKey_inj rfl rfl
  rw [← hremoved]
  simp only [deleteFlowRevisionRecord]
  split
  · exact fetch_store_ne _ _ (flowRevisionKey_ne r i flowId m).2.1
  · rfl

/-- Deleting revision documents writes under their keys and under that of their list. -/
theorem deleteRevisions_writesAt (r : Repository) (flowId : String) (ns : List ℕ) :
    r.WritesAt (fun k => (∃ n, k = r.flowRevisionKey flowId n) ∨ k = r.flowRevisionsIndexKey flowId)
      (ns.foldl (·.deleteFlowRevisionRecord flowId ·) r) := by
  induction ns generalizing r with
  | nil => exact .refl _ _
  | cons n ns ih =>
    have hone := deleteFlowRevisionRecord_writesAt r flowId n
    obtain ⟨-, -, hrevision, -, hlist⟩ := keys_congr hone.keyPrefix_eq
    have hrest := ih (r.deleteFlowRevisionRecord flowId n)
    rw [hrevision, hlist] at hrest
    exact (hone.mono fun k hk => hk.imp_left fun h => ⟨n, h⟩).trans hrest

/-- The revision documents after some were deleted. -/
theorem fetch_deleteRevisions (r : Repository) (flowId i : String) (ns : List ℕ) (m : ℕ) :
    (ns.foldl (·.deleteFlowRevisionRecord flowId ·) r).fetch (r.flowRevisionKey i m) =
      if i = flowId ∧ m ∈ ns then none else r.fetch (r.flowRevisionKey i m) := by
  induction ns generalizing r with
  | nil => simp
  | cons n ns ih =>
    have hone := deleteFlowRevisionRecord_writesAt r flowId n
    obtain ⟨-, -, hrevision, -, -⟩ := keys_congr hone.keyPrefix_eq
    have hrest := ih (r.deleteFlowRevisionRecord flowId n)
    rw [hrevision, fetch_deleteFlowRevisionRecord] at hrest
    rw [List.foldl_cons, hrest]
    by_cases hi : i = flowId <;> by_cases hm : m = n <;> by_cases hmem : m ∈ ns <;>
      simp [hi, hm, hmem]

theorem Placed.deleteRevisions {r : Repository} (h : r.Placed) (flowId : String) (ns : List ℕ) :
    (ns.foldl (·.deleteFlowRevisionRecord flowId ·) r).Placed := by
  induction ns generalizing r with
  | nil => exact h
  | cons n ns ih => exact ih (h.deleteFlowRevisionRecord flowId n)

/-- What is stored after a flow was deleted, under a key of which nothing was stored: everything
under other keys than those of the flow, no revision document that was deleted, no pointer, and
no mention in the list of the flows. -/
structure Erased (r : Repository) (flowId : String) (ns : List ℕ) (t : Repository) : Prop where
  keyPrefix_eq : t.keyPrefix = r.keyPrefix
  fetch_eq : ∀ k, (∀ n, k ≠ r.flowRevisionKey flowId n) → k ≠ r.flowRevisionsIndexKey flowId →
    k ≠ r.flowLatestKey flowId → k ≠ r.indexKey "flow" → t.fetch k = r.fetch k
  fetch_revision : ∀ n, t.fetch (r.flowRevisionKey flowId n) =
    if n ∈ ns then none else r.fetch (r.flowRevisionKey flowId n)
  indexedIds_eq : t.indexedIds "flow" = (r.indexedIds "flow").filter (· ≠ flowId)

/-- The last part of deleting a flow, after its revision documents. -/
theorem erased_deleteRecord {r w : Repository} {flowId : String} {ns : List ℕ}
    (hbase : w.keyPrefix = r.keyPrefix)
    (hfetch : w.fetch = (ns.foldl (·.deleteFlowRevisionRecord flowId ·) r).fetch)
    (hplain : r.fetch (r.key "flow" flowId) = none) :
    r.Erased flowId ns ((w.deleteRecord "flow" flowId).deleteLatestRevisionPointer flowId) := by
  have hrecord := deleteRecord_writesAt w "flow" flowId
  have hpointer := deleteLatestRevisionPointer_writesAt (w.deleteRecord "flow" flowId) flowId
  have hrevisions := deleteRevisions_writesAt r flowId ns
  obtain ⟨hkey, hindexKey, hrevisionKey, hlatestKey, hlistKey⟩ := keys_congr hbase
  obtain ⟨hkey', hindexKey', hrevisionKey', hlatestKey', hlistKey'⟩ :=
    keys_congr (hrecord.keyPrefix_eq.trans hbase)
  -- nothing is stored under the key of the flow before or afterwards
  have hgone : ((w.deleteRecord "flow" flowId).deleteLatestRevisionPointer flowId).fetch
      (r.key "flow" flowId) = none := by
    have hne : r.key "flow" flowId ≠ r.indexKey "flow" := by
      rw [indexKey_eq_key]
      exact key_ne_of_kind r _ _ (by decide) (by decide) (by decide)
    have hdeleted : (w.deleteRecord "flow" flowId).fetch (r.key "flow" flowId) = none := by
      rw [deleteRecord, (removeFromIndex_writesAt _ "flow" flowId).fetch_eq, fetch_remove, hkey]
      · exact if_pos rfl
      · change _ ≠ w.indexKey "flow"
        rw [hindexKey]
        exact hne
    simp only [deleteLatestRevisionPointer, fetch_remove, hdeleted]
    split_ifs <;> rfl
  have hother {k : String} (hlist : k ≠ r.flowRevisionsIndexKey flowId)
      (hlatest : k ≠ r.flowLatestKey flowId) (hindex : k ≠ r.indexKey "flow") :
      ((w.deleteRecord "flow" flowId).deleteLatestRevisionPointer flowId).fetch k =
        if k = r.key "flow" flowId then none else w.fetch k := by
    split_ifs with hk
    · exact hk ▸ hgone
    · rw [hpointer.fetch_eq, hrecord.fetch_eq]
      · rw [hkey, hindexKey]
        exact not_or.mpr ⟨hk, hindex⟩
      · rw [hlatestKey', hlistKey']
        exact not_or.mpr ⟨hlatest, hlist⟩
  refine ⟨hpointer.keyPrefix_eq.trans (hrecord.keyPrefix_eq.trans hbase), ?_, ?_, ?_⟩
  · intro k hrevision hlist hlatest hindex
    rw [hother hlist hlatest hindex, hfetch]
    split_ifs with hk
    · rw [hk, hplain]
    · exact hrevisions.fetch_eq k (not_or.mpr ⟨not_exists.mpr hrevision, hlist⟩)
  · intro n
    obtain ⟨hlatest, hlist, hindex⟩ := flowRevisionKey_ne r flowId flowId n
    rw [hother hlist hlatest hindex, hfetch, fetch_deleteRevisions]
    simp only [true_and]
    split_ifs with hk hn hn
    · rfl
    · rw [hk, hplain]
    · rfl
    · rfl
  · have hsame : ((w.deleteRecord "flow" flowId).deleteLatestRevisionPointer flowId).indexedIds
        "flow" = (w.deleteRecord "flow" flowId).indexedIds "flow" := by
      refine indexedIds_congr hpointer.keyPrefix_eq (hpointer.fetch_eq _ ?_)
      rw [hindexKey', hlatestKey', hlistKey']
      exact not_or.mpr ⟨(flowLatestKey_ne r flowId flowId).2.symm,
        (flowRevisionsIndexKey_ne r flowId "flow").symm⟩
    have hremoved : (w.remove (w.key "flow" flowId)).indexedIds "flow" = w.indexedIds "flow" := by
      refine indexedIds_congr rfl ((remove_writesAt w _).fetch_eq _ ?_)
      rw [indexKey_eq_key]
      exact key_ne_of_kind w _ _ (by decide) (by decide) (by decide)
    have hw : w.indexedIds "flow" = r.indexedIds "flow" := by
      refine indexedIds_congr hbase ?_
      rw [hfetch]
      refine hrevisions.fetch_eq _ (not_or.mpr ⟨not_exists.mpr fun n => ?_,
        (flowRevisionsIndexKey_ne r flowId "flow").symm⟩)
      exact (flowRevisionKey_ne r flowId flowId n).2.2.symm
    rw [hsame, deleteRecord, indexedIds_removeFromIndex, hremoved, hw]

/-- What is erased is seen in what is stored before. -/
theorem Erased.congr {r u t : Repository} {flowId : String} {ns : List ℕ}
    (h : u.Erased flowId ns t) (hfetch : u.fetch = r.fetch) (hbase : u.keyPrefix = r.keyPrefix) :
    r.Erased flowId ns t := by
  obtain ⟨-, hindex, hrevision, hlatest, hlist⟩ := keys_congr hbase
  refine ⟨h.keyPrefix_eq.trans hbase, fun k => ?_, fun n => ?_, ?_⟩
  · rw [← hrevision, ← hlist, ← hlatest, ← hindex, ← hfetch]
    exact h.fetch_eq k
  · rw [← hrevision, ← hfetch]
    exact h.fetch_revision n
  · rw [h.indexedIds_eq, indexedIds_congr hbase (congrFun hfetch _)]

/-- Keys of a flow after another one was deleted. -/
theorem Erased.fetch_other {r t : Repository} {flowId : String} {ns : List ℕ}
    (h : r.Erased flowId ns t) {i : String} (hi : i ≠ flowId) :
    (∀ m, t.fetch (r.flowRevisionKey i m) = r.fetch (r.flowRevisionKey i m)) ∧
      t.listedRevisions i = r.listedRevisions i ∧
      t.loadLatestRevisionNumber i = r.loadLatestRevisionNumber i := by
  refine ⟨fun m => ?_, ?_, ?_⟩
  · exact h.fetch_eq _ (fun n heq => hi (flowRevisionKey_inj.mp heq).1)
      (flowRevisionKey_ne r i flowId m).2.1 (flowRevisionKey_ne r i flowId m).1
      (flowRevisionKey_ne r i flowId m).2.2
  · refine listedRevisions_congr h.keyPrefix_eq (h.fetch_eq _
      (fun n => (flowRevisionKey_ne r flowId i n).2.1.symm)
      (fun heq => hi (flowRevisionsIndexKey_inj.mp heq)) (flowLatestKey_ne r flowId i).1.symm
      (flowRevisionsIndexKey_ne r i "flow"))
  · obtain ⟨-, -, -, hlatest, -⟩ := keys_congr h.keyPrefix_eq
    unfold loadLatestRevisionNumber
    rw [hlatest, h.fetch_eq _ (fun n => (flowRevisionKey_ne r flowId i n).1.symm)
      (flowLatestKey_ne r i flowId).1 (fun heq => hi (flowLatestKey_inj.mp heq))
      (flowLatestKey_ne r i flowId).2]

/-- A revision document that is left was there before. -/
theorem Erased.fetch_record {r t : Repository} {flowId : String} {ns : List ℕ}
    (h : r.Erased flowId ns t) (hplaced : t.Placed) {k : String} {flow : FlowDefinition}
    (hfetch : t.fetch k = some (.record flow)) : r.fetch k = some (.record flow) := by
  obtain ⟨m, -, hk⟩ := hplaced.record k flow hfetch
  rw [(keys_congr h.keyPrefix_eq).2.2.1] at hk
  rw [hk] at hfetch ⊢
  by_cases hid : flow.definitionId = flowId
  · rw [hid, h.fetch_revision m] at hfetch
    split_ifs at hfetch
    rw [hid]
    exact hfetch
  · rwa [(h.fetch_other hid).1 m] at hfetch

/-- No revision document of a deleted flow is left when all listed ones were deleted. -/
theorem Erased.no_record {r t : Repository} {flowId : String} {ns : List ℕ}
    (h : r.Erased flowId ns t) (hkept : r.WellKept) (hplaced : t.Placed)
    (hns : ∀ m ∈ r.listedRevisions flowId, m ∈ ns) {k : String} {flow : FlowDefinition}
    (hfetch : t.fetch k = some (.record flow)) : flow.definitionId ≠ flowId := by
  rintro rfl
  obtain ⟨m, -, hk⟩ := hplaced.record k flow hfetch
  obtain ⟨-, -, hrevision, -, -⟩ := keys_congr h.keyPrefix_eq
  rw [hk, hrevision, h.fetch_revision m] at hfetch
  split_ifs at hfetch with hm
  exact hm (hns m (hkept.listed _ m flow hfetch))

/-- What is stored stays well kept when a flow is deleted with all listed revisions. -/
theorem Erased.wellKept {r t : Repository} {flowId : String} {ns : List ℕ}
    (h : r.Erased flowId ns t) (hkept : r.WellKept) (hplaced : t.Placed)
    (hns : ∀ m ∈ r.listedRevisions flowId, m ∈ ns) : t.WellKept := by
  obtain ⟨-, -, hrevision, -, -⟩ := keys_congr h.keyPrefix_eq
  refine ⟨hplaced, fun i m flow hfetch => ?_, fun i hin => ?_⟩
  · have hi : i ≠ flowId := by
      rintro rfl
      obtain ⟨m', -, hk⟩ := hplaced.record _ flow hfetch
      rw [hrevision] at hk
      exact h.no_record hkept hplaced hns hfetch (flowRevisionKey_inj.mp hk).1.symm
    obtain ⟨hrev, hlist, -⟩ := h.fetch_other hi
    rw [hrevision, hrev] at hfetch
    rw [hlist]
    exact hkept.listed i m flow hfetch
  · rw [h.indexedIds_eq, List.mem_filter, decide_eq_true_eq] at hin
    rw [(h.fetch_other hin.2).2.2]
    exact hkept.pointed i hin.1

end Repository

namespace DefinitionKind

open Repository

variable {D : Type} (K : DefinitionKind D)

/-- The keys under which the repository keeps what belongs to a kind. -/
def Key (r : Repository) (k : String) : Prop := (∃ x, k = r.key K.kind x) ∨ k = r.indexKey K.kind

/-- A kind has no key of the flows. -/
theorem not_flowsKey {r : Repository} {k : String} (h : K.Key r k) : ¬ r.FlowsKey k := by
  have hflow : ':' ∉ "flow".toList := by decide
  have hindex : ':' ∉ "index".toList := by decide
  rintro (⟨y, hy⟩ | hy) <;> rcases h with ⟨x, hx⟩ | hx <;> rw [hx] at hy
  · exact K.kind_ne.1 ((key_inj K.kind_colon hflow).mp hy).1
  · rw [indexKey_eq_key] at hy
    exact absurd ((key_inj hindex hflow).mp hy).1 (by decide)
  · rw [indexKey_eq_key] at hy
    exact K.kind_ne.2 ((key_inj K.kind_colon hindex).mp hy).1
  · rw [indexKey_eq_key, indexKey_eq_key] at hy
    exact K.kind_ne.1 ((key_inj hindex hindex).mp hy).2

/-- What is in memory about a kind changes nothing else. -/
theorem withIndex_eq (r : Repository) (x : DefinitionIndex D) :
    (K.withIndex r x).storage = r.storage ∧ (K.withIndex r x).keyPrefix = r.keyPrefix ∧
      (K.withIndex r x).flowsById = r.flowsById ∧ (K.withIndex r x).flowsByName = r.flowsByName ∧
      (K.withIndex r x).flowRevisions = r.flowRevisions ∧
      (K.withIndex r x).flowLatestRevision = r.flowLatestRevision := by
  have h := K.withIndex_rest r x
  exact ⟨congrArg (·.storage) h, congrArg (·.keyPrefix) h, congrArg (·.flowsById) h,
    congrArg (·.flowsByName) h, congrArg (·.flowRevisions) h, congrArg (·.flowLatestRevision) h⟩

/-- What is written to the storage changes nothing in memory. -/
theorem index_of_writesAt {r u : Repository} {keys : String → Prop} (h : r.WritesAt keys u) :
    K.index u = K.index r := by
  obtain ⟨⟨s, rfl⟩, -⟩ := h
  exact K.index_congr _ _ rfl rfl rfl

/-- Saving a definition is inserting it, and writing under the keys of its kind. -/
theorem save_writesAt (r : Repository) (d : D) :
    (K.insert r d).WritesAt (K.Key (K.insert r d)) (K.save r d).2 := by
  simp only [save]
  split
  · have hstored := store_writesAt (K.insert r d) ((K.insert r d).key K.kind (K.definitionId d))
      (K.toStorageRecord d)
    refine (hstored.mono fun k hk => .inl ⟨_, hk⟩).trans ?_
    refine (updateIndex_writesAt _ K.kind (K.definitionId d)).mono fun k hk => .inr ?_
    rw [hk, (keys_congr hstored.keyPrefix_eq).2.1]
  · exact .refl _ _

/-- A saved definition is in its place. -/
theorem save_placed {r : Repository} {d : D} (hinsert : (K.insert r d).Placed) :
    (K.save r d).2.Placed := by
  simp only [save]
  split
  · refine (hinsert.store (fun place hplace => ?_) fun flow hflow => ?_).updateIndex _ _
    · rw [K.document_toStorageRecord] at hplace
      rw [← Option.some.inj hplace]
    · have hnone := K.document_toStorageRecord d
      rw [hflow] at hnone
      cases hnone
  · exact hinsert

end DefinitionKind

end PalmEngine.Persistence
