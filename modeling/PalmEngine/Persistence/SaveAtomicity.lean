import PalmEngine.Persistence.FailedSave

/-!
# What a failed save leaves to be found

A save of a flow publishes its next revision in memory first, so after one that raised the latest
revision, the lookups of the flow and the listing give the revision that was not saved. They are
those from before only if this revision was there already, which takes a repository that has not
loaded the counter of the flow and a storage whose pointer is at the first revision.
-/

namespace PalmEngine.Persistence

open PalmEngine.Lib

namespace Repository

/-- What a save of a flow that raised leaves: the next revision is published in memory, and its
document, the pointer and the list may have been written. -/
structure FlowSavedPartly (r : Repository) (sets : ℕ) (flow : FlowDefinition) (u : Repository) :
    Prop where
  flowsById_eq : u.flowsById = r.flowsById.set flow.definitionId (r.nextPublished flow)
  flowsByName_eq : u.flowsByName = r.flowsByName.set flow.name (r.nextPublished flow)
  flowRevisions_eq : u.flowRevisions = r.flowRevisions.set flow.definitionId
    (((r.flowRevisions.get? flow.definitionId).getD .empty).set (r.nextRevision flow.definitionId)
      (r.nextPublished flow))
  flowLatestRevision_eq :
    u.flowLatestRevision = r.flowLatestRevision.set flow.definitionId (r.nextRevision flow.definitionId)
  acts : r.FlowsAct u
  document : u.fetch (r.flowRevisionKey flow.definitionId (r.nextRevision flow.definitionId)) =
    if sets ≠ 0 ∧ r.storage.isSome then some (.record (r.nextPublished flow))
    else r.fetch (r.flowRevisionKey flow.definitionId (r.nextRevision flow.definitionId))
  pointer : u.fetch (r.flowLatestKey flow.definitionId) = r.fetch (r.flowLatestKey flow.definitionId) ∨
    u.fetch (r.flowLatestKey flow.definitionId) = some (.number (r.nextRevision flow.definitionId))
  mem_listed : ∀ m, m ∈ u.listedRevisions flow.definitionId →
    m = r.nextRevision flow.definitionId ∨ m ∈ r.listedRevisions flow.definitionId
  listed : ∀ m, m ∈ r.listedRevisions flow.definitionId → m ∈ u.listedRevisions flow.definitionId
  fetch_eq : ∀ k, k ≠ r.flowRevisionKey flow.definitionId (r.nextRevision flow.definitionId) →
    k ≠ r.flowLatestKey flow.definitionId → k ≠ r.flowRevisionsIndexKey flow.definitionId →
      u.fetch k = r.fetch k
  placed : r.Placed → u.Placed

/-- The repository after a publication in memory. -/
def publishedInMemory (r : Repository) (flow : FlowDefinition) : Repository :=
  (r.cacheFlowRevision (r.nextPublished flow)).indexFlowLatest (r.nextPublished flow)

/-- The states at which a save of a flow can raise: after the publication in memory, after the
document, after the pointer and after the list. -/
theorem trySaveFlow_error {r u : Repository} {sets : ℕ} {flow : FlowDefinition} {e : SaveError}
    (h : r.trySaveFlow sets flow = .error (e, u)) :
    let v := r.publishedInMemory flow
    let i := flow.definitionId
    let n := r.nextRevision flow.definitionId
    let w := v.store (v.flowRevisionKey i n) (.record (r.nextPublished flow))
    ((sets = 0 ∨ ¬ v.storage.isSome) ∧ u = v) ∨
      (sets ≠ 0 ∧ v.storage.isSome ∧ (u = w ∨ u = w.store (w.flowLatestKey i) (.number n) ∨
        u = (w.store (w.flowLatestKey i) (.number n)).appendRevisionIndex i n)) := by
  intro v i n w
  unfold trySaveFlow at h
  rcases except_bind_eq_error_iff.mp h with h | ⟨s, hs, h⟩
  · obtain ⟨hu, hstorage⟩ := Saving.requireStorage_error h
    exact .inl ⟨.inr hstorage, hu⟩
  obtain ⟨rfl, hstorage⟩ := Saving.requireStorage_ok hs
  rcases except_bind_eq_error_iff.mp h with h | ⟨s, hs, h⟩
  · obtain ⟨hu, hsets⟩ := Saving.set_error h
    exact .inl ⟨.inl hsets, hu⟩
  obtain ⟨hw, hsets⟩ := Saving.set_ok hs
  refine .inr ⟨hsets, hstorage, ?_⟩
  rcases except_bind_eq_error_iff.mp h with h | ⟨t, ht, h⟩
  · exact .inl ((Saving.set_error h).1.trans hw)
  have hpointer := (Saving.set_ok ht).1
  rw [hw] at hpointer
  rcases except_bind_eq_error_iff.mp h with h | ⟨t', ht', h⟩
  · exact .inr (.inl ((Saving.appendRevisionIndex_error h).trans hpointer))
  · rw [Saving.updateIndex_error h, Saving.appendRevisionIndex_ok ht', hpointer]
    exact .inr (.inr rfl)

/-- A publication in memory stores nothing. -/
theorem publishedInMemory_frame (r : Repository) (flow : FlowDefinition) :
    (r.publishedInMemory flow).storage = r.storage ∧
      (r.publishedInMemory flow).keyPrefix = r.keyPrefix ∧
      (r.publishedInMemory flow).fetch = r.fetch := by
  obtain ⟨-, -, hstorage, hbase, -⟩ := cacheFlowRevision_frame r (r.nextPublished flow)
  exact ⟨hstorage, hbase, funext fun k => congrArg (Option.bind · _) hstorage⟩

/-- What the writes of a publication leave under the three keys of its flow. -/
structure FlowWritten (v : Repository) (i : String) (n : ℕ) (u : Repository) : Prop where
  writes : v.WritesAt (fun k => k = v.flowRevisionKey i n ∨ k = v.flowLatestKey i ∨
    k = v.flowRevisionsIndexKey i) u
  pointer : u.fetch (v.flowLatestKey i) = v.fetch (v.flowLatestKey i) ∨
    u.fetch (v.flowLatestKey i) = some (.number n)
  listed : ∀ m, m ∈ v.listedRevisions i → m ∈ u.listedRevisions i
  mem_listed : ∀ m, m ∈ u.listedRevisions i → m = n ∨ m ∈ v.listedRevisions i

/-- The document, the pointer and the list are written one after the other. -/
theorem flowWritten {v : Repository} (hstorage : v.storage.isSome) (i : String) (n : ℕ)
    (p : FlowDefinition) {u : Repository}
    (hu : let w := v.store (v.flowRevisionKey i n) (.record p)
      u = w ∨ u = w.store (w.flowLatestKey i) (.number n) ∨
        u = (w.store (w.flowLatestKey i) (.number n)).appendRevisionIndex i n) :
    v.FlowWritten i n u ∧ u.fetch (v.flowRevisionKey i n) = some (.record p) := by
  obtain ⟨hlatest, hlist, -⟩ := flowRevisionKey_ne v i i n
  obtain ⟨hpointer, -⟩ := flowLatestKey_ne v i i
  set w := v.store (v.flowRevisionKey i n) (.record p) with hw
  set w' := w.store (w.flowLatestKey i) (.number n) with hw'
  have hwrites := (store_writesAt v (v.flowRevisionKey i n) (.record p)).mono
    (fun k hk => Or.inl hk : ∀ k, k = _ → k = _ ∨ k = v.flowLatestKey i ∨
      k = v.flowRevisionsIndexKey i)
  have hwrites' : v.WritesAt _ w' := hwrites.trans ((store_writesAt w (w.flowLatestKey i)
    (.number n)).mono fun k hk => .inr (.inl hk))
  have hsome : w'.storage.isSome := by simpa [hw', hw, store] using hstorage
  have hlistW : w.listedRevisions i = v.listedRevisions i :=
    listedRevisions_congr rfl (fetch_store_ne v _ hlist.symm)
  have hlistW' : w'.listedRevisions i = v.listedRevisions i :=
    (listedRevisions_congr (r := w) (u := w') rfl (fetch_store_ne w _ hpointer.symm)).trans hlistW
  have hdocument : w.fetch (v.flowRevisionKey i n) = some (.record p) :=
    fetch_store_self hstorage _ _
  have hdocument' : w'.fetch (v.flowRevisionKey i n) = some (.record p) :=
    (fetch_store_ne w _ hlatest).trans hdocument
  have hpointed : w'.fetch (v.flowLatestKey i) = some (.number n) :=
    fetch_store_self (by simpa [hw, store] using hstorage) _ _
  rcases hu with rfl | rfl | rfl
  · exact ⟨⟨hwrites, .inl (fetch_store_ne v _ hlatest.symm), fun m hm => hlistW ▸ hm,
      fun m hm => .inr (hlistW ▸ hm)⟩, hdocument⟩
  · exact ⟨⟨hwrites', .inr hpointed, fun m hm => hlistW' ▸ hm, fun m hm => .inr (hlistW' ▸ hm)⟩,
      hdocument'⟩
  · have happend := appendRevisionIndex_writesAt w' i n
    refine ⟨⟨hwrites'.trans (happend.mono fun k hk => .inr (.inr hk)), .inr ?_, fun m hm => ?_,
      fun m hm => ?_⟩, ?_⟩
    · rw [happend.fetch_eq _ hpointer, hpointed]
    · exact (mem_listedRevisions_append hsome i n m).mpr (.inr (hlistW' ▸ hm))
    · exact ((mem_listedRevisions_append hsome i n m).mp hm).imp_right fun h => hlistW' ▸ h
    · rw [happend.fetch_eq _ hlist, hdocument']

/-- A save of a flow that raised leaves this. -/
theorem flowSavedPartly {r u : Repository} {sets : ℕ} {flow : FlowDefinition} {e : SaveError}
    (h : r.trySaveFlow sets flow = .error (e, u)) : r.FlowSavedPartly sets flow u := by
  obtain ⟨hstorage, hbase, hfetch⟩ := publishedInMemory_frame r flow
  have hcases := trySaveFlow_error h
  set v := r.publishedInMemory flow with hv
  set i := flow.definitionId
  set n := r.nextRevision i
  set p := r.nextPublished flow
  have hlatest : v.flowLatestRevision = r.flowLatestRevision.set i n := by
    change r.flowLatestRevision.set i (max ((r.flowLatestRevision.get? i).getD 0) n) = _
    rw [max_eq_right (by simp only [n, nextRevision]; omega)]
  obtain ⟨-, -, hrevision, hpointer, hlist⟩ := keys_congr hbase
  have hlisted : v.listedRevisions i = r.listedRevisions i :=
    listedRevisions_congr hbase (by rw [hfetch])
  have hwritten : v.FlowWritten i n u := by
    rcases hcases with ⟨-, rfl⟩ | ⟨-, hsome, hu⟩
    · exact ⟨.refl v _, .inl rfl, fun m hm => hm, fun m hm => .inr hm⟩
    · exact (flowWritten hsome i n p hu).1
  have hdocument : u.fetch (r.flowRevisionKey i n) =
      if sets ≠ 0 ∧ r.storage.isSome then some (.record p) else r.fetch (r.flowRevisionKey i n) := by
    rw [← hstorage]
    rcases hcases with ⟨hno, rfl⟩ | ⟨hsets, hsome, hu⟩
    · rw [if_neg (by tauto), hfetch]
    · rw [if_pos ⟨hsets, hsome⟩, ← hrevision]
      exact (flowWritten hsome i n p hu).2
  have hplaced (hr : r.Placed) : u.Placed := by
    have hv : v.Placed := placed_of_storage hr hstorage hbase
    rcases hcases with ⟨-, rfl⟩ | ⟨-, hsome, hu⟩
    · exact hv
    · have hw : (v.store (v.flowRevisionKey i n) (.record p)).Placed :=
        hv.store (fun place hplace => by cases hplace) fun f hf => by
          cases hf
          exact ⟨n, rfl, rfl⟩
      have hw' : ((v.store (v.flowRevisionKey i n) (.record p)).store
          ((v.store (v.flowRevisionKey i n) (.record p)).flowLatestKey i) (.number n)).Placed :=
        hw.storeOther _ rfl (by simp)
      rcases hu with rfl | rfl | rfl
      · exact hw
      · exact hw'
      · exact hw'.appendRevisionIndex i n
  have hwrites := hwritten.writes
  have hacts : r.FlowsAct u := by
    have hv : r.FlowsAct v := by
      obtain ⟨-, -, -, -, hprocesses, hschemas, hresources⟩ := cacheFlowRevision_frame r p
      exact ⟨hbase, hprocesses, hschemas, hresources, fun k _ => by rw [hfetch]⟩
    refine hv.trans (.of_writesAt (hwrites.mono fun k hk => ?_))
    rcases hk with rfl | rfl | rfl
    · exact flowsKey_revision v i n
    · exact flowsKey_latest v i
    · exact flowsKey_list v i
  have hkeys := hwrites.fetch_eq
  have hmemory : u.flowsById = v.flowsById ∧ u.flowsByName = v.flowsByName ∧
      u.flowRevisions = v.flowRevisions ∧ u.flowLatestRevision = v.flowLatestRevision := by
    obtain ⟨s, hs⟩ := hwrites.only
    rw [hs]
    exact ⟨rfl, rfl, rfl, rfl⟩
  obtain ⟨hbyId, hbyName, hrevisions, hcounter⟩ := hmemory
  obtain ⟨-, hpointerU, hlistedU, hmemU⟩ := hwritten
  rw [hpointer, hfetch] at hpointerU
  rw [hlisted] at hlistedU hmemU
  rw [hrevision, hpointer, hlist, hfetch] at hkeys
  refine ⟨hbyId, hbyName, hrevisions, hcounter.trans hlatest, hacts, hdocument, hpointerU, hmemU,
    hlistedU, fun k h₁ h₂ h₃ => hkeys k fun hk => ?_, hplaced⟩
  exact hk.elim h₁ fun hk => hk.elim h₂ h₃

/-- The id under which the document of a revision is read as a record without revisions. -/
def plainId (flowId : String) (n : ℕ) : String := flowId ++ ":rev:" ++ toString n

/-- The id in the key of the document is another one. -/
theorem plainId_ne (flowId : String) (n : ℕ) : plainId flowId n ≠ flowId := by
  intro heq
  have hlength := congrArg String.length heq
  simp only [plainId, String.length_append] at hlength
  have hword : (":rev:" : String).length = 5 := rfl
  omega

/-- The latest revision, the lookups and the listings already give the revision that a save of the
flow is about to publish. A lookup by name with a revision goes through a flow in memory with this
name, and a lookup of the id that stands in the key of the written document may read it. -/
structure FlowAlreadyFound (r : Repository) (sets : ℕ) (flow : FlowDefinition) : Prop where
  latest : (r.getLatestRevision flow.definitionId).1 = some (r.nextRevision flow.definitionId)
  byId : r.findFlow flow.definitionId true none = some (r.nextPublished flow)
  revision : r.findFlow flow.definitionId true (some (r.nextRevision flow.definitionId)) =
    some (r.nextPublished flow)
  byName : r.findFlow flow.name false none = some (r.nextPublished flow)
  listed : r.nextPublished flow ∈ r.listFlows.1
  numbered : ∃ ns, (r.listFlowRevisions flow.definitionId).1 = .ok ns ∧
    r.nextRevision flow.definitionId ∈ ns
  named : r.flowsById.values.find? (·.name = flow.name) = none → ∀ m,
    r.findFlow flow.name false (some m) = r.findFlow flow.definitionId true (some m)
  overwritten : sets ≠ 0 → r.storage.isSome →
    r.flowsById.get? (plainId flow.definitionId (r.nextRevision flow.definitionId)) = none →
    r.loadLatestRevisionNumber (plainId flow.definitionId (r.nextRevision flow.definitionId)) = none →
    r.findFlow (plainId flow.definitionId (r.nextRevision flow.definitionId)) true none =
      some (FlowDefinition.fromPlain (r.nextPublished flow))

/-- A listing of flows that are known gives what the lookups by their ids find. -/
theorem listFlowsFrom_eq {r : Repository} (hplaced : r.Placed) (hkeyed : r.FlowsKeyed)
    {ids : List String} (hids : ∀ i ∈ ids, (∃ flow, r.flowsById.get? i = some flow) ∨
      (r.loadLatestRevisionNumber i).isSome) :
    (listFlowsFrom r ids).1 = ids.filterMap (r.flowAt · none) := by
  induction ids generalizing r with
  | nil => rfl
  | cons i rest ih =>
    have hsame := sameFlows_getFlowById hplaced hkeyed (hids i List.mem_cons_self)
    have hfound := getFlowById_toOption r i none
    have hkeyed' := (getFlowById_loads r i none).1.keyed hkeyed
    have hrest := ih (placed_of_storage hplaced hsame.storage_eq hsame.keyPrefix_eq) hkeyed'
      fun j hj => by
        rw [hsame.flowsById_eq, hsame.loadLatestRevisionNumber_eq]
        exact hids j (List.mem_cons_of_mem _ hj)
    rw [hsame.flowAt_eq] at hrest
    rw [List.filterMap_cons, ← hfound, listFlowsFrom]
    split <;> rename_i hget <;> rw [hget] at hrest ⊢ <;> simp only [Except.toOption, hrest]

/-- The flows that are listed are found under ids that are collected. -/
theorem Readable.listFlows_eq {r : Repository} (h : r.Readable) :
    r.listFlows.1 = r.collectIds.filterMap (r.flowAt · none) :=
  listFlowsFrom_eq h.placed h.keyed fun _ hi => known_of_mem_collectIds h hi

/-- What is found under an id that is known is the flow of this id. -/
theorem Readable.definitionId_of_known {r : Repository} (h : r.Readable) {i : String}
    (hi : i ∈ r.collectIds) {flow : FlowDefinition} (hflow : r.flowAt i none = some flow) :
    flow.definitionId = i := by
  rcases Option.or_eq_some_iff.mp hflow with hbyId | ⟨hnone, hstored⟩
  · exact h.keyed.byId i flow hbyId
  · rcases known_of_mem_collectIds h hi with ⟨cached, hcached⟩ | hlatest
    · rw [hcached] at hnone
      cases hnone
    · obtain ⟨n, hn⟩ := Option.isSome_iff_exists.mp hlatest
      rw [hn] at hstored
      exact (revisionAt_keyed h.placed h.keyed hstored).1

/-- The revision numbers in memory and in the stored list of a flow. -/
def knownRevisions (r : Repository) (flowId : String) : List ℕ :=
  ((r.flowRevisions.get? flowId).map Dict.keys).getD [] ++ r.listedRevisions flowId

/-- The revision numbers of a flow are those that are known, or else the counter. -/
theorem revisionNumbers_eq (r : Repository) (flowId : String) :
    r.revisionNumbers flowId = match (r.knownRevisions flowId).dedup with
      | [] => (r.flowLatestRevision.get? flowId).toList
      | numbers => numbers.mergeSort (· ≤ ·) := rfl

/-- If a revision number is known, the revision numbers are those that are known. -/
theorem revisionNumbers_of_mem {r : Repository} {flowId : String} {m : ℕ}
    (h : m ∈ r.knownRevisions flowId) :
    r.revisionNumbers flowId = (r.knownRevisions flowId).dedup.mergeSort (· ≤ ·) := by
  have hmem := List.mem_dedup.mpr h
  rw [revisionNumbers_eq]
  split
  · rename_i hnil
    rw [hnil] at hmem
    cases hmem
  · rfl

/-- The revision numbers of a flow are seen in its cached revisions, its counter and its list. -/
theorem revisionNumbers_congr {r u : Repository} {j : String}
    (hrevisions : u.flowRevisions.get? j = r.flowRevisions.get? j)
    (hcounter : u.flowLatestRevision.get? j = r.flowLatestRevision.get? j)
    (hlisted : u.listedRevisions j = r.listedRevisions j) :
    u.revisionNumbers j = r.revisionNumbers j := by
  rw [revisionNumbers_eq, revisionNumbers_eq, knownRevisions, knownRevisions, hrevisions, hcounter,
    hlisted]

/-- Caching the same flow in two repositories with the same of an id leaves the same of it. -/
theorem cacheFlowRevision_at {r u : Repository} {j : String}
    (hrevisions : u.flowRevisions.get? j = r.flowRevisions.get? j)
    (hcounter : u.flowLatestRevision.get? j = r.flowLatestRevision.get? j) (f : FlowDefinition) :
    (u.cacheFlowRevision f).flowRevisions.get? j = (r.cacheFlowRevision f).flowRevisions.get? j ∧
      (u.cacheFlowRevision f).flowLatestRevision.get? j =
        (r.cacheFlowRevision f).flowLatestRevision.get? j := by
  unfold cacheFlowRevision
  split
  · exact ⟨hrevisions, hcounter⟩
  · by_cases hj : j = f.definitionId
    · subst hj
      simp only [Dict.get?_set_self, hrevisions, hcounter, and_self]
    · simp only [Dict.get?_set_ne _ _ hj, hrevisions, hcounter, and_self]

/-- Caching a flow leaves what is cached of another id. -/
theorem cacheFlowRevision_other (r : Repository) {f : FlowDefinition} {j : String}
    (hj : f.definitionId ≠ j) :
    (r.cacheFlowRevision f).flowRevisions.get? j = r.flowRevisions.get? j ∧
      (r.cacheFlowRevision f).flowLatestRevision.get? j = r.flowLatestRevision.get? j := by
  unfold cacheFlowRevision
  split
  · exact ⟨rfl, rfl⟩
  · simp only [Dict.get?_set_ne _ _ hj.symm, and_self]

/-- Caching and indexing a flow stores nothing. -/
theorem listedRevisions_cache (r : Repository) (f : FlowDefinition) :
    (r.cacheFlowRevision f).listedRevisions = r.listedRevisions := by
  obtain ⟨-, -, hstorage, hbase, -⟩ := cacheFlowRevision_frame r f
  funext j
  refine listedRevisions_congr hbase ?_
  rw [fetch, fetch, hstorage]

/-- What is listed of a flow is seen in what the repository has of its id. -/
theorem listFlowRevisions_congr {r u : Repository} {j : String}
    (hbyId : u.flowsById.get? j = r.flowsById.get? j)
    (hlatest : u.loadLatestRevisionNumber j = r.loadLatestRevisionNumber j)
    (hrevisions : u.flowRevisions.get? j = r.flowRevisions.get? j)
    (hcounter : u.flowLatestRevision.get? j = r.flowLatestRevision.get? j)
    (hlisted : u.listedRevisions j = r.listedRevisions j)
    (hload : ∀ m, u.loadFlowRevisionRecord j m = r.loadFlowRevisionRecord j m)
    (hrecord : r.flowsById.get? j = none → r.loadLatestRevisionNumber j = none →
      u.loadRecord "flow" j = r.loadRecord "flow" j ∨ ∃ f f', u.loadRecord "flow" j = some f ∧
        r.loadRecord "flow" j = some f' ∧ f.definitionId ≠ j ∧ f'.definitionId ≠ j) :
    (u.listFlowRevisions j).1 = (r.listFlowRevisions j).1 := by
  have hcached (f : FlowDefinition) :
      (u.cacheFlowRevision f).revisionNumbers j = (r.cacheFlowRevision f).revisionNumbers j := by
    obtain ⟨hr, hc⟩ := cacheFlowRevision_at hrevisions hcounter f
    refine revisionNumbers_congr hr hc ?_
    rw [listedRevisions_cache, listedRevisions_cache, hlisted]
  have hsame := revisionNumbers_congr hrevisions hcounter hlisted
  unfold listFlowRevisions getFlowById
  simp only [hbyId, hlatest]
  cases hmemory : r.flowsById.get? j with
  | some cached => exact congrArg Except.ok hsame
  | none =>
    cases hpointer : r.loadLatestRevisionNumber j with
    | some l =>
      simp only [getFlowRevision, hrevisions, hload]
      cases (r.flowRevisions.get? j).bind (·.get? l) with
      | some cached => exact congrArg Except.ok hsame
      | none =>
        cases r.loadFlowRevisionRecord j l with
        | some record => exact congrArg Except.ok (hcached _)
        | none => rfl
    | none =>
      rcases hrecord hmemory hpointer with heq | ⟨f, f', hf, hf', hj, hj'⟩
      · rw [heq]
        cases r.loadRecord "flow" j with
        | some record => exact congrArg Except.ok (hcached _)
        | none => rfl
      · rw [hf, hf']
        refine congrArg Except.ok ((?_ : _ = u.revisionNumbers j).trans (hsame.trans ?_))
        · obtain ⟨hr, hc⟩ := cacheFlowRevision_other u (f := f.fromPlain) hj
          exact revisionNumbers_congr (r := u) hr hc (congrFun (listedRevisions_cache u _) j)
        · obtain ⟨hr, hc⟩ := cacheFlowRevision_other r (f := f'.fromPlain) hj'
          exact (revisionNumbers_congr (r := r) hr hc (congrFun (listedRevisions_cache r _) j)).symm

/-- The numbers of the cached revisions after one was added. -/
theorem mem_keys_cached (revisions : Option (Dict ℕ FlowDefinition)) (n m : ℕ) (f : FlowDefinition) :
    m ∈ ((revisions.getD .empty).set n f).keys ↔ m = n ∨ m ∈ (revisions.map Dict.keys).getD [] := by
  rw [Dict.mem_keys_set]
  cases revisions <;> rfl

/-- The revisions that are known of a flow after one of them was cached. -/
theorem mem_knownRevisions_cache (r : Repository) {f : FlowDefinition} {n : ℕ}
    (hn : f.revision = some n) (m : ℕ) :
    m ∈ (r.cacheFlowRevision f).knownRevisions f.definitionId ↔
      m = n ∨ m ∈ r.knownRevisions f.definitionId := by
  have hkeys : (((r.cacheFlowRevision f).flowRevisions.get? f.definitionId).map Dict.keys).getD [] =
      (((r.flowRevisions.get? f.definitionId).getD .empty).set n f).keys := by
    simp only [cacheFlowRevision, hn, Dict.get?_set_self]
    rfl
  rw [knownRevisions, knownRevisions, hkeys, listedRevisions_cache, List.mem_append,
    List.mem_append, mem_keys_cached, or_assoc]

section Partly

variable {r u : Repository} {sets : ℕ} {flow : FlowDefinition} (h : r.FlowSavedPartly sets flow u)
include h

/-- The keys of the flows are the same afterwards. -/
theorem FlowSavedPartly.keys_eq : u.key = r.key ∧ u.indexKey = r.indexKey ∧
    u.flowRevisionKey = r.flowRevisionKey ∧ u.flowLatestKey = r.flowLatestKey ∧
      u.flowRevisionsIndexKey = r.flowRevisionsIndexKey := keys_congr h.acts.keyPrefix_eq

/-- The pointers of other flows are the same. -/
theorem FlowSavedPartly.loadLatest_ne {j : String} (hj : j ≠ flow.definitionId) :
    u.loadLatestRevisionNumber j = r.loadLatestRevisionNumber j := by
  rw [loadLatestRevisionNumber, loadLatestRevisionNumber, h.keys_eq.2.2.2.1, h.fetch_eq]
  · exact (flowRevisionKey_ne r _ j _).1.symm
  · exact fun heq => hj (flowLatestKey_inj.mp heq)
  · exact (flowLatestKey_ne r j _).1

/-- Who had a pointer has one. -/
theorem FlowSavedPartly.loadLatest_isSome {j : String}
    (hj : (r.loadLatestRevisionNumber j).isSome) : (u.loadLatestRevisionNumber j).isSome := by
  by_cases hi : j = flow.definitionId
  · subst hi
    rw [loadLatestRevisionNumber] at hj ⊢
    rw [h.keys_eq.2.2.2.1]
    rcases h.pointer with hp | hp
    · rwa [hp]
    · rw [hp]
      rfl
  · rwa [h.loadLatest_ne hi]

/-- The other stored revisions are the same. -/
theorem FlowSavedPartly.loadRevision_ne {j : String} {m : ℕ}
    (hj : ¬ (j = flow.definitionId ∧ m = r.nextRevision flow.definitionId)) :
    u.loadFlowRevisionRecord j m = r.loadFlowRevisionRecord j m := by
  rw [loadFlowRevisionRecord, loadFlowRevisionRecord, h.keys_eq.2.2.1, h.fetch_eq]
  · exact fun heq => hj (flowRevisionKey_inj.mp heq)
  · exact (flowRevisionKey_ne r j _ m).1
  · exact (flowRevisionKey_ne r j _ m).2.1

/-- The list of the flows is the same. -/
theorem FlowSavedPartly.indexedIds_eq : u.indexedIds "flow" = r.indexedIds "flow" :=
  indexedIds_congr h.acts.keyPrefix_eq (h.fetch_eq _ (flowRevisionKey_ne r _ "" _).2.2.symm
    (flowLatestKey_ne r _ "").2.symm (flowRevisionsIndexKey_ne r _ _).symm)

/-- The cached revisions of other flows are the same. -/
theorem FlowSavedPartly.flowRevisions_ne {j : String} (hj : j ≠ flow.definitionId) :
    u.flowRevisions.get? j = r.flowRevisions.get? j := by
  rw [h.flowRevisions_eq, Dict.get?_set_ne _ _ hj]

/-- The published revision is found. -/
theorem FlowSavedPartly.revisionAt_self :
    u.revisionAt flow.definitionId (r.nextRevision flow.definitionId) =
      some (r.nextPublished flow) := by
  rw [revisionAt, h.flowRevisions_eq, Dict.get?_set_self, Option.bind_some, Dict.get?_set_self]
  rfl

/-- The other revisions are found as before. -/
theorem FlowSavedPartly.revisionAt_ne {j : String} {m : ℕ}
    (hj : ¬ (j = flow.definitionId ∧ m = r.nextRevision flow.definitionId)) :
    u.revisionAt j m = r.revisionAt j m := by
  rw [revisionAt, revisionAt, h.loadRevision_ne hj]
  by_cases hi : j = flow.definitionId
  · subst hi
    have hm : m ≠ r.nextRevision flow.definitionId := fun heq => hj ⟨rfl, heq⟩
    rw [h.flowRevisions_eq, Dict.get?_set_self, Option.bind_some, Dict.get?_set_ne _ _ hm]
    cases r.flowRevisions.get? flow.definitionId <;> rfl
  · rw [h.flowRevisions_ne hi]

/-- What is read still stands in its place, and every listed flow has a pointer. -/
theorem FlowSavedPartly.readable (hread : r.Readable) : u.Readable where
  placed := h.placed hread.placed
  keyed := by
    have hkeyed := (hread.keyed.cache (r.nextPublished flow)).index (r.nextPublished flow)
    refine ⟨h.flowsById_eq ▸ hkeyed.byId, h.flowsByName_eq ▸ hkeyed.byName, ?_⟩
    rw [h.flowRevisions_eq]
    exact hkeyed.revision
  pointed i hi := h.loadLatest_isSome (hread.pointed i (h.indexedIds_eq ▸ hi))

/-- The id of the flow leads to the published revision. -/
theorem FlowSavedPartly.getFlowById_self :
    u.getFlowById flow.definitionId none = (.ok (r.nextPublished flow), u) := by
  simp only [getFlowById, h.flowsById_eq, Dict.get?_set_self]

/-- A record without revisions is read as before, but for the document that was written. -/
theorem FlowSavedPartly.loadRecord_eq (hplaced : r.Placed) {j : String}
    (hj : j ≠ plainId flow.definitionId (r.nextRevision flow.definitionId)) :
    u.loadRecord "flow" j = r.loadRecord "flow" j := by
  have hno {v : Repository} (hv : v.Placed) (hbase : v.keyPrefix = r.keyPrefix)
      (hkey : ∀ i m, r.key "flow" j ≠ r.flowRevisionKey i m) : v.loadRecord "flow" j = none := by
    rw [loadRecord, (keys_congr hbase).1]
    split
    · rename_i f hf
      obtain ⟨m, -, hm⟩ := hv.record _ f hf
      rw [(keys_congr hbase).2.2.1] at hm
      exact absurd hm (hkey _ _)
    · rfl
  by_cases hthree : r.key "flow" j = r.flowLatestKey flow.definitionId ∨
      r.key "flow" j = r.flowRevisionsIndexKey flow.definitionId
  · have hkey (i : String) (m : ℕ) : r.key "flow" j ≠ r.flowRevisionKey i m := by
      rcases hthree with heq | heq <;> rw [heq]
      · exact (flowRevisionKey_ne r i _ m).1.symm
      · exact (flowRevisionKey_ne r i _ m).2.1.symm
    rw [hno (h.placed hplaced) h.acts.keyPrefix_eq hkey, hno hplaced rfl hkey]
  · rw [not_or] at hthree
    rw [loadRecord, loadRecord, h.keys_eq.1, h.fetch_eq _ ?_ hthree.1 hthree.2]
    rw [flowRevisionKey_eq_key]
    exact fun heq => hj ((key_inj (by decide) (by decide)).mp heq).2

/-- The document that was written is read as a record without revisions. -/
theorem FlowSavedPartly.loadRecord_plain :
    u.loadRecord "flow" (plainId flow.definitionId (r.nextRevision flow.definitionId)) =
      if sets ≠ 0 ∧ r.storage.isSome then some (r.nextPublished flow)
      else r.loadRecord "flow" (plainId flow.definitionId (r.nextRevision flow.definitionId)) := by
  have hkey : r.key "flow" (plainId flow.definitionId (r.nextRevision flow.definitionId)) =
      r.flowRevisionKey flow.definitionId (r.nextRevision flow.definitionId) :=
    (flowRevisionKey_eq_key r _ _).symm
  rw [loadRecord, loadRecord, h.keys_eq.1, hkey, h.document]
  split_ifs <;> rfl

/-- If the revision was already found, every id leads where it led. -/
theorem FlowSavedPartly.flowAt_eq (hread : r.Readable) (hfound : r.FlowAlreadyFound sets flow) :
    u.flowAt = r.flowAt := by
  have hrevision : u.revisionAt = r.revisionAt := by
    funext j m
    by_cases hj : j = flow.definitionId ∧ m = r.nextRevision flow.definitionId
    · obtain ⟨rfl, rfl⟩ := hj
      rw [h.revisionAt_self, ← hfound.revision, findFlow_eq hread]
      rfl
    · exact h.revisionAt_ne hj
  funext j m
  cases m with
  | some m => exact congrFun (congrFun hrevision j) m
  | none =>
    by_cases hj : j = flow.definitionId
    · subst hj
      have hbyId := hfound.byId
      rw [findFlow_eq hread, if_pos rfl] at hbyId
      rw [hbyId, flowAt, h.flowsById_eq, Dict.get?_set_self, Option.some_or]
    · have hmemory : u.flowsById.get? j = r.flowsById.get? j := by
        rw [h.flowsById_eq, Dict.get?_set_ne _ _ hj]
      by_cases hplain : j = plainId flow.definitionId (r.nextRevision flow.definitionId)
      · subst hplain
        have hread' := hfound.overwritten
        rw [findFlow_eq hread, if_pos rfl] at hread'
        rw [flowAt, flowAt, hmemory, h.loadLatest_ne hj, hrevision, h.loadRecord_plain]
        rw [flowAt] at hread'
        cases hcached : r.flowsById.get? (plainId flow.definitionId
            (r.nextRevision flow.definitionId)) with
        | some cached => rfl
        | none =>
          cases hlatest : r.loadLatestRevisionNumber (plainId flow.definitionId
              (r.nextRevision flow.definitionId)) with
          | some latest => rfl
          | none =>
            split_ifs with hwritten
            · have hsame := hread' hwritten.1 hwritten.2 hcached hlatest
              rw [hcached, hlatest] at hsame
              exact hsame.symm
            · rfl
      · rw [flowAt, flowAt, hmemory, h.loadLatest_ne hj, hrevision, h.loadRecord_eq hread.placed hplain]

/-- If the revision was already listed, the same ids are collected. -/
theorem FlowSavedPartly.collectIds_eq (hread : r.Readable)
    (hfound : r.FlowAlreadyFound sets flow) : u.collectIds = r.collectIds := by
  have hlisted := hfound.listed
  rw [hread.listFlows_eq, List.mem_filterMap] at hlisted
  obtain ⟨i, hi, hflow⟩ := hlisted
  obtain rfl : (r.nextPublished flow).definitionId = i := hread.definitionId_of_known hi hflow
  have hmem : flow.definitionId ∈ r.flowsById.keys ++ r.indexedIds "flow" :=
    List.mem_dedup.mp (List.mem_mergeSort.mp hi)
  refine sortedDedup_congr fun j => ?_
  change j ∈ u.flowsById.keys ++ u.indexedIds "flow" ↔ j ∈ r.flowsById.keys ++ r.indexedIds "flow"
  rw [List.mem_append, List.mem_append, h.indexedIds_eq, h.flowsById_eq, Dict.mem_keys_set]
  by_cases hj : j = flow.definitionId
  · simp only [hj, true_or, true_iff]
    exact List.mem_append.mp hmem
  · simp [hj]

/-- If the revision was already found, what is in memory has the same first flow with another
name. -/
theorem FlowSavedPartly.values_eq (hread : r.Readable)
    (hbyId : r.findFlow flow.definitionId true none = some (r.nextPublished flow)) (n : String) :
    u.flowsById.values.find? (·.name = n) =
      (r.flowsById.values.find? (·.name = n)).or
        (if n = flow.name then some (r.nextPublished flow) else none) := by
  rw [h.flowsById_eq]
  by_cases hkey : flow.definitionId ∈ r.flowsById.keys
  · obtain ⟨found, hget⟩ := (Dict.mem_keys_iff _ _).mp hkey
    have hsame : found = r.nextPublished flow := by
      rw [findFlow_eq hread, if_pos rfl, flowAt, hget] at hbyId
      exact Option.some.inj hbyId
    rw [Dict.set_of_get? (hsame ▸ hget)]
    by_cases hn : n = flow.name
    · have hin : r.nextPublished flow ∈ r.flowsById.values :=
        (Dict.mem_values_iff _ _).mpr ⟨_, hsame ▸ hget⟩
      have hsome : (r.flowsById.values.find? (·.name = n)).isSome :=
        List.find?_isSome.mpr ⟨_, hin, decide_eq_true hn.symm⟩
      obtain ⟨first, hfirst⟩ := Option.isSome_iff_exists.mp hsome
      rw [hfirst]
      rfl
    · rw [if_neg hn, Option.or_none]
  · rw [Dict.values, Dict.entries_set_of_not_mem hkey, List.map_append, List.find?_append]
    by_cases hn : n = flow.name
    · simp [Dict.values, nextPublished, hn]
    · simp [Dict.values, nextPublished, hn, Ne.symm hn]

/-- If the revision was already found, every name leads where it led. -/
theorem FlowSavedPartly.flowNamed_eq (hread : r.Readable) (hfound : r.FlowAlreadyFound sets flow)
    (n : String) (m : Option ℕ) : u.flowNamed n m = r.flowNamed n m := by
  have hflowAt := h.flowAt_eq hread hfound
  have hrevision : u.revisionAt = r.revisionAt :=
    funext fun j => funext fun k => congrFun (congrFun hflowAt j) (some k)
  have hscanned : u.scannedFlow n = r.scannedFlow n := by
    rw [scannedFlow, scannedFlow, h.collectIds_eq hread hfound, hflowAt]
  have hrevisionOf : u.revisionOf = r.revisionOf := by
    funext f k
    cases k with
    | some k => rw [revisionOf, revisionOf, hrevision]
    | none => rfl
  rw [flowNamed, h.values_eq hread hfound.byId, hscanned, hrevisionOf]
  by_cases hn : n = flow.name
  · subst hn
    have hbyName := hfound.byName
    have hnamed := hfound.named
    rw [findFlow_eq hread] at hbyName
    cases m with
    | none =>
      rw [show r.flowNamed flow.name none = some (r.nextPublished flow) from hbyName,
        h.flowsByName_eq, Dict.get?_set_self]
      rfl
    | some k =>
      have hno (x : Option FlowDefinition) : x.filter (fun _ => (some k).isNone) = none := by
        cases x <;> rfl
      rw [flowNamed, hno, hno]
      cases hfirst : r.flowsById.values.find? (·.name = flow.name) with
      | some first => rfl
      | none =>
        have hsame := hnamed hfirst k
        rw [findFlow_eq hread, findFlow_eq hread, if_neg (by decide), if_pos rfl, flowNamed, hno,
          hfirst] at hsame
        rw [hsame, if_pos rfl]
        rfl
  · rw [if_neg hn, Option.or_none, h.flowsByName_eq, Dict.get?_set_ne _ _ hn]
    rfl

/-- The stored lists of other flows are the same. -/
theorem FlowSavedPartly.listed_ne {j : String} (hj : j ≠ flow.definitionId) :
    u.listedRevisions j = r.listedRevisions j := by
  refine listedRevisions_congr h.acts.keyPrefix_eq (h.fetch_eq _ ?_ ?_ ?_)
  · exact (flowRevisionKey_ne r _ j _).2.1.symm
  · exact (flowLatestKey_ne r _ j).1.symm
  · exact fun heq => hj (flowRevisionsIndexKey_inj.mp heq)

/-- The revisions that are known of the flow are those that were and the published one. -/
theorem FlowSavedPartly.mem_knownRevisions (m : ℕ) :
    m ∈ u.knownRevisions flow.definitionId ↔
      m = r.nextRevision flow.definitionId ∨ m ∈ r.knownRevisions flow.definitionId := by
  have hkeys : m ∈ ((u.flowRevisions.get? flow.definitionId).map Dict.keys).getD [] ↔
      m = r.nextRevision flow.definitionId ∨
        m ∈ ((r.flowRevisions.get? flow.definitionId).map Dict.keys).getD [] := by
    rw [h.flowRevisions_eq, Dict.get?_set_self]
    exact mem_keys_cached _ _ m _
  rw [knownRevisions, knownRevisions, List.mem_append, List.mem_append, hkeys]
  constructor
  · rintro ((hm | hm) | hm)
    · exact .inl hm
    · exact .inr (.inl hm)
    · exact (h.mem_listed m hm).imp_right .inr
  · rintro (hm | hm | hm)
    · exact .inl (.inl hm)
    · exact .inl (.inr hm)
    · exact .inr (h.listed m hm)

/-- The published revision is known, so what is listed of the flow are the known revisions. -/
theorem FlowSavedPartly.listFlowRevisions_self :
    (u.listFlowRevisions flow.definitionId).1 =
      .ok ((u.knownRevisions flow.definitionId).dedup.mergeSort (· ≤ ·)) := by
  rw [listFlowRevisions, h.getFlowById_self]
  exact congrArg Except.ok (revisionNumbers_of_mem ((h.mem_knownRevisions _).mpr (.inl rfl)))

/-- The counter gives the published revision. -/
theorem FlowSavedPartly.getLatestRevision_self :
    (u.getLatestRevision flow.definitionId).1 = some (r.nextRevision flow.definitionId) := by
  simp only [getLatestRevision, h.flowLatestRevision_eq, Dict.get?_set_self]

omit h in
/-- If the latest revision is the one that is about to be published, the repository has no counter
for the flow, and the pointer gives it. -/
theorem FlowAlreadyFound.unloaded (hfound : r.FlowAlreadyFound sets flow) :
    r.flowLatestRevision.get? flow.definitionId = none ∧
      r.loadLatestRevisionNumber flow.definitionId = some (r.nextRevision flow.definitionId) := by
  have hlatest := hfound.latest
  unfold getLatestRevision at hlatest
  cases hcounter : r.flowLatestRevision.get? flow.definitionId with
  | some l =>
    simp only [hcounter, Option.some.injEq, nextRevision, Option.getD_some] at hlatest
    omega
  | none =>
    simp only [hcounter] at hlatest
    cases hload : r.loadLatestRevisionNumber flow.definitionId with
    | none => simp [hload] at hlatest
    | some l => exact ⟨rfl, by simpa [hload] using hlatest⟩

omit h in
/-- What is listed of a flow whose next revision was already found are the known revisions and this
one. -/
theorem FlowAlreadyFound.listFlowRevisions_eq (hfound : r.FlowAlreadyFound sets flow)
    (hread : r.Readable) :
    ∃ known : List ℕ, (r.listFlowRevisions flow.definitionId).1 =
        .ok (known.dedup.mergeSort (· ≤ ·)) ∧
      ∀ m, m ∈ known ↔ m = r.nextRevision flow.definitionId ∨ m ∈ r.knownRevisions flow.definitionId := by
  obtain ⟨hcounter, hpointer⟩ := hfound.unloaded
  obtain ⟨ns, hns, hn⟩ := hfound.numbered
  have hknown (hn : r.nextRevision flow.definitionId ∈ r.knownRevisions flow.definitionId) (m : ℕ) :
      m ∈ r.knownRevisions flow.definitionId ↔
        m = r.nextRevision flow.definitionId ∨ m ∈ r.knownRevisions flow.definitionId :=
    ⟨.inr, fun hm => hm.elim (· ▸ hn) id⟩
  unfold listFlowRevisions getFlowById at hns ⊢
  simp only at hns ⊢
  cases hmemory : r.flowsById.get? flow.definitionId with
  | some cached =>
    rw [hmemory] at hns
    cases hns
    rw [revisionNumbers_eq, hcounter] at hn
    have hmem : r.nextRevision flow.definitionId ∈ r.knownRevisions flow.definitionId := by
      split at hn
      · cases hn
      · exact List.mem_dedup.mp (List.mem_mergeSort.mp hn)
    exact ⟨_, congrArg Except.ok (revisionNumbers_of_mem hmem), hknown hmem⟩
  | none =>
    simp only [hmemory, hpointer, getFlowRevision] at hns ⊢
    cases hcached : (r.flowRevisions.get? flow.definitionId).bind
        (·.get? (r.nextRevision flow.definitionId)) with
    | some cached =>
      obtain ⟨revisions, hrevisions, hget⟩ := Option.bind_eq_some_iff.mp hcached
      have hmem : r.nextRevision flow.definitionId ∈ r.knownRevisions flow.definitionId := by
        refine List.mem_append_left _ ?_
        rw [hrevisions]
        exact (Dict.mem_keys_iff _ _).mpr ⟨cached, hget⟩
      exact ⟨_, congrArg Except.ok (revisionNumbers_of_mem hmem), hknown hmem⟩
    | none =>
      cases hload : r.loadFlowRevisionRecord flow.definitionId (r.nextRevision flow.definitionId) with
      | none =>
        rw [hcached, hload] at hns
        cases hns
      | some record =>
        have hat : r.revisionAt flow.definitionId (r.nextRevision flow.definitionId) =
            some (.fromDict record) := by
          rw [revisionAt, hcached, hload]
          rfl
        obtain ⟨hid, hrevision⟩ := revisionAt_keyed hread.placed hread.keyed hat
        have hmem := mem_knownRevisions_cache r hrevision
        rw [hid] at hmem
        exact ⟨_, congrArg Except.ok (revisionNumbers_of_mem ((hmem _).mpr (.inl rfl))), hmem⟩

/-- If the revision was already found, what is listed of every flow is what was listed. -/
theorem FlowSavedPartly.listFlowRevisions_eq (hread : r.Readable)
    (hfound : r.FlowAlreadyFound sets flow) (j : String) :
    (u.listFlowRevisions j).1 = (r.listFlowRevisions j).1 := by
  by_cases hj : j = flow.definitionId
  · subst hj
    obtain ⟨known, hknown, hmem⟩ := hfound.listFlowRevisions_eq hread
    rw [h.listFlowRevisions_self, hknown]
    exact congrArg Except.ok (sortedDedup_congr fun m => (h.mem_knownRevisions m).trans (hmem m).symm)
  · refine listFlowRevisions_congr (by rw [h.flowsById_eq, Dict.get?_set_ne _ _ hj])
      (h.loadLatest_ne hj) (h.flowRevisions_ne hj)
      (by rw [h.flowLatestRevision_eq, Dict.get?_set_ne _ _ hj]) (h.listed_ne hj)
      (fun m => h.loadRevision_ne fun hsame => hj hsame.1) fun hmemory hpointer => ?_
    by_cases hplain : j = plainId flow.definitionId (r.nextRevision flow.definitionId)
    · subst hplain
      rw [h.loadRecord_plain]
      split_ifs with hwritten
      · have hplainFound := hfound.overwritten hwritten.1 hwritten.2 hmemory hpointer
        rw [findFlow_eq hread, if_pos rfl, flowAt, hmemory, Option.none_or, hpointer] at hplainFound
        obtain ⟨f, hf, -⟩ := Option.map_eq_some_iff.mp hplainFound
        have hfetch : r.fetch (r.key "flow" (plainId flow.definitionId
            (r.nextRevision flow.definitionId))) = some (.record f) := by
          unfold loadRecord at hf
          split at hf
          · cases hf
            assumption
          · cases hf
        obtain ⟨m, -, hkey⟩ := hread.placed.record _ f hfetch
        rw [show r.key "flow" (plainId flow.definitionId (r.nextRevision flow.definitionId)) =
          r.flowRevisionKey flow.definitionId (r.nextRevision flow.definitionId) from
            (flowRevisionKey_eq_key r _ _).symm] at hkey
        have hid := (flowRevisionKey_inj.mp hkey).1
        exact .inr ⟨_, f, rfl, hf, (plainId_ne _ _).symm, hid ▸ (plainId_ne _ _).symm⟩
      · exact .inl rfl
    · exact .inl (h.loadRecord_eq hread.placed hplain)

/-- A save of a flow that raised changes nothing of the other kinds. -/
theorem FlowSavedPartly.sameFound (hplaced : r.Placed) {D : Type} (K : DefinitionKind D) :
    K.SameFound r u := by
  have hacts := h.acts
  have hids : K.collectIds u = K.collectIds r := by
    rw [DefinitionKind.collectIds, DefinitionKind.collectIds, hacts.index_eq K,
      indexedIds_congr hacts.keyPrefix_eq (hacts.fetch_eq _ (K.not_flowsKey (.inr rfl)))]
  refine ⟨DefinitionKind.find_of_flowsAct hacts, ?_⟩
  rw [DefinitionKind.list, DefinitionKind.list, K.listFrom_eq hplaced, K.listFrom_eq (h.placed hplaced),
    hids]
  exact congrArg (List.filterMap · _)
    (funext fun i => DefinitionKind.find_of_flowsAct hacts i true)

/-- If the revision was already found, the repository answers as it did. -/
theorem FlowSavedPartly.sameAnswers (hread : r.Readable) (hfound : r.FlowAlreadyFound sets flow) :
    r.SameAnswers u := by
  have hreadU := h.readable hread
  have hflowAt := h.flowAt_eq hread hfound
  refine ⟨fun q => ?_, fun j => ?_, h.listFlowRevisions_eq hread hfound, ?_,
    (h.sameFound hread.placed processKind).2, (h.sameFound hread.placed schemaKind).2,
    (h.sameFound hread.placed resourceKind).2⟩
  · cases q with
    | flow ref byId revision =>
      refine congrArg (Option.map Definition.flow) ?_
      change u.findFlow ref byId revision = r.findFlow ref byId revision
      rw [findFlow_eq hread, findFlow_eq hreadU, hflowAt, h.flowNamed_eq hread hfound]
    | process ref byId =>
      exact congrArg (Option.map Definition.process) ((h.sameFound hread.placed processKind).1 ref byId)
    | schema ref byId =>
      exact congrArg (Option.map Definition.schema) ((h.sameFound hread.placed schemaKind).1 ref byId)
    | resource ref byId =>
      exact congrArg (Option.map Definition.resource)
        ((h.sameFound hread.placed resourceKind).1 ref byId)
  · by_cases hj : j = flow.definitionId
    · subst hj
      rw [h.getLatestRevision_self, hfound.latest]
    · have hcounter : u.flowLatestRevision.get? j = r.flowLatestRevision.get? j := by
        rw [h.flowLatestRevision_eq, Dict.get?_set_ne _ _ hj]
      simp only [getLatestRevision, hcounter, h.loadLatest_ne hj]
      split
      · rfl
      · split <;> rfl
  · rw [hread.listFlows_eq, hreadU.listFlows_eq, h.collectIds_eq hread hfound, hflowAt]

/-- If the repository answers as it did, the revision was already found. -/
theorem FlowSavedPartly.alreadyFound (hread : r.Readable) (hsame : r.SameAnswers u) :
    r.FlowAlreadyFound sets flow := by
  have hreadU := h.readable hread
  have hflow (ref : String) (byId : Bool) (m : Option ℕ) :
      r.findFlow ref byId m = u.findFlow ref byId m :=
    (Option.map_injective (fun _ _ => Definition.flow.inj) (hsame.lookup (.flow ref byId m))).symm
  have hself : u.findFlow flow.definitionId true none = some (r.nextPublished flow) := by
    change (u.getFlowById flow.definitionId none).1.toOption = _
    rw [h.getFlowById_self]
    rfl
  refine ⟨?_, ?_, ?_, ?_, ?_, ?_, fun hfirst m => ?_, fun hsets hstorage hmemory hpointer => ?_⟩
  · rw [← hsame.latest, h.getLatestRevision_self]
  · rw [hflow, hself]
  · rw [hflow, findFlow_eq hreadU, if_pos rfl]
    exact h.revisionAt_self
  · rw [hflow, findFlow_eq hreadU, if_neg (by decide), flowNamed, h.flowsByName_eq,
      Dict.get?_set_self]
    rfl
  · rw [← hsame.flows, hreadU.listFlows_eq, List.mem_filterMap]
    refine ⟨flow.definitionId, List.mem_mergeSort.mpr (List.mem_dedup.mpr
      (List.mem_append_left _ ?_)), ?_⟩
    · rw [h.flowsById_eq, Dict.mem_keys_set]
      exact .inl rfl
    · rwa [findFlow_eq hreadU, if_pos rfl] at hself
  · refine ⟨_, (hsame.revisions _).symm.trans h.listFlowRevisions_self, ?_⟩
    exact List.mem_mergeSort.mpr (List.mem_dedup.mpr ((h.mem_knownRevisions _).mpr (.inl rfl)))
  · have hvalues := h.values_eq hread ((hflow _ _ _).trans hself) flow.name
    rw [hfirst, if_pos rfl, Option.none_or] at hvalues
    rw [hflow, hflow, findFlow_eq hreadU, findFlow_eq hreadU, if_neg (by decide), if_pos rfl,
      flowNamed, hvalues]
    cases u.flowsByName.get? flow.name <;> rfl
  · have hne := plainId_ne flow.definitionId (r.nextRevision flow.definitionId)
    rw [hflow, findFlow_eq hreadU, if_pos rfl, flowAt, h.flowsById_eq, Dict.get?_set_ne _ _ hne,
      hmemory, Option.none_or, h.loadLatest_ne hne, hpointer, h.loadRecord_plain,
      if_pos ⟨hsets, hstorage⟩]
    rfl

end Partly

/-- What the lookups of a repository rely on: the documents in their places, the maps keyed, and a
pointer for every flow that is listed. -/
structure Ordered (r : Repository) : Prop where
  readable : r.Readable
  processes : processKind.Keyed (processKind.index r)
  schemas : schemaKind.Keyed (schemaKind.index r)
  resources : resourceKind.Keyed (resourceKind.index r)

/-- This holds of a repository that is sound. -/
theorem Sound.ordered {r : Repository} (h : r.Sound) : r.Ordered :=
  ⟨h.kept.readable h.flows, h.processes, h.schemas, h.resources⟩

/-- The answers that a save changes are already those of the definition. -/
def AlreadyFound (r : Repository) (sets : ℕ) : Definition → Prop
  | .flow flow => r.FlowAlreadyFound sets flow
  | .process process => processKind.AlreadyFound r sets process
  | .schema schema => schemaKind.AlreadyFound r sets schema
  | .resource resource => resourceKind.AlreadyFound r sets resource

/-- Without a storage a save raises after it has done what it does in memory. -/
theorem trySave_of_none {r : Repository} (h : r.storage = none) (sets : ℕ) :
    (∀ flow, r.trySave sets (.flow flow) = .error (.storageNotConfigured, (r.saveFlow flow).2)) ∧
      (∀ process, r.trySave sets (.process process) =
        .error (.storageNotConfigured, (r.saveProcess process).2)) ∧
      (∀ schema, r.trySave sets (.schema schema) =
        .error (.storageNotConfigured, (r.saveSchema schema).2)) ∧
      ∀ resource, r.trySave sets (.resource resource) =
        .error (.storageNotConfigured, (r.saveResource resource).2) := by
  have hkind {D : Type} (K : DefinitionKind D) (d : D) :
      K.trySave r sets d = .error (.storageNotConfigured, (K.save r d).2) := by
    have hnone : (K.insert r d).storage = none := (K.withIndex_eq r _).1.trans h
    simp only [DefinitionKind.trySave, DefinitionKind.save, Saving.requireStorage, hnone]
    rfl
  refine ⟨fun flow => ?_, hkind processKind, hkind schemaKind, hkind resourceKind⟩
  have hnone : (r.publishedInMemory flow).storage = none :=
    (publishedInMemory_frame r flow).1.trans h
  change (Saving.requireStorage ⟨r.publishedInMemory flow, sets⟩ >>= _) = _
  simp only [Saving.requireStorage, hnone, saveFlow, publishFlowRevisionWith, h]
  rfl

/-- After a save that raised, for want of a storage or at any of its writes, the repository answers
as it did exactly if its answers were already those of the definition. -/
theorem failedSave_sameAnswers_iff {r u : Repository} {sets : ℕ} {d : Definition} {e : SaveError}
    (hordered : r.Ordered) (h : r.trySave sets d = .error (e, u)) :
    r.SameAnswers u ↔ r.AlreadyFound sets d := by
  have hplaced := hordered.readable.placed
  cases d with
  | flow flow =>
    have hpartly := flowSavedPartly h
    exact ⟨hpartly.alreadyFound hordered.readable, hpartly.sameAnswers hordered.readable⟩
  | process process =>
    have hpartly := processKind.savedPartly DefinitionKind.process_keepsNames h
    have hplacedU := hpartly.placed hplaced
    rw [hpartly.sameFlowParts.sameAnswers_iff]
    refine Iff.trans ⟨And.left, fun hfound => ⟨hfound, ?_, ?_⟩⟩
      (hpartly.sameFound_iff hplaced hordered.processes)
    · exact hpartly.acts.sameFound (process_separate.schema (by decide)) hplaced hplacedU
    · exact hpartly.acts.sameFound (process_separate.resource (by decide)) hplaced hplacedU
  | schema schema =>
    have hpartly := schemaKind.savedPartly DefinitionKind.schema_keepsNames h
    have hplacedU := hpartly.placed hplaced
    rw [hpartly.sameFlowParts.sameAnswers_iff]
    refine Iff.trans ⟨fun hall => hall.2.1, fun hfound => ⟨?_, hfound, ?_⟩⟩
      (hpartly.sameFound_iff hplaced hordered.schemas)
    · exact hpartly.acts.sameFound (schema_separate.process (by decide)) hplaced hplacedU
    · exact hpartly.acts.sameFound (schema_separate.resource (by decide)) hplaced hplacedU
  | resource resource =>
    have hpartly := resourceKind.savedPartly DefinitionKind.resource_keepsNames h
    have hplacedU := hpartly.placed hplaced
    rw [hpartly.sameFlowParts.sameAnswers_iff]
    refine Iff.trans ⟨fun hall => hall.2.2, fun hfound => ⟨?_, ?_, hfound⟩⟩
      (hpartly.sameFound_iff hplaced hordered.resources)
    · exact hpartly.acts.sameFound (resource_separate.process (by decide)) hplaced hplacedU
    · exact hpartly.acts.sameFound (resource_separate.schema (by decide)) hplaced hplacedU

/-- The process has a name. -/
private theorem nightly_ne : "nightly" ≠ "" := by decide

/-- A process. -/
def nightlyProcess : ProcessDefinition :=
  { name := "nightly", id := some "p1", name_ne := nightly_ne }

/-- A repository over an empty storage in which the process is registered. -/
def nightlyRegistered : Repository :=
  ((overEmpty true "palm").registerProcess nightlyProcess).2

/-- If the first write of a save of the registered process raises, the repository answers as it
did. -/
theorem failedSave_sameAnswers_iff_registered :
    nightlyRegistered.SameAnswers (nightlyRegistered.registerProcess nightlyProcess).2 := by
  have hcall : (overEmpty true "palm").call (.process (.register nightlyProcess)) =
      some nightlyRegistered := rfl
  have hordered := ((sound_overEmpty true "palm").call hcall trivial).ordered
  have hraised : nightlyRegistered.trySave 0 (.process nightlyProcess) =
      .error (.setFailed, (nightlyRegistered.registerProcess nightlyProcess).2) := rfl
  refine (failedSave_sameAnswers_iff hordered hraised).mpr ?_
  exact ⟨by decide +kernel, by decide +kernel, by decide +kernel, fun h => absurd rfl h⟩

/-- A save of a process without a storage raises, and then its id leads to the process. -/
theorem failedSave_sameAnswers_fails :
    ¬ ∀ (r u : Repository) (sets : ℕ) (d : Definition) (e : SaveError),
      r.trySave sets d = .error (e, u) → r.SameAnswers u := by
  intro h
  have hsame := h (overEmpty false "palm") _ 0 (.process nightlyProcess) .storageNotConfigured rfl
  have hlookup := hsame.lookup (.process "p1" true)
  exact absurd (congrArg Option.isSome hlookup) (by decide +kernel)

end Repository

end PalmEngine.Persistence
