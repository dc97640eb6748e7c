import PalmEngine.Persistence.InstanceIndex

/-!
# What a rebuilding of the index achieves

The batches make up all the summaries, so batched or not a rebuilding enters each of them. It is
skipped on the word of two counts alone, so an index that has the right number of entries is left
as it is, whatever these entries tell.
-/

namespace PalmEngine.Persistence.Stored

open PalmEngine.Lib

/-- The first batches are what is taken of the list. -/
theorem flatMap_batches {α : Type} (l : List α) (size count : ℕ) :
    (List.range count).flatMap (fun k => (l.drop (k * size)).take size) =
      l.take (count * size) := by
  induction count with
  | zero => simp
  | succ count ih =>
    rw [List.range_succ, List.flatMap_append, ih, List.flatMap_singleton, Nat.succ_mul,
      List.take_add]

/-- All batches of a list make up the list. -/
theorem flatMap_batchOffsets {α : Type} (l : List α) {size : ℤ} (hsize : 0 < size) :
    (batchOffsets l.length size).flatMap (fun offset => (l.drop offset).take size.toNat) = l := by
  rw [batchOffsets, if_neg (not_le.mpr hsize), List.flatMap_map, flatMap_batches]
  refine List.take_of_length_le ?_
  have hpos : 0 < size.toNat := by omega
  have hdiv := Nat.div_add_mod (l.length + size.toNat - 1) size.toNat
  have hmod := Nat.mod_lt (l.length + size.toNat - 1) hpos
  rw [Nat.mul_comm] at hdiv
  omega

namespace InstanceIndexProjection

variable {K V : Type} [DecidableEq K] {ops : StoredValues K V}
  {p q : InstanceIndexProjection K V} {policy : ProjectionRebuildPolicy} {now : String}

/-- Storing leaves the entries as they are. -/
@[simp]
theorem entries_persist (p : InstanceIndexProjection K V) (now : String) :
    (p.persist ops now).entries = p.entries := by
  unfold persist
  split <;> rfl

/-- Storing leaves the instances as they are. -/
@[simp]
theorem instances_persist (p : InstanceIndexProjection K V) (now : String) :
    (p.persist ops now).instances = p.instances := by
  unfold persist
  split <;> rfl

/-- Batches that are entered one after the other are entered as one. -/
theorem foldl_addSummaries (now : String) (batch : ℕ → List (InstanceSummary V))
    (offsets : List ℕ) (p : InstanceIndexProjection K V) :
    let rebuilt := offsets.foldl (fun p o => (p.addSummaries (batch o)).persist ops now) p
    rebuilt.entries = (p.addSummaries (offsets.flatMap batch)).entries ∧
      rebuilt.instances = p.instances := by
  induction offsets generalizing p with
  | nil => exact ⟨rfl, rfl⟩
  | cons o offsets ih =>
    obtain ⟨hentries, hinstances⟩ := ih ((p.addSummaries (batch o)).persist ops now)
    refine ⟨?_, ?_⟩
    · rw [List.foldl_cons, hentries, List.flatMap_cons]
      simp only [addSummaries, entries_persist, List.foldl_append]
    · rw [List.foldl_cons, hinstances, instances_persist]
      rfl

/-- The entries of summaries. -/
def entriesOf (summaries : List (InstanceSummary V)) : Dict String (InstanceReadModel V) :=
  summaries.foldl (fun d s => d.set s.instanceId s.readModel) .empty

/-- Whether a rebuilding stops is what it finds of its index. -/
theorem stops_iff (p : InstanceIndexProjection K V) (policy : ProjectionRebuildPolicy) :
    p.Stops ops policy ↔
      (if policy.skipIfFresh && !policy.force then
        p.isFresh ops (p.instances.listSummaries ops).length else some false) ≠ some false := by
  unfold Stops
  cases policy.skipIfFresh <;> cases policy.force <;> simp

/-- A rebuilding that stops leaves the entries as they are. Another one enters all summaries, or
none if it needs batches and they are empty. The instances are as they were. -/
theorem rebuild_cases (ops : StoredValues K V) (p : InstanceIndexProjection K V)
    (policy : ProjectionRebuildPolicy) (now : String) :
    let summaries := p.instances.listSummaries ops
    (p.rebuild ops policy now).2.instances = p.instances ∧
      (p.Stops ops policy ∧ (p.rebuild ops policy now).2.entries = p.entries ∨
        ¬p.Stops ops policy ∧ (p.rebuild ops policy now).2.entries =
          if policy.maxInstances < summaries.length ∧ policy.batchSize ≤ 0 then .empty
          else entriesOf summaries) := by
  intro summaries
  rw [stops_iff]
  unfold rebuild
  simp only []
  split
  · next hfresh =>
    have hstopped : (if policy.skipIfFresh && !policy.force then
        p.isFresh ops summaries.length else some false) = none := hfresh
    exact ⟨rfl, Or.inl ⟨by rw [hstopped]; simp, rfl⟩⟩
  · next hfresh =>
    have hstopped : (if policy.skipIfFresh && !policy.force then
        p.isFresh ops summaries.length else some false) = some true := hfresh
    exact ⟨rfl, Or.inl ⟨by rw [hstopped]; simp, rfl⟩⟩
  · next hfresh =>
    have hgoes : (if policy.skipIfFresh && !policy.force then
        p.isFresh ops summaries.length else some false) = some false := hfresh
    rw [hgoes]
    simp only [decide_eq_true_eq]
    by_cases htotal : (p.instances.listSummaries ops).length = 0
    · have hnone : summaries = [] := List.eq_nil_of_length_eq_zero htotal
      rw [if_pos htotal, hnone]
      refine ⟨instances_persist .., Or.inr ⟨by simp, ?_⟩⟩
      rw [entries_persist, entriesOf, List.foldl_nil, ite_self]
    rw [if_neg htotal]
    by_cases hmany : policy.maxInstances < summaries.length
    · simp only [if_pos (show policy.maxInstances < (p.instances.listSummaries ops).length from
        hmany), hmany, true_and]
      split
      · next hzero => exact ⟨rfl, Or.inr ⟨by simp, (if_pos hzero.le).symm⟩⟩
      · refine ⟨(foldl_addSummaries now _ _ _).2, Or.inr ⟨by simp, ?_⟩⟩
        refine (foldl_addSummaries now _ _ _).1.trans ?_
        split
        · next hsize =>
          rw [batchOffsets, if_pos hsize]
          rfl
        · next hsize =>
          rw [flatMap_batchOffsets _ (not_le.mp hsize)]
          rfl
    · simp only [if_neg (show ¬policy.maxInstances < (p.instances.listSummaries ops).length from
        hmany), hmany, false_and, if_false]
      rw [if_neg (by omega)]
      refine ⟨(foldl_addSummaries now _ _ _).2, Or.inr ⟨by simp, ?_⟩⟩
      refine (foldl_addSummaries now _ _ _).1.trans ?_
      rw [flatMap_batchOffsets _ (by omega)]
      rfl

/-- The summaries are as they were. -/
theorem current_rebuild (p : InstanceIndexProjection K V) (policy : ProjectionRebuildPolicy)
    (now : String) : (p.rebuild ops policy now).2.current ops = p.current ops := by
  rw [current, (rebuild_cases ops p policy now).1, current]

/-- What is told of the summaries is sorted. -/
theorem sortDescending_current (p : InstanceIndexProjection K V) :
    sortDescending InstanceReadModel.updatedAt (p.current ops) = p.current ops := by
  refine sortDescending_of_pairwise (List.pairwise_map.mpr ?_)
  exact pairwise_sortDescending InstanceSummary.updatedAt _

/-- A model is found among those of the summaries as its summary is. -/
theorem find?_current (p : InstanceIndexProjection K V) (i : String) :
    (p.current ops).find? (·.instanceId = i) =
      ((p.instances.listSummaries ops).find? (·.instanceId = i)).map InstanceSummary.readModel :=
  List.find?_map ..

omit [DecidableEq K] in
/-- Models that are sorted alike are selected alike. -/
theorem select_eq (query : ListInstancesQuery) {rows rows' : List (InstanceReadModel V)}
    (h : sortDescending InstanceReadModel.updatedAt rows =
      sortDescending InstanceReadModel.updatedAt rows') :
    query.select ops rows = query.select ops rows' := by
  unfold ListInstancesQuery.select
  simp only []
  rw [sortDescending_filter_eq (sortDescending_filter_eq (sortDescending_filter_eq h _) _) _]

/-- The index is what the summaries tell exactly if its entries are those of the summaries. -/
theorem authoritative_iff_agrees : p.Authoritative ops ↔ p.Agrees ops := by
  constructor
  · intro h
    refine ⟨?_, fun i => ?_⟩
    · have hall := h.listed {}
      simp only [listInstances, ListInstancesQuery.select, Bool.true_or, Option.all_none,
        List.filter_true, Option.elim_none] at hall
      rw [hall, sortDescending_current]
    · have hfound := h.found "" i
      have hholds := h.holds i
      unfold getInstance at hfound
      cases hget : p.entries.get? i with
      | some model =>
        rw [hget] at hfound
        exact hfound
      | none =>
        rw [hget, Option.map_none] at hholds
        exact (Option.map_eq_none_iff.mp hholds.symm).symm
  · rintro ⟨hsorted, hget⟩
    refine ⟨fun i => by rw [hget], fun query => ?_, fun now i => ?_⟩
    · exact select_eq query (hsorted.trans (sortDescending_current p).symm)
    · unfold getInstance
      rw [hget, find?_current]
      cases (p.instances.listSummaries ops).find? (·.instanceId = i) <;> rfl

/-- The entries of summaries are stored under their ids. -/
theorem key_entriesOf (summaries : List (InstanceSummary V)) :
    ∀ e ∈ (entriesOf summaries).entries, e.2.instanceId = e.1 := by
  unfold entriesOf
  suffices h : ∀ d : Dict String (InstanceReadModel V), (∀ e ∈ d.entries, e.2.instanceId = e.1) →
      ∀ e ∈ (summaries.foldl (fun d s => d.set s.instanceId s.readModel) d).entries,
        e.2.instanceId = e.1 from h .empty fun e he => absurd he List.not_mem_nil
  induction summaries with
  | nil => exact fun _ h => h
  | cons s summaries ih =>
    refine fun d h => ih _ fun e he => ?_
    rcases (d.mem_entries_set s.instanceId s.readModel e).mp he with rfl | ⟨-, he⟩
    · rfl
    · exact h e he

/-- The entries of summaries with distinct ids are these summaries. -/
theorem entries_entriesOf {summaries : List (InstanceSummary V)}
    (hnodup : (summaries.map InstanceSummary.instanceId).Nodup) :
    (entriesOf summaries).entries = summaries.map fun s => (s.instanceId, s.readModel) := by
  have hkeys : ((summaries.map fun s => (s.instanceId, s.readModel)).map Prod.fst).Nodup := by
    rwa [List.map_map]
  have hentries := Dict.entries_foldl_set (d := (.empty : Dict String (InstanceReadModel V))) hkeys
    fun _ _ => List.not_mem_nil
  rw [List.foldl_map] at hentries
  exact hentries

/-- Entries of summaries agree with them exactly if the ids are distinct: of two summaries with one
id only one becomes an entry. -/
theorem agrees_entriesOf_iff (hentries : q.entries = entriesOf (q.instances.listSummaries ops)) :
    q.Agrees ops ↔ ((q.instances.listSummaries ops).map InstanceSummary.instanceId).Nodup := by
  constructor
  · rintro ⟨hsorted, -⟩
    have hkeys : q.entries.values.map InstanceReadModel.instanceId = q.entries.keys := by
      rw [Dict.values, Dict.keys, List.map_map, hentries]
      exact List.map_congr_left (key_entriesOf _)
    have hperm := (perm_sortDescending InstanceReadModel.updatedAt q.entries.values).symm
    rw [hsorted] at hperm
    have hids := hperm.map InstanceReadModel.instanceId
    rw [hkeys, current, List.map_map] at hids
    exact hids.nodup_iff.mp q.entries.nodup
  · intro hnodup
    have hlist := entries_entriesOf hnodup
    rw [← hentries] at hlist
    refine ⟨?_, fun i => ?_⟩
    · have hvalues : q.entries.values = q.current ops := by
        rw [Dict.values, hlist, List.map_map]
        rfl
      rw [hvalues, sortDescending_current]
    · rw [find?_current, Dict.get?, hlist, List.find?_map, Option.map_map]
      rfl

/-- No entries agree with the summaries exactly if there are none. -/
theorem agrees_empty_iff (hentries : q.entries = .empty) :
    q.Agrees ops ↔ q.instances.listSummaries ops = [] := by
  have hvalues : q.entries.values = [] := by rw [hentries]; rfl
  constructor
  · rintro ⟨hsorted, -⟩
    rw [hvalues] at hsorted
    exact List.map_eq_nil_iff.mp hsorted.symm
  · intro hnone
    refine ⟨?_, fun i => ?_⟩
    · rw [hvalues, current, hnone]
      rfl
    · rw [hentries, current, hnone]
      rfl

/-- After a rebuilding the index is what the summaries tell exactly if it was rebuildable: where the
rebuilding stopped the entries were right before, and otherwise no two summaries have one id and the
batches, where they are needed, are not empty. -/
theorem rebuild_authoritative_iff (p : InstanceIndexProjection K V)
    (policy : ProjectionRebuildPolicy) (now : String) :
    (p.rebuild ops policy now).2.Authoritative ops ↔ p.Rebuildable ops policy := by
  rw [authoritative_iff_agrees, Rebuildable]
  obtain ⟨hinstances, ⟨hstops, hentries⟩ | ⟨hgoes, hentries⟩⟩ := rebuild_cases ops p policy now
  · simp only [hstops, not_true_eq_false, IsEmpty.forall_iff, and_true, forall_true_left]
    rw [Agrees, Agrees, current_rebuild, hentries]
  · simp only [hgoes, IsEmpty.forall_iff, true_and, not_false_eq_true, forall_true_left]
    rw [← hinstances] at hentries ⊢
    split at hentries
    · next hbad =>
      rw [agrees_empty_iff hentries]
      constructor
      · intro hnone
        rw [hnone]
        exact ⟨List.nodup_nil, fun h => absurd rfl h⟩
      · rintro ⟨-, hsize⟩
        by_contra hsome
        exact absurd (hsize hsome hbad.1) (not_lt.mpr hbad.2)
    · next hgood =>
      rw [agrees_entriesOf_iff hentries]
      refine (and_iff_left fun _ hmany => ?_).symm
      exact not_le.mp fun hsize => hgood ⟨hmany, hsize⟩

/-- The instances of which one has succeeded. -/
def succeededInstances : InstanceRepository String Context.Value where
  storage := Context.entriesDict [("palm:instances:index", .list [.str "a"]),
    ("palm:instances:a", .dict [("instance_id", .str "a"), ("status", .str "SUCCEEDED")])]

/-- What was stored of the index while the instance was running. -/
def runningIndex : Context.Value :=
  .dict [("entries", .dict [("a", .dict [("instance_id", .str "a"), ("status", .str "RUNNING")])]),
    ("entry_count", .int 1), ("updated_at", .str "2026-01-01")]

/-- An index that was stored before its only instance succeeded is skipped by a rebuilding, which
leaves the instance running in it. -/
theorem rebuild_stale_fails :
    ¬∀ instances stored, ∀ p ∈ opened plainStoredValues instances true stored, ∀ policy now,
      (p.rebuild plainStoredValues policy now).2.Authoritative plainStoredValues := by
  intro h
  have hopened : ∃ p, opened plainStoredValues succeededInstances true runningIndex = some p ∧
      ((p.rebuild plainStoredValues {} "").2.entries.get? "a").map (·.status) = some "RUNNING" ∧
      (((p.rebuild plainStoredValues {} "").2.current plainStoredValues).find?
        (·.instanceId = "a")).map (·.status) = some "SUCCEEDED" :=
    ⟨_, rfl, by decide +kernel, by decide +kernel⟩
  obtain ⟨p, hp, hentry, hcurrent⟩ := hopened
  have hholds := congrArg (Option.map Prod.fst) ((h _ _ p hp {} "").holds "a")
  rw [Option.map_map, Option.map_map] at hholds
  have hsame := (hentry.symm.trans hholds).trans hcurrent
  exact absurd hsame (by decide)

end InstanceIndexProjection

end PalmEngine.Persistence.Stored
