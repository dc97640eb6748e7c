import PalmEngine.Persistence.Reconciliation

/-!
# What a reconciliation achieves

A look at a listed id takes it out of the index, leaves everything as it is, or saves the instance
that its record is decoded to. If every running record carries the id it is stored under, a saving
replaces the very record it was made of, and the reconciliation achieves what it is to achieve. If
one carries another id, the last such record that is looked at is never replaced.
-/

namespace PalmEngine.Persistence.Stored.InstanceRepository

open PalmEngine.Lib

variable {K V : Type} [DecidableEq K] {ops : StoredValues K V}
  {clock : String → String} {r s : InstanceRepository K V} {i j : String} {v : V}
  {record : Dict K V}

/-- An instance is kept or has no record that can be used. -/
theorem kept_of_loadRecord (h : s.loadRecord ops j = r.loadRecord ops j) :
    s.Kept ops j ↔ r.Kept ops j := by
  rw [Kept, Kept, h]

/-- A stale record is kept. -/
theorem IsStale.kept (h : r.IsStale ops i record) : r.Kept ops i := ⟨record, h.1, fun _ => h.2.2⟩

/-- How far a reconciliation has come: the records of the ids it has looked at are settled, all
others are as they were, and the index has lost the ids that are not kept. -/
structure Progress (ops : StoredValues K V) (r : InstanceRepository K V) (done : List String)
    (s : InstanceRepository K V) : Prop where
  unchanged : ∀ j, (j ∉ done ∨ ∀ record, ¬r.IsStale ops j record) →
    s.loadRecord ops j = r.loadRecord ops j
  marked : ∀ j ∈ done, ∀ record, r.IsStale ops j record →
    ∃ record', s.loadRecord ops j = some record' ∧ recordStatus ops record' ≠ "RUNNING"
  ids : ∀ j, j ∈ s.indexIds ops ↔ j ∈ r.indexIds ops ∧ (j ∈ done → r.Kept ops j)
  entries : ∀ v ∈ s.indexEntries ops, v ∈ r.indexEntries ops ∨ v = ops.text (ops.str v)
  cached : ∀ j ∈ s.cache.keys, j ∈ r.cache.keys ∨ j ∈ done

/-- In the beginning a reconciliation has looked at nothing. -/
theorem Progress.refl (ops : StoredValues K V) (r : InstanceRepository K V) :
    Progress ops r [] r where
  unchanged _ _ := rfl
  marked _ h := absurd h List.not_mem_nil
  ids _ := by simp
  entries _ h := Or.inl h
  cached _ h := Or.inl h

/-- What a look at a listed id does: the id is taken out of the index, or nothing changes, or an
instance with the id of the record is saved as waiting. -/
theorem reconcileOne_cases (ops : StoredValues K V) (clock : String → String)
    (s : InstanceRepository K V × ReconciliationReport) (i : String) :
    (¬s.1.Kept ops i ∧ (reconcileOne ops clock s i).1 = s.1.removeFromIndex ops i) ∨
      (s.1.Kept ops i ∧ (∀ record, ¬s.1.IsStale ops i record) ∧
        (reconcileOne ops clock s i).1 = s.1) ∨
      ∃ record p, s.1.IsStale ops i record ∧ recordId ops record = some p.instanceId ∧
        recordStatus ops (p.toDict ops.toScriptValues) ≠ "RUNNING" ∧
        (reconcileOne ops clock s i).1 = s.1.save ops p := by
  unfold reconcileOne
  cases hload : s.1.loadRecord ops i with
  | none =>
    have hnot : ¬s.1.Kept ops i := by
      rintro ⟨record, hrecord, -⟩
      exact Option.some_ne_none record (hrecord.symm.trans hload)
    exact Or.inl ⟨hnot, rfl⟩
  | some record =>
    have hsame : ∀ {record'}, s.1.loadRecord ops i = some record' → record' = record :=
      fun h => Option.some.inj (h.symm.trans hload)
    by_cases hstatus : recordStatus ops record = "RUNNING"
    · simp only [hstatus, ne_eq, not_true_eq_false, if_false]
      cases hdecode : ProcessInstance.fromDict ops.toScriptValues (clock i) record with
      | none =>
        have hnot : ¬Decodes ops record := by
          intro hdecodes
          obtain ⟨p, hp⟩ := hdecodes.exists_fromDict (clock i)
          exact Option.some_ne_none p (hp.symm.trans hdecode)
        refine Or.inl ⟨?_, rfl⟩
        rintro ⟨record', hrecord', hkept⟩
        exact hnot (hsame hrecord' ▸ hkept (hsame hrecord' ▸ hstatus))
      | some p =>
        refine Or.inr (Or.inr ⟨record, p.reconciled ops (clock i) "RUNNING",
          ⟨hload, hstatus, clock i, p, hdecode⟩,
          show recordId ops record = some p.instanceId from recordId_of_fromDict hdecode, ?_, rfl⟩)
        rw [recordStatus_reconciled]
        decide
    · simp only [hstatus, ne_eq, not_false_eq_true, if_true]
      refine Or.inr (Or.inl ⟨⟨record, hload, fun h => absurd h hstatus⟩, ?_, trivial⟩)
      rintro record' ⟨hrecord', hrunning, -⟩
      exact hstatus (hsame hrecord' ▸ hrunning)

/-- One more look keeps a reconciliation going, if records carry the ids they are stored under. -/
theorem Progress.step {done : List String} {s : InstanceRepository K V × ReconciliationReport}
    (clock : String → String) (h : Progress ops r done s.1) (hown : r.StoredByOwnId ops)
    (hlisted : i ∈ r.listInstanceIds ops) (hnew : i ∉ done) :
    Progress ops r (done ++ [i]) (reconcileOne ops clock s i).1 := by
  have hload : s.1.loadRecord ops i = r.loadRecord ops i := h.unchanged i (Or.inl hnew)
  have hdone : ∀ j, j ∈ done ++ [i] ↔ j ∈ done ∨ j = i := by simp
  have hcached : ∀ j ∈ s.1.cache.keys, j ∈ r.cache.keys ∨ j ∈ done ++ [i] := fun j hj =>
    (h.cached j hj).imp id fun hj => (hdone j).mpr (Or.inl hj)
  rcases reconcileOne_cases ops clock s i with ⟨hnot, heq⟩ | ⟨hkept, hsettled, heq⟩ |
    ⟨record, p, hstale, hid, hwaiting, heq⟩
  · have hnotKept : ¬r.Kept ops i := fun hkept => hnot ((kept_of_loadRecord hload).mpr hkept)
    have hnotStale : ∀ record, ¬r.IsStale ops i record := fun record hstale => hnotKept hstale.kept
    rw [heq]
    refine ⟨fun j hj => ?_, fun j hj record hstale => ?_, fun j => ?_, fun v hv => ?_, ?_⟩
    · rw [loadRecord_removeFromIndex]
      refine h.unchanged j ?_
      by_cases hji : j = i
      · exact Or.inr (hji ▸ hnotStale)
      · exact hj.imp (fun hj hmem => hj ((hdone j).mpr (Or.inl hmem))) id
    · rw [loadRecord_removeFromIndex]
      refine h.marked j (((hdone j).mp hj).resolve_right fun hji => ?_) record hstale
      exact hnotStale record (hji ▸ hstale)
    · rw [hdone, indexIds, List.mem_map]
      simp only [mem_indexEntries_removeFromIndex]
      constructor
      · rintro ⟨v, ⟨hv, hne⟩, rfl⟩
        obtain ⟨hmem, hkept⟩ := (h.ids _).mp (List.mem_map_of_mem hv)
        refine ⟨hmem, fun hor => hor.elim hkept fun hi => ?_⟩
        -- an entry that shows the id is the text of it, or the id would be kept
        refine absurd ?_ hne
        rcases h.entries v hv with hold | htext
        · exact ((hown.texts v hold).resolve_right fun hkept => hnotKept (hi ▸ hkept)).trans
            (congrArg ops.text hi)
        · exact htext.trans (congrArg ops.text hi)
      · rintro ⟨hmem, hkept⟩
        obtain ⟨v, hv, rfl⟩ := List.mem_map.mp ((h.ids j).mpr ⟨hmem, fun hj => hkept (Or.inl hj)⟩)
        refine ⟨v, ⟨hv, fun htext => ?_⟩, rfl⟩
        have hi : ops.str v = i := by rw [htext, ops.str_text]
        exact hnotKept (hi ▸ hkept (Or.inr hi))
    · exact h.entries v (mem_indexEntries_removeFromIndex.mp hv).1
    · unfold removeFromIndex
      split <;> exact hcached
  · have hkept : r.Kept ops i := (kept_of_loadRecord hload).mp hkept
    have hnotStale : ∀ record, ¬r.IsStale ops i record :=
      fun record hstale => hsettled record ⟨hload.trans hstale.1, hstale.2⟩
    rw [heq]
    refine ⟨fun j hj => ?_, fun j hj record hstale => ?_, fun j => ?_, h.entries, hcached⟩
    · refine h.unchanged j ?_
      by_cases hji : j = i
      · exact Or.inr (hji ▸ hnotStale)
      · exact hj.imp (fun hj hmem => hj ((hdone j).mpr (Or.inl hmem))) id
    · refine h.marked j (((hdone j).mp hj).resolve_right fun hji => ?_) record hstale
      exact hnotStale record (hji ▸ hstale)
    · rw [h.ids, hdone]
      refine and_congr_right fun _ => ⟨fun h => ?_, fun h hj => h (Or.inl hj)⟩
      exact fun hj => hj.elim h fun hji => hji ▸ hkept
  · have hstale : r.IsStale ops i record := ⟨hload.symm.trans hstale.1, hstale.2⟩
    obtain ⟨hrecordId, hindexed⟩ := hown.own i hlisted record hstale
    have hpi : p.instanceId = i := Option.some.inj (hid.symm.trans hrecordId)
    -- the index has entries, so there is no record for the id `index`
    have hindex : r.loadRecord ops "index" = none := by
      obtain ⟨v, hv, -⟩ := List.mem_map.mp hindexed
      exact loadRecord_index (index_ne_none_of_mem hv)
    have hi : i ≠ "index" := by
      rintro rfl
      exact Option.some_ne_none record (hstale.1.symm.trans hindex)
    have hpindex : p.instanceId ≠ "index" := hpi ▸ hi
    have hnoIndex : (s.1.save ops p).loadRecord ops "index" = none :=
      loadRecord_index (index_ne_none_of_mem text_mem_save)
    rw [heq]
    refine ⟨fun j hj => ?_, fun j hj record' hstale' => ?_, fun j => ?_, fun v hv => ?_, ?_⟩
    · have hji : j ≠ i := by
        rintro rfl
        exact hj.elim (fun hj => hj ((hdone j).mpr (Or.inr rfl))) fun hj => hj record hstale
      by_cases hjindex : j = "index"
      · rw [hjindex, hnoIndex, hindex]
      · rw [loadRecord_save hjindex, if_neg (hpi ▸ hji)]
        exact h.unchanged j (hj.imp (fun hj hmem => hj ((hdone j).mpr (Or.inl hmem))) id)
    · have hjindex : j ≠ "index" := by
        rintro rfl
        exact Option.some_ne_none record' (hstale'.1.symm.trans hindex)
      rw [loadRecord_save hjindex]
      split
      · exact ⟨_, rfl, hwaiting⟩
      · next hji =>
        exact h.marked j (((hdone j).mp hj).resolve_right fun heq => hji (heq.trans hpi.symm)) record'
          hstale'
    · rw [hdone, indexIds, List.mem_map]
      simp only [mem_indexEntries_save hpindex, hpi]
      constructor
      · rintro ⟨v, hv | rfl, rfl⟩
        · obtain ⟨hmem, hkept⟩ := (h.ids _).mp (List.mem_map_of_mem hv)
          exact ⟨hmem, fun hor => hor.elim hkept fun heq => heq ▸ hstale.kept⟩
        · rw [ops.str_text]
          exact ⟨hindexed, fun _ => hstale.kept⟩
      · rintro ⟨hmem, hkept⟩
        obtain ⟨v, hv, rfl⟩ := List.mem_map.mp ((h.ids j).mpr ⟨hmem, fun hj => hkept (Or.inl hj)⟩)
        exact ⟨v, Or.inl hv, rfl⟩
    · rcases (mem_indexEntries_save hpindex).mp hv with hv | rfl
      · exact h.entries v hv
      · exact Or.inr (by rw [ops.str_text])
    · intro j hj
      rw [cache_save, Dict.mem_keys_set] at hj
      rcases hj with rfl | hj
      · exact Or.inr ((hdone _).mpr (Or.inr hpi))
      · exact hcached j hj

/-- A reconciliation that goes through a list of listed ids, each of them once. -/
theorem Progress.run {done : List String} {s : InstanceRepository K V × ReconciliationReport}
    (clock : String → String) (h : Progress ops r done s.1) (hown : r.StoredByOwnId ops) {ids : List String}
    (hlisted : ∀ i ∈ ids, i ∈ r.listInstanceIds ops) (hnodup : ids.Nodup)
    (hnew : ∀ i ∈ ids, i ∉ done) :
    Progress ops r (done ++ ids) (ids.foldl (reconcileOne ops clock) s).1 := by
  induction ids generalizing done s with
  | nil => simpa using h
  | cons i rest ih =>
    obtain ⟨hi, hrest⟩ := List.nodup_cons.mp hnodup
    have hstep := h.step clock hown (hlisted i List.mem_cons_self)
      (hnew i List.mem_cons_self)
    have hrun := ih hstep (fun j hj => hlisted j (List.mem_cons_of_mem i hj)) hrest fun j hj => by
      rw [List.mem_append, List.mem_singleton]
      rintro (hj' | rfl)
      · exact hnew j (List.mem_cons_of_mem i hj) hj'
      · exact hi hj
    rwa [List.append_assoc, List.singleton_append] at hrun

/-- If records carry the ids they are stored under, a reconciliation achieves what it is to. -/
theorem StoredByOwnId.reconciles (hown : r.StoredByOwnId ops) (clock : String → String) :
    Reconciles ops r (r.reconcile ops clock).1 := by
  have hrun := (Progress.refl ops r).run (s := (r, {})) clock hown
    (fun i hi => hi) (nodup_listInstanceIds r) fun _ _ => List.not_mem_nil
  rw [List.nil_append] at hrun
  have hindexed : ∀ i ∈ r.indexIds ops, i ∈ r.listInstanceIds ops :=
    fun i hi => mem_listInstanceIds.mpr (Or.inr hi)
  have hids : ∀ i, i ∈ (r.reconcile ops clock).1.indexIds ops ↔ i ∈ r.indexIds ops ∧ r.Kept ops i :=
    fun i => (hrun.ids i).trans (and_congr_right fun hi => forall_prop_of_true (hindexed i hi))
  have hsettled : ∀ i ∈ r.listInstanceIds ops, ∀ record,
      ¬(r.reconcile ops clock).1.IsStale ops i record := by
    intro i hi record hstale
    by_cases hbefore : ∃ record, r.IsStale ops i record
    · obtain ⟨old, hold⟩ := hbefore
      obtain ⟨record', hrecord', hwaiting⟩ := hrun.marked i hi old hold
      exact hwaiting (Option.some.inj (hrecord'.symm.trans hstale.1) ▸ hstale.2.1)
    · have hload := hrun.unchanged i (Or.inr (not_exists.mp hbefore))
      exact hbefore ⟨record, hload.symm.trans hstale.1, hstale.2⟩
  have hlisted : ∀ i ∈ (r.reconcile ops clock).1.listInstanceIds ops,
      i ∈ r.listInstanceIds ops := by
    intro i hi
    rcases mem_listInstanceIds.mp hi with hi | hi
    · exact (hrun.cached i hi).elim (fun hi => mem_listInstanceIds.mpr (Or.inl hi)) id
    · exact hindexed i ((hids i).mp hi).1
  have hkept : ∀ i, r.Kept ops i → (r.reconcile ops clock).1.Kept ops i := by
    intro i hkept
    by_cases hmarked : i ∈ r.listInstanceIds ops ∧ ∃ record, r.IsStale ops i record
    · obtain ⟨hi, record, hstale⟩ := hmarked
      obtain ⟨record', hrecord', hwaiting⟩ := hrun.marked i hi record hstale
      exact ⟨record', hrecord', fun hrunning => absurd hrunning hwaiting⟩
    · refine (kept_of_loadRecord (hrun.unchanged i ?_)).mpr hkept
      exact (not_and_or.mp hmarked).imp id not_exists.mp
  refine ⟨fun i hi => hsettled i (hi.elim id (hlisted i)), hids, fun i record hrecord hstatus => ?_,
    fun clock' => ?_⟩
  · refine (hrun.unchanged i (Or.inr ?_)).trans hrecord
    rintro record' ⟨hrecord', hrunning, -⟩
    exact hstatus (Option.some.inj (hrecord'.symm.trans hrecord) ▸ hrunning)
  · -- every look at what is left changes nothing
    have hidle : ∀ s : InstanceRepository K V × ReconciliationReport,
        s.1 = (r.reconcile ops clock).1 → ∀ ids : List String,
          (∀ i ∈ ids, i ∈ (r.reconcile ops clock).1.listInstanceIds ops) →
          (ids.foldl (reconcileOne ops clock') s).1 = s.1 := by
      intro s hs ids hmem
      induction ids generalizing s with
      | nil => rfl
      | cons i rest ih =>
        have hone : (reconcileOne ops clock' s i).1 = s.1 := by
          rcases reconcileOne_cases ops clock' s i with ⟨hnot, heq⟩ | ⟨-, -, heq⟩ |
            ⟨record, -, hstale, -⟩
          · rw [heq]
            refine removeFromIndex_of_not_mem fun htext => hnot ?_
            rw [hs] at htext ⊢
            exact hkept i ((hids i).mp (mem_indexIds_of_text htext)).2
          · exact heq
          · exact absurd (hs ▸ hstale)
              (hsettled i (hlisted i (hmem i List.mem_cons_self)) record)
        rw [List.foldl_cons, ih _ (hone.trans hs) fun j hj => hmem j (List.mem_cons_of_mem i hj),
          hone]
    exact hidle ((r.reconcile ops clock).1, {}) rfl _ fun i hi => hi

/-- Every instance that is saved is saved under the id it was listed under. -/
def SavesOwn (ops : StoredValues K V) (clock : String → String) :
    InstanceRepository K V × ReconciliationReport → List String → Prop
  | _, [] => True
  | s, i :: rest => (∀ record, s.1.IsStale ops i record → recordId ops record = some i) ∧
      SavesOwn ops clock (reconcileOne ops clock s i) rest

section Replaced

variable {s : InstanceRepository K V × ReconciliationReport} {ids : List String}

/-- A look changes no record of another id, if it saves what it looks at. -/
theorem loadRecord_reconcileOne (hown : ∀ record, s.1.IsStale ops i record →
    recordId ops record = some i) (hji : j ≠ i) (hj : j ≠ "index") :
    (reconcileOne ops clock s i).1.loadRecord ops j = s.1.loadRecord ops j := by
  rcases reconcileOne_cases ops clock s i with ⟨-, heq⟩ | ⟨-, -, heq⟩ |
    ⟨record, p, hstale, hid, -, heq⟩
  · rw [heq, loadRecord_removeFromIndex]
  · rw [heq]
  · have hpi : p.instanceId = i := Option.some.inj (hid.symm.trans (hown record hstale))
    rw [heq, loadRecord_save hj, if_neg (hpi ▸ hji)]

/-- Looks change no record of an id that they do not look at. -/
theorem SavesOwn.loadRecord_foldl (h : SavesOwn ops clock s ids) (hj : j ∉ ids) (hjindex : j ≠ "index") :
    (ids.foldl (reconcileOne ops clock) s).1.loadRecord ops j = s.1.loadRecord ops j := by
  induction ids generalizing s with
  | nil => rfl
  | cons i rest ih =>
    obtain ⟨hji, hrest⟩ := not_or.mp (List.mem_cons.not.mp hj)
    rw [List.foldl_cons, ih h.2 hrest, loadRecord_reconcileOne h.1 hji hjindex]

/-- An instance that is kept is kept by a look that saves what it looks at. -/
theorem kept_reconcileOne (hown : ∀ record, s.1.IsStale ops i record →
    recordId ops record = some i) (hj : j ≠ "index") (hkept : s.1.Kept ops j) :
    (reconcileOne ops clock s i).1.Kept ops j := by
  by_cases hji : j = i
  · subst hji
    rcases reconcileOne_cases ops clock s j with ⟨hnot, -⟩ | ⟨-, -, heq⟩ |
      ⟨record, p, hstale, hid, hwaiting, heq⟩
    · exact absurd hkept hnot
    · rwa [heq]
    · have hpj : j = p.instanceId := Option.some.inj ((hown record hstale).symm.trans hid)
      rw [heq, Kept, loadRecord_save hj, if_pos hpj]
      exact ⟨_, rfl, fun hrunning => absurd hrunning hwaiting⟩
  · exact (kept_of_loadRecord (loadRecord_reconcileOne hown hji hj)).mpr hkept

/-- An entry stays in the index if the ids that are looked at and of which it is the text are
kept. -/
theorem SavesOwn.mem_indexEntries_foldl (h : SavesOwn ops clock s ids) (hv : v ∈ s.1.indexEntries ops)
    (hkept : ∀ i ∈ ids, v = ops.text i → i ≠ "index" ∧ s.1.Kept ops i) :
    v ∈ (ids.foldl (reconcileOne ops clock) s).1.indexEntries ops := by
  induction ids generalizing s with
  | nil => exact hv
  | cons i rest ih =>
    refine ih h.2 ?_ fun j hj htext => ?_
    · rcases reconcileOne_cases ops clock s i with ⟨hnot, heq⟩ | ⟨-, -, heq⟩ |
        ⟨record, p, hstale, hid, -, heq⟩
      · rw [heq, mem_indexEntries_removeFromIndex]
        exact ⟨hv, fun htext => hnot (hkept i List.mem_cons_self htext).2⟩
      · rwa [heq]
      · have hpi : p.instanceId = i := Option.some.inj (hid.symm.trans (h.1 record hstale))
        have hi : p.instanceId ≠ "index" := by
          rw [hpi]
          rintro rfl
          exact Option.some_ne_none record
            (hstale.1.symm.trans (loadRecord_index (index_ne_none_of_mem hv)))
        rw [heq, mem_indexEntries_save hi]
        exact Or.inl hv
    · obtain ⟨hindex, hjkept⟩ := hkept j (List.mem_cons_of_mem i hj) htext
      exact ⟨hindex, kept_reconcileOne h.1 hindex hjkept⟩

/-- A look leaves the index no list only if it was none before, and then it has saved nothing. -/
theorem index_reconcileOne_eq_none (h : (reconcileOne ops clock s i).1.index ops = none) :
    s.1.index ops = none := by
  rcases reconcileOne_cases ops clock s i with ⟨-, heq⟩ | ⟨-, -, heq⟩ | ⟨record, p, -, -, -, heq⟩
  · exact index_removeFromIndex_eq_none.mp (heq ▸ h)
  · exact heq ▸ h
  · exact absurd (heq ▸ h) (index_ne_none_of_mem text_mem_save)

/-- If some instance is not saved under the id it was listed under, then a listed instance is still
running in the end, or the index has got entries that it had none of. -/
theorem exists_isStale_of_not_savesOwn (hnodup : ids.Nodup) (h : ¬SavesOwn ops clock s ids) :
    (∃ i ∈ ids, ∃ record, (ids.foldl (reconcileOne ops clock) s).1.IsStale ops i record) ∨
      (s.1.index ops = none ∧ (ids.foldl (reconcileOne ops clock) s).1.indexIds ops ≠ []) := by
  induction ids generalizing s with
  | nil => exact absurd trivial h
  | cons i rest ih =>
    obtain ⟨hi, hrest⟩ := List.nodup_cons.mp hnodup
    rw [List.foldl_cons]
    by_cases htail : SavesOwn ops clock (reconcileOne ops clock s i) rest
    · -- the last instance that is saved under another id: nothing replaces its record afterwards
      obtain ⟨record, hstale, hother⟩ : ∃ record, s.1.IsStale ops i record ∧
          recordId ops record ≠ some i := by
        by_contra hnone
        exact h ⟨fun record hstale => by_contra fun hne => hnone ⟨record, hstale, hne⟩, htail⟩
      rcases reconcileOne_cases ops clock s i with ⟨hnot, -⟩ | ⟨-, hsettled, -⟩ |
        ⟨record', p, hstale', hid, hwaiting, heq⟩
      · exact absurd hstale.kept hnot
      · exact absurd hstale (hsettled record)
      · have hpi : p.instanceId ≠ i := by
          intro hpi
          have hsame : record' = record := Option.some.inj (hstale'.1.symm.trans hstale.1)
          exact hother (hsame ▸ hpi ▸ hid)
        by_cases hindex : i = "index"
        · subst hindex
          have hnone : s.1.index ops = none := by
            by_contra hne
            exact Option.some_ne_none record (hstale.1.symm.trans (loadRecord_index hne))
          refine Or.inr ⟨hnone, ?_⟩
          have hmem := htail.mem_indexEntries_foldl (v := ops.text p.instanceId)
            (heq ▸ text_mem_save) fun j _ htext => ?_
          · exact List.ne_nil_of_mem (mem_indexIds_of_text hmem)
          · have hjp : j = p.instanceId := by rw [← ops.str_text j, ← htext, ops.str_text]
            rw [hjp, heq]
            refine ⟨hpi, ?_⟩
            rw [Kept, loadRecord_save hpi, if_pos rfl]
            exact ⟨_, rfl, fun hrunning => absurd hrunning hwaiting⟩
        · refine Or.inl ⟨i, List.mem_cons_self, record, ?_, hstale.2⟩
          rw [htail.loadRecord_foldl hi hindex, heq, loadRecord_save hindex, if_neg (Ne.symm hpi)]
          exact hstale.1
    · rcases ih hrest htail with ⟨j, hj, hstale⟩ | ⟨hnone, hentries⟩
      · exact Or.inl ⟨j, List.mem_cons_of_mem i hj, hstale⟩
      · exact Or.inr ⟨index_reconcileOne_eq_none hnone, hentries⟩

/-- Where the index is no list, a running instance that is saved makes it one. -/
theorem SavesOwn.indexIds_ne_nil (h : SavesOwn ops clock s ids) (hnodup : ids.Nodup)
    (hnone : s.1.index ops = none) (hi : i ∈ ids) (hstale : s.1.IsStale ops i record) :
    (ids.foldl (reconcileOne ops clock) s).1.indexIds ops ≠ [] := by
  induction ids generalizing s with
  | nil => exact absurd hi List.not_mem_nil
  | cons j rest ih =>
    obtain ⟨hj, hrest⟩ := List.nodup_cons.mp hnodup
    have hnotText : ops.text j ∉ s.1.indexEntries ops := by simp [indexEntries, hnone]
    have hsame : (reconcileOne ops clock s j).1 = s.1 → i ≠ j →
        ((rest.foldl (reconcileOne ops clock) (reconcileOne ops clock s j)).1.indexIds ops ≠ []) :=
      fun heq hij => ih h.2 hrest (heq ▸ hnone) ((List.mem_cons.mp hi).resolve_left hij)
        (heq ▸ hstale)
    rw [List.foldl_cons]
    rcases reconcileOne_cases ops clock s j with ⟨hnot, heq⟩ | ⟨-, hsettled, heq⟩ |
      ⟨record', p, hstale', hid, -, heq⟩
    · refine hsame (heq.trans (removeFromIndex_of_not_mem hnotText)) ?_
      rintro rfl
      exact hnot hstale.kept
    · refine hsame heq ?_
      rintro rfl
      exact hsettled record hstale
    · have hpj : p.instanceId = j := Option.some.inj (hid.symm.trans (h.1 record' hstale'))
      have hmem := h.2.mem_indexEntries_foldl (v := ops.text j)
        (heq ▸ hpj ▸ text_mem_save) fun k hk htext => ?_
      · exact List.ne_nil_of_mem (mem_indexIds_of_text hmem)
      · have hkj : k = j := by rw [← ops.str_text k, ← htext, ops.str_text]
        exact absurd (hkj ▸ hk) hj

/-- The looks before and after one of them. -/
theorem SavesOwn.append {front back : List String} (h : SavesOwn ops clock s (front ++ back)) :
    SavesOwn ops clock s front ∧
      SavesOwn ops clock (front.foldl (reconcileOne ops clock) s) back := by
  induction front generalizing s with
  | nil => exact ⟨trivial, h⟩
  | cons i front ih =>
    obtain ⟨hfront, hback⟩ := ih h.2
    exact ⟨⟨h.1, hfront⟩, hback⟩

end Replaced

/-- If a reconciliation achieves what it is to, the records carry the ids they are stored under. -/
theorem Reconciles.storedByOwnId (h : Reconciles ops r (r.reconcile ops clock).1) :
    r.StoredByOwnId ops := by
  have hnodup : (r.listInstanceIds ops).Nodup := nodup_listInstanceIds r
  have hnil : r.index ops = none → (r.reconcile ops clock).1.indexIds ops = [] := by
    intro hnone
    refine List.eq_nil_iff_forall_not_mem.mpr fun i hi => ?_
    have hentries : r.indexIds ops = [] := by simp [indexIds, indexEntries, hnone]
    exact List.not_mem_nil (hentries ▸ ((h.index i).mp hi).1)
  have hown : SavesOwn ops clock (r, {}) (r.listInstanceIds ops) := by
    by_contra hnot
    rcases exists_isStale_of_not_savesOwn hnodup hnot with ⟨i, hi, record, hstale⟩ | ⟨hnone, hids⟩
    · exact h.settled i (Or.inl hi) record hstale
    · exact hids (hnil hnone)
  refine ⟨fun i hi record hstale => ?_, fun v hv => ?_⟩
  · have hlist : r.index ops ≠ none := fun hnone =>
      hown.indexIds_ne_nil hnodup hnone hi hstale (hnil hnone)
    have hindex : i ≠ "index" := by
      rintro rfl
      exact Option.some_ne_none record (hstale.1.symm.trans (loadRecord_index hlist))
    obtain ⟨front, back, hsplit⟩ := List.append_of_mem hi
    rw [hsplit] at hown hnodup
    obtain ⟨hfront, hback⟩ := hown.append
    have hnotFront : i ∉ front := fun hmem =>
      (List.nodup_append.mp hnodup).2.2 i hmem i List.mem_cons_self rfl
    have hnotBack : i ∉ back := (List.nodup_cons.mp (List.nodup_append.mp hnodup).2.1).1
    -- the record is as it was when it is looked at
    have hthen : (front.foldl (reconcileOne ops clock) (r, {})).1.IsStale ops i record :=
      ⟨(hfront.loadRecord_foldl hnotFront hindex).trans hstale.1, hstale.2⟩
    refine ⟨hback.1 record hthen, ?_⟩
    rcases reconcileOne_cases ops clock (front.foldl (reconcileOne ops clock) (r, {})) i with
      ⟨hnot, -⟩ | ⟨-, hsettled, -⟩ | ⟨record', p, hstale', hid, -, heq⟩
    · exact absurd hthen.kept hnot
    · exact absurd hthen (hsettled record)
    · have hpi : p.instanceId = i := Option.some.inj (hid.symm.trans (hback.1 record' hstale'))
      have hmem := hback.2.mem_indexEntries_foldl (v := ops.text i)
        (heq ▸ hpi ▸ text_mem_save) fun k hk htext => ?_
      · refine ((h.index i).mp (mem_indexIds_of_text ?_)).1
        rw [reconcile, hsplit, List.foldl_append, List.foldl_cons]
        exact hmem
      · have hki : k = i := by rw [← ops.str_text k, ← htext, ops.str_text]
        exact absurd (hki ▸ hk) hnotBack
  · by_cases htext : v = ops.text (ops.str v)
    · exact Or.inl htext
    · have hmem : v ∈ (r.reconcile ops clock).1.indexEntries ops :=
        hown.mem_indexEntries_foldl hv fun i _ hi => absurd (by rw [hi, ops.str_text]) htext
      exact Or.inr ((h.index _).mp (List.mem_map_of_mem hmem)).2

/-- A reconciliation achieves what it is to if and only if every listed running record that can be
decoded carries the id it is stored under, which the index has, and the index has only texts
otherwise than for ids that are kept. -/
theorem reconcile_reconciles_iff (ops : StoredValues K V) (clock : String → String)
    (r : InstanceRepository K V) :
    Reconciles ops r (r.reconcile ops clock).1 ↔ r.StoredByOwnId ops :=
  ⟨Reconciles.storedByOwnId, fun h => h.reconciles clock⟩

/-- A running record that is stored under another id than it carries. -/
def misplacedRecord : Dict String Context.Value :=
  Context.entriesDict [("instance_id", .str "b"), ("job_id", .str "b"), ("status", .str "RUNNING")]

/-- A repository whose index has the id that such a record is stored under. -/
def misplacedRepository : InstanceRepository String Context.Value where
  storage := Context.entriesDict [("palm:instances:index", .list [.str "a"]),
    ("palm:instances:a", .dict misplacedRecord.entries)]

/-- A running record that is stored under another id than it carries stays a running one. -/
theorem reconcile_misplaced_fails :
    ¬∀ (clock : String → String) (r : InstanceRepository String Context.Value),
      Reconciles plainStoredValues r (r.reconcile plainStoredValues clock).1 := by
  intro h
  have hown := (h (fun _ => "2026-01-01T00:00:00+00:00") misplacedRepository).storedByOwnId
  have hlisted : "a" ∈ misplacedRepository.listInstanceIds plainStoredValues :=
    mem_listInstanceIds.mpr (Or.inr List.mem_cons_self)
  have hstale : misplacedRepository.IsStale plainStoredValues "a" misplacedRecord :=
    ⟨rfl, rfl, "", _, rfl⟩
  have hid : recordId plainStoredValues misplacedRecord = some "a" := (hown.own "a" hlisted _ hstale).1
  exact absurd hid (by decide)

end PalmEngine.Persistence.Stored.InstanceRepository
