import PalmEngine.Lib.Runs
import PalmEngine.Work.Ownership

/-!
# The pending index

The index holds each id once, and only ids of entries that are still pending or claimed. The
other direction, that every such entry is in the index unless a later enqueue took its
coalesce key, fails in two ways. A re-enqueue under another key leaves the old pointer
behind, and the next enqueue with that key takes a stranger out of the index. A `fail` of an
intent that is done makes it pending again without putting it back.
-/

namespace PalmEngine.Work

open PalmEngine.Lib

variable {P : Type}

/-- A store together with the intents enqueued so far, the latest first. -/
structure Tracked (P : Type) where
  store : WorkIntentStore P := .empty
  log : List (WorkIntent P) := []

/-- The tracked store after a call. -/
def Tracked.step (t : Tracked P) (op : StoreOp P) : Option (Tracked P) :=
  (t.store.step op).map fun store =>
    ⟨store, match op with
      | .enqueue intent => intent :: t.log
      | _ => t.log⟩

/-- Since the last enqueue of the id, another intent was enqueued with the given key. -/
def Superseded (log : List (WorkIntent P)) (id : String) (k : Option String) : Prop :=
  k ≠ none ∧ ∃ later ∈ log.takeWhile (·.id ≠ id), later.truthyKey = k

/-- The index has no duplicate, every id in it has a live entry, and every live entry that was not
superseded under its current key is in it. -/
structure IndexComplete (t : Tracked P) : Prop where
  nodup : t.store.index.Nodup
  backed : ∀ id ∈ t.store.index, ∃ e, t.store.entries id = some e ∧ e.status.isLive = true
  complete : ∀ (id : String) (e : WorkIntent P), t.store.entries id = some e →
    e.status.isLive = true → ¬ Superseded t.log id e.truthyKey → id ∈ t.store.index

/-- The call drops a live intent from the index, or makes one live outside it: an enqueue whose
coalesce pointer names another intent that no longer has that key, or an early `fail` of an
intent that is over. -/
def LosesIntent (t : Tracked P) : StoreOp P → Prop
  | .enqueue intent => ∃ k id e, intent.truthyKey = some k ∧ t.store.pointed k = some id ∧
      id ≠ intent.id ∧ t.store.entries id = some e ∧ e.status.isLive = true ∧
      e.truthyKey ≠ some k ∧ ¬ Superseded t.log id e.truthyKey
  | .fail id _ _ => ∃ e, t.store.entries id = some e ∧ e.status.isLive = false ∧
      e.attempt + 1 < 5 ∧ ¬ Superseded t.log id e.truthyKey
  | _ => False

/-- A later enqueue of another id supersedes exactly the intents that share its key. -/
private theorem superseded_cons {log : List (WorkIntent P)} {intent : WorkIntent P} {id : String}
    (h : id ≠ intent.id) (k : Option String) :
    Superseded (intent :: log) id k ↔
      (k ≠ none ∧ intent.truthyKey = k) ∨ Superseded log id k := by
  unfold Superseded
  rw [List.takeWhile_cons_of_pos (by simpa using h.symm)]
  simp only [List.mem_cons, exists_eq_or_imp]
  tauto

/-- The index after an enqueue begins with the old one, less the id the coalesce key points at. -/
def droppedIndex (s : WorkIntentStore P) (intent : WorkIntent P) : List String :=
  match intent.truthyKey.bind s.pointed with
  | some existing => s.index.erase existing
  | none => s.index

/-- The index after an enqueue ends with the new id, or had it. -/
theorem enqueue_index (s : WorkIntentStore P) (intent : WorkIntent P) :
    (s.enqueue intent).index =
      if intent.id ∈ droppedIndex s intent then droppedIndex s intent
      else droppedIndex s intent ++ [intent.id] := by
  have hadd (s : WorkIntentStore P) (id : String) :
      (s.addPending id).index = if id ∈ s.index then s.index else s.index ++ [id] := by
    unfold WorkIntentStore.addPending
    split <;> rfl
  unfold WorkIntentStore.enqueue droppedIndex
  cases hkey : intent.truthyKey with
  | none => exact hadd _ _
  | some k => cases hpointed : s.pointed k <;> simp only [Option.bind_some, hpointed] <;> exact hadd _ _

/-- The ids of the index after an enqueue. -/
private theorem mem_enqueue_index {s : WorkIntentStore P} {intent : WorkIntent P} {id : String} :
    id ∈ (s.enqueue intent).index ↔ id = intent.id ∨ id ∈ droppedIndex s intent := by
  rw [enqueue_index]
  split
  · rename_i hmem
    exact ⟨.inr, fun h => h.elim (fun heq => heq ▸ hmem) fun hid => hid⟩
  · simp [or_comm]

/-- The ids of the index without the one the coalesce key points at. -/
private theorem mem_droppedIndex {s : WorkIntentStore P} {intent : WorkIntent P} {id : String}
    (h : s.index.Nodup) :
    id ∈ droppedIndex s intent ↔ id ∈ s.index ∧ intent.truthyKey.bind s.pointed ≠ some id := by
  unfold droppedIndex
  split
  · rename_i existing heq
    rw [h.mem_erase_iff, heq, and_comm]
    simp [eq_comm]
  · rename_i heq
    simp [heq]

/-- An enqueue keeps the index free of duplicates. -/
private theorem nodup_enqueue_index {s : WorkIntentStore P} {intent : WorkIntent P}
    (h : s.index.Nodup) : (s.enqueue intent).index.Nodup := by
  have hdropped : (droppedIndex s intent).Nodup := by
    unfold droppedIndex
    split
    · exact h.erase _
    · exact h
  rw [enqueue_index]
  split
  · exact hdropped
  · rename_i hnot
    rw [List.nodup_append]
    refine ⟨hdropped, List.nodup_singleton _, ?_⟩
    rintro a ha b hb rfl
    exact hnot (List.mem_singleton.mp hb ▸ ha)

/-- An enqueue keeps a complete index complete exactly when its coalesce pointer takes out no live
intent that has another key. -/
private theorem enqueue_iff {t : Tracked P} {intent : WorkIntent P} (hs : IndexComplete t) :
    IndexComplete ⟨t.store.enqueue intent, intent :: t.log⟩ ↔ ¬ LosesIntent t (.enqueue intent) := by
  have hentries := t.store.enqueue_entries intent
  constructor
  · rintro hu ⟨k, id, e, hkey, hpointed, hne, he, hlive, hother, hfree⟩
    have hmem := hu.complete id e (by rw [hentries, Function.update_of_ne hne, he]) hlive (by
      rw [superseded_cons hne, hkey]
      rintro (⟨-, heq⟩ | hsup)
      · exact hother heq.symm
      · exact hfree hsup)
    rcases mem_enqueue_index.mp hmem with heq | hmem
    · exact hne heq
    · exact ((mem_droppedIndex hs.nodup).mp hmem).2 (by simp [hkey, hpointed])
  · intro hkeeps
    refine ⟨nodup_enqueue_index hs.nodup, fun id hid => ?_, fun id e he hlive hfree => ?_⟩
    · by_cases heq : id = intent.id
      · subst heq
        exact ⟨_, by rw [hentries, Function.update_self], rfl⟩
      · rw [hentries, Function.update_of_ne heq]
        exact hs.backed id ((mem_droppedIndex hs.nodup).mp
          ((mem_enqueue_index.mp hid).resolve_left heq)).1
    · by_cases heq : id = intent.id
      · exact mem_enqueue_index.mpr (.inl heq)
      · rw [hentries, Function.update_of_ne heq] at he
        rw [superseded_cons heq, not_or] at hfree
        refine mem_enqueue_index.mpr (.inr ((mem_droppedIndex hs.nodup).mpr
          ⟨hs.complete id e he hlive hfree.2, fun hdropped => ?_⟩))
        obtain ⟨k, hkey, hpointed⟩ := Option.bind_eq_some_iff.mp hdropped
        refine hkeeps ⟨k, id, e, hkey, hpointed, heq, he, hlive, fun hsame => hfree.1 ?_, hfree.2⟩
        exact ⟨by simp [hsame], by rw [hkey, hsame]⟩

/-- Claims and reclaims move live intents to live ones and keep their ids in the index. -/
private theorem relabels_complete {t : Tracked P} {u : WorkIntentStore P} {old new : IntentStatus}
    (hs : IndexComplete t) (hold : old.isLive = true) (hnew : new.isLive = true)
    (h : WorkIntentStore.Relabels old new t.store u) : IndexComplete ⟨u, t.log⟩ := by
  have hstays (id : String) (hid : id ∈ t.store.index) : id ∈ u.index := by
    obtain ⟨e, he, -⟩ := hs.backed id hid
    exact h.stays id hid (by simp [he])
  refine ⟨hs.nodup.sublist h.index, fun id hid => ?_, fun id e he hlive hfree => ?_⟩
  · rcases h.entry id with heq | ⟨e, e', -, -, he', hstatus, -⟩
    · simpa only [heq] using hs.backed id (h.index.subset hid)
    · exact ⟨e', he', hstatus ▸ hnew⟩
  · rcases h.entry id with heq | ⟨f, f', hf, hstatus, hf', -, -, hsame⟩
    · exact hstays id (hs.complete id e (heq.symm.trans he) hlive hfree)
    · cases Option.some.inj (hf'.symm.trans he)
      refine hstays id (hs.complete id f hf (hstatus ▸ hold) ?_)
      rwa [WorkIntent.truthyKey, hsame.coalesceKey] at hfree

/-- Taking an id whose entry is over, or missing, out of the index keeps it complete. -/
private theorem removed_complete {t : Tracked P} {u : WorkIntentStore P} {id : String}
    (hs : IndexComplete t) (hindex : u.index = t.store.index.erase id)
    (hother : ∀ i, i ≠ id → u.entries i = t.store.entries i)
    (hover : ∀ e, u.entries id = some e → e.status.isLive = false) : IndexComplete ⟨u, t.log⟩ := by
  refine ⟨by rw [hindex]; exact hs.nodup.erase id, fun i hi => ?_, fun i e he hlive hfree => ?_⟩
  · rw [hindex, hs.nodup.mem_erase_iff] at hi
    rw [hother i hi.1]
    exact hs.backed i hi.2
  · have hne : i ≠ id := by
      rintro rfl
      rw [hover e he] at hlive
      cases hlive
    rw [hindex, hs.nodup.mem_erase_iff]
    exact ⟨hne, hs.complete i e ((hother i hne).symm.trans he) hlive hfree⟩

/-- A call that is refused everything keeps a complete index complete. -/
private theorem refused_complete {t : Tracked P} {u : WorkIntentStore P}
    (hs : IndexComplete t) (hindex : u.index = t.store.index)
    (hentries : ∀ i, u.entries i = t.store.entries i) : IndexComplete ⟨u, t.log⟩ := by
  refine ⟨hindex ▸ hs.nodup, fun i hi => ?_, fun i e he hlive hfree => ?_⟩
  · rw [hentries i]
    exact hs.backed i (hindex ▸ hi)
  · rw [hindex]
    exact hs.complete i e ((hentries i).symm.trans he) hlive hfree

/-- The index after an `ack`. -/
theorem ack_index (s : WorkIntentStore P) (id : String) (claimerId : Option String) :
    (s.ack id claimerId).2.index =
      if (s.entries id).any (WorkIntentStore.refuses · claimerId) then s.index
      else s.index.erase id := by
  unfold WorkIntentStore.ack
  cases s.entries id with
  | none => rfl
  | some entry =>
    simp only [Option.any_some]
    split
    · rfl
    · dsimp only [WorkIntentStore.removePending]
      split
      · split <;> rfl
      · rfl

/-- The index after a `fail`. -/
theorem fail_index (s : WorkIntentStore P) (id error : String) (claimerId : Option String) :
    (s.fail id error claimerId).2.index =
      if (s.entries id).any (fun e => WorkIntentStore.refuses e claimerId || e.attempt + 1 < 5) then
        s.index
      else s.index.erase id := by
  unfold WorkIntentStore.fail
  cases s.entries id with
  | none => rfl
  | some entry =>
    cases hrefuses : WorkIntentStore.refuses entry claimerId with
    | true => simp [hrefuses]
    | false =>
      by_cases hlast : 5 ≤ entry.attempt + 1
      · have hnot : ¬ entry.attempt + 1 < 5 := by omega
        simp [hrefuses, hlast, hnot, WorkIntentStore.removePending, WorkIntentStore.setEntry]
      · have hearly : entry.attempt + 1 < 5 := by omega
        simp [hrefuses, hlast, hearly, WorkIntentStore.setEntry]

/-- An `ack` keeps a complete index complete. -/
private theorem ack_complete {t : Tracked P} (hs : IndexComplete t) (id : String)
    (claimerId : Option String) : IndexComplete ⟨(t.store.ack id claimerId).2, t.log⟩ := by
  have hsettles := ack_settles t.store id claimerId
  have hindex := ack_index t.store id claimerId
  cases hentry : t.store.entries id with
  | none =>
    rw [hentry] at hindex
    exact removed_complete hs hindex hsettles.other (by simp [hsettles.missing hentry])
  | some entry =>
    rw [hentry, Option.any_some] at hindex
    cases hrefuses : WorkIntentStore.refuses entry claimerId with
    | true =>
      rw [hrefuses] at hindex
      refine refused_complete hs hindex fun i => ?_
      by_cases hi : i = id
      · rw [hi, hsettles.refused entry hentry hrefuses, hentry]
      · exact hsettles.other i hi
    | false =>
      rw [hrefuses] at hindex
      refine removed_complete hs hindex hsettles.other fun e he => ?_
      rw [hsettles.changed entry hentry hrefuses] at he
      cases he
      rfl

/-- An early `fail` that is not refused makes its intent pending and leaves the index, which stays
complete exactly when the intent was live, or is superseded. -/
private theorem requeue_iff {t : Tracked P} {u : WorkIntentStore P} {id : String}
    {entry entry' : WorkIntent P} (hs : IndexComplete t) (hentry : t.store.entries id = some entry)
    (hindex : u.index = t.store.index) (hother : ∀ i, i ≠ id → u.entries i = t.store.entries i)
    (hnow : u.entries id = some entry') (hpending : entry'.status = .pending)
    (hkey : entry'.truthyKey = entry.truthyKey) :
    IndexComplete ⟨u, t.log⟩ ↔
      (entry.status.isLive = false → Superseded t.log id entry.truthyKey) := by
  have hlive' : entry'.status.isLive = true := by rw [hpending]; rfl
  constructor
  · intro hu hover
    by_contra hfree
    have hmem := hu.complete id entry' hnow hlive' (by rwa [hkey])
    obtain ⟨e, he, hlive⟩ := hs.backed id (hindex ▸ hmem)
    cases Option.some.inj (hentry.symm.trans he)
    rw [hover] at hlive
    cases hlive
  · intro hkeeps
    refine ⟨hindex ▸ hs.nodup, fun i hi => ?_, fun i e he hlive hfree => ?_⟩
    · by_cases hid : i = id
      · subst hid
        exact ⟨entry', hnow, hlive'⟩
      · obtain ⟨e, he, hlive⟩ := hs.backed i (hindex ▸ hi)
        exact ⟨e, (hother i hid).trans he, hlive⟩
    · rw [hindex]
      by_cases hid : i = id
      · subst hid
        cases Option.some.inj (hnow.symm.trans he)
        rw [hkey] at hfree
        refine hs.complete i entry hentry ?_ hfree
        by_contra hover
        exact hfree (hkeeps (by simpa using hover))
      · exact hs.complete i e ((hother i hid).symm.trans he) hlive hfree

/-- A `fail` keeps a complete index complete exactly when it does not requeue an intent that is
over. -/
private theorem fail_iff {t : Tracked P} (hs : IndexComplete t) (hstamped : AllStamped t.store)
    (id error : String) (claimerId : Option String) :
    IndexComplete ⟨(t.store.fail id error claimerId).2, t.log⟩ ↔
      ¬ LosesIntent t (.fail id error claimerId) := by
  have hsettles := fail_settles t.store id error claimerId
  have hindex := fail_index t.store id error claimerId
  cases hentry : t.store.entries id with
  | none =>
    rw [hentry] at hindex
    refine iff_of_true (removed_complete hs hindex hsettles.other ?_) (by simp [LosesIntent, hentry])
    simp [hsettles.missing hentry]
  | some entry =>
    have hloses : LosesIntent t (.fail id error claimerId) ↔ entry.status.isLive = false ∧
        entry.attempt + 1 < 5 ∧ ¬ Superseded t.log id entry.truthyKey := by
      simp [LosesIntent, hentry]
    rw [hentry, Option.any_some] at hindex
    cases hrefuses : WorkIntentStore.refuses entry claimerId with
    | true =>
      rw [hrefuses, Bool.true_or] at hindex
      refine iff_of_true (refused_complete hs hindex fun i => ?_) ?_
      · by_cases hi : i = id
        · rw [hi, hsettles.refused entry hentry hrefuses, hentry]
        · exact hsettles.other i hi
      · intro hlost
        have hover := (hloses.mp hlost).1
        have hunclaimed : entry.status ≠ .claimed := by rintro heq; rw [heq] at hover; cases hover
        rw [refuses_of_unclaimed ((hstamped id entry hentry).unclaimed hunclaimed).1] at hrefuses
        cases hrefuses
    | false =>
      have hnow := hsettles.changed entry hentry hrefuses
      rw [hrefuses, Bool.false_or] at hindex
      by_cases hlast : 5 ≤ entry.attempt + 1
      · rw [decide_eq_false (by omega)] at hindex
        refine iff_of_true (removed_complete hs hindex hsettles.other fun e he => ?_) ?_
        · rw [hnow] at he
          cases he
          simp [failed, WorkIntentStore.failedOnce, hlast, IntentStatus.isLive]
        · intro hlost
          have := (hloses.mp hlost).2.1
          omega
      · rw [decide_eq_true (by omega)] at hindex
        have hpending : (failed error entry).status = .pending := by
          simp [failed, WorkIntentStore.failedOnce, hlast]
        rw [requeue_iff hs hentry hindex hsettles.other hnow hpending rfl, hloses]
        have hearly : entry.attempt + 1 < 5 := by omega
        simp only [hearly, true_and, not_and, not_not]

/-- From a complete index over stamped entries, a call keeps it complete exactly when it loses no
intent. -/
theorem indexComplete_step_iff {t u : Tracked P} {op : StoreOp P} (hs : IndexComplete t)
    (hstamped : AllStamped t.store) (h : t.step op = some u) :
    IndexComplete u ↔ ¬ LosesIntent t op := by
  obtain ⟨store, hstore, rfl⟩ := Option.map_eq_some_iff.mp h
  cases op with
  | enqueue intent =>
    cases hstore
    exact enqueue_iff hs
  | claimDue c =>
    cases hstore
    exact iff_of_true
      (relabels_complete hs rfl rfl (WorkIntentStore.claimLoop_relabels _ _ _ _)) not_false
  | reclaimExpired now defaults =>
    cases hstore
    exact iff_of_true
      (relabels_complete hs rfl rfl (WorkIntentStore.reclaimLoop_relabels _ _ _ _ _)) not_false
  | ack id claimerId =>
    cases hstore
    exact iff_of_true (ack_complete hs id claimerId) not_false
  | fail id error claimerId =>
    cases hstore
    exact fail_iff hs hstamped id error claimerId

/-- In every run of the store the index stays complete exactly when no enqueue follows a pointer to
an intent that has another key by now, and no early `fail` hits an intent that is over. -/
theorem indexComplete_run_iff (ops : List (StoreOp P)) :
    AllSteps Tracked.step (fun _ _ u => IndexComplete u) ({} : Tracked P) ops ↔
      AllSteps Tracked.step (fun t op _ => ¬ LosesIntent t op) {} ops := by
  refine allSteps_congr (fun t => AllStamped t.store ∧ IndexComplete t) ?_ ?_
    ⟨fun _ _ he => (nomatch he), List.nodup_nil, fun _ hid => (nomatch hid), fun _ _ he => nomatch he⟩
  · intro t op u ⟨hstamped, _⟩ h hu
    obtain ⟨store, hstore, rfl⟩ := Option.map_eq_some_iff.mp h
    exact ⟨hstamped.step hstore, hu⟩
  · exact fun t op u ⟨hstamped, hs⟩ h => indexComplete_step_iff hs hstamped h

/-- An intent of the default kind with an id and a coalesce key. -/
def plainIntent (id : String) (coalesceKey : Option String) : WorkIntent Unit :=
  { kind := "run_flow", target := "flow", id := id, payload := (), coalesceKey := coalesceKey }

/-- An intent is enqueued under a key and again without one; the next enqueue with that key takes
it out of the index. -/
def stalePointerTrace : List (StoreOp Unit) :=
  [.enqueue (plainIntent "a" (some "k")), .enqueue (plainIntent "a" none),
    .enqueue (plainIntent "b" (some "k"))]

/-- A pending intent that nobody superseded is not in the index. -/
theorem indexComplete_run_fails :
    ¬ ∀ ops : List (StoreOp Unit),
      AllSteps Tracked.step (fun _ _ u => IndexComplete u) ({} : Tracked Unit) ops := by
  intro h
  obtain ⟨-, h⟩ := h stalePointerTrace _ rfl
  obtain ⟨-, h⟩ := h _ rfl
  obtain ⟨hlast, -⟩ := h _ rfl
  have hmem := hlast.complete "a" (plainIntent "a" none) rfl rfl (fun hsup => hsup.1 rfl)
  revert hmem
  decide

end PalmEngine.Work
