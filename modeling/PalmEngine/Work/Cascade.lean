import PalmEngine.Work.Ownership
import PalmEngine.Work.Plane

/-!
# Bounded trigger cascades

An intent is one deeper than its event tells, and an intent that is too deep is dropped. What
an event tells does not come from the intent that started its job: neither the payloads nor
the correlation context that the engines publish carry a depth. Chains are bounded in the
runs in which every event that fires a trigger tells the depth of the intent behind it.
-/

namespace PalmEngine.Work

open PalmEngine.Events PalmEngine.Lib

/-- The plane holds the intent: stored, claimed by a thread, or as the start of a job. -/
inductive Plane.Knows (s : Plane) (intent : WorkIntent Traced) : Prop where
  | stored (id : String) (h : s.store.entries id = some intent)
  | held (hand : InHand) (h : hand ∈ s.inHand) (heq : hand.intent = intent)
  | started (id : String) (job : PlaneJob) (h : s.jobs id = some job)
      (heq : job.startedBy = some intent)

/-- Every causal chain has at most as many intents as the maximal depth. -/
def ChainsBounded (s : Plane) : Prop :=
  ∀ intent, s.Knows intent → (intent.payload.chain : ℤ) ≤ s.maxDepth

/-- The publication a label makes. -/
def Plane.publication (s : Plane) : PlaneLabel → Option Publication
  | .publish p => some p
  | .flowSession job succeeded now draw =>
    (s.jobs job).map fun j => flowSessionPublication job j.metadata succeeded now draw
  | _ => none

/-- The intent that started the job behind a publication. -/
def Plane.starter (s : Plane) (p : Publication) : Option (WorkIntent Traced) :=
  (p.job.bind s.jobs).bind PlaneJob.startedBy

/-- The publication reaches a registered trigger that matches it and is not waiting for its debounce
time. -/
def Plane.Fires (s : Plane) (p : Publication) : Prop :=
  p.eventType ∈ startPathEvents ∧ s.triggers.Fires p.eventType (s.seenPayload p) p.now

/-- An intent raised by an event of a job that an intent of depth `d` started has depth `d + 1`, and
does not reach the store when that is too deep. -/
def DepthLaw (s : Plane) (l : PlaneLabel) (t : Plane) : Prop :=
  ∀ p intent, s.publication l = some p → s.starter p = some intent →
    (∀ raised ∈ (s.raised p).1, raised.depth = intent.depth + 1) ∧
      (s.maxDepth < intent.depth + 1 → t.store = s.store)

/-- The event tells the depth of the intent that started its job; when no intent did, the depth it
tells is not negative. -/
def TellsDepth (s : Plane) (p : Publication) : Prop :=
  s.Fires p → ∀ d, parentDepth (s.seenPayload p) = some d →
    match s.starter p with
    | some intent => d = intent.depth
    | none => 0 ≤ d

/-- The step carries the depth: an event that fires a trigger tells it, and a caller enqueues no
negative one. -/
def CarriesDepth (s : Plane) (l : PlaneLabel) : Prop :=
  (∀ p, s.publication l = some p → TellsDepth s p) ∧
    ∀ intent, l = .enqueue intent → 0 ≤ intent.depth

/-- The intents a step offers to the store. -/
def Plane.offered (s : Plane) : PlaneLabel → List (WorkIntent Traced)
  | .enqueue intent => [intent.traced 0]
  | .schedule target id payload key => [scheduleIntent target id payload key]
  | l => ((s.publication l).map fun p =>
      (s.raised p).1.map (·.traced (s.chainBehind p + 1))).getD []

/-- A publication makes its event pass the registry and enqueues what it raises. -/
theorem publish_eq (s : Plane) (p : Publication) :
    s.publish p = ((s.raised p).1.map (·.traced (s.chainBehind p + 1))).foldl Plane.enqueue
      { s with triggers := (s.raised p).2 } := rfl

/-- Enqueuing intents changes the store and the count of drops only. -/
private theorem foldl_enqueue_frame (s : Plane) (intents : List (WorkIntent Traced)) :
    (intents.foldl Plane.enqueue s).maxDepth = s.maxDepth ∧
      (intents.foldl Plane.enqueue s).inHand = s.inHand ∧
      (intents.foldl Plane.enqueue s).jobs = s.jobs := by
  induction intents generalizing s with
  | nil => exact ⟨rfl, rfl, rfl⟩
  | cons intent rest ih =>
    have hone : (s.enqueue intent).maxDepth = s.maxDepth ∧ (s.enqueue intent).inHand = s.inHand ∧
        (s.enqueue intent).jobs = s.jobs := by
      unfold Plane.enqueue
      split <;> exact ⟨rfl, rfl, rfl⟩
    obtain ⟨hdepth, hhand, hjobs⟩ := ih (s.enqueue intent)
    exact ⟨hdepth.trans hone.1, hhand.trans hone.2.1, hjobs.trans hone.2.2⟩

/-- An entry after enqueuing intents was there before, or is one of them that is not too deep. -/
private theorem foldl_enqueue_entries (s : Plane) (intents : List (WorkIntent Traced)) (id : String)
    (e : WorkIntent Traced) (he : (intents.foldl Plane.enqueue s).store.entries id = some e) :
    s.store.entries id = some e ∨
      ∃ intent ∈ intents, intent.depth ≤ s.maxDepth ∧ intent.SameRequest e := by
  induction intents generalizing s with
  | nil => exact .inl he
  | cons intent rest ih =>
    have hmax := (foldl_enqueue_frame s [intent]).1
    rcases ih (s.enqueue intent) he with hold | ⟨j, hj, hdepth, hsame⟩
    · unfold Plane.enqueue at hold
      split at hold
      · exact .inl hold
      · rename_i hdeep
        rw [WorkIntentStore.enqueue_entries] at hold
        by_cases hid : id = intent.id
        · subst hid
          rw [Function.update_self] at hold
          cases hold
          exact .inr ⟨intent, List.mem_cons_self, not_lt.mp hdeep, rfl, rfl, rfl⟩
        · exact .inl ((Function.update_of_ne hid _ _).symm.trans hold)
    · exact .inr ⟨j, List.mem_cons_of_mem _ hj, hmax ▸ hdepth, hsame⟩

/-- Intents that are all too deep leave the store. -/
private theorem foldl_enqueue_deep (s : Plane) (intents : List (WorkIntent Traced))
    (h : ∀ intent ∈ intents, s.maxDepth < intent.depth) :
    (intents.foldl Plane.enqueue s).store = s.store := by
  induction intents generalizing s with
  | nil => rfl
  | cons intent rest ih =>
    have hdrop : s.enqueue intent = { s with droppedDepth := s.droppedDepth + 1 } :=
      if_pos (h intent List.mem_cons_self)
    rw [List.foldl_cons, hdrop]
    exact ih _ fun j hj => h j (List.mem_cons_of_mem _ hj)

/-- Claims and reclaims leave what the entries ask for. -/
private theorem relabels_asks {old new : IntentStatus} {s u : WorkIntentStore Traced}
    (h : WorkIntentStore.Relabels old new s u) {id : String} {e : WorkIntent Traced}
    (he : u.entries id = some e) : ∃ j, s.entries id = some j ∧ j.SameRequest e := by
  rcases h.entry id with heq | ⟨j, e', hj, -, he', -, -, hsame⟩
  · exact ⟨e, heq ▸ he, .refl e⟩
  · cases Option.some.inj (he.symm.trans he')
    exact ⟨j, hj, hsame⟩

/-- An `ack` or a `fail` leaves what the entries ask for. -/
private theorem settles_asks {s u : WorkIntentStore Traced} {id : String} {claimerId : Option String}
    {change : WorkIntent Traced → WorkIntent Traced} (h : Settles s id claimerId change u)
    (hchange : ∀ e : WorkIntent Traced, e.SameRequest (change e)) {i : String} {e : WorkIntent Traced}
    (he : u.entries i = some e) : ∃ j, s.entries i = some j ∧ j.SameRequest e := by
  by_cases hi : i = id
  · subst hi
    cases hj : s.entries i with
    | none => exact (Option.some_ne_none e (he.symm.trans (h.missing hj))).elim
    | some j =>
      cases hrefuses : WorkIntentStore.refuses j claimerId with
      | true =>
        cases Option.some.inj (he.symm.trans (h.refused j hj hrefuses))
        exact ⟨e, rfl, .refl e⟩
      | false =>
        cases Option.some.inj (he.symm.trans (h.changed j hj hrefuses))
        exact ⟨j, rfl, hchange j⟩
  · exact ⟨e, (h.other i hi).symm.trans he, .refl e⟩

/-- A step that makes a publication delivers it. -/
theorem step_publication {s t : Plane} {l : PlaneLabel} {p : Publication}
    (hp : s.publication l = some p) (h : s.step l = some t) : t = s.publish p := by
  cases l with
  | publish q =>
    cases hp
    simp only [Plane.step] at h
    split at h
    · cases h
    · exact (Option.some.inj h).symm
  | flowSession job succeeded now draw =>
    obtain ⟨j, hj, rfl⟩ := Option.map_eq_some_iff.mp hp
    rw [Plane.step, hj] at h
    exact (Option.some.inj h).symm
  | _ => cases hp

/-- An intent held after enqueuing some was held before, or is one of them that is not too deep. -/
private theorem knows_foldl_enqueue {s : Plane} {intents : List (WorkIntent Traced)}
    {intent : WorkIntent Traced} (h : (intents.foldl Plane.enqueue s).Knows intent) :
    s.Knows intent ∨ ∃ j ∈ intents, j.depth ≤ s.maxDepth ∧ j.SameRequest intent := by
  obtain ⟨-, hhand, hjobs⟩ := foldl_enqueue_frame s intents
  cases h with
  | stored id he => exact (foldl_enqueue_entries s intents id intent he).imp_left (.stored id)
  | held hand hmem heq => exact .inl (.held hand (hhand ▸ hmem) heq)
  | started id job hjob heq => exact .inl (.started id job (hjobs ▸ hjob) heq)

/-- Forgetting the triggers leaves what the plane holds. -/
private theorem knows_of_triggers {s : Plane} {triggers : TriggerRegistry}
    {intent : WorkIntent Traced} (h : Plane.Knows { s with triggers := triggers } intent) :
    s.Knows intent := by
  cases h with
  | stored id he => exact .stored id he
  | held hand hmem heq => exact .held hand hmem heq
  | started id job hjob heq => exact .started id job hjob heq

/-- A step after which each part of the plane asks for known work only adds no other. -/
private theorem knows_of_parts {s t : Plane} {intent : WorkIntent Traced} (hi : t.Knows intent)
    (hstore : ∀ (id : String) (e : WorkIntent Traced), t.store.entries id = some e →
      ∃ j, s.store.entries id = some j ∧ j.SameRequest e)
    (hhand : ∀ hand ∈ t.inHand, ∃ j, s.Knows j ∧ j.SameRequest hand.intent)
    (hjobs : ∀ (id : String) (job : PlaneJob), t.jobs id = some job →
      s.jobs id = some job ∨ ∀ intent, job.startedBy = some intent → s.Knows intent) :
    ∃ j, s.Knows j ∧ j.SameRequest intent := by
  cases hi with
  | stored id he =>
    obtain ⟨j, hj, hsame⟩ := hstore id intent he
    exact ⟨j, .stored id hj, hsame⟩
  | held hand hmem heq => exact heq ▸ hhand hand hmem
  | started id job hjob heq =>
    rcases hjobs id job hjob with hold | hnew
    · exact ⟨intent, .started id job hold heq, .refl intent⟩
    · exact ⟨intent, hnew intent heq, .refl intent⟩

/-- A registered job is one that was registered before, or the new one. -/
private theorem addJob_jobs {s : Plane} {id i : String} {job new : PlaneJob}
    (h : (s.addJob id new).jobs i = some job) : s.jobs i = some job ∨ job = new := by
  by_cases hi : i = id
  · subst hi
    exact .inr (Option.some.inj ((Function.update_self i _ s.jobs).symm.trans h)).symm
  · exact .inl ((Function.update_of_ne hi _ s.jobs).symm.trans h)

/-- The claimed intents after one of them was replaced by the same intent in a later phase. -/
private theorem set_hand {s : Plane} {k : ℕ} {hand new : InHand} (hk : s.inHand[k]? = some hand)
    (heq : new.intent = hand.intent) :
    ∀ h ∈ s.inHand.set k new, ∃ j, s.Knows j ∧ j.SameRequest h.intent := by
  intro h hmem
  rcases List.mem_or_eq_of_mem_set hmem with hold | rfl
  · exact ⟨h.intent, .held h hold rfl, .refl _⟩
  · exact ⟨hand.intent, .held hand (List.mem_of_getElem? hk) rfl, heq ▸ .refl _⟩

/-- Steps that offer no intent hold no new one. -/
private theorem knows_quiet {s t : Plane} {l : PlaneLabel} (h : s.step l = some t)
    (hquiet : ∀ p, s.publication l ≠ some p) (hnone : s.offered l = [])
    {intent : WorkIntent Traced} (hi : t.Knows intent) : ∃ j, s.Knows j ∧ j.SameRequest intent := by
  have hstay (id : String) (e : WorkIntent Traced) (he : s.store.entries id = some e) :
      ∃ j, s.store.entries id = some j ∧ j.SameRequest e := ⟨e, he, .refl e⟩
  have hhands : ∀ hand ∈ s.inHand, ∃ j, s.Knows j ∧ j.SameRequest hand.intent :=
    fun hand hmem => ⟨hand.intent, .held hand hmem rfl, .refl _⟩
  have herased (k : ℕ) : ∀ hand ∈ s.inHand.eraseIdx k, ∃ j, s.Knows j ∧ j.SameRequest hand.intent :=
    fun hand hmem => hhands hand (List.mem_of_mem_eraseIdx hmem)
  cases l with
  | reload specs =>
    cases h
    exact knows_of_parts hi hstay hhands fun _ _ hjob => .inl hjob
  | enqueue intent => cases hnone
  | schedule target id payload key => cases hnone
  | publish p => exact (hquiet p rfl).elim
  | flowSession job succeeded now draw =>
    cases hj : s.jobs job with
    | none =>
      rw [Plane.step, hj] at h
      cases h
    | some j => exact (hquiet _ (by rw [Plane.publication, hj]; rfl)).elim
  | submitFlow metadata sub =>
    simp only [Plane.step] at h
    split at h
    · cases h
    · cases h
      refine knows_of_parts hi hstay hhands fun id job hjob => (addJob_jobs hjob).imp_right ?_
      rintro rfl intent hstart
      cases hstart
  | reclaim now defaults =>
    cases h
    exact knows_of_parts hi (fun _ _ => relabels_asks (WorkIntentStore.reclaimLoop_relabels _ _ _ _ _))
      hhands fun _ _ hjob => .inl hjob
  | claim c =>
    cases h
    refine knows_of_parts hi (fun _ _ => relabels_asks (WorkIntentStore.claimLoop_relabels _ _ _ _))
      (fun hand hmem => ?_) fun _ _ hjob => .inl hjob
    rcases List.mem_append.mp hmem with hold | hnew
    · exact hhands hand hold
    · obtain ⟨claimed, hclaimed, rfl⟩ := List.mem_map.mp hnew
      rcases WorkIntentStore.claimLoop_claimed c s.store _ [] claimed hclaimed with
        hnil | ⟨id, e, he, hsame⟩
      · cases hnil
      · exact ⟨e, .stored id he, hsame⟩
  | submit k sub error =>
    simp only [Plane.step] at h
    split at h
    · rename_i held claimer hk
      split at h
      · cases h
        exact knows_of_parts hi hstay (set_hand hk rfl) fun _ _ hjob => .inl hjob
      · cases sub with
        | none =>
          obtain ⟨e, -, rfl⟩ := Option.map_eq_some_iff.mp h
          exact knows_of_parts hi hstay (set_hand hk rfl) fun _ _ hjob => .inl hjob
        | some sub =>
          simp only at h
          split at h
          · cases h
          · cases h
            refine knows_of_parts hi hstay (set_hand hk rfl)
              fun id job hjob => (addJob_jobs hjob).imp_right ?_
            rintro rfl intent hstart
            cases hstart
            exact .held _ (List.mem_of_getElem? hk) rfl
    · cases h
  | settle k =>
    simp only [Plane.step] at h
    split at h
    · cases h
      exact knows_of_parts hi (fun _ _ => settles_asks (ack_settles _ _ _) fun _ => ⟨rfl, rfl, rfl⟩)
        (herased k) fun _ _ hjob => .inl hjob
    · cases h
      exact knows_of_parts hi (fun _ _ => settles_asks (fail_settles _ _ _ _) fun _ => ⟨rfl, rfl, rfl⟩)
        (herased k) fun _ _ hjob => .inl hjob
    · cases h

/-- Every intent held after a step asks for the work of one held before, or of one that the step
offered and that is not too deep. -/
theorem knows_step {s t : Plane} {l : PlaneLabel} (hmax : 1 ≤ s.maxDepth) (h : s.step l = some t)
    {intent : WorkIntent Traced} (hi : t.Knows intent) :
    (∃ j, s.Knows j ∧ j.SameRequest intent) ∨
      ∃ j ∈ s.offered l, j.depth ≤ s.maxDepth ∧ j.SameRequest intent := by
  have hsame (hs : s.Knows intent) : ∃ j, s.Knows j ∧ j.SameRequest intent :=
    ⟨intent, hs, .refl intent⟩
  cases hp : s.publication l with
  | some p =>
    have hoffered : s.offered l = (s.raised p).1.map (·.traced (s.chainBehind p + 1)) := by
      cases l with
      | publish q => cases hp; rfl
      | flowSession job succeeded now draw => simp [Plane.offered, hp]
      | _ => cases hp
    rw [step_publication hp h, publish_eq] at hi
    rw [hoffered]
    exact (knows_foldl_enqueue hi).imp_left fun hold => hsame (knows_of_triggers hold)
  | none =>
    cases l with
    | publish p => cases hp
    | enqueue new =>
      cases h
      have hi : ([new.traced 0].foldl Plane.enqueue s).Knows intent := hi
      exact (knows_foldl_enqueue hi).imp_left hsame
    | schedule target id payload key =>
      cases h
      cases hi with
      | stored i he =>
        rw [WorkIntentStore.enqueue_entries] at he
        by_cases hid : i = id
        · subst hid
          cases (Function.update_self i _ _).symm.trans he
          exact .inr ⟨_, List.mem_singleton_self _, zero_le_one.trans hmax, rfl, rfl, rfl⟩
        · exact .inl (hsame (.stored i ((Function.update_of_ne hid _ _).symm.trans he)))
      | held hand hmem heq => exact .inl (hsame (.held hand hmem heq))
      | started i job hjob heq => exact .inl (hsame (.started i job hjob heq))
    | _ => exact .inl (knows_quiet h (by simp [hp]) (by simp [Plane.offered, hp]) hi)

/-- The maximal depth never changes. -/
theorem step_maxDepth {s t : Plane} {l : PlaneLabel} (h : s.step l = some t) :
    t.maxDepth = s.maxDepth := by
  cases hp : s.publication l with
  | some p =>
    rw [step_publication hp h, publish_eq]
    exact (foldl_enqueue_frame _ _).1
  | none =>
    cases l with
    | enqueue intent =>
      cases h
      exact (foldl_enqueue_frame s [intent.traced 0]).1
    | submit k sub error =>
      simp only [Plane.step] at h
      split at h
      · split at h
        · cases h; rfl
        · cases sub with
          | none => obtain ⟨e, -, rfl⟩ := Option.map_eq_some_iff.mp h; rfl
          | some sub =>
            simp only at h
            split at h
            · cases h
            · cases h; rfl
      · cases h
    | settle k =>
      simp only [Plane.step] at h
      split at h <;> cases h <;> rfl
    | flowSession job succeeded now draw =>
      rw [Plane.step, Option.map_eq_none_iff.mp hp] at h
      cases h
    | submitFlow metadata sub =>
      simp only [Plane.step] at h
      split at h <;> cases h
      rfl
    | publish p => cases hp
    | _ => cases h; rfl

/-- What a publication raises: it fires a trigger, its depth reads, and each intent is one deeper. -/
theorem raised_spec {s : Plane} {p : Publication} {intent : WorkIntent Payload}
    (h : intent ∈ (s.raised p).1) :
    s.Fires p ∧ ∃ d, parentDepth (s.seenPayload p) = some d ∧ intent.depth = d + 1 := by
  unfold Plane.raised at h
  split at h
  · rename_i htype
    cases hdepth : parentDepth (s.seenPayload p) with
    | none => simp [TriggerRegistry.onEvent, hdepth] at h
    | some d =>
      refine ⟨⟨htype, (s.triggers.onEvent_ne_nil_iff hdepth).mp (List.ne_nil_of_mem h)⟩, d, rfl, ?_⟩
      simp only [TriggerRegistry.onEvent, hdepth, Option.map_some, Option.getD_some] at h
      exact onEventLoop_depth _ _ intent h
  · cases h

/-- A publication that fires a trigger and whose depth reads raises an intent. -/
theorem exists_raised {s : Plane} {p : Publication} {d : ℤ} (hfires : s.Fires p)
    (hdepth : parentDepth (s.seenPayload p) = some d) :
    ∃ intent ∈ (s.raised p).1, intent.depth = d + 1 := by
  have hne : (s.raised p).1 ≠ [] := by
    rw [Plane.raised, if_pos hfires.1]
    exact (s.triggers.onEvent_ne_nil_iff hdepth).mpr hfires.2
  obtain ⟨intent, hmem⟩ := List.exists_mem_of_ne_nil _ hne
  obtain ⟨-, d', hdepth', heq⟩ := raised_spec hmem
  cases Option.some.inj (hdepth.symm.trans hdepth')
  exact ⟨intent, hmem, heq⟩

/-- A publication obeys the depth law exactly when it tells the depth of the intent behind it. -/
theorem depthLaw_step_iff {s t : Plane} {l : PlaneLabel} (h : s.step l = some t) :
    DepthLaw s l t ↔ ∀ p intent, s.publication l = some p → s.starter p = some intent →
      s.Fires p → ∀ d, parentDepth (s.seenPayload p) = some d → d = intent.depth := by
  constructor
  · intro hlaw p intent hp hstart hfires d hdepth
    obtain ⟨raised, hmem, heq⟩ := exists_raised hfires hdepth
    have := (hlaw p intent hp hstart).1 raised hmem
    omega
  · intro htells p intent hp hstart
    have hraised : ∀ raised ∈ (s.raised p).1, raised.depth = intent.depth + 1 := by
      intro raised hmem
      obtain ⟨hfires, d, hdepth, heq⟩ := raised_spec hmem
      rw [heq, htells p intent hp hstart hfires d hdepth]
    refine ⟨hraised, fun hdeep => ?_⟩
    rw [step_publication hp h, publish_eq]
    refine foldl_enqueue_deep _ _ fun new hnew => ?_
    obtain ⟨raised, hmem, rfl⟩ := List.mem_map.mp hnew
    exact hdeep.trans_eq (hraised raised hmem).symm

/-- The invariant: no chain is longer than the depth of its last intent, and no intent is too
deep. -/
structure DepthBounds (s : Plane) : Prop where
  positive : 1 ≤ s.maxDepth
  bounded : ∀ intent, s.Knows intent →
    (intent.payload.chain : ℤ) ≤ intent.depth ∧ intent.depth ≤ s.maxDepth

/-- An offered intent of a step that carries the depth is at least as deep as its chain is long. -/
private theorem chain_le_depth {s : Plane} {l : PlaneLabel} (hs : DepthBounds s)
    (hcarries : CarriesDepth s l) {intent : WorkIntent Traced} (h : intent ∈ s.offered l) :
    (intent.payload.chain : ℤ) ≤ intent.depth := by
  have hpublication {p : Publication} (hp : s.publication l = some p)
      (hmem : intent ∈ (s.raised p).1.map (·.traced (s.chainBehind p + 1))) :
      (intent.payload.chain : ℤ) ≤ intent.depth := by
    obtain ⟨raised, hraised, rfl⟩ := List.mem_map.mp hmem
    obtain ⟨hfires, d, hdepth, heq⟩ := raised_spec hraised
    have htells := hcarries.1 p hp hfires d hdepth
    suffices hchain : (s.chainBehind p : ℤ) ≤ d by
      simp only [WorkIntent.traced, Nat.cast_add, Nat.cast_one, heq]
      omega
    cases hjob : p.job.bind s.jobs with
    | none =>
      simp only [Plane.starter, hjob, Option.bind_none] at htells
      simpa [Plane.chainBehind, hjob] using htells
    | some job =>
      cases hstart : job.startedBy with
      | none =>
        simp only [Plane.starter, hjob, Option.bind_some, hstart] at htells
        simpa [Plane.chainBehind, hjob, PlaneJob.chain, hstart] using htells
      | some starter =>
        simp only [Plane.starter, hjob, Option.bind_some, hstart] at htells
        obtain ⟨id, -, hid⟩ := Option.bind_eq_some_iff.mp hjob
        have := (hs.bounded starter (.started id job hid hstart)).1
        simpa [Plane.chainBehind, hjob, PlaneJob.chain, hstart, htells] using this
  cases l with
  | enqueue new =>
    cases List.mem_singleton.mp h
    simpa [WorkIntent.traced] using hcarries.2 new rfl
  | schedule target id payload key =>
    cases List.mem_singleton.mp h
    rfl
  | publish p => exact hpublication rfl h
  | flowSession job succeeded now draw =>
    cases hp : s.publication (.flowSession job succeeded now draw) with
    | none => simp [Plane.offered, hp] at h
    | some p => exact hpublication hp (by simpa [Plane.offered, hp] using h)
  | _ => simp [Plane.offered, Plane.publication] at h

/-- A step that carries the depth keeps the invariant. -/
theorem DepthBounds.step {s t : Plane} {l : PlaneLabel} (hs : DepthBounds s)
    (hcarries : CarriesDepth s l) (h : s.step l = some t) : DepthBounds t := by
  have hmax := step_maxDepth h
  refine ⟨hmax ▸ hs.positive, fun intent hi => ?_⟩
  rw [hmax]
  rcases knows_step hs.positive h hi with ⟨j, hj, hsame⟩ | ⟨j, hj, hdepth, hsame⟩
  · rw [hsame.payload, hsame.depth]
    exact hs.bounded j hj
  · rw [hsame.payload, hsame.depth]
    exact ⟨chain_le_depth hs hcarries hj, hdepth⟩

/-- What subscribers see of a payload without a depth has none either. -/
theorem seenPayload_depthless (s : Plane) {p : Publication} (h : Depthless p.payload) :
    Depthless (s.seenPayload p) := by
  unfold Plane.seenPayload
  cases hcontext : p.job.bind fun id => (s.jobs id).map fun j => eventContextFromJob id j.metadata with
  | none => exact h
  | some context =>
    obtain ⟨id, -, hid⟩ := Option.bind_eq_some_iff.mp hcontext
    obtain ⟨j, -, rfl⟩ := Option.map_eq_some_iff.mp hid
    exact h.enriched (eventContext_depthless id j.metadata)

/-- A payload without a depth tells depth zero. -/
theorem parentDepth_of_depthless {payload : Payload} (h : Depthless payload) :
    parentDepth payload = some 0 := by
  simp [parentDepth, Payload.either, Payload.field, h.1, h.2, Value.truthy]

/-- What the engines publish has no depth: such an event tells the depth behind it exactly when it
fires no trigger, or no intent of another depth than zero is behind it. -/
theorem tellsDepth_iff_of_depthless {s : Plane} {p : Publication} (h : Depthless p.payload) :
    TellsDepth s p ↔ (s.Fires p → ∀ intent, s.starter p = some intent → intent.depth = 0) := by
  simp only [TellsDepth, parentDepth_of_depthless (seenPayload_depthless s h), Option.some.injEq,
    forall_eq']
  cases s.starter p <;> simp [eq_comm]

/-- An attached plane holds no intent. -/
private theorem not_knows_attach (maxDepth : ℤ) (intent : WorkIntent Traced) :
    ¬ (Plane.attach maxDepth).Knows intent := by
  intro h
  cases h with
  | stored id he => cases he
  | held hand hmem => cases hmem
  | started id job hjob => cases hjob

/-- In every run whose steps carry the depth, every intent raised by an event of a started job is
one deeper than the intent behind it or dropped, and no chain is longer than the maximal depth. -/
theorem cascadesBounded_run (maxDepth : ℤ) (labels : List PlaneLabel)
    (hcarries : AllSteps Plane.step (fun s l _ => CarriesDepth s l) (.attach maxDepth) labels) :
    AllSteps Plane.step (fun s l t => DepthLaw s l t ∧ ChainsBounded t) (.attach maxDepth)
      labels := by
  refine hcarries.imp DepthBounds (fun s l t hs h hok => ?_) 
    ⟨le_max_left _ _, fun intent hi => (not_knows_attach _ _ hi).elim⟩
  have ht := hs.step hok h
  refine ⟨⟨(depthLaw_step_iff h).mpr fun p intent hp hstart hfires d hdepth => ?_, ?_⟩, ht⟩
  · have htells := hok.1 p hp hfires d hdepth
    simpa only [hstart] using htells
  · exact fun intent hi => (ht.bounded intent hi).1.trans (ht.bounded intent hi).2

/-- A trigger that runs a flow after every success of the same flow. -/
def selfTrigger : TriggerSpec :=
  { kind := .onFlow, workFlowId := "loop", sourceFlow := some "loop",
    coalesceKey := some "on_flow:loop:loop" }

/-- A submission of the flow under a given job id. -/
def loopSubmission (jobId : String) : Submission where
  flow := { name := "loop", definitionId := .text "def-loop", pattern := "pipeline" }
  serviceSession := fun _ => none
  instanceId := none
  jobId := jobId

/-- Ids drawn for the intents of one event. -/
def drawId (id : String) : ℕ → Defaults := fun _ => ⟨id, "now"⟩

/-- The flow triggers itself: its job succeeds, the intent raised starts the flow again, and the
second job succeeds. -/
def selfTriggerTrace : List PlaneLabel :=
  [.reload [("loop", selfTrigger)], .submitFlow Dict.empty (loopSubmission "job-0"),
    .flowSession "job-0" true 0 (drawId "work-0"), .claim (claimOne "work-plane" 0),
    .submit 0 (some (loopSubmission "job-1")) none, .settle 0,
    .flowSession "job-1" true 0 (drawId "work-1")]

/-- Registering triggers and submitting a flow carry the depth: they publish nothing and enqueue
nothing. -/
private theorem carriesDepth_quiet (s : Plane) :
    (∀ specs, CarriesDepth s (.reload specs)) ∧
      ∀ metadata sub, CarriesDepth s (.submitFlow metadata sub) :=
  ⟨fun _ => ⟨fun _ h => (nomatch h), fun _ h => nomatch h⟩,
    fun _ _ => ⟨fun _ h => (nomatch h), fun _ h => nomatch h⟩⟩

/-- A job that a caller started carries the depth in its terminal event. -/
private theorem carriesDepth_root {s : Plane} {job : String} {j : PlaneJob} {succeeded : Bool}
    {now : Instant} {draw : ℕ → Defaults} (hj : s.jobs job = some j) (hroot : j.startedBy = none) :
    CarriesDepth s (.flowSession job succeeded now draw) := by
  refine ⟨fun p hp => ?_, fun _ h => nomatch h⟩
  rw [Plane.publication, hj] at hp
  cases hp
  refine (tellsDepth_iff_of_depthless (flowSessionPayload_depthless _ _ _)).mpr ?_
  intro _ intent hstart
  simp [Plane.starter, flowSessionPublication, hj, hroot] at hstart

/-- The first job was started by a caller, so its success may raise an intent of depth one. -/
theorem cascadesBounded_run_once :
    AllSteps Plane.step (fun s l t => DepthLaw s l t ∧ ChainsBounded t) (.attach 8)
      [.reload [("loop", selfTrigger)], .submitFlow Dict.empty (loopSubmission "job-0"),
        .flowSession "job-0" true 0 (drawId "work-0")] := by
  refine cascadesBounded_run 8 _ fun s hs => ⟨(carriesDepth_quiet _).1 _, fun t ht =>
    ⟨(carriesDepth_quiet s).2 _ _, fun u _ => ⟨?_, trivial⟩⟩⟩
  cases hs
  cases ht
  exact carriesDepth_root rfl rfl

/-- With a maximal depth of one, the second job raises an intent of depth one again, in a chain of
two. -/
theorem cascadesBounded_run_fails :
    ¬ ∀ (maxDepth : ℤ) (labels : List PlaneLabel),
      AllSteps Plane.step (fun s l t => DepthLaw s l t ∧ ChainsBounded t) (.attach maxDepth)
        labels := by
  intro h
  have hlast : (runSteps Plane.step (.attach 1) selfTriggerTrace).any fun t =>
      t.maxDepth = 1 && (t.store.entries "work-1").any (·.payload.chain = 2) := by decide
  obtain ⟨t, hrun, ht⟩ := (Option.any_eq_true _ _).mp hlast
  simp only [Bool.and_eq_true, decide_eq_true_eq, Option.any_eq_true] at ht
  obtain ⟨hmax, intent, hstored, hchain⟩ := ht
  have hbounded : ChainsBounded t := invariant_of_allSteps (fun _ _ _ _ _ hok => hok.2)
    (fun intent hi => (not_knows_attach 1 intent hi).elim) (h 1 selfTriggerTrace) hrun
  have := hbounded intent (.stored "work-1" hstored)
  omega

end PalmEngine.Work
