import PalmEngine.Structure.Engine

/-!
# Admission is fail-closed

A reported failure stands until an observation clears it or a definition is loaded, and while it
stands no business is admitted, whatever else is observed and however often the structure is
reconciled. Readiness that was voided comes back only with a tick that finds every required place
ready.
-/

namespace PalmEngine.Structure

open PalmEngine.Lib

/-- The failures that stand against running business. -/
inductive Failure where
  | place (name : String)
  | projection (name : String)
  | seed
  | policy (token : String)
  | truthHome
  deriving DecidableEq, Repr

namespace Failure

/-- The block reason of a failure. -/
def reason : Failure → String
  | place name => "place_failed:" ++ name
  | projection name => "projection_failed:" ++ name
  | seed => "structure_seed_failed"
  | policy token => "refuse:" ++ token
  | truthHome => "truth_home_down"

@[simp] theorem reason_place (p : String) : (place p).reason = "place_failed:" ++ p := rfl

@[simp] theorem reason_projection (n : String) :
    (projection n).reason = "projection_failed:" ++ n := rfl

@[simp] theorem reason_seed : seed.reason = "structure_seed_failed" := rfl

@[simp] theorem reason_policy (t : String) : (policy t).reason = "refuse:" ++ t := rfl

@[simp] theorem reason_truthHome : truthHome.reason = "truth_home_down" := rfl

/-- The first two letters of a reason tell the kind of the failure. -/
theorem take_reason (f : Failure) : f.reason.toList.take 2 =
    match f with
    | place _ => ['p', 'l']
    | projection _ => ['p', 'r']
    | seed => ['s', 't']
    | policy _ => ['r', 'e']
    | truthHome => ['t', 'r'] := by
  cases f with
  | place p => exact congrArg (List.take 2) (String.toList_append (s := "place_failed:"))
  | projection n => exact congrArg (List.take 2) (String.toList_append (s := "projection_failed:"))
  | seed => rfl
  | policy t => exact congrArg (List.take 2) (String.toList_append (s := "refuse:"))
  | truthHome => rfl

/-- The reasons of different failures differ. -/
theorem reason_injective {f g : Failure} (h : f.reason = g.reason) : f = g := by
  have hhead : f.reason.toList.take 2 = g.reason.toList.take 2 := by rw [h]
  rw [take_reason, take_reason] at hhead
  cases f with
  | place p =>
    cases g with
    | place q => exact congrArg place ((String.append_right_inj "place_failed:").mp h)
    | projection q | seed | policy t | truthHome => simp at hhead
  | projection p =>
    cases g with
    | projection q =>
      exact congrArg projection ((String.append_right_inj "projection_failed:").mp h)
    | place q | seed | policy t | truthHome => simp at hhead
  | seed =>
    cases g with
    | seed => rfl
    | place q | projection q | policy t | truthHome => simp at hhead
  | policy t =>
    cases g with
    | policy t' => exact congrArg policy ((String.append_right_inj "refuse:").mp h)
    | place q | projection q | seed | truthHome => simp at hhead
  | truthHome =>
    cases g with
    | truthHome => rfl
    | place q | projection q | seed | policy t => simp at hhead

/-- Only the reasons of refused policies begin with the word for it. -/
theorem policy_of_prefix {f : Failure} (h : "refuse:".toList.isPrefixOf f.reason.toList) :
    ∃ token, f = policy token := by
  obtain ⟨rest, hrest⟩ := List.isPrefixOf_iff_prefix.mp h
  have hhead : f.reason.toList.take 2 = ['r', 'e'] := by
    rw [← hrest]
    rfl
  rw [take_reason] at hhead
  cases f with
  | policy token => exact ⟨token, rfl⟩
  | place p | projection p | seed | truthHome => simp at hhead

/-- A failure stands in the state of the engine. -/
def Stands (f : Failure) (e : StructureEngine) : Prop :=
  match f with
  | truthHome => e.truthHomeUp = false
  | f => f.reason ∈ e.blockReasons

end Failure

/-- The observations that report a failure. -/
inductive Observation.Reports (o : Observation) : Failure → Prop where
  | place : o.kind = .placeFailed → o.target ≠ "" → o.Reports (.place o.target)
  | projection : o.kind = .projectionFailed → o.Reports (.projection o.projection)
  | seed : o.kind = .structureSeedFailed → o.Reports .seed
  | policy {token : String} : o.kind = .structurePolicyViolation →
      o.policyReason = "refuse:" ++ token → o.Reports (.policy token)
  | truthHome : o.kind = .truthHomeDown → o.Reports .truthHome

/-- The observations that clear a failure: those of its own kind about the same thing, and a
cleared policy that names its reason. -/
inductive Observation.Clears (o : Observation) : Failure → Prop where
  | place : o.kind = .placeReady → o.Clears (.place o.target)
  | projection : o.kind = .projectionLoaded → o.Clears (.projection o.projection)
  | seed : o.kind = .structureSeedFinished → o.Clears .seed
  | policy {token : String} : o.kind = .structurePolicyCleared → o.target = "" →
      o.Clears (.policy token)
  | truthHome : o.kind = .truthHomeUp → o.Clears .truthHome
  | named {f : Failure} : o.kind = .structurePolicyCleared → f ≠ .truthHome →
      f.reason = o.target → o.Clears f

/-- The calls of the engine, with the answers of the hand. -/
inductive StructureCall where
  | doInitialize
  | shutdown
  | receiveDefinition (definition : StructureDefinition) (force : Bool) (hand : Hand)
  | invalidate (hand : Hand)
  | observe (o : Observation) (hand : Hand)
  | bindPlaceReady (bound : Bool)
  | tick (before seen after : Hand)

namespace StructureEngine

/-- The state that a call leaves. -/
def afterCall (e : StructureEngine) : StructureCall → StructureEngine
  | .doInitialize => e.doInitialize
  | .shutdown => e.shutdown
  | .receiveDefinition definition force hand => (e.receiveDefinition definition force hand).1
  | .invalidate hand => (e.invalidate hand).1
  | .observe o hand => (e.observe o hand).1
  | .bindPlaceReady bound => e.bindPlaceReady bound
  | .tick before seen after => (e.tick before seen after).1

/-- Every call can be made in every state. -/
def step (e : StructureEngine) (call : StructureCall) : Option StructureEngine :=
  some (e.afterCall call)

/-- Whatever the hand answers, no business is admitted. -/
def RefusesBusiness (e : StructureEngine) : Prop :=
  ∀ hand admission, e.admission hand = .ok admission → admission.mayRunBusiness = false

/-- A load takes unless it is refused or the definition is ready already. -/
def Takes (e : StructureEngine) (definition : StructureDefinition) (force : Bool) : Prop :=
  definition.id ≠ "" ∧ ¬ (force = false ∧ e.HoldsReady definition)

/-- The calls that end a failure: an observation that clears it, or a load that takes. -/
def Ends (e : StructureEngine) (f : Failure) : StructureCall → Prop
  | .receiveDefinition definition force _ => e.Takes definition force
  | .observe o _ => o.Clears f
  | _ => False

/-- The calls that void the readiness. -/
def Voids (e : StructureEngine) : StructureCall → Prop
  | .receiveDefinition definition force _ => e.Takes definition force
  | .invalidate _ => True
  | .observe o _ => o.kind = .placeGone ∧ o.target ≠ "" ∧ e.phase = .ready
  | _ => False

/-- A tick at which every place that the definition requires is ready. -/
def FindsPlaces (e : StructureEngine) : StructureCall → Prop
  | .tick _ seen _ =>
    ∃ d, e.definition = some d ∧ ∀ p ∈ d.placesRequired, e.isPlaceReady seen p = some true
  | _ => False

/-- The admission read in a state admits business only if the state does. -/
theorem admission_mayRun {e : StructureEngine} {hand : Hand} {admission : AdmissionSnapshot}
    (h : e.admission hand = .ok admission) :
    admission.mayRunBusiness ↔ e.phase = .ready ∧ e.blockReasons = [] ∧ e.truthHomeUp := by
  unfold StructureEngine.admission status at h
  cases hmissing : e.missingPlaces hand with
  | error failure => simp [hmissing, bind, Except.bind, Except.map] at h
  | ok missing =>
    cases hview : e.placesReadyView hand with
    | error failure => simp [hmissing, hview, bind, Except.bind, Except.map] at h
    | ok places =>
      simp only [hmissing, hview, bind, Except.bind, Except.map, pure, Except.pure,
        Except.ok.injEq] at h
      rw [← h]
      exact StructureStatus.mayRunBusiness_iff _

@[simp] theorem addReason_truthHomeUp (e : StructureEngine) (r : String) :
    (e.addReason r).truthHomeUp = e.truthHomeUp := by
  unfold addReason
  split <;> rfl

@[simp] theorem addReason_phase (e : StructureEngine) (r : String) :
    (e.addReason r).phase = e.phase := by
  unfold addReason
  split <;> rfl

@[simp] theorem addReason_definition (e : StructureEngine) (r : String) :
    (e.addReason r).definition = e.definition := by
  unfold addReason
  split <;> rfl

/-- The block reasons after noting one. -/
@[simp] theorem mem_addReason (e : StructureEngine) (r s : String) :
    s ∈ (e.addReason r).blockReasons ↔ s = r ∨ s ∈ e.blockReasons := by
  unfold addReason
  split
  · rename_i hr
    exact ⟨.inr, fun h => h.elim (fun heq => heq ▸ hr) id⟩
  · simp [or_comm]

/-- The block reasons after dropping one. -/
@[simp] theorem mem_dropReason (e : StructureEngine) (r s : String) :
    s ∈ (e.dropReason r).blockReasons ↔ s ≠ r ∧ s ∈ e.blockReasons := by
  simp [dropReason, and_comm]

@[simp] theorem dropReason_truthHomeUp (e : StructureEngine) (r : String) :
    (e.dropReason r).truthHomeUp = e.truthHomeUp := rfl

@[simp] theorem blockReady_blockReasons (e : StructureEngine) :
    e.blockReady.blockReasons = e.blockReasons := by
  unfold blockReady
  split <;> rfl

@[simp] theorem blockReady_truthHomeUp (e : StructureEngine) :
    e.blockReady.truthHomeUp = e.truthHomeUp := by
  unfold blockReady
  split <;> rfl

@[simp] theorem blockReady_definition (e : StructureEngine) :
    e.blockReady.definition = e.definition := by
  unfold blockReady
  split <;> rfl

/-- What is blocked when ready is not ready. -/
theorem blockReady_phase_ne (e : StructureEngine) : e.blockReady.phase ≠ .ready := by
  unfold blockReady
  split
  · simp
  · assumption

end StructureEngine

namespace Failure

open StructureEngine

variable {f : Failure} {e e' : StructureEngine}

/-- A failure stands as long as its reason is kept, or the truth home down. -/
theorem Stands.imp (h : f.Stands e)
    (hreason : f ≠ truthHome → f.reason ∈ e.blockReasons → f.reason ∈ e'.blockReasons)
    (hhome : f = truthHome → e.truthHomeUp = false → e'.truthHomeUp = false) : f.Stands e' := by
  cases f with
  | truthHome => exact hhome rfl h
  | place p | projection p | seed | policy t => exact hreason (by simp) h

/-- While a failure stands no business is admitted. -/
theorem Stands.refuses (h : f.Stands e) : e.RefusesBusiness := by
  intro hand admission hadmission
  rw [← Bool.not_eq_true, admission_mayRun hadmission]
  rintro ⟨-, hnil, hup⟩
  cases f with
  | truthHome => exact Bool.false_ne_true ((Eq.symm h).trans hup)
  | place p | projection p | seed | policy t =>
    have hmem : _ ∈ e.blockReasons := h
    simp [hnil] at hmem

/-- A dropped reason is that of another failure. -/
private theorem reason_mem_drop {g : Failure} (hne : f ≠ g) (h : f.reason ∈ e.blockReasons) :
    f.reason ∈ (e.dropReason g.reason).blockReasons :=
  (mem_dropReason e _ _).mpr ⟨fun heq => hne (reason_injective heq), h⟩

/-- A reported failure stands. -/
theorem stands_of_reports {o : Observation} (h : o.Reports f) : f.Stands (e.applyObservation o) := by
  cases h with
  | place hkind htarget => simp [Stands, applyObservation, hkind, htarget]
  | projection hkind => simp [Stands, applyObservation, hkind]
  | seed hkind => simp [Stands, applyObservation, hkind]
  | policy hkind htoken => simp [Stands, applyObservation, hkind, htoken]
  | truthHome hkind => simp [Stands, applyObservation, hkind]

/-- A failure stands until an observation clears it. -/
theorem Stands.observation {o : Observation} (h : f.Stands e) (hno : ¬ o.Clears f) :
    f.Stands (e.applyObservation o) := by
  cases hkind : o.kind with
  | placeReady =>
    have hne : f ≠ place o.target := fun heq => hno (heq ▸ .place hkind)
    refine h.imp (fun _ hmem => ?_) fun _ hdown => ?_
    · simp only [applyObservation, hkind]
      refine reason_mem_drop (g := place o.target) hne ?_
      split <;> exact hmem
    · simp only [applyObservation, hkind, dropReason_truthHomeUp]
      split <;> exact hdown
  | placeFailed =>
    simp only [applyObservation, hkind]
    split
    · exact h.imp (fun _ hmem => (mem_addReason e _ _).mpr (.inr hmem)) fun _ hdown => by simpa
    · exact h
  | placeGone =>
    simp only [applyObservation, hkind]
    split <;> exact h.imp (fun _ => id) fun _ => id
  | truthHomeUp =>
    have hne : f ≠ truthHome := fun heq => hno (heq ▸ .truthHome hkind)
    refine h.imp (fun _ hmem => ?_) fun heq => absurd heq hne
    simp only [applyObservation, hkind]
    exact reason_mem_drop (g := truthHome) hne hmem
  | truthHomeDown =>
    refine h.imp (fun _ hmem => ?_) fun _ _ => by simp [applyObservation, hkind]
    simp [applyObservation, hkind, hmem]
  | projectionLoaded =>
    have hne : f ≠ projection o.projection := fun heq => hno (heq ▸ .projection hkind)
    refine h.imp (fun _ hmem => ?_) fun _ hdown => by simpa [applyObservation, hkind]
    simp only [applyObservation, hkind]
    exact reason_mem_drop (g := projection o.projection) hne hmem
  | projectionFailed =>
    refine h.imp (fun _ hmem => ?_) fun _ hdown => by simpa [applyObservation, hkind]
    simp [applyObservation, hkind, hmem]
  | structureSeedFinished =>
    have hne : f ≠ seed := fun heq => hno (heq ▸ .seed hkind)
    refine h.imp (fun _ hmem => ?_) fun _ hdown => by simpa [applyObservation, hkind]
    simp only [applyObservation, hkind]
    exact reason_mem_drop (g := seed) hne hmem
  | structureSeedFailed =>
    refine h.imp (fun _ hmem => ?_) fun _ hdown => by simpa [applyObservation, hkind]
    simp [applyObservation, hkind, hmem]
  | structurePolicyViolation =>
    refine h.imp (fun _ hmem => ?_) fun _ hdown => by simpa [applyObservation, hkind]
    simp [applyObservation, hkind, hmem]
  | structurePolicyCleared =>
    simp only [applyObservation, hkind]
    split
    · refine h.imp (fun hhome hmem => ?_) fun _ hdown => by simpa
      exact (mem_dropReason e _ _).mpr ⟨fun heq => hno (.named hkind hhome heq), hmem⟩
    · rename_i htarget
      refine h.imp (fun hhome hmem => ?_) fun _ => id
      refine List.mem_filter.mpr ⟨hmem, ?_⟩
      rw [Bool.not_eq_true', ← Bool.not_eq_true]
      intro hpre
      obtain ⟨token, rfl⟩ := policy_of_prefix hpre
      exact hno (.policy hkind (not_not.mp htarget))
  | seatBound => simpa only [applyObservation, hkind] using h

end Failure

namespace StructureEngine

variable {e u : StructureEngine}

/-- When no required place is missing, all are ready. -/
theorem ready_of_missingPlaces_nil {hand : Hand} (h : e.missingPlaces hand = .ok []) :
    ∀ p ∈ e.placesRequired, e.isPlaceReady hand p = some true := by
  unfold missingPlaces at h
  split at h
  · rename_i hanswered
    intro p hp
    have hnone := List.filter_eq_nil_iff.mp (Except.ok.inj h) p hp
    obtain ⟨answer, hanswer⟩ := Option.isSome_iff_exists.mp (hanswered p hp)
    cases answer with
    | false => simp [hanswer] at hnone
    | true => exact hanswer
  · cases h

/-- Assembling leaves the block reasons, the truth home and the definition, and makes the
structure ready only when every required place is. -/
theorem assemble_spec (e : StructureEngine) (was : StructureStatus) (seen after : Hand)
    (notes : List String) :
    let left := (e.assemble was seen after notes).1
    left.blockReasons = e.blockReasons ∧ left.truthHomeUp = e.truthHomeUp ∧
      left.definition = e.definition ∧ (left.phase = .ready → e.phase = .ready ∨
        ∀ p ∈ e.placesRequired, e.isPlaceReady seen p = some true) := by
  unfold assemble
  split
  · exact ⟨rfl, rfl, rfl, .inl⟩
  · rename_i missing hmissing
    dsimp only
    split
    · exact ⟨rfl, rfl, rfl, fun h => (nomatch h)⟩
    · rename_i hnil
      rw [not_not.mp hnil] at hmissing
      exact ⟨rfl, rfl, rfl, fun _ => .inr (ready_of_missingPlaces_nil hmissing)⟩

/-- A tick does nothing, blocks for the truth home that is down, or with the truth home up drops
that reason and is ready only if it was or finds every required place ready. -/
theorem tick_cases (e : StructureEngine) (before seen after : Hand) :
    let left := (e.tick before seen after).1
    left = e ∨
      (e.truthHomeUp = false ∧ left = { e.addReason "truth_home_down" with phase := .blocked }) ∨
      (e.truthHomeUp = true ∧
        left.blockReasons = (e.dropReason "truth_home_down").blockReasons ∧
        left.definition = e.definition ∧
        (left.phase = .ready → e.phase = .ready ∨ e.FindsPlaces (.tick before seen after))) := by
  unfold tick
  split
  · exact .inl rfl
  · split
    · exact .inl rfl
    · rename_i hdefinition
      have hfinds (hready : ∀ p ∈ e.placesRequired, e.isPlaceReady seen p = some true) :
          e.FindsPlaces (.tick before seen after) := by
        obtain ⟨d, hd⟩ := Option.ne_none_iff_exists'.mp hdefinition
        refine ⟨d, hd, fun p hp => hready p ?_⟩
        simpa [placesRequired, hd] using hp
      split
      · rename_i hhome
        exact .inr (.inl ⟨by simpa using hhome, rfl⟩)
      · rename_i hhome
        refine .inr (.inr ⟨by simpa using hhome, ?_⟩)
        dsimp only
        split
        · exact ⟨rfl, rfl, .inl⟩
        · split
          · obtain ⟨hreasons, -, hdef, hphase⟩ := assemble_spec
              { e.dropReason "truth_home_down" with phase := .assembling } _ seen after
              ["enter_assembling"]
            exact ⟨hreasons, hdef, fun h => .inr (hfinds ((hphase h).resolve_left (by simp)))⟩
          · obtain ⟨hreasons, -, hdef, hphase⟩ := assemble_spec
              (e.dropReason "truth_home_down") _ seen after []
            exact ⟨hreasons, hdef, fun h => (hphase h).imp id hfinds⟩

/-- A load that does not take changes nothing. -/
theorem receiveDefinition_of_not_takes {definition : StructureDefinition} {force : Bool}
    {hand : Hand} (h : ¬ e.Takes definition force) :
    (e.receiveDefinition definition force hand).1 = e := by
  unfold receiveDefinition
  split
  · rfl
  · rename_i hid
    rw [if_pos]
    have hheld := not_not.mp fun hnot => h ⟨hid, hnot⟩
    simpa using hheld

/-- A load that takes leaves a structure that is not ready. -/
theorem receiveDefinition_phase_ne {definition : StructureDefinition} {force : Bool} {hand : Hand}
    (h : e.Takes definition force) : (e.receiveDefinition definition force hand).1.phase ≠ .ready := by
  unfold receiveDefinition
  rw [if_neg h.1, if_neg (by simpa using h.2)]
  dsimp only
  split <;> simp

/-- An invalidated structure is not ready. -/
theorem invalidated_phase_ne (e : StructureEngine) : e.invalidated.phase ≠ .ready := by
  unfold invalidated
  split
  · simp
  · split
    · simp
    · rename_i hempty
      simp [not_not.mp hempty]

/-- No observation makes a structure ready. -/
theorem ready_of_applyObservation {o : Observation} (h : (e.applyObservation o).phase = .ready) :
    e.phase = .ready := by
  unfold applyObservation at h
  split at h
  all_goals first
    | exact h
    | exact absurd h (blockReady_phase_ne _)
    | cases h
    | skip
  · simp only [dropReason] at h
    split at h <;> exact h
  · split at h
    · cases h
    · exact h
  · split at h
    · cases h
    · exact h
  · split at h <;> exact h

/-- No observation changes the definition. -/
theorem applyObservation_definition (e : StructureEngine) (o : Observation) :
    (e.applyObservation o).definition = e.definition := by
  unfold applyObservation
  split
  all_goals first
    | rfl
    | exact addReason_definition e _
    | exact (blockReady_definition _).trans (addReason_definition e _)
    | split <;> first | rfl | exact addReason_definition e _

/-- A structure is ready after a call only if it was, or if the call is a tick that finds every
required place ready. -/
theorem ready_of_afterCall {call : StructureCall} (h : (e.afterCall call).phase = .ready) :
    e.phase = .ready ∨ e.FindsPlaces call := by
  cases call with
  | doInitialize | bindPlaceReady _ => exact .inl h
  | shutdown =>
    simp only [afterCall, shutdown] at h
    split at h
    · cases h
    · exact .inl h
  | receiveDefinition definition force hand =>
    by_cases htakes : e.Takes definition force
    · exact absurd h (receiveDefinition_phase_ne htakes)
    · rw [afterCall, receiveDefinition_of_not_takes htakes] at h
      exact .inl h
  | invalidate hand => exact absurd h e.invalidated_phase_ne
  | observe o hand => exact .inl (ready_of_applyObservation h)
  | tick before seen after =>
    rcases tick_cases e before seen after with heq | ⟨-, heq⟩ | ⟨-, -, -, hphase⟩
    · exact .inl (by rwa [afterCall, heq] at h)
    · rw [afterCall, heq] at h
      cases h
    · exact hphase h

/-- A call that voids the readiness leaves a structure that is not ready. -/
theorem phase_ne_of_voids {call : StructureCall} (h : e.Voids call) :
    (e.afterCall call).phase ≠ .ready := by
  cases call with
  | receiveDefinition definition force hand => exact receiveDefinition_phase_ne h
  | invalidate hand => exact e.invalidated_phase_ne
  | observe o hand =>
    obtain ⟨hkind, htarget, hready⟩ := h
    simp [afterCall, observe, applyObservation, hkind, htarget, hready]
  | doInitialize | shutdown | bindPlaceReady _ | tick _ _ _ => exact h.elim

/-- A structure that is not ready admits no business. -/
theorem refusesBusiness_of_phase_ne (h : e.phase ≠ .ready) : e.RefusesBusiness := by
  intro hand admission hadmission
  rw [← Bool.not_eq_true, admission_mayRun hadmission]
  exact fun hmay => h hmay.1

/-- An engine without a definition that is not ready. -/
def Unloaded (e : StructureEngine) : Prop := e.definition = none ∧ e.phase ≠ .ready

/-- An engine without a definition gets none but by a load that takes. -/
theorem Unloaded.afterCall {f : Failure} {call : StructureCall} (h : e.Unloaded)
    (hno : ¬ e.Ends f call) : (e.afterCall call).Unloaded := by
  have hfinds : ¬ e.FindsPlaces call := by
    cases call with
    | tick before seen after =>
      rintro ⟨d, hd, -⟩
      exact Option.some_ne_none d (hd.symm.trans h.1)
    | _ => exact id
  refine ⟨?_, fun hready => (ready_of_afterCall hready).elim h.2 hfinds⟩
  cases call with
  | doInitialize | bindPlaceReady _ => exact h.1
  | shutdown =>
    simp only [StructureEngine.afterCall, shutdown]
    split
    · rfl
    · exact h.1
  | receiveDefinition definition force hand =>
    rw [StructureEngine.afterCall, receiveDefinition_of_not_takes hno]
    exact h.1
  | invalidate hand => simp [StructureEngine.afterCall, invalidate, invalidated, h.1]
  | observe o hand => exact (applyObservation_definition e o).trans h.1
  | tick before seen after =>
    rcases tick_cases e before seen after with heq | ⟨-, heq⟩ | ⟨-, -, hdef, -⟩
    · exact (congrArg definition heq).trans h.1
    · exact (congrArg definition heq).trans ((addReason_definition e _).trans h.1)
    · exact hdef.trans h.1

end StructureEngine

namespace Failure

open StructureEngine

variable {f : Failure} {e u : StructureEngine}

/-- A failure stands after every call that does not end it, as long as a definition is held. -/
theorem Stands.afterCall {call : StructureCall} (h : f.Stands e) (hno : ¬ e.Ends f call) :
    f.Stands (e.afterCall call) ∨ (e.afterCall call).Unloaded := by
  cases call with
  | doInitialize | bindPlaceReady _ => exact .inl (h.imp (fun _ => id) fun _ => id)
  | shutdown =>
    simp only [StructureEngine.afterCall, shutdown]
    split
    · exact .inr ⟨rfl, fun hready => (nomatch hready)⟩
    · exact .inl h
  | receiveDefinition definition force hand =>
    rw [StructureEngine.afterCall, receiveDefinition_of_not_takes hno]
    exact .inl h
  | invalidate hand =>
    simp only [StructureEngine.afterCall, invalidate, invalidated]
    split
    · exact .inl (h.imp (fun _ => id) fun _ => id)
    · split <;> exact .inl (h.imp (fun _ => id) fun _ => id)
  | observe o hand => exact .inl (h.observation hno)
  | tick before seen after =>
    rcases tick_cases e before seen after with heq | ⟨-, heq⟩ | ⟨hup, hreasons, -, -⟩
    · rw [StructureEngine.afterCall, heq]
      exact .inl h
    · rw [StructureEngine.afterCall, heq]
      exact .inl (h.imp (fun _ hmem => (mem_addReason e _ _).mpr (.inr hmem)) fun _ hdown => by simpa)
    · refine .inl (h.imp (fun hne hmem => ?_) fun heq hdown => ?_)
      · rw [StructureEngine.afterCall, hreasons]
        exact reason_mem_drop (g := truthHome) hne hmem
      · exact absurd (hup.symm.trans hdown) (by simp)

/-- A reported failure keeps business out as long as no call ends it. -/
theorem Stands.run {calls : List StructureCall} (h : f.Stands e)
    (hrun : runSteps step e calls = some u)
    (hno : AllSteps step (fun s call _ => ¬ s.Ends f call) e calls) : u.RefusesBusiness := by
  refine Or.elim (invariant_of_allSteps (P := fun s => f.Stands s ∨ s.Unloaded)
    (fun s call t hs hstep hends => ?_) (.inl h) hno hrun) Stands.refuses
    fun hunloaded => refusesBusiness_of_phase_ne hunloaded.2
  cases hstep
  exact hs.elim (fun hstands => hstands.afterCall hends)
    fun hunloaded => .inr (hunloaded.afterCall hends)

end Failure

namespace StructureEngine

/-- A structure that is not ready admits no business as long as no tick finds every required
place ready. -/
theorem refusesBusiness_of_run {e u : StructureEngine} {calls : List StructureCall}
    (h : e.phase ≠ .ready) (hrun : runSteps step e calls = some u)
    (hno : AllSteps step (fun s call _ => ¬ s.FindsPlaces call) e calls) : u.RefusesBusiness := by
  refine refusesBusiness_of_phase_ne (invariant_of_allSteps (P := fun s => s.phase ≠ .ready)
    (fun s call t hs hstep hfinds => ?_) h hno hrun)
  cases hstep
  exact fun hready => (ready_of_afterCall hready).elim hs hfinds

end StructureEngine

open StructureEngine

/-- A reported failure keeps business out of the structure until an observation clears it or a
load takes, and voided readiness keeps it out until a tick finds every required place ready. -/
theorem refusesBusiness_run :
    (∀ (e u : StructureEngine) (o : Observation) (hand : Hand) (f : Failure)
      (calls : List StructureCall), o.Reports f →
      runSteps step (e.afterCall (.observe o hand)) calls = some u →
      AllSteps step (fun s call _ => ¬ s.Ends f call) (e.afterCall (.observe o hand)) calls →
      u.RefusesBusiness) ∧
    (∀ (e u : StructureEngine) (call : StructureCall) (calls : List StructureCall), e.Voids call →
      runSteps step (e.afterCall call) calls = some u →
      AllSteps step (fun s call _ => ¬ s.FindsPlaces call) (e.afterCall call) calls →
      u.RefusesBusiness) :=
  ⟨fun _ _ _ _ _ _ hreports hrun hno => (Failure.stands_of_reports hreports).run hrun hno,
    fun _ _ _ _ hvoids hrun hno => refusesBusiness_of_run (phase_ne_of_voids hvoids) hrun hno⟩

/-- A hand that finds every place ready. -/
def allReady : Hand := fun _ => some true

/-- The calls that make the embedded definition ready. -/
def assembleFloor : List StructureCall :=
  [.receiveDefinition (localEmbedded "1") false allReady, .tick allReady allReady allReady]

/-- The engine after these calls. -/
def floorReady : StructureEngine :=
  { StructureEngine.new with definition := some (localEmbedded "1"), phase := .ready }

/-- They reach it. -/
theorem runSteps_assembleFloor :
    runSteps step StructureEngine.new assembleFloor = some floorReady := by decide

/-- A place of the ready structure fails, and the structure is reconciled; the ready structure is
invalidated, and its seat is bound. -/
theorem refusesBusiness_run_floor :
    ((floorReady.afterCall (.observe ⟨.placeFailed, "db"⟩ allReady)).afterCall
      (.tick allReady allReady allReady)).RefusesBusiness ∧
    ((floorReady.afterCall (.invalidate allReady)).afterCall
      (.observe ⟨.seatBound, ""⟩ allReady)).RefusesBusiness := by
  constructor
  · refine refusesBusiness_run.1 floorReady _ ⟨.placeFailed, "db"⟩ allReady (.place "db")
      [.tick allReady allReady allReady] (.place rfl (by decide)) rfl ?_
    rintro t -
    exact ⟨id, trivial⟩
  · refine refusesBusiness_run.2 floorReady _ (.invalidate allReady)
      [.observe ⟨.seatBound, ""⟩ allReady] trivial rfl ?_
    rintro t -
    exact ⟨id, trivial⟩

/-- A ready structure stays ready when a place that is not named fails or is gone, and is ready
again with the next tick when a cleared policy names the reason of a failed place. -/
theorem refusesBusiness_run_fails :
    (¬ ∀ (calls : List StructureCall) (e : StructureEngine) (o : Observation) (hand : Hand),
      runSteps step StructureEngine.new calls = some e → o.kind = .placeFailed →
        (e.afterCall (.observe o hand)).RefusesBusiness) ∧
    (¬ ∀ (calls : List StructureCall) (e : StructureEngine) (o : Observation) (hand : Hand),
      runSteps step StructureEngine.new calls = some e → e.phase = .ready → o.kind = .placeGone →
        (e.afterCall (.observe o hand)).RefusesBusiness) ∧
    ¬ ∀ (calls later : List StructureCall) (e u : StructureEngine) (p : String) (hand : Hand),
      runSteps step StructureEngine.new calls = some e → p ≠ "" →
        runSteps step (e.afterCall (.observe ⟨.placeFailed, p⟩ hand)) later = some u →
        (∀ call ∈ later, ∀ definition force hand, call ≠ .receiveDefinition definition force hand) →
        (∀ call ∈ later, ∀ o hand, call = .observe o hand → o.kind ≠ .placeReady) →
        u.RefusesBusiness := by
  refine ⟨fun h => ?_, fun h => ?_, fun h => ?_⟩
  · have hrefuses := h assembleFloor floorReady ⟨.placeFailed, ""⟩ allReady
      runSteps_assembleFloor rfl allReady _ rfl
    revert hrefuses
    decide
  · have hrefuses := h assembleFloor floorReady ⟨.placeGone, ""⟩ allReady
      runSteps_assembleFloor rfl rfl allReady _ rfl
    revert hrefuses
    decide
  · have hrefuses := h assembleFloor [.observe ⟨.structurePolicyCleared, "place_failed:db"⟩ allReady,
      .tick allReady allReady allReady] floorReady _ "db" allReady runSteps_assembleFloor
      (by decide) rfl (by simp) (by simp) allReady _ rfl
    revert hrefuses
    decide

end PalmEngine.Structure
