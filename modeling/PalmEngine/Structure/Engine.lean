import PalmEngine.Structure.Status

/-!
# The structure engine

The reconciler of the desired structure. Observations are folded into the phase and the block
reasons; a tick asks for the places that are missing and makes the structure ready when none is.
Whether a place is ready is known to the bound hand alone: its answers may change from one
question to the next, and asking it may fail.
-/

namespace PalmEngine.Structure

/-- The facts that are folded into the engine. -/
inductive ObservationKind where
  | placeReady
  | placeFailed
  | placeGone
  | truthHomeUp
  | truthHomeDown
  | projectionLoaded
  | projectionFailed
  | structureSeedFinished
  | structureSeedFailed
  | seatBound
  | structurePolicyViolation
  | structurePolicyCleared
  deriving DecidableEq, Repr

/-- One fact, with the place, projection or reason it is about; empty when it names none. -/
structure Observation where
  kind : ObservationKind
  target : String
  deriving DecidableEq, Repr

/-- The projection that an observation is about. -/
def Observation.projection (o : Observation) : String :=
  if o.target = "" then "default" else o.target

/-- The reason that a policy violation gives. -/
def Observation.policyReason (o : Observation) : String :=
  if o.target = "" then "refuse:policy" else o.target

/-- The effects that the engine requests. -/
inductive EffectIntentKind where
  | ensurePlace
  | releasePlace
  | invalidateProjection
  | refreshProjection
  | applyStructurePolicy
  | requestStructureSeed
  deriving DecidableEq, Repr

/-- One requested effect. -/
structure EffectIntent where
  kind : EffectIntentKind
  target : String
  deriving DecidableEq, Repr

/-- The status after a tick, the effects it requests, and whether it changed anything. -/
structure AssembleResult where
  status : StructureStatus
  admission : AdmissionSnapshot
  intents : List EffectIntent
  changed : Bool
  notes : List String
  deriving DecidableEq

/-- How a call fails: the engine refuses it, or the hand fails. -/
inductive StructureFailure where
  | engineError (message : String)
  | handRaised
  deriving DecidableEq, Repr

/-- What the hand answers about each place, when it answers. -/
abbrev Hand := String → Option Bool

/-- The reconciler; of the bound hand only that there is one. -/
structure StructureEngine where
  initialized : Bool
  definition : Option StructureDefinition
  phase : StructurePhase
  handBound : Bool
  blockReasons : List String
  truthHomeUp : Bool
  pendingEnsure : Finset String
  deriving DecidableEq

namespace StructureEngine

/-- A new engine. -/
def new : StructureEngine := ⟨false, none, .empty, false, [], true, ∅⟩

section Status

variable (e : StructureEngine) (hand : Hand)

/-- Whether a place is ready: never without a bound hand. -/
def isPlaceReady (place : String) : Option Bool := if e.handBound then hand place else some false

/-- The places that the definition requires. -/
def placesRequired : List String := (e.definition.map (·.placesRequired)).getD []

/-- The hand answers about all required places. -/
def Answered : Prop := ∀ p ∈ e.placesRequired, (e.isPlaceReady hand p).isSome

instance : Decidable (e.Answered hand) :=
  inferInstanceAs (Decidable (∀ p ∈ e.placesRequired, (e.isPlaceReady hand p).isSome))

/-- The required places that are not ready. -/
def missingPlaces : Except StructureFailure (List String) :=
  if e.Answered hand then
    .ok (e.placesRequired.filter fun p => e.isPlaceReady hand p = some false)
  else
    .error .handRaised

/-- The required places that are ready. -/
def placesReadyView : Except StructureFailure (Finset String) :=
  if e.Answered hand then
    .ok (e.placesRequired.filter fun p => e.isPlaceReady hand p = some true).toFinset
  else
    .error .handRaised

/-- The current status. -/
def status : Except StructureFailure StructureStatus := do
  let missing ← e.missingPlaces hand
  let placesReady ← e.placesReadyView hand
  return {
    phase := e.phase
    definitionId := e.definition.map (·.id)
    definitionVersion := e.definition.map (·.version)
    placesReady := placesReady
    placesMissing := missing
    blockReasons := e.blockReasons
    truthHomeUp := e.truthHomeUp }

/-- The current admission. -/
def admission : Except StructureFailure AdmissionSnapshot :=
  (e.status hand).map StructureStatus.admission

end Status

/-- Note a block reason unless it is noted. -/
def addReason (e : StructureEngine) (reason : String) : StructureEngine :=
  if reason ∈ e.blockReasons then e else { e with blockReasons := e.blockReasons ++ [reason] }

/-- Drop a block reason. -/
def dropReason (e : StructureEngine) (reason : String) : StructureEngine :=
  { e with blockReasons := e.blockReasons.filter (· ≠ reason) }

/-- A ready structure is blocked. -/
def blockReady (e : StructureEngine) : StructureEngine :=
  if e.phase = .ready then { e with phase := .blocked } else e

/-- Whether a definition is the one that is ready already. -/
def HoldsReady (e : StructureEngine) (definition : StructureDefinition) : Prop :=
  (e.definition.any fun d => d.id = definition.id ∧ d.version = definition.version) ∧
    e.phase = .ready

instance (e : StructureEngine) (definition : StructureDefinition) :
    Decidable (e.HoldsReady definition) := inferInstanceAs (Decidable (_ ∧ _))

/-- Load a definition, unless it is ready already and the load is not forced. -/
def receiveDefinition (e : StructureEngine) (definition : StructureDefinition) (force : Bool)
    (hand : Hand) : StructureEngine × Except StructureFailure AdmissionSnapshot :=
  if definition.id = "" then
    (e, .error (.engineError "structure definition id must be non-empty"))
  else if ¬ force ∧ e.HoldsReady definition then
    (e, e.admission hand)
  else
    let loaded := { e with
      definition := some definition
      blockReasons := []
      truthHomeUp := true
      pendingEnsure := ∅
      phase := if e.phase = .ready then .invalidated else .received }
    (loaded, loaded.admission hand)

/-- Void the current readiness. -/
def invalidated (e : StructureEngine) : StructureEngine :=
  if e.definition = none then { e with phase := .empty }
  else if e.phase ≠ .empty then { e with phase := .invalidated } else e

/-- Void the current readiness and return the admission. -/
def invalidate (e : StructureEngine) (hand : Hand) :
    StructureEngine × Except StructureFailure AdmissionSnapshot :=
  (e.invalidated, e.invalidated.admission hand)

/-- Fold one fact into the state. -/
def applyObservation (e : StructureEngine) (o : Observation) : StructureEngine :=
  match o.kind with
  | .placeReady =>
    let cleared :=
      if o.target ≠ "" then { e with pendingEnsure := e.pendingEnsure.erase o.target } else e
    cleared.dropReason ("place_failed:" ++ o.target)
  | .placeFailed =>
    if o.target ≠ "" then { e.addReason ("place_failed:" ++ o.target) with phase := .blocked }
    else e
  | .placeGone =>
    if o.target ≠ "" ∧ e.phase = .ready then { e with phase := .invalidated } else e
  | .truthHomeUp => { e.dropReason "truth_home_down" with truthHomeUp := true }
  | .truthHomeDown => { e.addReason "truth_home_down" with truthHomeUp := false }.blockReady
  | .projectionFailed => (e.addReason ("projection_failed:" ++ o.projection)).blockReady
  | .projectionLoaded => e.dropReason ("projection_failed:" ++ o.projection)
  | .structureSeedFailed => { e.addReason "structure_seed_failed" with phase := .blocked }
  | .structureSeedFinished => e.dropReason "structure_seed_failed"
  | .structurePolicyViolation => { e.addReason o.policyReason with phase := .blocked }
  | .structurePolicyCleared =>
    if o.target ≠ "" then e.dropReason o.target
    else { e with blockReasons :=
      e.blockReasons.filter fun r => !"refuse:".toList.isPrefixOf r.toList }
  | .seatBound => e

/-- Fold one fact into the state and return the admission. -/
def observe (e : StructureEngine) (o : Observation) (hand : Hand) :
    StructureEngine × Except StructureFailure AdmissionSnapshot :=
  (e.applyObservation o, (e.applyObservation o).admission hand)

/-- The missing places that are to be asked for, and the places asked for thereafter. -/
def ensurePlaces : List String → Finset String → List String × Finset String
  | [], pending => ([], pending)
  | p :: rest, pending =>
    if p ∈ pending then ensurePlaces rest pending
    else
      let (asked, pending') := ensurePlaces rest (insert p pending)
      (p :: asked, pending')

/-- What a tick returns in the state that it leaves. -/
def assembled (e : StructureEngine) (before : StructureStatus) (hand : Hand) (asked : List String)
    (notes : List String) : Except StructureFailure AssembleResult :=
  (e.status hand).map fun status => {
    status := status
    admission := status.admission
    intents := asked.map (⟨.ensurePlace, ·⟩)
    changed := decide (before.phase ≠ status.phase ∨
      before.admission.mayRunBusiness ≠ status.admission.mayRunBusiness ∨ asked ≠ [])
    notes := notes }

/-- The phases that a tick leaves for the assembling one. -/
def Unassembled (e : StructureEngine) : Prop :=
  e.phase = .received ∨ e.phase = .invalidated ∨ e.phase = .blocked

instance (e : StructureEngine) : Decidable e.Unassembled :=
  inferInstanceAs (Decidable (_ ∨ _ ∨ _))

/-- Assemble: ask for the missing places, or be ready when there is none. -/
def assemble (e : StructureEngine) (before : StructureStatus) (seen after : Hand)
    (notes : List String) : StructureEngine × Except StructureFailure AssembleResult :=
  match e.missingPlaces seen with
  | .error failure => (e, .error failure)
  | .ok missing =>
    let (asked, pending) := ensurePlaces missing e.pendingEnsure
    let notes := notes ++ asked.map ("ensure_place:" ++ ·)
    if missing ≠ [] then
      let waiting := { e with phase := .assembling, pendingEnsure := pending }
      (waiting, waiting.assembled before after asked notes)
    else
      let done := { e with phase := .ready, pendingEnsure := ∅ }
      (done, done.assembled before after asked (notes ++ ["definition_ready"]))

/-- Reconcile once. The hand is asked for the status before, for the missing places, and for the
status after. -/
def tick (e : StructureEngine) (before seen after : Hand) :
    StructureEngine × Except StructureFailure AssembleResult :=
  match e.status before with
  | .error failure => (e, .error failure)
  | .ok was =>
    if e.definition = none then
      (e, (e.assembled was after [] ["no_definition"]).map ({ · with changed := false }))
    else if ¬ e.truthHomeUp then
      let down := { e.addReason "truth_home_down" with phase := .blocked }
      (down, down.assembled was after [] ["blocked_truth_home"])
    else
      let up := e.dropReason "truth_home_down"
      if up.phase = .blocked ∧ up.blockReasons ≠ [] then
        (up, (up.assembled was after [] ["still_blocked"]).map ({ · with changed := false }))
      else if up.Unassembled then
        { up with phase := .assembling }.assemble was seen after ["enter_assembling"]
      else
        up.assemble was seen after []

/-- Bind the hand, or none. -/
def bindPlaceReady (e : StructureEngine) (bound : Bool) : StructureEngine :=
  { e with handBound := bound }

/-- Make the engine ready for use. -/
def doInitialize (e : StructureEngine) : StructureEngine := { e with initialized := true }

/-- Drop the definition with all that is known about it. -/
def shutdown (e : StructureEngine) : StructureEngine :=
  if e.initialized then { new with handBound := e.handBound } else e

/-- The admission that a call returns is that of the state it leaves. -/
def ReturnsAdmission (hand : Hand)
    (called : StructureEngine × Except StructureFailure AssembleResult) : Prop :=
  ∀ result, called.2 = .ok result → called.1.admission hand = .ok result.admission

/-- The admission returned with a status is that of the state. -/
theorem returnsAdmission_assembled (e : StructureEngine) (was : StructureStatus) (hand : Hand)
    (asked notes : List String) :
    ReturnsAdmission hand (e, e.assembled was hand asked notes) := by
  intro result h
  simp only [assembled] at h
  unfold admission
  cases hstatus : e.status hand with
  | error failure => simp [hstatus, Except.map] at h
  | ok status =>
    rw [hstatus] at h
    cases h
    rfl

/-- So it is when nothing is said to have changed. -/
private theorem returnsAdmission_unchanged (e : StructureEngine) (was : StructureStatus)
    (hand : Hand) (notes : List String) :
    ReturnsAdmission hand
      (e, (e.assembled was hand [] notes).map ({ · with changed := false })) := by
  intro result h
  cases hassembled : e.assembled was hand [] notes with
  | error failure => simp [hassembled, Except.map] at h
  | ok r =>
    have hadmission := returnsAdmission_assembled e was hand [] notes r hassembled
    rw [hassembled] at h
    cases h
    exact hadmission

/-- Assembling returns the admission of the state that it leaves. -/
theorem returnsAdmission_assemble (e : StructureEngine) (was : StructureStatus)
    (seen after : Hand) (notes : List String) :
    ReturnsAdmission after (e.assemble was seen after notes) := by
  unfold assemble
  split
  · exact fun result h => (nomatch h)
  · dsimp only
    split <;> exact returnsAdmission_assembled _ was after _ _

/-- A tick returns the admission of the state that it leaves. -/
theorem returnsAdmission_tick (e : StructureEngine) (before seen after : Hand) :
    ReturnsAdmission after (e.tick before seen after) := by
  unfold tick
  split
  · exact fun result h => (nomatch h)
  · split
    · exact returnsAdmission_unchanged e _ after _
    · split
      · exact returnsAdmission_assembled _ _ after _ _
      · dsimp only
        split
        · exact returnsAdmission_unchanged _ _ after _
        · split <;> exact returnsAdmission_assemble _ _ seen after _

end StructureEngine

end PalmEngine.Structure
