import PalmEngine.Lib.Runs

/-!
# Phases and admission of a structure

The status of a process under its structure definition, and the admission that clients read from
it: business may run only in the ready phase, without block reasons and with the truth home up.
-/

namespace PalmEngine.Structure

/-- The desired structure of one process: the places that must be ready. -/
structure StructureDefinition where
  id : String
  version : String
  placesRequired : List String
  deriving DecidableEq, Repr

/-- The embedded definition, which requires no places. -/
def localEmbedded (version : String) : StructureDefinition := ⟨"local.embedded", version, []⟩

/-- The phases of readiness under the current definition. -/
inductive StructurePhase where
  | empty
  | received
  | assembling
  | ready
  | blocked
  | invalidated
  deriving DecidableEq, Repr

/-- The gate that clients read. -/
structure AdmissionSnapshot where
  mayRunBusiness : Bool
  phase : StructurePhase
  definitionId : Option String
  definitionVersion : Option String
  reasons : List String
  deriving DecidableEq, Repr

/-- The status of readiness under the current definition. -/
structure StructureStatus where
  phase : StructurePhase
  definitionId : Option String
  definitionVersion : Option String
  placesReady : Finset String
  placesMissing : List String
  blockReasons : List String
  truthHomeUp : Bool
  deriving DecidableEq

/-- The reasons that the phase gives against running business. -/
def StructureStatus.phaseReasons (s : StructureStatus) : List String :=
  match s.phase with
  | .empty => ["no_definition"]
  | .received => ["definition_not_assembled"]
  | .assembling => "assembling" :: s.placesMissing.map ("place_missing:" ++ ·)
  | .blocked => if s.blockReasons = [] then ["blocked"] else s.blockReasons
  | .invalidated => ["invalidated"]
  | .ready => (if s.truthHomeUp then [] else ["truth_home_down"]) ++ s.blockReasons

/-- The admission under a status. -/
def StructureStatus.admission (s : StructureStatus) : AdmissionSnapshot :=
  let may := decide (s.phase = .ready ∧ s.phaseReasons = [] ∧ s.truthHomeUp)
  { mayRunBusiness := may
    phase := s.phase
    definitionId := s.definitionId
    definitionVersion := s.definitionVersion
    reasons :=
      if may then [] else if s.phaseReasons = [] then ["not_ready"] else s.phaseReasons }

/-- Business may run only in the ready phase without block reasons and with the truth home up. -/
theorem StructureStatus.mayRunBusiness_iff (s : StructureStatus) :
    s.admission.mayRunBusiness ↔ s.phase = .ready ∧ s.blockReasons = [] ∧ s.truthHomeUp := by
  simp only [admission, decide_eq_true_eq]
  refine and_congr_right fun hphase => ?_
  cases hhome : s.truthHomeUp <;> simp [phaseReasons, hphase, hhome]

/-- An admission that refuses business says why. -/
theorem StructureStatus.reasons_eq_nil_iff (s : StructureStatus) :
    s.admission.reasons = [] ↔ s.admission.mayRunBusiness := by
  simp only [admission]
  split
  · simp_all
  · split <;> simp_all

end PalmEngine.Structure
