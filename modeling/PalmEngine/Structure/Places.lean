import PalmEngine.Structure.Engine
import PalmEngine.Workloads.Lifecycle

/-!
# Places and their bodies

The hands that ensure and release a place: by the prefix of its id it is a process of the system,
a workload that is started or one that is adopted, and otherwise it is present without a body.
Whether a place is ready is read from the book of the workloads, and from the local
acknowledgement of places that the book does not know. The texts of errors in the payloads of
results, and processes of the system beyond their answer, are left out.
-/

namespace PalmEngine.Structure

open PalmEngine.Lib PalmEngine.Workloads
open WorkloadEngine (given?)

/-- What is known of a place. -/
inductive PlaceState where
  | ready
  | failed
  | gone
  deriving DecidableEq, Repr

/-- The outcome of ensuring or releasing a place; the handle is the id of its workload. -/
structure PlaceSpawnResult where
  state : PlaceState
  reason : String
  handle : Option String := none
  deriving DecidableEq, Repr

/-- What the payload of an intent says. The kind and the policies are in lower case; the command
line, the labels and the environment are read from it, which may raise. -/
structure PlacePayload where
  workloadId : Option String := none
  sessionId : Option String := none
  leaseId : Option String := none
  idempotencyKey : Option String := none
  kind : Option String := none
  isolation : Option String := none
  lifecycle : Option String := none
  runtime : Option String := none
  placementRuntime : Option String := none
  argv : Except String (List String) := .ok []
  labels : Except String (List (String × String)) := .ok []
  env : Except String Unit := .ok ()
  handle : Option WorkloadHandle := none

namespace PlacePayload

variable (body : PlacePayload) (place : String)

/-- The id of the workload that is asked for. -/
def wid : String := (given? body.workloadId).getD place

/-- The owner of a workload that is started. -/
def owner : WorkloadOwner where
  sessionId := some ((given? body.sessionId).getD "structure")
  leaseId := some ((given? body.leaseId).getD place)

/-- The key of a start. -/
def key : String := (given? body.idempotencyKey).getD place

/-- Read a kind. -/
def kindOf : String → Except String WorkloadKind
  | "run" => .ok .run
  | "service" => .ok .service
  | "workspace" => .ok .workspace
  | text => .error (quoted text ++ " is not a valid WorkloadKind")

/-- Read an isolation policy. -/
def isolationOf : String → Except String IsolationPolicy
  | "host" => .ok .host
  | "hermetic" => .ok .hermetic
  | "best_effort" => .ok .bestEffort
  | text => .error (quoted text ++ " is not a valid IsolationPolicy")

/-- Read a lifecycle policy. -/
def lifecycleOf : String → Except String LifecyclePolicy
  | "job" => .ok .job
  | "session" => .ok .session
  | "lease" => .ok .lease
  | text => .error (quoted text ++ " is not a valid LifecyclePolicy")

/-- What is asked of the workload of a place. -/
def spec : Except String WorkloadSpec := do
  let kind ← kindOf ((given? body.kind).getD "workspace")
  let argv ← body.argv
  if kind = .run ∧ argv = [] then .error "kind=run requires argv/command" else
  let runtime := (given? body.runtime <|> given? body.placementRuntime).getD "local"
  let isolation ← isolationOf ((given? body.isolation).getD "best_effort")
  let lifecycle ← lifecycleOf ((given? body.lifecycle).getD "lease")
  body.env
  let labels ← body.labels
  if "" ∈ argv then .error "command must be a non-empty argv list of non-empty strings" else
  return {
    kind
    isolation
    lifecycle
    labels := labels.foldl (fun d e => d.set e.1 e.2) (Dict.empty.set "structure_place" place)
    placement := { runtime := some runtime } }

end PlacePayload

/-- Read the book by the id of a workload. -/
def bookRow (e : WorkloadEngine) (wid : String) : Option Workload :=
  match WorkloadEngine.get wid e with
  | .ok wl _ => some wl
  | .error _ _ => none

/-- The id of a workload, or of its place if it has none. -/
def nameOr (wl : Workload) (wid : String) : String := if wl.workloadId = "" then wid else wl.workloadId

namespace WorkloadPlaceSpawn

/-- What is told of a workload that is in the book already. -/
def existing (place : String) (wl : Workload) : PlaceSpawnResult :=
  if isTerminal wl.status = false then ⟨.ready, "workload_already", some (nameOr wl place)⟩
  else if wl.status = .stopped then ⟨.ready, "workload_stopped_ok", some (nameOr wl place)⟩
  else ⟨.failed, "workload_failed", some (nameOr wl place)⟩

/-- What is told of a workload that was started. -/
def started (wid : String) (wl : Workload) : PlaceSpawnResult :=
  if wl.status = .failed then ⟨.failed, "workload_failed", some (nameOr wl wid)⟩
  else ⟨.ready, "workload_started", some (nameOr wl wid)⟩

/-- Ensure the workload of a place. -/
def ensure (w : World) (place : String) (body : PlacePayload) (e : WorkloadEngine) :
    PlaceSpawnResult × WorkloadEngine :=
  if e.initialized = false then (⟨.failed, "workload_engine_not_initialized", none⟩, e)
  else match bookRow e (body.wid place) with
    | some wl => (existing place wl, e)
    | none => match body.spec place with
      | .error _ => (⟨.failed, "workload_spec_invalid", none⟩, e)
      | .ok spec =>
        match WorkloadEngine.start w spec (some (body.owner place)) (some (body.wid place))
          (some (body.key place)) none e with
        | .error _ e => (⟨.failed, "workload_start_error", none⟩, e)
        | .ok wl e => (started (body.wid place) wl, e)

end WorkloadPlaceSpawn

namespace AdoptPlaceSpawn

/-- What is told of a workload that was adopted. -/
def adopted (wid : String) (wl : Workload) : PlaceSpawnResult :=
  if wl.status = .failed then ⟨.failed, "adopt_failed", some (nameOr wl wid)⟩
  else ⟨.ready, "workload_adopted", some (nameOr wl wid)⟩

/-- Ensure the adopted workload of a place. -/
def ensure (w : World) (place : String) (body : PlacePayload) (e : WorkloadEngine) :
    PlaceSpawnResult × WorkloadEngine :=
  if e.initialized = false then (⟨.failed, "workload_engine_not_initialized", none⟩, e)
  else match body.handle with
    | none => match (bookRow e (body.wid place)).filter fun wl => !isTerminal wl.status with
      | some wl => (⟨.ready, "workload_already", some (nameOr wl (body.wid place))⟩, e)
      | none => (⟨.failed, "adopt_handle_missing", none⟩, e)
    | some handle =>
      match WorkloadEngine.adopt w (body.wid place) (some handle)
        (some { body.owner place with createdByPalm := false }) e with
      | .error _ e => (⟨.failed, "adopt_error", none⟩, e)
      | .ok wl e => (adopted (body.wid place) wl, e)

end AdoptPlaceSpawn

/-- Release the workload of a place: stop the one whose id is that of the place. -/
def releaseWorkload (released : String) (w : World) (place : String) (e : WorkloadEngine) :
    PlaceSpawnResult × WorkloadEngine :=
  match bookRow e place with
  | none => (⟨.gone, "workload_not_tracked", none⟩, e)
  | some wl =>
    let wid := nameOr wl place
    match WorkloadEngine.stop w wid e with
    | .error _ e => (⟨.gone, "workload_stop_error", some wid⟩, e)
    | .ok _ e => (⟨.gone, released, some wid⟩, e)

/-- The hands of a place. -/
inductive PlaceRoute where
  | os
  | workload
  | adopt
  | inProcess
  deriving DecidableEq, Repr

/-- The hands that the prefix of a place id leads to. -/
def placeRoute (place : String) : PlaceRoute :=
  if "os:".toList <+: place.toList then .os
  else if "workload:".toList <+: place.toList then .workload
  else if "adopt:".toList <+: place.toList then .adopt
  else .inProcess

/-- The place that a workload stands for. -/
def placeIdFor (wl : Workload) : String :=
  let labeled := strip ((wl.spec.labels.get? "structure_place").getD "")
  if labeled ≠ "" then labeled else strip wl.workloadId

/-- What a workload tells of its place. -/
def projectState (wl : Workload) : Option PlaceState :=
  if wl.status = .failed then some .failed
  else if isTerminal wl.status then none
  else some .ready

/-- What the workloads tell of the places; of several for one place the last one counts. -/
def projectBook (rows : List Workload) : Dict String PlaceState :=
  rows.foldl (fun projected wl =>
    if placeIdFor wl = "" then projected else projected.setSome (placeIdFor wl) (projectState wl))
    .empty

/-- The registry and the hands of the places, over the engine of the workloads, if one is bound;
and as a history the workload of the last ensure of a place that was ready, and the workloads that
were started or adopted for places. -/
structure PlacePort where
  engine : WorkloadEngine
  bound : Bool
  acknowledged : Dict String PlaceState := .empty
  standing : Dict String String := .empty
  started : List (String × String) := []

namespace PlacePort

/-- The book of the workloads is where bodies are known. -/
def BookIsHome (s : PlacePort) : Prop := s.bound = true ∧ s.engine.initialized = true

instance (s : PlacePort) : Decidable s.BookIsHome := inferInstanceAs (Decidable (_ ∧ _))

/-- The rows of the book. -/
def rows (s : PlacePort) : List Workload :=
  match WorkloadEngine.list {} none none s.engine with
  | .ok rows _ => rows
  | .error _ _ => []

/-- Whether a place is ready: by what its workload tells, never if the book knows the place and no
workload tells that it is, and else by its acknowledgement. -/
def ready (s : PlacePort) (placeId : String) : Bool :=
  let key := strip placeId
  if key = "" then false
  else if s.BookIsHome then
    match (projectBook s.rows).get? key with
    | some state => state = .ready
    | none => (bookRow s.engine key).isNone && s.acknowledged.get? key = some .ready
  else s.acknowledged.get? key = some .ready

/-- An observation with the reason that it gives. -/
structure PlaceObservation extends Observation where
  reason : String
  deriving DecidableEq, Repr

/-- Ensure a place by its hands; `os` is what the hands of the system answer. -/
def spawnEnsure (s : PlacePort) (w : World) (os : Except String String) (place : String)
    (body : PlacePayload) : PlaceSpawnResult × WorkloadEngine :=
  let unbound : PlaceSpawnResult × WorkloadEngine :=
    (⟨.failed, "workload_engine_not_bound", none⟩, s.engine)
  match placeRoute place with
  | .os =>
    match os with
    | .ok reason => (⟨.ready, reason, none⟩, s.engine)
    | .error reason => (⟨.failed, reason, none⟩, s.engine)
  | .workload => if s.bound then WorkloadPlaceSpawn.ensure w place body s.engine else unbound
  | .adopt => if s.bound then AdoptPlaceSpawn.ensure w place body s.engine else unbound
  | .inProcess => (⟨.ready, "in_process", none⟩, s.engine)

/-- Release a place by its hands. -/
def spawnRelease (s : PlacePort) (w : World) (os : String) (place : String) :
    PlaceSpawnResult × WorkloadEngine :=
  let unbound : PlaceSpawnResult × WorkloadEngine := (⟨.gone, "workload_not_tracked", none⟩, s.engine)
  match placeRoute place with
  | .os => (⟨.gone, os, none⟩, s.engine)
  | .workload =>
    if s.bound then releaseWorkload "workload_released" w place s.engine else unbound
  | .adopt => if s.bound then releaseWorkload "workload_unbound" w place s.engine else unbound
  | .inProcess => (⟨.gone, "in_process", none⟩, s.engine)

/-- Note in the history what a ready ensure was about. -/
def note (s : PlacePort) (place : String) (result : PlaceSpawnResult) : PlacePort :=
  { s with
    standing := s.standing.setSome place result.handle
    started := s.started ++
      (result.handle.toList.filter fun _ =>
        result.reason = "workload_started" ∨ result.reason = "workload_adopted").map (place, ·) }

/-- Apply an intent about a place that it names: ensure or release it; others are not observed. -/
def applyTo (s : PlacePort) (kind : EffectIntentKind) (place : String) (body : PlacePayload)
    (w : World) (os : Except String String) : PlacePort × List PlaceObservation :=
  match kind with
  | .ensurePlace =>
    let (result, engine) := s.spawnEnsure w os place body
    if result.state = .ready then
      ({ s with engine, acknowledged := s.acknowledged.set place .ready }.note place result,
        [⟨⟨.placeReady, place⟩, result.reason⟩])
    else ({ s with engine }, [⟨⟨.placeFailed, place⟩, result.reason⟩])
  | .releasePlace =>
    let (result, engine) := s.spawnRelease w (os.toOption.getD "os_not_tracked") place
    ({ s with engine, acknowledged := s.acknowledged.erase place },
      [⟨⟨.placeGone, place⟩, result.reason⟩])
  | _ => (s, [])

/-- Apply an intent. -/
def apply (s : PlacePort) (intent : EffectIntent) (body : PlacePayload) (w : World)
    (os : Except String String) : PlacePort × List PlaceObservation :=
  let target := strip intent.target
  if target = "" then
    (s, if intent.kind = .ensurePlace then [⟨⟨.placeFailed, ""⟩, "empty_place_id"⟩] else [])
  else s.applyTo intent.kind target body w os

end PlacePort

end PalmEngine.Structure
