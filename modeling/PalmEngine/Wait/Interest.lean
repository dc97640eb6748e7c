import PalmEngine.Events.Payload

/-!
# Wait interests and target signals

An owner parks on a target, a kind with an id, and a completer announces itself by an event
that becomes a signal of that target. The open interests of a job are a dictionary by target,
in the order in which they were opened; kinds and ids have no blanks around them.
-/

namespace PalmEngine.Wait

open PalmEngine.Events PalmEngine.Lib

/-- The kind and the id an owner waits for. -/
abbrev Target := String × String

/-- What an open interest remembers beside its target. -/
structure WaitInterest where
  openedAt : String := ""
  onTargetFailed : String := "fail_owner"
  deriving DecidableEq, Repr

/-- How a target ended. -/
inductive TargetOutcome where
  | succeeded
  | failed
  | cancelled
  | ready
  deriving DecidableEq, Repr

/-- The outcomes that let an owner go on. -/
def TargetOutcome.isPositive : TargetOutcome → Bool
  | succeeded | ready => true
  | failed | cancelled => false

/-- A completer announced itself. -/
structure TargetSignal where
  kind : String
  targetId : String
  outcome : TargetOutcome
  eventType : String
  status : Option String := none
  deriving DecidableEq, Repr

/-- The target a signal is about. -/
def TargetSignal.target (signal : TargetSignal) : Target := (signal.kind, signal.targetId)

/-- A text in upper case. -/
def upper (s : String) : String := String.ofList (s.toList.map Char.toUpper)

/-- The outcome a status text stands for, if it is a final one. -/
def statusOutcome (status : Option String) : Option TargetOutcome :=
  match status.map upper with
  | some "SUCCEEDED" | some "SUCCESS" | some "DONE" | some "COMPLETED" => some .succeeded
  | some "FAILED" | some "ERROR" => some .failed
  | some "CANCELLED" | some "CANCELED" => some .cancelled
  | _ => none

/-- The signal of a job event whose outcome its type tells. -/
def jobSignal (eventType : String) (payload : Payload) (outcome : TargetOutcome)
    (status : Option String) : Option TargetSignal :=
  let jobId := payload.field "job_id"
  if jobId.truthy then
    some { kind := "job", targetId := jobId.str, outcome := outcome, eventType := eventType,
           status := status }
  else none

/-- The signal of a workload event: its id is under the first of three keys that has one. -/
def workloadSignal (eventType : String) (payload : Payload) (outcome : TargetOutcome)
    (status : Option String) : Option TargetSignal :=
  let wid := payload.either "workload_id" "target_id"
  let wid := if wid.truthy then wid else payload.field "id"
  if wid.truthy then
    some { kind := "workload", targetId := wid.str, outcome := outcome, eventType := eventType,
           status := status }
  else none

/-- A status with a text in place of a missing one. -/
def statusOr (payload : Payload) (missing : String) : Option String :=
  let status := payload.field "status"
  some (if status.truthy then status.str else missing)

/-- The outcome of a workload that stopped without a final status: its exit code decides. Nothing
when the code does not denote an integer. -/
def exitOutcome (payload : Payload) : Option TargetOutcome :=
  match payload.field "exit_code" with
  | .null => some .succeeded
  | v => v.toInt?.map fun n => if n = 0 then .succeeded else .failed

/-- The signal an event announces, if it is one of a completer. -/
def extractTargetSignal (eventType : String) (payload : Payload) : Option TargetSignal :=
  let status := payload.str? "status"
  match eventType with
  | "flow.session.succeeded" => jobSignal eventType payload .succeeded (statusOr payload "SUCCEEDED")
  | "flow.session.failed" => jobSignal eventType payload .failed (statusOr payload "FAILED")
  | "job.completed" | "job.status_changed" =>
    (statusOutcome status).bind fun outcome => jobSignal eventType payload outcome status
  | "workload.ready" => workloadSignal eventType payload .ready (statusOr payload "READY")
  | "workload.failed" => workloadSignal eventType payload .failed (statusOr payload "FAILED")
  | "workload.completed" | "workload.stopped" =>
    ((statusOutcome status).or (exitOutcome payload)).bind fun outcome =>
      workloadSignal eventType payload outcome status
  | _ => none

/-- What a signal does to an owner. -/
inductive WaitAction where
  | resumeOwner
  | failOwner
  | noop
  deriving DecidableEq, Repr

/-- The text of an action. -/
def WaitAction.value : WaitAction → String
  | resumeOwner => "resume_owner"
  | failOwner => "fail_owner"
  | noop => "noop"

/-- A positive outcome resumes the owner, a negative one fails it unless its interest says leave. -/
def resolveWaitAction (interest : WaitInterest) (signal : TargetSignal) : WaitAction :=
  if signal.outcome.isPositive then .resumeOwner
  else if interest.onTargetFailed = "leave" then .noop
  else .failOwner

/-- The key under which the matcher remembers that it acted. -/
def actedKey (owner : String) (target : Target) (action : WaitAction) : String :=
  owner ++ "|" ++ target.1 ++ "|" ++ target.2 ++ "|" ++ action.value

/-- The key of a failed owner is never the key of a resumed one. -/
theorem actedKey_fail_ne_resume (owner owner' : String) (target target' : Target) :
    actedKey owner target .failOwner ≠ actedKey owner' target' .resumeOwner := by
  intro h
  have hfail : "fail_owner".toList <:+ (actedKey owner target .failOwner).toList := by
    simp only [actedKey, String.toList_append, WaitAction.value]
    exact List.suffix_append _ _
  have hresume : "resume_owner".toList <:+ (actedKey owner target .failOwner).toList := by
    rw [h]
    simp only [actedKey, String.toList_append, WaitAction.value]
    exact List.suffix_append _ _
  have hsuffix := List.suffix_of_suffix_length_le hfail hresume (by decide)
  revert hsuffix
  decide

end PalmEngine.Wait
