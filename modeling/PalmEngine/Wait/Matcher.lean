import PalmEngine.Lib.Recent
import PalmEngine.Lib.Runs
import PalmEngine.Orchestration.Job
import PalmEngine.Wait.Interest

/-!
# The wait plane and its matcher

Handling a signal holds the matcher's lock, so it is one step; between two of them any thread
may open and close interests and change jobs. What the scheduler does when it is asked to
resume a job is a parameter of the step: the queued scheduler puts a work item, the inline one
drives the job at once. A job that fails while a signal is handled publishes its own end, which
the matcher handles before it goes on.
-/

namespace PalmEngine.Wait

open PalmEngine.Events PalmEngine.Lib PalmEngine.Orchestration

/-- A job as the plane sees it: its status and its open interests in the order of their opening. -/
structure WaitJob where
  status : JobStatus := .pending
  waits : Dict Target WaitInterest := .empty

/-- The bounds of the two memories of the matcher. -/
def maxSeenEventIds : ℕ := 512
def maxActedKeys : ℕ := 512

/-- The jobs of the engine, the index from targets to owners, the memories of the matcher, whether
the plane may resume, and the resumptions asked of the scheduler so far. -/
structure WaitPlane where
  jobs : Dict String WaitJob := .empty
  index : List (Target × String) := []
  acted : Recent String maxActedKeys := .empty
  seen : Recent String maxSeenEventIds := .empty
  able : Bool := false
  refusedResumes : ℕ := 0
  published : ℕ := 0
  queue : List String := []
  resumed : List String := []

namespace WaitPlane

/-- Change one job. -/
def modifyJob (s : WaitPlane) (id : String) (f : WaitJob → WaitJob) : WaitPlane :=
  { s with jobs := s.jobs.modify id f }

/-- The status of a job, if the engine has it. -/
def status? (s : WaitPlane) (id : String) : Option JobStatus :=
  (s.jobs.get? id).map WaitJob.status

/-- The open interest of a job on a target. -/
def openInterest? (s : WaitPlane) (id : String) (target : Target) : Option WaitInterest :=
  (s.jobs.get? id).bind fun job => job.waits.get? target

/-- Add an owner of a target to the index. -/
def register (s : WaitPlane) (owner : String) (target : Target) : WaitPlane :=
  if (target, owner) ∈ s.index then s else { s with index := s.index ++ [(target, owner)] }

/-- Remove an owner of a target from the index. -/
def unregister (s : WaitPlane) (owner : String) (target : Target) : WaitPlane :=
  { s with index := s.index.filter (· ≠ (target, owner)) }

/-- Record an open wait on a job: it takes the place of one on the same target, unless told to
leave that one. -/
def openWait (s : WaitPlane) (id : String) (target : Target) (interest : WaitInterest)
    (replaceSameTarget : Bool) : WaitPlane :=
  s.modifyJob id fun job => { job with
    waits := if replaceSameTarget then job.waits.set target interest
      else job.waits.setDefault target interest }

/-- Remove the open wait of a job on a target. -/
def closeWait (s : WaitPlane) (id : String) (target : Target) : WaitPlane :=
  s.modifyJob id fun job => { job with waits := job.waits.erase target }

/-- Remove the interest of an owner from the index and from its job. -/
def closeInterest (s : WaitPlane) (owner : String) (target : Target) : WaitPlane :=
  (s.unregister owner target).closeWait owner target

/-- The owners of a target: those in the index, and those found by scanning the jobs. -/
def owners (s : WaitPlane) (target : Target) : List String :=
  let indexed := (s.index.filter (·.1 = target)).map Prod.snd
  let scanned := (s.jobs.entries.filter fun e => (e.2.waits.get? target).isSome).map Prod.fst
  (indexed ++ scanned).dedup.insertionSort (· ≤ ·)

/-- What the scheduler does when it is asked to resume a waiting job. -/
abbrev Resume := WaitPlane → String → WaitPlane

/-- The queued scheduler puts a work item. -/
def enqueueWork : Resume := fun s id => { s with queue := s.queue ++ [id] }

/-- Ask the scheduler to resume a job. -/
def resumeJob (resume : Resume) (s : WaitPlane) (id : String) : WaitPlane :=
  resume { s with resumed := s.resumed ++ [id] } id

section Matching

variable (fail : WaitPlane → String → WaitPlane) (resume : Resume)

/-- The plane resumes an owner: it delivers, closes the interest, and then has a waiting job
resumed. A plane that is not able fails the owner instead. -/
def resumeOwner (s : WaitPlane) (owner : String) (target : Target) : WaitPlane :=
  match s.status? owner with
  | none => s
  | some status =>
    if s.able then
      let s := (s.closeWait owner target).unregister owner target
      if status = .waitingForInput then resumeJob resume s owner else s
    else
      let s := { s with refusedResumes := s.refusedResumes + 1 }
      let s := if status.isTerminal then s else fail s owner
      (s.closeWait owner target).unregister owner target

/-- The plane fails an owner that has not ended. -/
def failOwner (s : WaitPlane) (owner : String) : WaitPlane :=
  match s.status? owner with
  | none => s
  | some status => if status.isTerminal then s else fail s owner

/-- The reaction of one owner to a signal. -/
def matchOneOwner (signal : TargetSignal) (s : WaitPlane) (owner : String) : WaitPlane :=
  match s.openInterest? owner signal.target with
  | none => s.unregister owner signal.target
  | some interest =>
    let action := resolveWaitAction interest signal
    if action = .noop then s
    else
      let (isNew, acted) := s.acted.add (actedKey owner signal.target action)
      let s := { s with acted := acted }
      if isNew then
        let s := match action with
          | .resumeOwner => resumeOwner fail resume s owner signal.target
          | .failOwner => failOwner fail s owner
          | .noop => s
        s.closeInterest owner signal.target
      else s

/-- The loop of the matcher over the owners of the target. -/
def handleSignalWith (s : WaitPlane) (signal : TargetSignal) : WaitPlane :=
  (s.owners signal.target).foldl (matchOneOwner fail resume signal) s

/-- An event reaches the matcher: one with an id seen before is ignored. -/
def handleEventWith (s : WaitPlane) (eventId : Option String) (eventType : String)
    (payload : Payload) : WaitPlane :=
  let signalled (s : WaitPlane) := match extractTargetSignal eventType payload with
    | none => s
    | some signal => handleSignalWith fail resume s signal
  match eventId with
  | none => signalled s
  | some id =>
    let (isNew, seen) := s.seen.add id
    if isNew then signalled { s with seen := seen } else { s with seen := seen }

end Matching

/-- The payload of the engine's job events. -/
def jobPayload (id : String) (status : JobStatus) : Payload :=
  (Dict.empty.set "job_id" (.text id)).set "status" (.text status.value)

/-- The event types under which the engine publishes that a job failed, and that the matcher
subscribes to. -/
def failedEvents : List String := ["job.status_changed", "job.completed", "flow.session.failed"]

/-- Publish one event of a failed job: the matcher handles it at once. Ids of events are unique. -/
def publishOne (handle : WaitPlane → Option String → String → Payload → WaitPlane) (id : String)
    (s : WaitPlane) (eventType : String) : WaitPlane :=
  handle { s with published := s.published + 1 } (some ("event-" ++ toString s.published)) eventType
    (jobPayload id .failed)

/-- Publish that a job failed. -/
def publishFailed (handle : WaitPlane → Option String → String → Payload → WaitPlane)
    (s : WaitPlane) (id : String) : WaitPlane :=
  failedEvents.foldl (publishOne handle id) s

/-- The status change of a failed result. -/
def setFailed (s : WaitPlane) (id : String) : WaitPlane :=
  s.modifyJob id fun job => { job with status := .failed }

/-- Apply a failed result to a job that has not ended, with a bound on the nesting of failures. -/
def failJob (resume : Resume) : ℕ → WaitPlane → String → WaitPlane
  | 0, s, id => s.setFailed id
  | fuel + 1, s, id =>
    publishFailed (handleEventWith (failJob resume fuel) resume) (s.setFailed id) id

/-- Apply a failed result to a job that has not ended. -/
def applyFailed (resume : Resume) (s : WaitPlane) (id : String) : WaitPlane :=
  failJob resume s.jobs.keys.length s id

/-- Handle a signal. -/
def handleSignal (resume : Resume) (s : WaitPlane) (signal : TargetSignal) : WaitPlane :=
  handleSignalWith (applyFailed resume) resume s signal

/-- Handle an event. -/
def handleEvent (resume : Resume) (s : WaitPlane) (eventId : Option String) (eventType : String)
    (payload : Payload) : WaitPlane :=
  handleEventWith (applyFailed resume) resume s eventId eventType payload

/-- Drop every index entry of an owner. -/
def unregisterAll (s : WaitPlane) (owner : String) : WaitPlane :=
  { s with index := s.index.filter (·.2 ≠ owner) }

/-- Register the open interests of a job. -/
def registerWaits (s : WaitPlane) (owner : String) : WaitPlane :=
  ((s.jobs.get? owner).map fun job => job.waits.keys).getD [] |>.foldl (·.register owner ·) s

/-- Rebuild the index from the open interests of all jobs. -/
def rebuildIndex (s : WaitPlane) : WaitPlane :=
  s.jobs.keys.foldl registerWaits { s with index := [] }

end WaitPlane

/-- One call into the plane, or a change by the engine or a job. -/
inductive WaitLabel where
  | addJob (id : String) (job : WaitJob)
  | evictJob (id : String)
  | setStatus (id : String) (status : JobStatus)
  | openOnJob (id : String) (target : Target) (interest : WaitInterest)
      (replaceSameTarget indexed : Bool)
  | closeOnJob (id : String) (target : Target)
  | rehydrateJob (id : String)
  | rebuildIndex
  | setAble (able : Bool)
  | takeWork
  | signal (signal : TargetSignal) (resume : WaitPlane.Resume)
  | event (eventId : Option String) (eventType : String) (payload : Payload)
      (resume : WaitPlane.Resume)

/-- The plane after a step. -/
def WaitPlane.step (s : WaitPlane) : WaitLabel → Option WaitPlane
  | .addJob id job =>
    if (s.jobs.get? id).isSome then none else some { s with jobs := s.jobs.set id job }
  | .evictJob id => some { s with jobs := s.jobs.erase id }
  | .setStatus id status =>
    (s.status? id).bind fun old =>
      if isValidTransition old status then
        some (s.modifyJob id fun job => { job with status := status })
      else none
  | .openOnJob id target interest replaceSameTarget indexed =>
    (s.status? id).map fun _ =>
      let s := s.openWait id target interest replaceSameTarget
      if indexed then s.register id target else s
  | .closeOnJob id target => some ((s.closeWait id target).unregister id target)
  | .rehydrateJob id => some ((s.unregisterAll id).registerWaits id)
  | .rebuildIndex => some s.rebuildIndex
  | .setAble able => some { s with able := able }
  | .takeWork => some { s with queue := s.queue.tail }
  | .signal signal resume => some (s.handleSignal resume signal)
  | .event eventId eventType payload resume => some (s.handleEvent resume eventId eventType payload)

end PalmEngine.Wait
