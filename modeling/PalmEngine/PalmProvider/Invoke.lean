import PalmEngine.Lib.Pool
import PalmEngine.Orchestration.Job

/-!
# Palm calling Palm

An invocation of the palm provider enters a frame of the recursion guard, whose depth and chain are
context variables of the thread, and submits a child job or invokes a resource in it. A scheduler
drives a job either on the thread that submits or resumes it, or on a worker that takes it from a
queue; an invocation that waits drives its pending child itself.

A thread works on a stack of slices and invocations, the innermost first. What a flow does in a
slice is chosen by the environment. Beside the program's data a job and an invocation have a path,
which says by which invocations they came about, and the invocations that the guard has let through
are kept; neither decides anything.
-/

namespace PalmEngine.PalmProvider

open PalmEngine.Lib PalmEngine.Orchestration

/-- The context variables of the recursion guard. -/
structure RecursionContext where
  depth : ℕ := 0
  chain : List String := []
  deriving DecidableEq, Repr

/-- Why the recursion guard refuses a frame. -/
inductive RecursionGuardError where
  | cycle (key : String) (active : List String)
  | depth (depth : ℕ) (limit : ℤ) (key : String)
  deriving DecidableEq, Repr

/-- A chain key is made of the parts that are not empty. -/
def chainKey (parts : List String) : String := ":".intercalate (parts.filter (· ≠ ""))

/-- Enter a nested frame, unless its key is active already or it is too deep. -/
def recursionFrame (ctx : RecursionContext) (key : String) (maxDepth : ℤ) :
    Except RecursionGuardError RecursionContext :=
  if key ∈ ctx.chain then .error (.cycle key ctx.chain)
  else if (ctx.depth + 1 : ℤ) > maxDepth then .error (.depth (ctx.depth + 1) maxDepth key)
  else .ok ⟨ctx.depth + 1, ctx.chain ++ [key]⟩

/-- What an invocation is for. -/
structure PalmInvokeTarget where
  kind : String
  ref : String
  byId : Bool := false
  deriving DecidableEq, Repr

/-- The chain key of a target. -/
def PalmInvokeTarget.key (target : PalmInvokeTarget) : String := chainKey [target.kind, target.ref]

/-- How an invocation waits for its child job. -/
inductive WaitMode where
  | untilTerminal
  | untilInput
  | fireAndForget
  deriving DecidableEq, Repr

/-- Whether it waits at all. -/
def WaitMode.shouldWait (mode : WaitMode) : Bool := mode ≠ .fireAndForget

/-- Whether a job has come as far as a wait mode asks for. -/
def jobReady (status : JobStatus) : WaitMode → Bool
  | .fireAndForget => true
  | .untilInput => status.isTerminal || status = .waitingForInput
  | .untilTerminal => status.isTerminal

/-- The action of an invocation, its target, the limit for the depth and how it waits. -/
structure PalmInvoke where
  action : String
  target : PalmInvokeTarget
  maxDepth : ℤ
  waitMode : WaitMode
  deriving DecidableEq, Repr

/-- Whether an invocation is one of a resource, which runs in the same frame. -/
def PalmInvoke.isResource (call : PalmInvoke) : Bool :=
  call.action = "invoke_resource" || call.target.kind = "resource"

/-- A job with the metadata it was submitted with, if it is the child of an invocation, and whether
a slice of it is being driven. -/
structure PalmJob where
  status : JobStatus := .pending
  driving : Bool := false
  metadata : Option RecursionContext := none
  path : List PalmInvokeTarget := []
  deriving DecidableEq, Repr

/-- An invocation in its frame: the context variables to be restored, and the first job that was
submitted for it. -/
structure OpenInvoke where
  call : PalmInvoke
  saved : RecursionContext
  primary : Option ℕ := none
  path : List PalmInvokeTarget
  deriving DecidableEq, Repr

/-- What a thread is in the middle of. -/
inductive Activity where
  | slice (job : ℕ)
  | invocation (frame : OpenInvoke)
  deriving DecidableEq, Repr

/-- A thread with its context variables. -/
structure PalmThread where
  worker : Bool
  context : RecursionContext := {}
  stack : List Activity := []
  deriving DecidableEq, Repr

/-- A scheduler drives jobs on the thread of the caller or hands them to its workers. -/
inductive Scheduler where
  | inline
  | queued
  deriving DecidableEq, Repr

/-- The jobs by their numbers, the queue of the scheduler, and the invocations that the guard has
let through, with the path of what performed them. -/
structure PalmRuntime where
  jobs : List PalmJob := []
  queue : List ℕ := []
  accepted : List (List PalmInvokeTarget × PalmInvoke) := []
  deriving DecidableEq, Repr

/-- What a thread does next. -/
inductive PalmAction where
  /-- It submits a job that is not the child of an invocation. -/
  | submit
  /-- A worker takes the next job from the queue. -/
  | take
  /-- A slice, or a resource that is being invoked, invokes Palm. -/
  | invoke (call : PalmInvoke)
  /-- An invocation submits a job. -/
  | submitChild
  /-- An invocation looks whether its job is ready, and drives it if it is pending. -/
  | poll
  /-- An invocation returns or raises. -/
  | leave
  /-- A slice ends with a status. -/
  | finish (status : JobStatus)
  /-- A job that waits for input is resumed. -/
  | resume (job : ℕ)
  /-- A job is cancelled. -/
  | cancel (job : ℕ)
  deriving DecidableEq, Repr

namespace PalmRuntime

/-- Change a job. -/
def modifyJob (s : PalmRuntime) (j : ℕ) (f : PalmJob → PalmJob) : PalmRuntime :=
  { s with jobs := s.jobs.modify j f }

/-- Add a new job. -/
def addJob (s : PalmRuntime) (job : PalmJob) : PalmRuntime := { s with jobs := s.jobs ++ [job] }

/-- Whether a slice of a job can begin: it is known, has not ended and is not being driven. -/
def canDrive (s : PalmRuntime) (j : ℕ) : Bool :=
  (s.jobs[j]?).any fun job => !job.status.isTerminal && !job.driving

end PalmRuntime

/-- A job with a status, if its lifecycle has the transition. -/
def PalmJob.setStatus (job : PalmJob) (status : JobStatus) : PalmJob :=
  { job with status := if isValidTransition job.status status then status else job.status }

namespace PalmThread

variable (s : PalmRuntime) (thread : PalmThread)

/-- Begin a slice of a job on this thread, if that is possible. -/
def drive (j : ℕ) : PalmRuntime × PalmThread :=
  if s.canDrive j then
    (s.modifyJob j fun job => { job with driving := true },
      { thread with stack := .slice j :: thread.stack })
  else (s, thread)

/-- Hand a job to the scheduler. -/
def schedule (scheduler : Scheduler) (j : ℕ) : PalmRuntime × PalmThread :=
  match scheduler with
  | .inline => drive s thread j
  | .queued => ({ s with queue := s.queue ++ [j] }, thread)

/-- What performs an invocation on this thread came about by these invocations: the job of the
innermost slice, or the innermost invocation if it is one of a resource. -/
def performer : Option (List PalmInvokeTarget) :=
  match thread.stack with
  | .slice j :: _ => (s.jobs[j]?).map PalmJob.path
  | .invocation frame :: _ => if frame.call.isResource then some frame.path else none
  | [] => none

/-- Enter the frame of an invocation, unless the guard refuses it. -/
def enter (call : PalmInvoke) (path : List PalmInvokeTarget) : PalmRuntime × PalmThread :=
  match recursionFrame thread.context call.target.key call.maxDepth with
  | .error _ => (s, thread)
  | .ok context =>
    ({ s with accepted := s.accepted ++ [(path, call)] },
      { thread with
        context
        stack := .invocation ⟨call, thread.context, none, path ++ [call.target]⟩ :: thread.stack })

/-- One action of a thread. -/
def act (scheduler : Scheduler) : PalmAction → Option (PalmRuntime × PalmThread)
  | .submit => some (schedule (s.addJob {}) thread scheduler s.jobs.length)
  | .take =>
    match thread.worker, thread.stack, s.queue with
    | true, [], j :: queue => some (drive { s with queue } thread j)
    | _, _, _ => none
  | .invoke call => (performer s thread).map (enter s thread call)
  | .submitChild =>
    match thread.stack with
    | .invocation frame :: rest =>
      if frame.call.isResource then none
      else
        let frame' := { frame with primary := frame.primary <|> some s.jobs.length }
        some (schedule (s.addJob { metadata := some thread.context, path := frame.path })
          { thread with stack := .invocation frame' :: rest } scheduler s.jobs.length)
    | _ => none
  | .poll =>
    match thread.stack with
    | .invocation ⟨call, _, some j, _⟩ :: _ =>
      (s.jobs[j]?).bind fun job =>
        if call.waitMode.shouldWait && !jobReady job.status call.waitMode then
          some (if job.status = .pending then drive s thread j else (s, thread))
        else none
    | _ => none
  | .leave =>
    match thread.stack with
    | .invocation frame :: rest => some (s, { thread with context := frame.saved, stack := rest })
    | _ => none
  | .finish status =>
    match thread.stack with
    | .slice j :: rest =>
      some (s.modifyJob j fun job => { job.setStatus status with driving := false },
        { thread with stack := rest })
    | _ => none
  | .resume j =>
    (s.jobs[j]?).bind fun job =>
      if job.status = .waitingForInput then some (schedule s thread scheduler j) else none
  | .cancel j => some (s.modifyJob j fun job => job.setStatus .cancelled, thread)

end PalmThread

/-- Threads that share a runtime. -/
abbrev PalmPool := Pool PalmRuntime PalmThread

namespace PalmPool

/-- One action of the thread at a position. -/
def step (scheduler : Scheduler) (pool : PalmPool) (turn : ℕ × PalmAction) : Option PalmPool :=
  Pool.step (fun s thread => PalmThread.act s thread scheduler turn.2) pool turn.1

/-- A new runtime with any number of workers and of other threads. -/
def start (workers others : ℕ) : PalmPool :=
  ⟨{}, List.replicate workers { worker := true } ++ List.replicate others { worker := false }⟩

end PalmPool

end PalmEngine.PalmProvider
