import Mathlib

/-!
# Jobs, run results and one runner slice

The lifecycle table of a job, the locked part of `apply_result`, and the behavior-tree
runner cut at each call of `pattern.tick`. What a tick answers is chosen by the
environment. Executables, job state and results are opaque except where the code
inspects them; creation and completion timestamps are left out.
-/

namespace PalmEngine.Orchestration

/-- A job identifier. -/
abbrev JobId := String

/-- A Python exception, kept as its text. -/
abbrev PyError := String

/-- A job result value, kept as its text. -/
abbrev ResultValue := String

/-- Lifecycle states for an orchestrated job. -/
inductive JobStatus where
  | pending
  | running
  | waitingForInput
  | succeeded
  | failed
  | cancelled
  deriving DecidableEq, Repr

/-- The value a status is published under. -/
def JobStatus.value : JobStatus → String
  | pending => "PENDING"
  | running => "RUNNING"
  | waitingForInput => "WAITING_FOR_INPUT"
  | succeeded => "SUCCEEDED"
  | failed => "FAILED"
  | cancelled => "CANCELLED"

/-- The three states a job never leaves. -/
def JobStatus.isTerminal : JobStatus → Bool
  | succeeded | failed | cancelled => true
  | pending | running | waitingForInput => false

/-- The transition table, apart from staying in the same state. -/
def JobStatus.allowed : JobStatus → List JobStatus
  | pending => [running, succeeded, failed, waitingForInput, cancelled]
  | running => [succeeded, failed, waitingForInput, cancelled, running]
  | waitingForInput => [running, succeeded, failed, cancelled]
  | succeeded | failed | cancelled => []

/-- Staying put is always valid, moving only along the table. -/
def isValidTransition (old new : JobStatus) : Bool :=
  old = new || new ∈ old.allowed

/-- How a job should look after one runner invocation. -/
structure RunResult where
  status : JobStatus
  result : Option ResultValue := none
  error : Option PyError := none
  propagate : Bool := false
  deriving DecidableEq, Repr

/-- The fields of a job that the engine and the runner read or write. -/
structure Job where
  id : JobId
  isPattern : Bool
  status : JobStatus := .pending
  result : Option ResultValue := none
  error : Option PyError := none
  deriving DecidableEq, Repr

/-- A job is terminal with its status. -/
def Job.isTerminal (job : Job) : Bool := job.status.isTerminal

/-- Apply a lifecycle transition; result and error are only kept by a terminal one. -/
def Job.transitionTo (job : Job) (new : JobStatus) (result : Option ResultValue)
    (error : Option PyError) : Except PyError Job :=
  if !isValidTransition job.status new then
    .error ("Invalid transition for job " ++ job.id ++ ": " ++ job.status.value ++ " → " ++ new.value)
  else if new.isTerminal then
    .ok { job with status := new, result := result <|> job.result, error := error <|> job.error }
  else
    .ok { job with status := new }

/-- What the locked part of `apply_result` did with a result. -/
inductive Applied where
  | ignored
  | invalid (e : PyError)
  | applied (job : Job)
  deriving DecidableEq, Repr

/-- The part of `apply_result` under the engine lock: a terminal job keeps its status, another
status is a transition, and the same status only refreshes result and error. -/
def applyLocked (job : Job) (r : RunResult) : Applied :=
  if job.isTerminal && r.status ≠ job.status then .ignored
  else if r.status ≠ job.status then
    match job.transitionTo r.status r.result r.error with
    | .ok job' => .applied job'
    | .error e => .invalid e
  else .applied { job with result := r.result <|> job.result, error := r.error <|> job.error }

/-- A terminal result is never refused by the transition table: the job ends, or had ended. -/
theorem applyLocked_terminal {job : Job} {r : RunResult} (h : r.status.isTerminal = true) :
    (applyLocked job r = .ignored ∧ job.isTerminal = true) ∨
      ∃ job', applyLocked job r = .applied job' ∧ job'.status = r.status := by
  unfold applyLocked Job.transitionTo
  cases hj : job.status <;> cases hr : r.status <;> rw [hr] at h <;>
    simp_all [Job.isTerminal, JobStatus.isTerminal, isValidTransition, JobStatus.allowed]

/-- Only a terminal job with another status makes `apply_result` return without effect. -/
theorem applyLocked_ignored {job : Job} {r : RunResult} (h : applyLocked job r = .ignored) :
    job.isTerminal = true ∧ r.status ≠ job.status := by
  unfold applyLocked at h
  split at h
  · rename_i hcond
    simpa using hcond
  · split at h
    · split at h <;> cases h
    · cases h

/-- An applied result leaves the job in the result's status. -/
theorem applyLocked_applied {job job' : Job} {r : RunResult} (h : applyLocked job r = .applied job') :
    job'.status = r.status ∧ job'.isPattern = job.isPattern ∧
      (job.isTerminal = true → job'.status = job.status) := by
  unfold applyLocked at h
  split at h
  · cases h
  · rename_i hne
    split at h
    · rename_i hstatus
      split at h
      · rename_i job'' heq
        cases h
        unfold Job.transitionTo at heq
        split at heq
        · cases heq
        · have hnot : job.isTerminal = false := by simpa [hstatus] using hne
          split at heq <;> cases heq <;> exact ⟨rfl, rfl, by simp [hnot]⟩
      · cases h
    · rename_i hstatus
      cases h
      have heq : r.status = job.status := by simpa using hstatus
      exact ⟨heq.symm, rfl, fun _ => rfl⟩

/-- One answer of `pattern.tick`, with the values the runner reads from job state after it. -/
inductive TickOutcome where
  | waiting
  | success (result : Option ResultValue)
  | failure (error : Option PyError)
  | running
  | raised (e : PyError)
  deriving DecidableEq, Repr

/-- What the runner does before its first tick: return or raise at once, or start ticking. -/
inductive RunStart where
  | returned (r : RunResult)
  | raised (e : PyError)
  | ticking (left : ℕ) (logical : JobStatus)
  deriving DecidableEq, Repr

/-- `BehaviorTreeRunner.run` up to its tick loop. -/
def runnerStart (budget : Int) (job : Job) : RunStart :=
  if job.isTerminal then .returned { status := job.status, result := job.result }
  else if !job.isPattern then
    .returned { status := .failed, propagate := true,
                error := some "BehaviorTreeRunner requires a BasePattern executable" }
  else if budget < 1 then .raised "budget must be >= 1"
  else .ticking budget.toNat (if job.status = .pending then .running else job.status)

/-- A runner that returns without ticking ends the job, or found it ended. -/
theorem runnerStart_returned {budget : Int} {job : Job} {r : RunResult}
    (h : runnerStart budget job = .returned r) : r.status.isTerminal = true := by
  unfold runnerStart at h
  split at h
  · rename_i hterm
    cases h
    exact hterm
  · split at h
    · cases h
      rfl
    · split at h <;> cases h

/-- A runner raises before its first tick only for a pattern under a budget below one. -/
theorem runnerStart_raised {budget : Int} {job : Job} {e : PyError}
    (h : runnerStart budget job = .raised e) :
    job.isTerminal = false ∧ job.isPattern = true ∧ budget < 1 := by
  unfold runnerStart at h
  split at h
  · cases h
  · split at h
    · cases h
    · split at h
      · simp_all
      · cases h

/-- The loop body after one tick: the slice's result, or none to keep ticking. -/
def tickResult : TickOutcome → Option RunResult
  | .raised e => some { status := .failed, error := some e, propagate := true }
  | .waiting => some { status := .waitingForInput }
  | .success result => some { status := .succeeded, result := result }
  | .failure error => some { status := .failed, error := error <|> some "pattern failed" }
  | .running => none

/-- The result of a slice whose tick budget ran out. -/
def exhaustedResult (logical : JobStatus) : RunResult :=
  if logical = .running then { status := .running }
  else { status := .failed, error := some "pattern did not reach a terminal status" }

end PalmEngine.Orchestration
