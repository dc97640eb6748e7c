import Mathlib.Data.List.Basic
import Mathlib.Data.Finset.Insert

/-!
# The life cycle of a workload

The statuses of a workload and the transitions that are allowed between them. Stopped and failed
workloads stay as they are.
-/

namespace PalmEngine.Workloads

/-- The statuses of a workload. -/
inductive WorkloadStatus where
  | pending
  | starting
  | running
  | ready
  | stopping
  | stopped
  | failed
  deriving DecidableEq, Repr

/-- The text of a status. -/
def WorkloadStatus.text : WorkloadStatus → String
  | pending => "PENDING"
  | starting => "STARTING"
  | running => "RUNNING"
  | ready => "READY"
  | stopping => "STOPPING"
  | stopped => "STOPPED"
  | failed => "FAILED"

/-- The statuses allowed after each. -/
def allowed : WorkloadStatus → List WorkloadStatus
  | .pending => [.starting, .failed]
  | .starting => [.running, .ready, .stopped, .failed, .stopping]
  | .running => [.ready, .stopping, .stopped, .failed]
  | .ready => [.running, .stopping, .stopped, .failed]
  | .stopping => [.stopped, .failed]
  | .stopped => []
  | .failed => []

/-- Whether a status may be followed by another, or is the same. -/
def canTransition (current next : WorkloadStatus) : Bool :=
  current = next ∨ next ∈ allowed current

/-- The statuses that stay. -/
def isTerminal (status : WorkloadStatus) : Bool := status = .stopped ∨ status = .failed

/-- Commands may run only on a ready workload. -/
def isExecAllowed (status : WorkloadStatus) : Bool := status = .ready

/-- The terminal statuses are those without a next one. -/
theorem isTerminal_iff (status : WorkloadStatus) : isTerminal status ↔ allowed status = [] := by
  cases status <;> decide

/-- Every workload that has not ended may fail. -/
theorem canTransition_failed {status : WorkloadStatus} (h : isTerminal status = false) :
    canTransition status .failed := by
  cases status <;> first | decide | cases h

/-- A started workload that has not ended may be stopped. -/
theorem canTransition_stopping {status : WorkloadStatus} (h : isTerminal status = false)
    (hstarted : status ≠ .pending) : canTransition status .stopping := by
  cases status <;> first | exact absurd rfl hstarted | decide | cases h

end PalmEngine.Workloads
