import PalmEngine.Events.Payload
import PalmEngine.Workloads.Status

/-!
# Workload records

What is asked of a workload, who owns it, and what is recorded of it while it lives. Beside its
record a workload has a history: the statuses it has had and the events published about it. The
history is not part of the program and decides nothing; it lets a property of whole lives be
said of one state.
-/

namespace PalmEngine.Workloads

open PalmEngine.Lib PalmEngine.Events

/-- The kinds of allocation. -/
inductive WorkloadKind where
  | run
  | service
  | workspace
  deriving DecidableEq, Repr

/-- Where foreign work may run. -/
inductive IsolationPolicy where
  | host
  | hermetic
  | bestEffort
  deriving DecidableEq, Repr

/-- The text of a policy. -/
def IsolationPolicy.text : IsolationPolicy → String
  | host => "host"
  | hermetic => "hermetic"
  | bestEffort => "best_effort"

/-- Who stops the allocation. -/
inductive LifecyclePolicy where
  | job
  | session
  | lease
  deriving DecidableEq, Repr

/-- The constraints on the place of a workload. -/
structure WorkloadPlacement where
  hostId : Option String := none
  runtime : Option String := none
  rejectRuntimes : List String := []

/-- What is asked of a workload, as far as the engine reads it. -/
structure WorkloadSpec where
  kind : WorkloadKind
  isolation : IsolationPolicy
  lifecycle : LifecyclePolicy
  labels : Dict String String := .empty
  placement : WorkloadPlacement := {}

/-- Who started a workload. -/
structure WorkloadOwner where
  jobId : Option String := none
  instanceId : Option String := none
  leaseId : Option String := none
  sessionId : Option String := none
  createdByPalm : Bool := true
  deriving DecidableEq, Repr

/-- The owners that are asked for. -/
structure OwnerFilter where
  jobId : Option String := none
  instanceId : Option String := none
  sessionId : Option String := none
  deriving DecidableEq, Repr

/-- Whether nothing is asked for. -/
def OwnerFilter.isEmpty (f : OwnerFilter) : Bool :=
  f.jobId.isNone && f.instanceId.isNone && f.sessionId.isNone

/-- Whether an owner is one of those asked for. -/
def WorkloadOwner.matches (o : WorkloadOwner) (f : OwnerFilter) : Bool :=
  f.isEmpty || f.jobId.any (o.jobId = some ·) || f.instanceId.any (o.instanceId = some ·) ||
    f.sessionId.any (o.sessionId = some ·)

/-- How to reach a workload. -/
structure WorkloadHandle where
  workloadId : String
  baseUrl : Option String := none
  endpoints : Dict String String := .empty
  connectionHints : Payload := .empty

/-- The outcome of a run or of a command. -/
structure WorkloadResult where
  exitCode : ℤ
  stdoutTail : String := ""
  stderrTail : String := ""
  artifactRefs : List String := []
  runtimeMeta : Payload := .empty
  error : Option String := none

/-- Whether an outcome is a success. -/
def WorkloadResult.success (r : WorkloadResult) : Bool := r.exitCode = 0 && r.error.isNone

/-- The outcome of what failed in a runtime. -/
def WorkloadResult.fail (error runtime : String) : WorkloadResult where
  exitCode := 1
  error := some error
  runtimeMeta := Dict.empty.set "runtime" (.text runtime)

/-- What a runtime returns of a start or a poll. -/
structure RuntimeOutcome where
  status : WorkloadStatus
  handle : Option WorkloadHandle := none
  result : Option WorkloadResult := none
  message : Option String := none
  runtimeMeta : Payload := .empty

/-- What a runtime returns of a stop. -/
structure RuntimeStopOutcome where
  status : WorkloadStatus
  result : Option WorkloadResult := none
  message : Option String := none
  leaked : Bool := false
  runtimeMeta : Payload := .empty

/-- The record of a workload. -/
structure Workload where
  workloadId : String
  spec : WorkloadSpec
  status : WorkloadStatus
  runtime : String
  owner : WorkloadOwner
  handle : Option WorkloadHandle := none
  result : Option WorkloadResult := none
  hostId : Option String := none
  message : Option String := none
  createdAt : String
  updatedAt : String
  idempotencyKey : Option String := none
  runtimeMeta : Payload := .empty
  leakRecorded : Bool := false

namespace Workload

/-- Note the time of a change. -/
def touch (wl : Workload) (now : String) : Workload := { wl with updatedAt := now }

/-- Note a message, if there is one. -/
def noteMessage (wl : Workload) (message : Option String) : Workload :=
  if message.isSome then { wl with message := message } else wl

/-- Merge what the runtime tells about itself. -/
def updateMeta (wl : Workload) (runtimeMeta : Payload) : Workload :=
  { wl with runtimeMeta :=
      runtimeMeta.entries.foldl (fun merged e => merged.set e.1 e.2) wl.runtimeMeta }

/-- Note what a start or a poll returned, its status apart. -/
def noteOutcome (wl : Workload) (outcome : RuntimeOutcome) : Workload :=
  { wl with
    handle := outcome.handle <|> wl.handle
    result := outcome.result <|> wl.result }.updateMeta outcome.runtimeMeta

/-- Note what a stop returned, its status apart. -/
def noteStopOutcome (wl : Workload) (outcome : RuntimeStopOutcome) : Workload :=
  { wl with
    leakRecorded := outcome.leaked || wl.leakRecorded
    result := outcome.result <|> wl.result }.updateMeta outcome.runtimeMeta

@[simp] theorem noteMessage_status (wl : Workload) (message : Option String) :
    (wl.noteMessage message).status = wl.status := by
  unfold noteMessage
  split <;> rfl

end Workload

/-- The events about workloads. -/
inductive WorkloadEventType where
  | started
  | ready
  | failed
  | stopped
  deriving DecidableEq, Repr

/-- The name of an event. -/
def WorkloadEventType.text : WorkloadEventType → String
  | started => "workload.started"
  | ready => "workload.ready"
  | failed => "workload.failed"
  | stopped => "workload.stopped"

/-- The events that end a life. -/
def WorkloadEventType.terminal (t : WorkloadEventType) : Bool := t = failed ∨ t = stopped

/-- A published event. -/
structure WorkloadEvent where
  eventType : WorkloadEventType
  workloadId : String
  status : WorkloadStatus
  runtime : String
  kind : WorkloadKind
  owner : WorkloadOwner
  labels : Dict String String
  hostId : Option String
  exitCode : Option ℤ
  artifactRefs : Option (List String)

/-- What an event tells about a workload. -/
def Workload.event (wl : Workload) (eventType : WorkloadEventType) : WorkloadEvent where
  eventType := eventType
  workloadId := wl.workloadId
  status := wl.status
  runtime := wl.runtime
  kind := wl.spec.kind
  owner := wl.owner
  labels := wl.spec.labels
  hostId := wl.hostId
  exitCode := wl.result.map (·.exitCode)
  artifactRefs := (wl.result.map (·.artifactRefs)).filter (· ≠ [])

/-- A record with its history: the statuses it has had and the events published about it, both in
order. -/
structure Tracked where
  record : Workload
  statuses : List WorkloadStatus
  events : List WorkloadEvent

namespace Tracked

/-- A new record. -/
def fresh (wl : Workload) : Tracked := ⟨wl, [wl.status], []⟩

/-- The status after the last one. -/
def moved (t : Tracked) (next : WorkloadStatus) : Tracked :=
  { t with record := { t.record with status := next }, statuses := t.statuses ++ [next] }

/-- The event after the last one. -/
def told (t : Tracked) (eventType : WorkloadEventType) : Tracked :=
  { t with events := t.events ++ [t.record.event eventType] }

/-- How often the end of the workload was published. -/
def ends (t : Tracked) : ℕ := t.events.countP (·.eventType.terminal)

/-- A record in a status, after so many events about its end: every status is allowed after the
one before it, and the last one is that of the record. -/
structure At (status : WorkloadStatus) (ends : ℕ) (t : Tracked) : Prop where
  status_eq : t.record.status = status
  current : t.statuses.getLast? = some status
  chain : t.statuses.IsChain fun a b => b ∈ allowed a
  ends_eq : t.ends = ends

/-- A new record is in its status. -/
theorem fresh_at (wl : Workload) : (fresh wl).At wl.status 0 where
  status_eq := rfl
  current := rfl
  chain := .singleton _
  ends_eq := rfl

/-- An allowed change of the status. -/
theorem At.moved {status next : WorkloadStatus} {n : ℕ} {t : Tracked} (h : t.At status n)
    (hnext : next ∈ allowed status) : (t.moved next).At next n where
  status_eq := rfl
  current := List.getLast?_concat
  chain := by
    refine List.isChain_append.mpr ⟨h.chain, .singleton _, ?_⟩
    intro a ha b hb
    rw [h.current] at ha
    cases ha
    cases hb
    exact hnext
  ends_eq := h.ends_eq

/-- A published event. -/
theorem At.told {status : WorkloadStatus} {n : ℕ} {t : Tracked} (h : t.At status n)
    (eventType : WorkloadEventType) :
    (t.told eventType).At status (n + if eventType.terminal then 1 else 0) where
  status_eq := h.status_eq
  current := h.current
  chain := h.chain
  ends_eq := by
    rw [ends, Tracked.told, List.countP_append, ← ends, h.ends_eq]
    simp [List.countP_cons, Workload.event]

/-- A change of the record that leaves the status. -/
theorem At.record {status : WorkloadStatus} {n : ℕ} {t : Tracked} (h : t.At status n)
    (wl : Workload) (hstatus : wl.status = t.record.status) :
    ({ t with record := wl } : Tracked).At status n where
  status_eq := hstatus.trans h.status_eq
  current := h.current
  chain := h.chain
  ends_eq := h.ends_eq

end Tracked

end PalmEngine.Workloads
