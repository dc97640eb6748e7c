import PalmEngine.Lib.DistinctList
import PalmEngine.Lib.Strip
import PalmEngine.Lib.Triple
import PalmEngine.Workloads.Record

/-!
# The workload engine

The engine records workloads and drives them through runtimes. What the runtimes, the runtime
factory and the clock answer during one call of the engine is given to the call; a runtime may
raise from every one of its operations. Part of a call is about one workload: it is a program over
the record of that workload and the runtimes bound so far.
-/

namespace PalmEngine.Workloads

open PalmEngine.Lib PalmEngine.Events

/-- A name in a message. -/
def quoted (name : String) : String := "'" ++ name ++ "'"

/-- The errors that the operations raise; `raised` is one that a runtime or the factory raised. -/
inductive WorkloadError where
  | illegalTransition (current next : WorkloadStatus) (workloadId : String)
  | state (text : String)
  | placement (text : String)
  | policy (text : String)
  | notFound (workloadId : String)
  | spec (text : String)
  | raised (text : String)
  deriving DecidableEq, Repr

/-- The text of an error. -/
def WorkloadError.text : WorkloadError → String
  | illegalTransition current next workloadId =>
    "Illegal status transition " ++ current.text ++ " → " ++ next.text ++ " for workload " ++
      quoted workloadId
  | notFound workloadId => "Unknown workload " ++ quoted workloadId
  | state t | placement t | policy t | spec t | raised t => t

/-- Whether an error is that of an illegal transition. -/
def WorkloadError.IsIllegalTransition : WorkloadError → Prop
  | illegalTransition _ _ _ => True
  | _ => False

/-- A runtime, as it answers during one call. -/
structure Runtime where
  name : String
  isEnabled : Except String Bool
  isolationModes : Except String (Finset IsolationPolicy)
  start : String → Except String RuntimeOutcome
  poll : String → Except String RuntimeOutcome
  stop : String → Except String RuntimeStopOutcome
  exec : String → List String → Except String WorkloadResult

/-- What one call finds outside: the time, an id that may be drawn, the runtimes by the names
under which they are bound, and whether the factory makes one. -/
structure World where
  now : String
  freshId : String
  runtime : String → Runtime
  factory : String → Except String Unit

/-- The setting of one call: whether events are published, the factory if there is one, and the
world. -/
structure Context where
  publishes : Bool
  hasFactory : Bool
  world : World

/-- The bound runtimes with that of a name, made by the factory if it is not bound. -/
def Context.resolveRuntime (c : Context) (runtimes : Finset String) (name : String) :
    Except WorkloadError (Finset String) :=
  if name ∈ runtimes then .ok runtimes
  else if c.hasFactory then
    match c.world.factory name with
    | .ok _ => .ok (insert name runtimes)
    | .error text => .error (.raised text)
  else .error (.placement ("workload runtime " ++ quoted name ++ " is not bound"))

/-- What the part of a call that is about one workload works on. -/
structure Scope where
  runtimes : Finset String
  tracked : Tracked

/-- A program over the record of one workload. -/
abbrev RecordM := EStateM WorkloadError Scope

section Record

/-- The record. -/
def record : RecordM Workload := do
  return (← get).tracked.record

/-- Change the record, its status apart. -/
def change (f : Workload → Workload) : RecordM Unit :=
  modify fun s => { s with tracked := { s.tracked with record := f s.tracked.record } }

variable (c : Context)

/-- Bind the runtime of a name. -/
def bindRuntime (name : String) : RecordM Unit := do
  let s ← get
  match c.resolveRuntime s.runtimes name with
  | .ok runtimes => set { s with runtimes := runtimes }
  | .error e => throw e

/-- Give the workload a next status. -/
def transition (next : WorkloadStatus) (message : Option String) : RecordM Unit := do
  let wl ← record
  if wl.status = next then
    change fun wl => (wl.noteMessage message).touch c.world.now
  else if ¬ canTransition wl.status next then
    throw (.illegalTransition wl.status next wl.workloadId)
  else
    modify fun s => { s with tracked := s.tracked.moved next }
    change fun wl => (wl.noteMessage message).touch c.world.now

/-- Publish an event, if events are published. -/
def emit (eventType : WorkloadEventType) : RecordM Unit :=
  modify fun s => if c.publishes then { s with tracked := s.tracked.told eventType } else s

/-- The workload failed with an error that its runtime raised. -/
def fail (error : String) : RecordM Unit := do
  transition c .failed (some error)
  change fun wl => { wl with result := some (.fail error wl.runtime) }
  emit c .failed

/-- Publish that a status was reached. -/
def announce : WorkloadStatus → RecordM Unit
  | .ready => emit c .ready
  | .failed => emit c .failed
  | .stopped => emit c .stopped
  | _ => return ()

/-- Apply what the runtime returned of a start. -/
def applyStartOutcome (outcome : RuntimeOutcome) : RecordM Unit := do
  change (·.noteOutcome outcome)
  let wl ← record
  if ¬ canTransition wl.status outcome.status ∧ outcome.status ≠ wl.status then
    transition c .failed
      (some ("Runtime returned illegal status " ++ outcome.status.text ++ " from STARTING"))
    emit c .failed
  else
    transition c outcome.status outcome.message
    announce c outcome.status

/-- Apply what the runtime returned of a poll. -/
def applyPollOutcome (outcome : RuntimeOutcome) : RecordM Unit := do
  change (·.noteOutcome outcome)
  let wl ← record
  if outcome.status = wl.status then
    change (·.touch c.world.now)
  else if ¬ canTransition wl.status outcome.status then
    transition c .failed
      (some ("Illegal poll transition " ++ wl.status.text ++ " → " ++ outcome.status.text))
    emit c .failed
  else
    transition c outcome.status outcome.message
    announce c outcome.status

/-- What follows the start of the runtime. -/
def afterStart : Except String RuntimeOutcome → RecordM Unit
  | .error error => fail c error
  | .ok outcome => applyStartOutcome c outcome

/-- What follows the poll of the runtime. -/
def afterPoll : Except String RuntimeOutcome → RecordM Unit
  | .error error => fail c error
  | .ok outcome => applyPollOutcome c outcome

/-- What follows a command in the runtime, on a workload that was in a status before. -/
def afterExec (prior : WorkloadStatus) (runtime : String) :
    Except String WorkloadResult → RecordM WorkloadResult
  | .error error => do
    fail c error
    return .fail error runtime
  | .ok result => do
    change fun wl => { wl with result := some result }
    transition c (if result.success then prior else .ready)
      (if result.success then none else result.error)
    return result

/-- What follows the stop of the runtime. -/
def afterStop : Except String RuntimeStopOutcome → RecordM Unit
  | .error error => do
    change fun wl => { wl with leakRecorded := true }
    fail c error
  | .ok outcome => do
    change (·.noteStopOutcome outcome)
    let target :=
      if outcome.status = .stopped ∨ outcome.status = .failed then outcome.status else .stopped
    transition c target outcome.message
    let wl ← record
    emit c (if wl.status = .failed then .failed else .stopped)

/-- Start the recorded workload. -/
def launch (wid : String) : RecordM Workload := do
  transition c .starting none
  emit c .started
  let wl ← record
  afterStart c ((c.world.runtime wl.runtime).start wid)
  record

/-- Bind the body of a workload that has no runtime. -/
def rebind (bound : WorkloadHandle) (owner : WorkloadOwner) (wid : String) : RecordM Workload := do
  let wl ← record
  if wl.runtime ≠ "" ∨ isTerminal wl.status then
    throw (.state ("Workload id " ++ quoted wid ++ " already exists"))
  else
    change fun wl => { wl with handle := some bound, owner := owner }.touch c.world.now
    record

/-- Run a command on the workload. -/
def execUnlocked (wid : String) (command : List String) : RecordM WorkloadResult := do
  let wl ← record
  if ¬ isExecAllowed wl.status then
    throw (.state ("exec only allowed when READY (current=" ++ wl.status.text ++ ")"))
  else if wl.spec.kind = .run then
    throw (.state "exec is not valid on kind=run workloads")
  else if wl.runtime = "" then
    throw (.state "exec is not valid on a workload with no runtime")
  else
    bindRuntime c wl.runtime
    transition c .running none
    afterExec c wl.status wl.runtime ((c.world.runtime wl.runtime).exec wid command)

/-- The record, polled before if asked for. -/
def statusUnlocked (wid : String) (refresh : Bool) : RecordM Workload := do
  let wl ← record
  if refresh ∧ ¬ isTerminal wl.status ∧ wl.runtime ≠ "" then
    bindRuntime c wl.runtime
    afterPoll c ((c.world.runtime wl.runtime).poll wid)
    record
  else
    record

/-- Stop a workload that is stopping: one without a runtime has nothing to be stopped. -/
def stopBody (wid runtime : String) : RecordM Unit := do
  if runtime = "" then
    transition c .stopped (some "unbound")
    emit c .stopped
  else
    bindRuntime c runtime
    afterStop c ((c.world.runtime runtime).stop wid)

/-- Stop the workload unless it has ended. -/
def stopUnlocked (wid : String) : RecordM Workload := do
  let wl ← record
  if isTerminal wl.status then
    record
  else
    transition c .stopping none
    stopBody c wid wl.runtime
    record

end Record

/-- The engine. The records that it gave up when it was shut down are kept beside it, each with
whether events were published about it. -/
structure WorkloadEngine where
  initialized : Bool
  publishes : Bool
  hasFactory : Bool
  defaultRuntime : Option String
  runtimes : Finset String
  workloads : Dict String Tracked
  idempotency : Dict String String
  dropped : List (Bool × Tracked)

/-- A program over the engine. -/
abbrev EngineM := EStateM WorkloadError WorkloadEngine

namespace WorkloadEngine

/-- A new engine. -/
def new : WorkloadEngine := ⟨false, false, false, none, ∅, .empty, .empty, []⟩

/-- The setting of a call. -/
def context (e : WorkloadEngine) (w : World) : Context := ⟨e.publishes, e.hasFactory, w⟩

/-- The record of a workload. -/
def require (wid : String) : EngineM Tracked := do
  match (← get).workloads.get? wid with
  | some t => return t
  | none => throw (.notFound wid)

/-- Run a program on a workload: what it changes stays changed when it raises. -/
def onWorkload {α : Type} (wid : String) (m : RecordM α) : EngineM α := fun e =>
  match e.workloads.get? wid with
  | none => .error (.notFound wid) e
  | some t =>
    match m ⟨e.runtimes, t⟩ with
    | .ok a s => .ok a { e with runtimes := s.runtimes, workloads := e.workloads.set wid s.tracked }
    | .error error s =>
      .error error { e with runtimes := s.runtimes, workloads := e.workloads.set wid s.tracked }

/-- Only an initialized engine works. -/
def requireInitialized : EngineM Unit := do
  if ¬ (← get).initialized then throw (.state "WorkloadEngine is not initialized")

/-- A text that is not empty. -/
def given? (text : Option String) : Option String := text.filter (· ≠ "")

/-- The key under which a start is remembered. -/
def idempotencyIndex (owner : WorkloadOwner) (key : String) : String :=
  "|".intercalate [owner.jobId.getD "", owner.instanceId.getD "", owner.sessionId.getD "",
    owner.leaseId.getD "", key]

/-- The name of the runtime for a workload. -/
def selectRuntimeName (e : WorkloadEngine) (spec : WorkloadSpec) : Except WorkloadError String :=
  match given? spec.placement.runtime, given? e.defaultRuntime with
  | some name, _ =>
    if name ∈ spec.placement.rejectRuntimes then
      .error (.placement ("Requested runtime " ++ quoted name ++ " is in reject_runtimes"))
    else .ok name
  | none, some name =>
    if name ∈ spec.placement.rejectRuntimes then
      .error (.placement ("Default runtime " ++ quoted name ++ " is rejected by Spec"))
    else .ok name
  | none, none =>
    .error (.placement
      "No runtime selected: set placement.runtime or engine default_runtime")

/-- The runtime must be enabled. -/
def requireEnabled (name : String) (runtime : Runtime) : Except WorkloadError Unit :=
  match runtime.isEnabled with
  | .error text => .error (.raised text)
  | .ok true => .ok ()
  | .ok false =>
    .error (.policy ("Runtime " ++ quoted name ++ " is disabled (host runtime requires " ++
      "workload_host_enabled / PALM_WORKLOAD_HOST_ENABLED)"))

/-- The runtime must support the isolation that is asked for. -/
def enforceIsolationPolicy (spec : WorkloadSpec) (runtime : Runtime) : Except WorkloadError Unit :=
  match runtime.isolationModes with
  | .error text => .error (.raised text)
  | .ok modes =>
    if spec.isolation ∉ modes then
      let supported := ([.bestEffort, .hermetic, .host] : List IsolationPolicy).filter (· ∈ modes)
      .error (.policy ("Runtime " ++ quoted runtime.name ++ " does not support isolation=" ++
        spec.isolation.text ++ "; supports [" ++
        ", ".intercalate (supported.map fun mode => quoted mode.text) ++ "]"))
    else if spec.isolation = .hermetic ∧ runtime.name = "host" then
      .error (.policy "Hermetic isolation cannot select host runtime")
    else .ok ()

/-- Go on with a value, or raise its error. -/
def orRaise {α : Type} : Except WorkloadError α → EngineM α
  | .ok a => return a
  | .error e => throw e

/-- Record a new workload. -/
def track (wid : String) (wl : Workload) : EngineM Unit :=
  modify fun e => { e with workloads := e.workloads.set wid (.fresh wl) }

/-- Remember a start under its key, if it has one. -/
def remember (owner : WorkloadOwner) (idempotencyKey : Option String) (wid : String) :
    EngineM Unit :=
  match given? idempotencyKey with
  | none => return ()
  | some key => modify fun e =>
    { e with idempotency := e.idempotency.set (idempotencyIndex owner key) wid }

/-- Place and start a workload, unless the same start was made before. -/
def start (w : World) (spec : WorkloadSpec) (owner : Option WorkloadOwner)
    (workloadId idempotencyKey hostId : Option String) : EngineM Workload := do
  requireInitialized
  let owner := owner.getD {}
  let e ← get
  match (given? idempotencyKey).bind fun key => e.idempotency.get? (idempotencyIndex owner key) with
  | some wid => return (← require wid).record
  | none =>
    let name ← orRaise (e.selectRuntimeName spec)
    let runtimes ← orRaise ((e.context w).resolveRuntime e.runtimes name)
    modify fun e => { e with runtimes := runtimes }
    orRaise (requireEnabled name (w.runtime name))
    orRaise (enforceIsolationPolicy spec (w.runtime name))
    let wid := (given? workloadId).getD w.freshId
    if (e.workloads.get? wid).isSome then
      throw (.state ("Workload id " ++ quoted wid ++ " already exists"))
    else
      track wid {
        workloadId := wid
        spec := spec
        status := .pending
        runtime := name
        owner := owner
        hostId := given? hostId <|> spec.placement.hostId
        createdAt := w.now
        updatedAt := w.now
        idempotencyKey := idempotencyKey }
      remember owner idempotencyKey wid
      onWorkload wid (launch (e.context w) wid)

/-- Record a body that exists already as a ready workload without a runtime. -/
def adopt (w : World) (workloadId : String) (handle : Option WorkloadHandle)
    (owner : Option WorkloadOwner) : EngineM Workload := do
  requireInitialized
  let wid := strip workloadId
  if wid = "" then throw (.spec "adopt requires a non-empty workload id")
  else
    match handle with
    | none => throw (.spec "adopt requires a handle")
    | some handle =>
      let baseUrl := strip (handle.baseUrl.getD "")
      if baseUrl = "" then throw (.spec "adopt requires handle.base_url")
      else
        let bound := { handle with workloadId := wid, baseUrl := some baseUrl }
        let owner := owner.getD { createdByPalm := false, leaseId := some wid }
        let e ← get
        if (e.workloads.get? wid).isSome then
          onWorkload wid (rebind (e.context w) bound owner wid)
        else
          track wid {
            workloadId := wid
            spec := {
              kind := .service
              isolation := .bestEffort
              lifecycle := .lease
              labels := Dict.empty.set "structure_place" wid }
            status := .ready
            runtime := ""
            owner := owner
            handle := some bound
            createdAt := w.now
            updatedAt := w.now }
          onWorkload wid do
            emit (e.context w) .ready
            record

/-- Run a command on a ready workload. -/
def exec (w : World) (wid : String) (command : List String) : EngineM WorkloadResult := do
  requireInitialized
  if command = [] then throw (.state "exec requires a non-empty argv command")
  else onWorkload wid (execUnlocked ((← get).context w) wid command)

/-- The record of a workload, polled before if asked for. -/
def status (w : World) (wid : String) (refresh : Bool) : EngineM Workload := do
  requireInitialized
  onWorkload wid (statusUnlocked ((← get).context w) wid refresh)

/-- Stop a workload. -/
def stop (w : World) (wid : String) : EngineM Workload := do
  requireInitialized
  onWorkload wid (stopUnlocked ((← get).context w) wid)

/-- The record of a workload. -/
def get (wid : String) : EngineM Workload := do
  requireInitialized
  return (← require wid).record

/-- The records with a status and a runtime and of the owners that are asked for. -/
def list (f : OwnerFilter) (status : Option WorkloadStatus) (runtime : Option String) :
    EngineM (List Workload) := do
  requireInitialized
  return ((← MonadState.get).workloads.values.map (·.record)).filter fun wl =>
    status.all (wl.status = ·) && runtime.all (wl.runtime = ·) && wl.owner.matches f

/-- Stop the workloads that have not ended, of the owners that are asked for. -/
def stopOwned (w : World) (f : OwnerFilter) : EngineM (List Workload) := do
  requireInitialized
  let e ← MonadState.get
  let targets := (e.workloads.entries.filter fun entry =>
    !isTerminal entry.2.record.status && entry.2.record.owner.matches f).map Prod.fst
  targets.mapM fun wid => onWorkload wid (stopUnlocked (e.context w) wid)

/-- Bind a runtime. -/
def registerRuntime (name : String) : EngineM Unit :=
  modify fun e => { e with runtimes := insert name e.runtimes }

/-- Set up an engine that is not. -/
def doInitialize (publishes hasFactory : Bool) (defaultRuntime : Option String)
    (runtimes : Finset String) : EngineM Unit :=
  modify fun e =>
    if e.initialized then e
    else { e with
      initialized := true
      publishes := publishes
      hasFactory := hasFactory
      defaultRuntime := defaultRuntime
      runtimes := e.runtimes ∪ runtimes }

/-- Give up all records and runtimes. -/
def drop (e : WorkloadEngine) : WorkloadEngine :=
  { e with
    initialized := false
    publishes := false
    hasFactory := false
    runtimes := ∅
    workloads := .empty
    idempotency := .empty
    dropped := e.dropped ++ e.workloads.values.map (e.publishes, ·) }

/-- Stop what has not ended, as far as that succeeds, and give up all records and runtimes. -/
def shutdown (w : World) : EngineM Unit := do
  let e ← MonadState.get
  if e.initialized then
    let _ ← e.workloads.keys.mapM fun wid =>
      attempt (onWorkload wid (stopUnlocked (e.context w) wid))
    modify drop

end WorkloadEngine

end PalmEngine.Workloads
