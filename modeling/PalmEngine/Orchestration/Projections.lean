import PalmEngine.Lib.Dict
import PalmEngine.Lib.Pool
import PalmEngine.Orchestration.Job

/-!
# The status projections

Two read models follow the events of the engine: a board of jobs and an index of instances. A call
that applies a result changes the status of its job under the lock of the engine and then publishes,
without the lock: it builds the payload of each event from the live job and emits the event, which
the projections apply as it arrives. A step of a wizard is announced by an event with its slug, and
an instance that is created is looked up in the store.

Any number of calls on any jobs take turns, each turn one step: a change of status, the building of
a payload, or the emission of an event.
-/

namespace PalmEngine.Orchestration

open PalmEngine.Lib

/-- A row of the board. -/
structure JobStatusReadModel where
  jobId : String
  status : String
  instanceId : Option String

/-- A row of the index. -/
structure InstanceReadModel where
  instanceId : String
  jobId : String
  status : String
  flowName : Option String
  processName : Option String
  currentStepSlug : Option String
  snapshotCount : ℕ

/-- What the store tells about an instance. -/
structure InstanceDetails where
  flowName : Option String
  processName : Option String
  currentStepSlug : Option String

/-- The step that the store tells, if it has a name. -/
def InstanceDetails.step (details : InstanceDetails) : Option String :=
  details.currentStepSlug.filter (· ≠ "")

/-- The first text if it is not empty, else the second. -/
def textOrElse (text default : String) : String := if text = "" then default else text

/-- The board of jobs. -/
abbrev JobStatusBoard := Dict String JobStatusReadModel

/-- Apply a job event, which has a status unless the job is submitted. -/
def JobStatusBoard.apply (board : JobStatusBoard) (jobId : String) (status : Option JobStatus)
    (instanceId : Option String) : JobStatusBoard :=
  if jobId = "" then board
  else
    let current := board.get? jobId
    board.set jobId {
      jobId := jobId
      status := (status.map JobStatus.value).getD ((current.map (·.status)).getD "PENDING")
      instanceId := instanceId.or (current.bind (·.instanceId)) }

namespace JobStatusBoard

/-- A job event leaves the rows of other jobs. -/
theorem get?_apply_ne (board : JobStatusBoard) {id other : String} (h : other ≠ id)
    (status : Option JobStatus) (instanceId : Option String) :
    (board.apply id status instanceId).get? other = board.get? other := by
  unfold apply
  split
  · rfl
  · exact Dict.get?_set_ne _ _ h

/-- A job event with a status puts it on the board. -/
theorem get?_apply_self (board : JobStatusBoard) {id : String} (h : id ≠ "") (status : JobStatus)
    (instanceId : Option String) :
    ∃ row, (board.apply id (some status) instanceId).get? id = some row ∧
      row.status = status.value := by
  unfold apply
  rw [if_neg h]
  exact ⟨_, Dict.get?_set_self _ _ _, rfl⟩

/-- A submission leaves the status of every row. -/
theorem get?_apply_submitted {board : JobStatusBoard} {other : String} {row : JobStatusReadModel}
    (h : board.get? other = some row) (id : String) (instanceId : Option String) :
    ∃ row', (board.apply id none instanceId).get? other = some row' ∧ row'.status = row.status := by
  by_cases heq : other = id
  · subst heq
    unfold apply
    split
    · exact ⟨row, h, rfl⟩
    · exact ⟨_, Dict.get?_set_self _ _ _, by simp [h]⟩
  · exact ⟨row, (get?_apply_ne board heq none instanceId).trans h, rfl⟩

end JobStatusBoard

/-- The index of instances. -/
abbrev InstanceIndex := Dict String InstanceReadModel

namespace InstanceIndex

/-- Apply an instance event. The details are those of a created instance that the store has. -/
def applyStatus (index : InstanceIndex) (instanceId jobId : String) (status : JobStatus)
    (details : Option InstanceDetails) : InstanceIndex :=
  if instanceId = "" then index
  else
    let current := index.get? instanceId
    index.set instanceId {
      instanceId := instanceId
      jobId := textOrElse jobId ((current.map (·.jobId)).getD "")
      status := status.value
      flowName := (details.map (·.flowName)).getD (current.bind (·.flowName))
      processName := (details.map (·.processName)).getD (current.bind (·.processName))
      currentStepSlug := (details.bind InstanceDetails.step).or (current.bind (·.currentStepSlug))
      snapshotCount := (current.map (·.snapshotCount)).getD 0 }

/-- Apply a step event, which needs a row and a slug. -/
def applyStep (index : InstanceIndex) (instanceId slug : String) : InstanceIndex :=
  if instanceId = "" ∨ slug = "" then index
  else match index.get? instanceId with
    | none => index
    | some current => index.set instanceId { current with currentStepSlug := some slug }

/-- An instance event leaves the rows of other instances. -/
theorem get?_applyStatus_ne (index : InstanceIndex) {i other : String} (h : other ≠ i) (id : String)
    (status : JobStatus) (details : Option InstanceDetails) :
    (index.applyStatus i id status details).get? other = index.get? other := by
  unfold applyStatus
  split
  · rfl
  · exact Dict.get?_set_ne _ _ h

/-- An instance event puts the job and the status into the index, and keeps the step unless the
store tells one. -/
theorem get?_applyStatus_self (index : InstanceIndex) {i id : String} (hi : i ≠ "") (hid : id ≠ "")
    (status : JobStatus) (details : Option InstanceDetails) :
    ∃ row, (index.applyStatus i id status details).get? i = some row ∧ row.jobId = id ∧
      row.status = status.value ∧ row.currentStepSlug =
        (details.bind InstanceDetails.step).or ((index.get? i).bind (·.currentStepSlug)) := by
  unfold applyStatus
  rw [if_neg hi]
  exact ⟨_, Dict.get?_set_self _ _ _, if_neg hid, rfl, rfl⟩

/-- An instance event keeps the step of every row, unless the store tells another. -/
theorem step_applyStatus {index : InstanceIndex} {other : String} {row : InstanceReadModel}
    (h : index.get? other = some row) {i : String} {details : Option InstanceDetails}
    (hdetails : i = other → ∀ told ∈ details.bind InstanceDetails.step,
      row.currentStepSlug = some told) (id : String) (status : JobStatus) :
    ∃ row', (index.applyStatus i id status details).get? other = some row' ∧
      row'.currentStepSlug = row.currentStepSlug := by
  by_cases heq : other = i
  · subst heq
    unfold applyStatus
    split
    · exact ⟨row, h, rfl⟩
    · refine ⟨_, Dict.get?_set_self _ _ _, ?_⟩
      cases htold : details.bind InstanceDetails.step with
      | none => simp [h]
      | some told => simp [hdetails rfl told htold]
  · exact ⟨row, (get?_applyStatus_ne index heq id status details).trans h, rfl⟩

/-- A step event leaves the job and the status of every row, and the step of other instances. -/
theorem get?_applyStep {index : InstanceIndex} {other : String} {row : InstanceReadModel}
    (h : index.get? other = some row) (i slug : String) :
    ∃ row', (index.applyStep i slug).get? other = some row' ∧ row'.jobId = row.jobId ∧
      row'.status = row.status ∧ (other ≠ i → row'.currentStepSlug = row.currentStepSlug) := by
  unfold applyStep
  split
  · exact ⟨row, h, rfl, rfl, fun _ => rfl⟩
  · by_cases heq : other = i
    · subst heq
      rw [h]
      exact ⟨_, Dict.get?_set_self _ _ _, rfl, rfl, fun hne => absurd rfl hne⟩
    · split
      · exact ⟨row, h, rfl, rfl, fun _ => rfl⟩
      · exact ⟨row, (Dict.get?_set_ne _ _ heq).trans h, rfl, rfl, fun _ => rfl⟩

/-- A step event puts the step into the row of its instance. -/
theorem get?_applyStep_self {index : InstanceIndex} {i slug : String} (hi : i ≠ "")
    (hslug : slug ≠ "") (h : (index.get? i).isSome) :
    ∃ row, (index.applyStep i slug).get? i = some row ∧ row.currentStepSlug = some slug := by
  obtain ⟨current, hcurrent⟩ := Option.isSome_iff_exists.mp h
  unfold applyStep
  rw [if_neg (by simp [hi, hslug]), hcurrent]
  exact ⟨_, Dict.get?_set_self _ _ _, rfl⟩

end InstanceIndex

/-- An event, with the payload that the projections read. -/
inductive StatusEvent where
  /-- `job.submitted`. -/
  | jobSubmitted (jobId : String) (instanceId : Option String)
  /-- `job.status_changed` or `job.completed`. -/
  | jobStatus (jobId : String) (status : JobStatus) (instanceId : Option String)
  /-- `instance.created`. -/
  | instanceCreated (instanceId jobId : String) (status : JobStatus)
  /-- `instance.status_changed`. -/
  | instanceStatus (instanceId jobId : String) (status : JobStatus)
  /-- `wizard.step.started`, `wizard.step.completed` or `wizard.backtrack.executed`. -/
  | step (instanceId slug : String)
  deriving DecidableEq, Repr

/-- A job with the instance that its metadata names. -/
structure TrackedJob where
  job : Job
  instanceId : Option String

/-- The publications of a job. -/
inductive EventKind where
  | jobStatusChanged
  | instanceStatusChanged
  | jobCompleted
  | instanceCreated
  deriving DecidableEq, Repr

/-- Build the payload of an event from the live job: an instance event needs an instance, and only a
job that has ended is completed. -/
def EventKind.build (id : String) (tracked : TrackedJob) : EventKind → Option StatusEvent
  | jobStatusChanged => some (.jobStatus id tracked.job.status tracked.instanceId)
  | instanceStatusChanged => tracked.instanceId.map fun i => .instanceStatus i id tracked.job.status
  | jobCompleted =>
    if tracked.job.isTerminal then some (.jobStatus id tracked.job.status tracked.instanceId) else none
  | instanceCreated => tracked.instanceId.map fun i => .instanceCreated i id tracked.job.status

/-- The jobs of the engine, what the store tells about instances, and the projections. As history
the last transition of each instance and its last step. -/
structure StatusPlane where
  jobs : Dict String TrackedJob
  records : Dict String InstanceDetails
  board : JobStatusBoard
  index : InstanceIndex
  transitions : Dict String (String × JobStatus)
  steps : Dict String String

namespace StatusPlane

/-- The projections apply an event. -/
def apply (s : StatusPlane) : StatusEvent → StatusPlane
  | .jobSubmitted id i => { s with board := s.board.apply id none i }
  | .jobStatus id status i => { s with board := s.board.apply id (some status) i }
  | .instanceCreated i id status =>
    { s with index := s.index.applyStatus i id status (s.records.get? i) }
  | .instanceStatus i id status => { s with index := s.index.applyStatus i id status none }
  | .step i slug => { s with index := s.index.applyStep i slug }

/-- A job that has a result applied, with its instance when the status changes. -/
def setJob (s : StatusPlane) (id : String) (old : TrackedJob) (job : Job) : StatusPlane :=
  { s with
    jobs := s.jobs.set id { old with job := job }
    transitions :=
      match old.instanceId.filter (· ≠ "") with
      | some i => if job.status = old.job.status then s.transitions
          else s.transitions.set i (id, job.status)
      | none => s.transitions }

end StatusPlane

/-- A call at one of its steps. The persistence hook publishes an event of its own if it tracks the
instance. -/
inductive StatusCall where
  /-- It is about to register a job. -/
  | submit (id : String) (isPattern : Bool) (instanceId : Option String) (hook : Bool)
  /-- It is about to apply a result. -/
  | applyResult (id : String) (result : RunResult) (hook : Bool)
  /-- It is about to move its instance to a step. -/
  | stepTo (id slug : String)
  /-- It is about to build the next event. -/
  | building (id : String) (todo : List EventKind)
  /-- It is about to emit an event. -/
  | emitting (id : String) (event : StatusEvent) (todo : List EventKind)
  /-- It has returned or raised. -/
  | returned

namespace StatusCall

/-- What a call publishes once it has applied a result. -/
def publications (hook : Bool) : List EventKind :=
  [.jobStatusChanged, .instanceStatusChanged, .jobCompleted] ++
    if hook then [.instanceStatusChanged] else []

/-- The call once it has built its next event, or none. -/
def built (id : String) (todo : List EventKind) : Option StatusEvent → StatusCall
  | none => building id todo
  | some event => emitting id event todo

/-- The next step of a call on an engine that takes so many jobs. -/
def move (maxConcurrentJobs : ℕ) (s : StatusPlane) : StatusCall → Option (StatusPlane × StatusCall)
  | submit id isPattern instanceId hook =>
    if id = "" ∨ maxConcurrentJobs ≤ s.jobs.entries.length ∨ (s.jobs.get? id).isSome then
      some (s, returned)
    else some ({ s with jobs := s.jobs.set id ⟨{ id := id, isPattern := isPattern }, instanceId⟩ },
      emitting id (.jobSubmitted id instanceId) (if hook then [.instanceCreated] else []))
  | applyResult id result hook =>
    match s.jobs.get? id with
    | none => some (s, returned)
    | some tracked =>
      match applyLocked tracked.job result with
      | .ignored | .invalid _ => some (s, returned)
      | .applied job => some (s.setJob id tracked job, building id (publications hook))
  | stepTo id slug =>
    match (s.jobs.get? id).bind TrackedJob.instanceId with
    | none => some (s, returned)
    | some i =>
      if i = "" ∨ slug = "" then some (s, returned)
      else some ({ s with steps := s.steps.set i slug }, emitting id (.step i slug) [])
  | building _ [] => some (s, returned)
  | building id (kind :: todo) =>
    some (s, built id todo ((s.jobs.get? id).bind fun tracked => kind.build id tracked))
  | emitting id event todo => some (s.apply event, building id todo)
  | returned => none

/-- The call has returned. -/
def isReturned : StatusCall → Bool
  | returned => true
  | _ => false

end StatusCall

/-- The calls on one engine and its projections. -/
abbrev StatusPool := Pool StatusPlane StatusCall

/-- A turn of a call, or a writing of the store. -/
inductive StatusTurn where
  | call (i : ℕ)
  | save (instanceId : String) (details : InstanceDetails)

namespace StatusPool

/-- The engine has no job yet, and the projections and the store hold anything. -/
def start (records : Dict String InstanceDetails) (board : JobStatusBoard) (index : InstanceIndex)
    (calls : List StatusCall) : StatusPool :=
  ⟨⟨.empty, records, board, index, .empty, .empty⟩, calls⟩

/-- A turn. -/
def turn (maxConcurrentJobs : ℕ) (pool : StatusPool) : StatusTurn → Option StatusPool
  | .call i => pool.step (StatusCall.move maxConcurrentJobs) i
  | .save i details =>
    some ⟨{ pool.shared with records := pool.shared.records.set i details }, pool.procs⟩

end StatusPool

end PalmEngine.Orchestration
