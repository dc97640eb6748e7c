import Mathlib.Data.List.DropRight
import PalmEngine.Context.PlainValues
import PalmEngine.Lib.Strip
import PalmEngine.Persistence.InstanceMigration

/-!
# Process instances as records

A process instance with all its fields, the dictionary it is stored as, and the way back. An
instance is built from a job, follows later states of the job, and keeps a ring of snapshots. The
values are any values of the language; where a decoder raises, it returns nothing.
-/

namespace PalmEngine.Persistence.Stored

open PalmEngine.Lib

variable {K V : Type}

/-- One status transition recorded on an instance. -/
structure StatusHistoryEntry (K V : Type) where
  status : String
  recordedAt : String
  detail : Dict K V := .empty

/-- The state of a job at one moment. -/
structure StateSnapshot (K V : Type) where
  status : String
  recordedAt : String
  stateSnapshot : Dict K V
  jobId : String
  currentStepSlug : V
  runtimePosition : Dict K V := .empty
  detail : Dict K V := .empty

/-- The persisted view of orchestrated work. Fields that pass unread are values. -/
structure ProcessInstance (K V : Type) where
  instanceId : String
  jobId : String
  status : String
  stateSnapshot : Dict K V
  flowDefinition : Dict K V
  pattern : String
  flowId : V
  flowRevision : Option ℤ
  flowName : V
  processId : V
  processName : V
  sessionId : Option String
  metadata : Dict K V
  version : ℤ := 1
  statusHistory : List (StatusHistoryEntry K V) := []
  stateSnapshots : List (StateSnapshot K V) := []
  createdAt : String
  updatedAt : String
  currentStepSlug : V
  runtimePosition : Dict K V := .empty
  stateMeta : Dict K V := .empty

/-- A job as the record of it reads it: `fields` are the step slug and the position which the
extractor registered for a pattern finds, if there is one. -/
structure Job (K V : Type) where
  id : String
  status : String
  metadata : Dict K V
  stateSnapshot : Dict K V
  stateMeta : Dict K V
  fields : String → Option (V × Dict K V)

/-- A flow definition as the record of a job reads it. -/
structure Flow (K V : Type) where
  name : String
  pattern : String
  definitionId : String
  revision : Option ℤ
  document : Dict K V

section Encode

variable [DecidableEq K] (ops : ScriptValues K V)

/-- An integer, or null for a missing one. -/
def optInt (n : Option ℤ) : V := n.elim ops.null ops.int

/-- The fields of a status entry. -/
def StatusHistoryEntry.written (e : StatusHistoryEntry K V) : List (String × V) := [
  ("status", ops.text e.status),
  ("recorded_at", ops.text e.recordedAt),
  ("detail", ops.dict e.detail)]

def StatusHistoryEntry.toDict (e : StatusHistoryEntry K V) : Dict K V := ops.record (e.written ops)

/-- The fields of a snapshot. -/
def StateSnapshot.written (s : StateSnapshot K V) : List (String × V) := [
  ("status", ops.text s.status),
  ("recorded_at", ops.text s.recordedAt),
  ("state_snapshot", ops.dict s.stateSnapshot),
  ("job_id", ops.text s.jobId),
  ("current_step_slug", s.currentStepSlug),
  ("runtime_position", ops.dict s.runtimePosition),
  ("detail", ops.dict s.detail)]

def StateSnapshot.toDict (s : StateSnapshot K V) : Dict K V := ops.record (s.written ops)

/-- The fields of an instance. The version of the format and that of the instance are two. -/
def ProcessInstance.written (p : ProcessInstance K V) : List (String × V) := [
  ("version", ops.int 2),
  ("kind", ops.text "process_instance"),
  ("instance_id", ops.text p.instanceId),
  ("job_id", ops.text p.jobId),
  ("status", ops.text p.status),
  ("state_snapshot", ops.dict p.stateSnapshot),
  ("flow_definition", ops.dict p.flowDefinition),
  ("pattern", ops.text p.pattern),
  ("flow_id", p.flowId),
  ("flow_revision", optInt ops p.flowRevision),
  ("flow_name", p.flowName),
  ("process_id", p.processId),
  ("process_name", p.processName),
  ("session_id", ops.optText p.sessionId),
  ("metadata", ops.dict p.metadata),
  ("version_number", ops.int p.version),
  ("status_history", ops.list (p.statusHistory.map fun e => ops.dict (e.toDict ops))),
  ("state_snapshots", ops.list (p.stateSnapshots.map fun s => ops.dict (s.toDict ops))),
  ("created_at", ops.text p.createdAt),
  ("updated_at", ops.text p.updatedAt),
  ("current_step_slug", p.currentStepSlug),
  ("runtime_position", ops.dict p.runtimePosition),
  ("state_meta", ops.dict p.stateMeta)]

/-- The dictionary of an instance. -/
def ProcessInstance.toDict (p : ProcessInstance K V) : Dict K V := ops.record (p.written ops)

end Encode

section Decode

variable [DecidableEq K] (ops : ScriptValues K V)

/-- The text of a field that must be there. -/
def requiredText (data : Dict K V) (name : String) : Option String :=
  (data.get? (ops.key name)).map ops.str

/-- The text of a field, or another one where the field is missing. -/
def textOr (data : Dict K V) (name missing : String) : String :=
  (requiredText ops data name).getD missing

/-- The dictionaries among the members of a value that counts as true. -/
def dictsOf (v : V) : Option (List (Dict K V)) :=
  if ops.truthy v then (ops.iter v).map (·.filterMap ops.asDict) else some []

/-- The current step, which older records have under another name. -/
def stepSlug (data : Dict K V) : V :=
  if ops.truthy (ops.field data "current_step_slug") then ops.field data "current_step_slug"
  else ops.field data "wizard_step_slug"

/-- An integer made of a value other than null. -/
def optIntOf (v : V) : Option (Option ℤ) :=
  if ops.isNull v then some none else (ops.toInt v).map some

/-- The session of a value: its stripped text, unless that is empty. -/
def sessionOf (v : V) : Option String := ((ops.strIfPresent v).map strip).filter (· ≠ "")

/-- The session of the metadata of a job. -/
def sessionIdFromJobMetadata (metadata : Dict K V) : Option String :=
  sessionOf ops (ops.field metadata "session_id")

/-- The stored session, which older records have in their metadata. -/
def storedSession (session : V) (metadata : Dict K V) : Option String :=
  if ops.isNull session then sessionIdFromJobMetadata ops metadata else sessionOf ops session

/-- The version of an instance, that of the format where it has none. -/
def versionOf (data : Dict K V) : Option ℤ :=
  match data.get? (ops.key "version_number") with
  | some v => ops.toInt v
  | none => ((data.get? (ops.key "version")).map ops.toInt).getD (some 1)

def StatusHistoryEntry.fromDict (data : Dict K V) : Option (StatusHistoryEntry K V) := do
  let status ← requiredText ops data "status"
  let recordedAt ← requiredText ops data "recorded_at"
  let detail ← ops.dictOrEmpty (ops.field data "detail")
  some { status, recordedAt, detail }

def StateSnapshot.fromDict (data : Dict K V) : Option (StateSnapshot K V) := do
  let status ← requiredText ops data "status"
  let recordedAt ← requiredText ops data "recorded_at"
  let stateSnapshot ← ops.dictOrEmpty (ops.field data "state_snapshot")
  let jobId ← requiredText ops data "job_id"
  let runtimePosition ← ops.dictOrEmpty (ops.field data "runtime_position")
  let detail ← ops.dictOrEmpty (ops.field data "detail")
  some {
    status, recordedAt, stateSnapshot, jobId, runtimePosition, detail
    currentStepSlug := stepSlug ops data }

/-- The instance of a dictionary, with the clock for times that are missing. -/
def ProcessInstance.fromDict (now : String) (data : Dict K V) : Option (ProcessInstance K V) := do
  let history ← dictsOf ops (ops.field data "status_history")
  let statusHistory ← history.mapM (StatusHistoryEntry.fromDict ops)
  let snapshots ← dictsOf ops (ops.field data "state_snapshots")
  let stateSnapshots ← snapshots.mapM (StateSnapshot.fromDict ops)
  let metadata ← ops.dictOrEmpty (ops.field data "metadata")
  let instanceId ← requiredText ops data "instance_id"
  let jobId ← requiredText ops data "job_id"
  let status ← requiredText ops data "status"
  let stateSnapshot ← ops.dictOrEmpty (ops.field data "state_snapshot")
  let flowDefinition ← ops.dictOrEmpty (ops.field data "flow_definition")
  let flowRevision ← optIntOf ops (ops.field data "flow_revision")
  let version ← versionOf ops data
  let runtimePosition ← ops.dictOrEmpty (ops.field data "runtime_position")
  let stateMeta ← ops.dictOrEmpty (ops.field data "state_meta")
  some {
    statusHistory, stateSnapshots, metadata, instanceId, jobId, status, stateSnapshot,
    flowDefinition, flowRevision, version, runtimePosition, stateMeta
    pattern := textOr ops data "pattern" ""
    flowId := ops.field data "flow_id"
    flowName := ops.field data "flow_name"
    processId := ops.field data "process_id"
    processName := ops.field data "process_name"
    sessionId := storedSession ops (ops.field data "session_id") metadata
    createdAt := textOr ops data "created_at" now
    updatedAt := textOr ops data "updated_at" now
    currentStepSlug := stepSlug ops data }

end Decode

section Sync

variable [DecidableEq K] (ops : ScriptValues K V)

/-- The step slug and the position of a job, none without an extractor for the pattern. -/
def patternInstanceFields (job : Job K V) (pattern : String) : V × Dict K V :=
  (job.fields pattern).getD (ops.null, .empty)

/-- The metadata of a job with the migration fields of the instance. -/
def preserveMigrationMetadata (instanceMetadata jobMetadata : Dict K V) : Dict K V :=
  migrationMetadataKeys.foldl (fun merged name =>
    merged.setSome (ops.key name) (instanceMetadata.get? (ops.key name))) jobMetadata

/-- Metadata with a session under its key, unless there is none or one is there. -/
def withSession (metadata : Dict K V) : Option String → Dict K V
  | some sid => metadata.setDefault (ops.key "session_id") (ops.text sid)
  | none => metadata

/-- A value that counts as true, or another one. -/
def valueOr (v missing : V) : V := if ops.truthy v then v else missing

/-- The arguments of a new record beside the job and its flow. -/
structure NewInstance where
  instanceId : Option String := none
  processId : Option String := none
  processName : Option String := none
  now : String

/-- A new record of a submitted job. -/
def buildInstanceFromJob (job : Job K V) (flow : Flow K V) (args : NewInstance) :
    ProcessInstance K V :=
  let sessionId := sessionIdFromJobMetadata ops job.metadata
  {
    instanceId := ops.strOr (ops.optText args.instanceId)
      (ops.strOr (ops.field job.metadata "instance_id") job.id)
    jobId := job.id
    status := job.status
    stateSnapshot := job.stateSnapshot
    flowDefinition := flow.document
    pattern := flow.pattern
    flowId := ops.text flow.definitionId
    flowRevision := flow.revision
    flowName := ops.text flow.name
    processId := valueOr ops (ops.optText args.processId) (ops.field job.metadata "process_id")
    processName := valueOr ops (ops.optText args.processName) (ops.field job.metadata "process")
    sessionId
    metadata := withSession ops job.metadata sessionId
    createdAt := args.now
    updatedAt := args.now
    currentStepSlug := (patternInstanceFields ops job flow.pattern).1
    runtimePosition := (patternInstanceFields ops job flow.pattern).2
    stateMeta := job.stateMeta }

/-- A value that is not null. -/
def present (v : V) : Option V := if ops.isNull v then none else some v

/-- A status entry of this moment, without the details that are null. -/
def StatusHistoryEntry.now (now status : String) (detail : List (String × V)) :
    StatusHistoryEntry K V where
  status := status
  recordedAt := now
  detail := ops.recordSome (detail.map (Prod.map id (present ops)))

namespace ProcessInstance

/-- Record a status. -/
def appendStatus (p : ProcessInstance K V) (now status : String) (detail : List (String × V)) :
    ProcessInstance K V :=
  { p with
    statusHistory := p.statusHistory ++ [.now ops now status detail]
    status := status
    updatedAt := now
    version := p.version + 1 }

/-- Attach a snapshot, keeping the most recent ones, and one at least. -/
def appendStateSnapshot (p : ProcessInstance K V) (snapshot : StateSnapshot K V)
    (maxSnapshots : ℤ) (now : String) : ProcessInstance K V :=
  let limit := (max 1 maxSnapshots).toNat
  let appended := p.stateSnapshots ++ [snapshot]
  { p with
    stateSnapshots := if limit < appended.length then appended.rtake limit else appended
    updatedAt := now
    version := p.version + 1 }

/-- Refresh the record from its job. -/
def updateFromJob (p : ProcessInstance K V) (job : Job K V) (now : String) : ProcessInstance K V :=
  let merged := preserveMigrationMetadata ops p.metadata job.metadata
  let sid := sessionIdFromJobMetadata ops merged
  let fields := patternInstanceFields ops job p.pattern
  let q := { p with
    jobId := job.id
    stateSnapshot := job.stateSnapshot
    metadata := withSession ops merged sid
    sessionId := sid.or p.sessionId
    currentStepSlug := fields.1
    runtimePosition := fields.2
    stateMeta := job.stateMeta }
  if q.status ≠ job.status then
    q.appendStatus ops now job.status
      [("job_id", ops.text job.id), ("current_step", q.currentStepSlug)]
  else { q with updatedAt := now, version := q.version + 1 }

end ProcessInstance

end Sync

end PalmEngine.Persistence.Stored
