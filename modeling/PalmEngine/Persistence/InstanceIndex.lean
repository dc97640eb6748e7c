import PalmEngine.Lib.StableSort
import PalmEngine.Persistence.Reconciliation

/-!
# The index of instances

A projection keeps a read model of each instance, in memory and in the storage. It is rebuilt from
the summaries that the instance manager makes of the stored records, the one that was updated last
first, in one go or in batches; a rebuilding is skipped if the index has as many entries as there are
summaries and says so in the storage.

Queries are answered from the index, and for an instance that it does not have from the summaries.
-/

namespace PalmEngine.Persistence.Stored

open PalmEngine.Lib

/-- What the manager tells of a stored instance. -/
structure InstanceSummary (V : Type) where
  instanceId : String
  jobId : String
  status : String
  flowName : V
  processName : V
  currentStepSlug : V
  updatedAt : String
  snapshotCount : ℕ

/-- What the index tells of an instance. -/
structure InstanceReadModel (V : Type) where
  instanceId : String
  jobId : String
  status : String
  flowName : V
  processName : V
  currentStepSlug : V
  updatedAt : String
  snapshotCount : ℤ

/-- How a projection is rebuilt. -/
structure ProjectionRebuildPolicy where
  batchSize : ℤ := 100
  maxInstances : ℤ := 5000
  skipIfFresh : Bool := true
  force : Bool := false
  deriving DecidableEq, Repr

/-- Why a rebuilding raises: the stored count is no integer, or the batches are empty. -/
inductive RebuildError where
  | invalidCount
  | zeroStep
  deriving DecidableEq, Repr

/-- Which instances are asked for. -/
structure ListInstancesQuery where
  status : Option String := none
  flowName : Option String := none
  includeTerminal : Bool := true
  limit : Option ℤ := none
  deriving DecidableEq, Repr

/-- The index: the instances it is made of, whether its storage is there, what is stored under its
key, null for nothing, and its entries. -/
structure InstanceIndexProjection (K V : Type) where
  instances : InstanceRepository K V
  storageReady : Bool
  stored : V
  entries : Dict String (InstanceReadModel V)
  rebuildSkipped : Bool := false
  usedBatchedRebuild : Bool := false
  rebuildWarnings : List String := []

/-- The read model of a summary. -/
def InstanceSummary.readModel {V : Type} (s : InstanceSummary V) : InstanceReadModel V where
  instanceId := s.instanceId
  jobId := s.jobId
  status := s.status
  flowName := s.flowName
  processName := s.processName
  currentStepSlug := s.currentStepSlug
  updatedAt := s.updatedAt
  snapshotCount := s.snapshotCount

/-- The members up to an index, which counts from the end if it is negative. -/
def sliceTo {α : Type} (limit : ℤ) (l : List α) : List α :=
  if 0 ≤ limit then l.take limit.toNat else l.take (l.length - (-limit).toNat)

/-- Where the batches of so many members begin. There are none if the size is negative. -/
def batchOffsets (total : ℕ) (size : ℤ) : List ℕ :=
  if size ≤ 0 then []
  else (List.range ((total + size.toNat - 1) / size.toNat)).map (· * size.toNat)

variable {K V : Type} [DecidableEq K] (ops : StoredValues K V)

/-- The summary of a record. -/
def InstanceSummary.fromRecord (record : Dict K V) : InstanceSummary V where
  instanceId := textOr ops.toScriptValues record "instance_id" ""
  jobId := textOr ops.toScriptValues record "job_id" ""
  status := textOr ops.toScriptValues record "status" ""
  flowName := ops.field record "flow_name"
  processName := ops.field record "process_name"
  currentStepSlug := stepSlug ops.toScriptValues record
  updatedAt := textOr ops.toScriptValues record "updated_at" ""
  snapshotCount := ((ops.asList (ops.field record "state_snapshots")).getD []).length

/-- The summaries of the stored instances, the last updated first. A record without an id is passed
over. -/
def InstanceRepository.listSummaries (r : InstanceRepository K V) : List (InstanceSummary V) :=
  sortDescending InstanceSummary.updatedAt <| (r.listInstanceIds ops).filterMap fun i =>
    ((r.loadRecord ops i).filter fun record => ops.truthy (ops.field record "instance_id")).map
      (InstanceSummary.fromRecord ops)

/-- The dictionary of a read model. -/
def InstanceReadModel.toDict (m : InstanceReadModel V) : Dict K V := ops.record [
  ("instance_id", ops.text m.instanceId),
  ("job_id", ops.text m.jobId),
  ("status", ops.text m.status),
  ("flow_name", m.flowName),
  ("process_name", m.processName),
  ("current_step_slug", m.currentStepSlug),
  ("updated_at", ops.text m.updatedAt),
  ("snapshot_count", ops.int m.snapshotCount)]

/-- The read model of a dictionary, unless its count of snapshots is no integer. -/
def InstanceReadModel.fromDict (data : Dict K V) : Option (InstanceReadModel V) :=
  (ops.intOr (ops.field data "snapshot_count") 0).map fun snapshotCount => {
    instanceId := textOr ops.toScriptValues data "instance_id" ""
    jobId := textOr ops.toScriptValues data "job_id" ""
    status := textOr ops.toScriptValues data "status" ""
    flowName := ops.field data "flow_name"
    processName := ops.field data "process_name"
    currentStepSlug := stepSlug ops.toScriptValues data
    updatedAt := textOr ops.toScriptValues data "updated_at" ""
    snapshotCount }

/-- The rows of some read models that a query asks for, the last updated first. -/
def ListInstancesQuery.select (query : ListInstancesQuery) (rows : List (InstanceReadModel V)) :
    List (InstanceReadModel V) :=
  let terminal := ["SUCCEEDED", "FAILED", "CANCELLED"]
  let rows := rows.filter fun row => query.includeTerminal || row.status ∉ terminal
  let rows := rows.filter fun row => query.status.all (row.status = ·)
  let rows := rows.filter fun row => query.flowName.all (ops.eqText row.flowName)
  let rows := sortDescending InstanceReadModel.updatedAt rows
  query.limit.elim rows fun limit => sliceTo limit rows

namespace InstanceIndexProjection

variable (p : InstanceIndexProjection K V)

/-- The entries that are stored, if they can be read. -/
def load (stored : V) : Option (Dict String (InstanceReadModel V)) :=
  match (ops.asDict stored).bind fun raw => ops.asDict (ops.field raw "entries") with
  | none => some .empty
  | some records =>
    records.entries.foldlM (fun entries record =>
      match ops.asDict record.2 with
      | none => some entries
      | some data =>
        (InstanceReadModel.fromDict ops data).map (entries.set (ops.keyText record.1))) .empty

/-- The index of some instances with the entries that are loaded, if the storage is there. -/
def opened (instances : InstanceRepository K V) (storageReady : Bool) (stored : V) :
    Option (InstanceIndexProjection K V) :=
  (if storageReady then load ops stored else some .empty).map fun entries =>
    { instances, storageReady, stored, entries }

/-- Store the entries, if the storage is there. -/
def persist (now : String) : InstanceIndexProjection K V :=
  if p.storageReady then
    { p with stored := ops.dict (ops.record [
        ("entries", ops.dict (ops.record
          (p.entries.entries.map fun e => (e.1, ops.dict (e.2.toDict ops))))),
        ("entry_count", ops.int p.entries.entries.length),
        ("updated_at", ops.text now)]) }
  else p

/-- Whether the index has as many entries as there are instances and says so in the storage, where
the count must be an integer. -/
def isFresh (count : ℕ) : Option Bool :=
  if p.entries.entries = [] ∨ p.entries.entries.length ≠ count ∨ p.storageReady = false then
    some false
  else
    match ops.asDict p.stored with
    | none => some false
    | some raw =>
      let updated := ops.truthy (ops.field raw "updated_at")
      if ops.isNull (ops.field raw "entry_count") then some updated
      else
        match ops.toInt (ops.field raw "entry_count") with
        | none => none
        | some stored => if stored ≠ count then some false else some updated

/-- Put the read models of some summaries into the entries. -/
def addSummaries (summaries : List (InstanceSummary V)) : InstanceIndexProjection K V :=
  { p with entries := summaries.foldl (fun d s => d.set s.instanceId s.readModel) p.entries }

/-- Rebuild the index of the summaries, unless that is skipped. -/
def rebuild (policy : ProjectionRebuildPolicy) (now : String) :
    Except RebuildError ℕ × InstanceIndexProjection K V :=
  let p := { p with rebuildSkipped := false, usedBatchedRebuild := false, rebuildWarnings := [] }
  let summaries := p.instances.listSummaries ops
  let total : ℕ := summaries.length
  match if policy.skipIfFresh && !policy.force then p.isFresh ops total else some false with
  | none => (.error .invalidCount, p)
  | some true => (.ok p.entries.entries.length, { p with rebuildSkipped := true })
  | some false =>
    let useBatches : Bool := policy.maxInstances < total
    let warning := s!"instance_index: {total} instances exceeds max_instances=" ++
      s!"{policy.maxInstances}; rebuilding in batches of {policy.batchSize}"
    let p := { p with rebuildWarnings := if useBatches then [warning] else [] }
    let cleared := { p with entries := .empty }
    if total = 0 then (.ok 0, cleared.persist ops now)
    else
      let batchSize : ℤ := if useBatches then policy.batchSize else total
      let cleared := { cleared with usedBatchedRebuild := useBatches }
      if batchSize = 0 then (.error .zeroStep, cleared)
      else
        let rebuilt := (batchOffsets total batchSize).foldl (fun p offset =>
          (p.addSummaries ((summaries.drop offset).take batchSize.toNat)).persist ops now) cleared
        (.ok rebuilt.entries.entries.length, rebuilt)

/-- The instances that a query asks for. -/
def listInstances (query : ListInstancesQuery) : List (InstanceReadModel V) :=
  query.select ops p.entries.values

/-- One instance, of the entries or of the summaries; in the latter case it becomes an entry. -/
def getInstance (now i : String) : Option (InstanceReadModel V) × InstanceIndexProjection K V :=
  match p.entries.get? i with
  | some model => (some model, p)
  | none =>
    match (p.instances.listSummaries ops).find? (·.instanceId = i) with
    | none => (none, p)
    | some summary =>
      (some summary.readModel, (p.addSummaries [summary]).persist ops now)

/-- The read models of the summaries. -/
def current : List (InstanceReadModel V) :=
  (p.instances.listSummaries ops).map InstanceSummary.readModel

/-- The index is what the summaries tell: it has the ids of the stored instances with their status
and step, and queries are answered as by the summaries. -/
structure Authoritative : Prop where
  holds : ∀ i, (p.entries.get? i).map (fun m => (m.status, m.currentStepSlug)) =
    ((p.current ops).find? (·.instanceId = i)).map fun m => (m.status, m.currentStepSlug)
  listed : ∀ query, p.listInstances ops query = query.select ops (p.current ops)
  found : ∀ now i, (p.getInstance ops now i).1 = (p.current ops).find? (·.instanceId = i)

/-- The entries are those of the summaries, in the same order among those with one time. -/
def Agrees : Prop :=
  sortDescending InstanceReadModel.updatedAt p.entries.values = p.current ops ∧
    ∀ i, p.entries.get? i = (p.current ops).find? (·.instanceId = i)

/-- A rebuilding goes as far as to look at the entries and no further. -/
def Stops (policy : ProjectionRebuildPolicy) : Prop :=
  policy.skipIfFresh = true ∧ policy.force = false ∧
    p.isFresh ops (p.instances.listSummaries ops).length ≠ some false

/-- A rebuilding that stops finds the entries as they should be; otherwise no two summaries have one
id, and batches are not empty if they are needed. -/
def Rebuildable (policy : ProjectionRebuildPolicy) : Prop :=
  (p.Stops ops policy → p.Agrees ops) ∧
    (¬p.Stops ops policy →
      ((p.instances.listSummaries ops).map InstanceSummary.instanceId).Nodup ∧
        (p.instances.listSummaries ops ≠ [] →
          policy.maxInstances < (p.instances.listSummaries ops).length → 0 < policy.batchSize))

end InstanceIndexProjection

end PalmEngine.Persistence.Stored
