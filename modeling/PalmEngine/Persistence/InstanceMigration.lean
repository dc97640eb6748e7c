import PalmEngine.Lib.Dict
import PalmEngine.Persistence.DefinitionRepository

/-!
# Migration of an instance to another revision

An instance keeps the definition that it was submitted with and the revision of it. A migration
asks a registered rule for a new state, writes it into the instance with the revision and the
definition it was made for, and notes its progress in the metadata of the instance.

A state is an uninterpreted value and so is a position. Beside its value each has a history, the
revision of the definition whose execution produced it; the history decides nothing.
-/

namespace PalmEngine.Persistence

open PalmEngine.Lib

/-- A value with the revision of the definition whose execution produced it, none if it is not
the product of an execution. -/
structure Produced (α : Type) where
  value : α
  producer : Option ℕ := none
  deriving DecidableEq, Repr

/-- What the metadata of an instance holds: what migrations write, and the values of the job. -/
inductive MetadataValue where
  | text (text : String)
  | number (n : ℕ)
  | texts (texts : List String)
  deriving DecidableEq, Repr

/-- The fields of an instance that migrations and running jobs read and write. Of the definition
that it keeps only the revision is read; an instance without a step or a position has none. -/
structure ProcessInstance (σ π : Type) where
  instanceId : String
  status : String
  stateSnapshot : Produced σ
  definitionRevision : Option ℕ
  flowId : Option String
  flowRevision : Option ℕ
  flowName : Option String
  metadata : Dict String MetadataValue
  currentStepSlug : Option (Produced String)
  runtimePosition : Option (Produced π)

/-- What a rule is asked with. -/
structure MigrationContext (σ : Type) where
  flowId : String
  fromRevision : ℕ
  toRevision : ℕ
  instanceId : String
  state : σ

/-- A registered rule: whether it can migrate, with the blockers, and the state it makes. -/
structure DefinitionMigrationRule (σ : Type) where
  flowId : String
  fromRevision : ℕ
  toRevision : ℕ
  canMigrate : MigrationContext σ → Bool × List String
  migrateState : MigrationContext σ → σ

/-- The registry of rules. -/
abbrev MigrationRegistry (σ : Type) := Dict (String × ℕ × ℕ) (DefinitionMigrationRule σ)

/-- The errors of a migration; all but the first carry the id of the instance. -/
inductive MigrationError where
  | instanceNotFound (instanceId : String)
  | noFlowId (instanceId : String)
  | notAhead (instanceId : String) (target current : ℕ)
  | targetNotFound (instanceId : String) (target : ℕ) (flowId : String)
  deriving DecidableEq, Repr

/-- What a migration returns. -/
structure MigrationResult (σ : Type) where
  instanceId : String
  flowId : String
  fromRevision : ℕ
  targetRevision : ℕ
  dryRun : Bool
  applied : Bool
  migrationStatus : String
  blockers : List String
  previewState : Option σ := none
  stateSnapshot : Option σ := none

/-- The keys that the metadata of an instance keeps for migrations. -/
def migrationMetadataKeys : List String :=
  ["migration_status", "migration_target_revision", "migration_from_revision", "migration_blockers"]

/-- The metadata of a job with the migration fields of the instance. -/
def preserveMigrationMetadata (instanceMetadata jobMetadata : Dict String MetadataValue) :
    Dict String MetadataValue :=
  migrationMetadataKeys.foldl (fun merged key => merged.setSome key (instanceMetadata.get? key))
    jobMetadata

variable {σ π : Type}

namespace MigrationRegistry

/-- Register a rule; a later one for the same flow and revisions takes its place. -/
def register (rules : MigrationRegistry σ) (rule : DefinitionMigrationRule σ) :
    MigrationRegistry σ :=
  rules.set (rule.flowId, rule.fromRevision, rule.toRevision) rule

/-- The rule for a pair of revisions, if one is registered. -/
def resolve (rules : MigrationRegistry σ) (flowId : String) (fromRevision toRevision : ℕ) :
    Option (DefinitionMigrationRule σ) :=
  rules.get? (flowId, fromRevision, toRevision)

/-- The new state a rule makes, or the blockers. -/
def plan (rules : MigrationRegistry σ) (ctx : MigrationContext σ) : Except (List String) σ :=
  match rules.resolve ctx.flowId ctx.fromRevision ctx.toRevision with
  | none => .error ["no migration rule registered"]
  | some rule =>
    match rule.canMigrate ctx with
    | (true, _) => .ok (rule.migrateState ctx)
    | (false, blockers) => .error blockers

end MigrationRegistry

/-- The writes to the fields of an instance. -/
inductive FieldWrite (σ π : Type) where
  | stateSnapshot (state : Produced σ)
  | flowRevision (revision : ℕ)
  | flowDefinition (flow : FlowDefinition)
  | migration (status : String) (target fromRevision : ℕ) (blockers : List String)
  | migrationStatus (status : String)
  | clearMigration
  | jobMetadata (metadata : Dict String MetadataValue)
  | currentStepSlug (step : Option (Produced String))
  | runtimePosition (position : Option (Produced π))
  | status (status : String)

namespace ProcessInstance

variable (c : ProcessInstance σ π)

/-- `_instance_flow_id`: the id of the flow, or its name where the id is missing or empty. -/
def instanceFlowId : Option String :=
  match c.flowId with
  | some flowId => if flowId ≠ "" then some flowId else c.flowName
  | none => c.flowName

/-- `_instance_revision`: the revision of the instance, or the one in its definition, or one. -/
def revision : ℕ := c.flowRevision.getD (c.definitionRevision.getD 1)

/-- Write a field. -/
def write : FieldWrite σ π → ProcessInstance σ π
  | .stateSnapshot state => { c with stateSnapshot := state }
  | .flowRevision revision => { c with flowRevision := some revision }
  | .flowDefinition flow => { c with definitionRevision := flow.revision }
  | .migration status target fromRevision blockers =>
    let metadata := c.metadata.set "migration_status" (.text status)
    let metadata := metadata.set "migration_target_revision" (.number target)
    let metadata := metadata.set "migration_from_revision" (.number fromRevision)
    { c with metadata := metadata.set "migration_blockers" (.texts blockers) }
  | .migrationStatus status =>
    { c with metadata := c.metadata.set "migration_status" (.text status) }
  | .clearMigration => { c with metadata := migrationMetadataKeys.foldl Dict.erase c.metadata }
  | .jobMetadata metadata => { c with metadata := preserveMigrationMetadata c.metadata metadata }
  | .currentStepSlug step => { c with currentStepSlug := step }
  | .runtimePosition position => { c with runtimePosition := position }
  | .status status => { c with status := status }

/-- The flow and the revision that a migration starts from: the instance has a flow, and the
target is ahead. -/
def migrationSource (target : ℕ) : Except MigrationError (String × ℕ) :=
  match c.instanceFlowId.filter (· ≠ "") with
  | none => .error (.noFlowId c.instanceId)
  | some flowId =>
    if target ≤ c.revision then .error (.notAhead c.instanceId target c.revision)
    else .ok (flowId, c.revision)

/-- `request_instance_migration`: the intent to migrate, unless the target is no longer ahead. -/
def requestMigration (target : ℕ) : Except MigrationError (FieldWrite σ π) :=
  if target ≤ c.revision then .error (.notAhead c.instanceId target c.revision)
  else .ok (.migration "pending" target c.revision [])

/-- What the rule is asked with about an instance. -/
def migrationContext (flowId : String) (fromRevision target : ℕ) : MigrationContext σ :=
  ⟨flowId, fromRevision, target, c.instanceId, c.stateSnapshot.value⟩

/-- The writes that apply a migration. -/
def migrationWrites (target : ℕ) (flow : FlowDefinition) (migrated : σ) :
    List (FieldWrite σ π) :=
  [.stateSnapshot ⟨migrated, none⟩, .flowRevision target, .flowDefinition flow, .clearMigration]

end ProcessInstance

namespace MigrationResult

variable (instanceId flowId : String) (fromRevision target : ℕ)

/-- The result of a migration that its rule does not allow. -/
def blocked (dryRun : Bool) (blockers : List String) : MigrationResult σ :=
  ⟨instanceId, flowId, fromRevision, target, dryRun, false, "failed", blockers, none, none⟩

/-- The result of a dry run. -/
def preview (migrated : σ) : MigrationResult σ :=
  ⟨instanceId, flowId, fromRevision, target, true, false, "pending", [], some migrated, none⟩

/-- The result of a migration that is done. -/
def succeeded (state : σ) : MigrationResult σ :=
  ⟨instanceId, flowId, fromRevision, target, false, true, "succeeded", [], none, some state⟩

end MigrationResult

end PalmEngine.Persistence
