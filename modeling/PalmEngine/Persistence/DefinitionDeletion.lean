import PalmEngine.Persistence.DefinitionRepository

/-!
# The definition repository: the other kinds, and deletion

Processes, schemas and resources are treated alike: a map by id and a map by name in memory, a
document under the key of the id and a stored list of ids. A kind says which of these the
repository takes, and each call of the repository is the one of its kind. Flows are deleted with
all their revisions. The entry of a name is removed only if it is the very definition that is
deleted; an entry of its name that is equal to it is that object, as both maps are set together.
-/

namespace PalmEngine.Persistence

open PalmEngine.Lib

namespace Repository

/-- `storage.delete`; nothing happens without a storage. -/
def remove (r : Repository) (k : String) : Repository :=
  { r with storage := r.storage.map (Function.update · k none) }

/-- The stored list of the ids of a kind. -/
def indexedIds (r : Repository) (kind : String) : List String :=
  match r.fetch (r.indexKey kind) with
  | some (.ids ids) => ids
  | _ => []

/-- Take an id out of the stored list of a kind. -/
def removeFromIndex (r : Repository) (kind definitionId : String) : Repository :=
  match r.fetch (r.indexKey kind) with
  | some (.ids ids) => r.store (r.indexKey kind) (.ids (ids.filter (· ≠ definitionId)))
  | _ => r

/-- Delete the document of a definition and its id in the stored list. -/
def deleteRecord (r : Repository) (kind definitionId : String) : Repository :=
  (r.remove (r.key kind definitionId)).removeFromIndex kind definitionId

/-- Delete the document of a revision and its number in the stored list of the flow. -/
def deleteFlowRevisionRecord (r : Repository) (flowId : String) (revision : ℕ) : Repository :=
  let u := r.remove (r.flowRevisionKey flowId revision)
  match u.fetch (u.flowRevisionsIndexKey flowId) with
  | some (.numbers ns) =>
    u.store (u.flowRevisionsIndexKey flowId) (.numbers (ns.filter (· ≠ revision)))
  | _ => u

/-- Delete the latest pointer of a flow and its list of revision numbers. -/
def deleteLatestRevisionPointer (r : Repository) (flowId : String) : Repository :=
  (r.remove (r.flowLatestKey flowId)).remove (r.flowRevisionsIndexKey flowId)

/-- A flow is no longer found by its id, nor by its name if the name leads to this flow. -/
def unindexFlow (r : Repository) (flow : FlowDefinition) : Repository :=
  { r with
    flowsById := r.flowsById.erase flow.definitionId
    flowsByName := if r.flowsByName.get? flow.name = some flow then r.flowsByName.erase flow.name
      else r.flowsByName }

/-- A flow by its id or by its name. -/
def getFlow (r : Repository) (ref : String) (byId : Bool) (revision : Option ℕ) :
    Except RepositoryError FlowDefinition × Repository :=
  if byId then r.getFlowById ref revision else r.getFlowByName ref revision

/-- Remove all revisions of a flow from memory and storage. -/
def deleteFlow (r : Repository) (ref : String) (byId : Bool) : Bool × Repository :=
  match r.getFlow ref byId none with
  | (.error _, r) => (false, r)
  | (.ok flow, r) =>
    let flowId := flow.definitionId
    let r := r.unindexFlow flow
    let r := (r.revisionNumbers flowId).foldl (·.deleteFlowRevisionRecord flowId ·) r
    let r := { r with
      flowRevisions := r.flowRevisions.erase flowId
      flowLatestRevision := r.flowLatestRevision.erase flowId }
    (true, (r.deleteRecord "flow" flowId).deleteLatestRevisionPointer flowId)

end Repository

/-- A definition is found by its id and by its name. -/
def DefinitionIndex.insert {D : Type} (x : DefinitionIndex D) (definitionId name : String)
    (definition : D) : DefinitionIndex D :=
  ⟨x.byId.set definitionId definition, x.byName.set name definition⟩

/-- A definition is no longer found by its id, nor by its name if the name leads to it. -/
def DefinitionIndex.remove {D : Type} [DecidableEq D] (x : DefinitionIndex D)
    (definitionId name : String) (definition : D) : DefinitionIndex D :=
  ⟨x.byId.erase definitionId,
    if x.byName.get? name = some definition then x.byName.erase name else x.byName⟩

/-- The identifier of a definition: its id unless it is missing or empty. -/
def idOrName (id : Option String) (name : String) : String :=
  match id with
  | some id => if id ≠ "" then id else name
  | none => name

/-- The identifier used for storage keys. -/
def ProcessDefinition.definitionId (p : ProcessDefinition) : String := idOrName p.id p.name

/-- The identifier used for storage keys. -/
def StateSchemaDefinition.definitionId (s : StateSchemaDefinition) : String := idOrName s.id s.name

/-- The identifier used for storage keys. -/
def ResourceDefinition.definitionId (s : ResourceDefinition) : String := idOrName s.id s.name

/-- A process restored from its record: its flows are restored from theirs. -/
def ProcessDefinition.fromDict (record : ProcessDefinition) : ProcessDefinition :=
  { record with flows := record.flows.map FlowDefinition.fromDict }

/-- The kind and the id of a stored document without revisions. -/
def StoredValue.document : StoredValue → Option (String × String)
  | .process p => some ("process", p.definitionId)
  | .schema s => some ("state_schema", s.definitionId)
  | .resource s => some ("resource", s.definitionId)
  | .record _ | .number _ | .numbers _ | .ids _ => none

/-- A kind of definitions without revisions: what its definitions are, how they are stored and where
the repository has them. -/
structure DefinitionKind (D : Type) where
  kind : String
  name : D → String
  definitionId : D → String
  toStorageRecord : D → StoredValue
  fromDict : StoredValue → Option D
  index : Repository → DefinitionIndex D
  withIndex : Repository → DefinitionIndex D → Repository
  kind_colon : ':' ∉ kind.toList
  kind_ne : kind ≠ "flow" ∧ kind ≠ "index"
  document_toStorageRecord : ∀ d, (toStorageRecord d).document = some (kind, definitionId d)
  document_fromDict : ∀ v d, fromDict v = some d → v.document = some (kind, definitionId d)
  index_withIndex : ∀ r x, index (withIndex r x) = x
  index_congr : ∀ r u : Repository, r.processes = u.processes → r.schemas = u.schemas →
    r.resources = u.resources → index r = index u
  withIndex_rest : ∀ r x, { withIndex r x with
    processes := r.processes, schemas := r.schemas, resources := r.resources } = r

namespace DefinitionKind

variable {D : Type} [DecidableEq D] (K : DefinitionKind D)

/-- The stored document of a definition. -/
def loadRecord (r : Repository) (definitionId : String) : Option D :=
  (r.fetch (r.key K.kind definitionId)).bind K.fromDict

/-- Make a definition the one found by its id and by its name. -/
def insert (r : Repository) (definition : D) : Repository :=
  K.withIndex r ((K.index r).insert (K.definitionId definition) (K.name definition) definition)

/-- Take a definition out of both maps. -/
def unindex (r : Repository) (definition : D) : Repository :=
  K.withIndex r ((K.index r).remove (K.definitionId definition) (K.name definition) definition)

/-- Register a definition in memory. -/
def register (r : Repository) (definition : D) : Except RepositoryError D × Repository :=
  (.ok definition, K.insert r definition)

/-- Register and persist a definition. The maps change before a missing storage raises. -/
def save (r : Repository) (definition : D) : Except RepositoryError D × Repository :=
  let u := K.insert r definition
  if u.storage.isSome then
    (.ok definition, (u.store (u.key K.kind (K.definitionId definition))
      (K.toStorageRecord definition)).updateIndex K.kind (K.definitionId definition))
  else (.error .storageNotConfigured, u)

/-- A definition by id: the one in memory, or the stored document. -/
def getById (r : Repository) (definitionId : String) : Except RepositoryError D × Repository :=
  match (K.index r).byId.get? definitionId with
  | some cached => (.ok cached, r)
  | none =>
    match K.loadRecord r definitionId with
    | some loaded => (.ok loaded, K.insert r loaded)
    | none => (.error (.definitionNotFound K.kind definitionId), r)

/-- The ids known in memory or in the stored list, sorted. -/
def collectIds (r : Repository) : List String :=
  ((K.index r).byId.keys ++ r.indexedIds K.kind).dedup.mergeSort (· ≤ ·)

/-- The first stored document with the name. -/
def scanStorageForName (r : Repository) (name : String) : Option D :=
  (K.collectIds r).findSome? fun definitionId =>
    (K.loadRecord r definitionId).filter (K.name · = name)

/-- A definition by name: the one in memory, another one in memory with this name, or the first
stored one. -/
def getByName (r : Repository) (name : String) : Except RepositoryError D × Repository :=
  match (K.index r).byName.get? name with
  | some cached => (.ok cached, r)
  | none =>
    match (K.index r).byId.values.find? (K.name · = name) with
    | some found => (.ok found, r)
    | none =>
      match K.scanStorageForName r name with
      | some loaded => (.ok loaded, K.insert r loaded)
      | none => (.error (.definitionNotFound K.kind name), r)

/-- A definition by its id or by its name. -/
def get (r : Repository) (ref : String) (byId : Bool) : Except RepositoryError D × Repository :=
  if byId then K.getById r ref else K.getByName r ref

/-- Remove a definition from memory and storage. -/
def delete (r : Repository) (ref : String) (byId : Bool) : Bool × Repository :=
  match K.get r ref byId with
  | (.error _, r) => (false, r)
  | (.ok definition, r) =>
    (true, (K.unindex r definition).deleteRecord K.kind (K.definitionId definition))

end DefinitionKind

/-- The processes of the repository. -/
def processKind : DefinitionKind ProcessDefinition where
  kind := "process"
  name := (·.name)
  definitionId := (·.definitionId)
  toStorageRecord := .process
  fromDict
    | .process d => some (.fromDict d)
    | _ => none
  index := (·.processes)
  withIndex r x := { r with processes := x }
  kind_colon := by decide
  kind_ne := by decide
  document_toStorageRecord _ := rfl
  document_fromDict v d h := by
    cases v <;> cases h
    rfl
  index_withIndex _ _ := rfl
  index_congr _ _ h _ _ := h
  withIndex_rest _ _ := rfl

/-- The state schemas of the repository. -/
def schemaKind : DefinitionKind StateSchemaDefinition where
  kind := "state_schema"
  name := (·.name)
  definitionId := (·.definitionId)
  toStorageRecord := .schema
  fromDict
    | .schema d => some d
    | _ => none
  index := (·.schemas)
  withIndex r x := { r with schemas := x }
  kind_colon := by decide
  kind_ne := by decide
  document_toStorageRecord _ := rfl
  document_fromDict v d h := by
    cases v <;> cases h
    rfl
  index_withIndex _ _ := rfl
  index_congr _ _ _ h _ := h
  withIndex_rest _ _ := rfl

/-- The resources of the repository. -/
def resourceKind : DefinitionKind ResourceDefinition where
  kind := "resource"
  name := (·.name)
  definitionId := (·.definitionId)
  toStorageRecord := .resource
  fromDict
    | .resource d => some d
    | _ => none
  index := (·.resources)
  withIndex r x := { r with resources := x }
  kind_colon := by decide
  kind_ne := by decide
  document_toStorageRecord _ := rfl
  document_fromDict v d h := by
    cases v <;> cases h
    rfl
  index_withIndex _ _ := rfl
  index_congr _ _ _ _ h := h
  withIndex_rest _ _ := rfl

namespace Repository

/-- Register a process in memory. -/
def registerProcess := processKind.register

/-- Register and persist a process. -/
def saveProcess := processKind.save

/-- A process by its id or by its name. -/
def getProcess := processKind.get

/-- Remove a process from memory and storage. -/
def deleteProcess := processKind.delete

/-- Register a state schema in memory. -/
def registerSchema := schemaKind.register

/-- Register and persist a state schema. -/
def saveSchema := schemaKind.save

/-- A state schema by its id or by its name. -/
def getSchema := schemaKind.get

/-- Remove a state schema from memory and storage. -/
def deleteSchema := schemaKind.delete

/-- Register a resource in memory. -/
def registerResource := resourceKind.register

/-- Register and persist a resource. -/
def saveResource := resourceKind.save

/-- A resource by its id or by its name. -/
def getResource := resourceKind.get

/-- Remove a resource from memory and storage. -/
def deleteResource := resourceKind.delete

end Repository

/-- A call about the definitions of a kind without revisions. -/
inductive KindOp (D : Type) where
  | register (definition : D)
  | save (definition : D)
  | get (ref : String) (byId : Bool)
  | delete (ref : String) (byId : Bool)

/-- The definition that a call registers. -/
def KindOp.published {D : Type} : KindOp D → Option D
  | .register d | .save d => some d
  | .get _ _ | .delete _ _ => none

/-- One call into the repository, or its re-creation over the same storage. -/
inductive DefinitionOp where
  | flow (op : RepositoryOp)
  | deleteFlow (ref : String) (byId : Bool)
  | process (op : KindOp ProcessDefinition)
  | schema (op : KindOp StateSchemaDefinition)
  | resource (op : KindOp ResourceDefinition)

/-- The repository after a call; a call that raises keeps what it had done. -/
def Repository.call (r : Repository) : DefinitionOp → Option Repository
  | .flow op => r.step op
  | .deleteFlow ref byId => some (r.deleteFlow ref byId).2
  | .process (.register p) => some (r.registerProcess p).2
  | .process (.save p) => some (r.saveProcess p).2
  | .process (.get ref byId) => some (r.getProcess ref byId).2
  | .process (.delete ref byId) => some (r.deleteProcess ref byId).2
  | .schema (.register s) => some (r.registerSchema s).2
  | .schema (.save s) => some (r.saveSchema s).2
  | .schema (.get ref byId) => some (r.getSchema ref byId).2
  | .schema (.delete ref byId) => some (r.deleteSchema ref byId).2
  | .resource (.register s) => some (r.registerResource s).2
  | .resource (.save s) => some (r.saveResource s).2
  | .resource (.get ref byId) => some (r.getResource ref byId).2
  | .resource (.delete ref byId) => some (r.deleteResource ref byId).2

/-- A definition of any kind. -/
inductive Definition where
  | flow (flow : FlowDefinition)
  | process (process : ProcessDefinition)
  | schema (schema : StateSchemaDefinition)
  | resource (resource : ResourceDefinition)

/-- What makes two definitions the same one: the kind and the id. -/
def Definition.identity : Definition → String × String
  | .flow f => ("flow", f.definitionId)
  | .process p => ("process", p.definitionId)
  | .schema s => ("state_schema", s.definitionId)
  | .resource s => ("resource", s.definitionId)

/-- A lookup by id or by name, of a flow also with the number of a revision. -/
inductive DefinitionQuery where
  | flow (ref : String) (byId : Bool) (revision : Option ℕ)
  | process (ref : String) (byId : Bool)
  | schema (ref : String) (byId : Bool)
  | resource (ref : String) (byId : Bool)

/-- The kind of the definitions that a lookup is about. -/
def DefinitionQuery.kind : DefinitionQuery → String
  | .flow _ _ _ => "flow"
  | .process _ _ => "process"
  | .schema _ _ => "state_schema"
  | .resource _ _ => "resource"

/-- What a lookup finds. -/
def Repository.lookup (r : Repository) : DefinitionQuery → Option Definition
  | .flow ref byId revision => (r.getFlow ref byId revision).1.toOption.map .flow
  | .process ref byId => (r.getProcess ref byId).1.toOption.map .process
  | .schema ref byId => (r.getSchema ref byId).1.toOption.map .schema
  | .resource ref byId => (r.getResource ref byId).1.toOption.map .resource

/-- The definition that a call deletes: the one that its reference leads to. -/
def Repository.deleted (r : Repository) : DefinitionOp → Option Definition
  | .deleteFlow ref byId => r.lookup (.flow ref byId none)
  | .process (.delete ref byId) => r.lookup (.process ref byId)
  | .schema (.delete ref byId) => r.lookup (.schema ref byId)
  | .resource (.delete ref byId) => r.lookup (.resource ref byId)
  | _ => none

end PalmEngine.Persistence
