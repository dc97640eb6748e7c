import PalmEngine.Lib.Dict

/-!
# The definition repository: flows and their revisions

The in-memory registry of flow definitions with its optional storage. Every registration
publishes the next revision after the repository's own counter; storage holds revision
documents, a latest pointer and indexes under textual keys, and loads fill the registry
lazily. The other kinds of definitions stand beside the flows, over the same storage; what is
done with them, and deletion, is in another module. Options, schemas and metadata are opaque
texts, and storage is a map that does not fail.
-/

namespace PalmEngine.Persistence

open PalmEngine.Lib

/-- A JSON object that the repository stores and returns without inspecting it. -/
abbrev JsonText := String

/-- A named flow with its pattern binding; both are never empty. -/
structure FlowDefinition where
  name : String
  pattern : String
  options : JsonText := "{}"
  id : Option String := none
  revision : Option ℕ := none
  stateSchemaRef : Option String := none
  stateSchema : Option JsonText := none
  name_ne : name ≠ "" := by decide
  pattern_ne : pattern ≠ "" := by decide
  deriving DecidableEq

/-- The identifier used for storage keys: the id unless it is missing or empty. -/
def FlowDefinition.definitionId (flow : FlowDefinition) : String :=
  match flow.id with
  | some id => if id ≠ "" then id else flow.name
  | none => flow.name

/-- The record a flow is stored as; its fields are those of the flow. -/
def FlowDefinition.toStorageRecord (flow : FlowDefinition) : FlowDefinition := flow

/-- A flow restored from its record: an empty schema reference reads as none. -/
def FlowDefinition.fromDict (record : FlowDefinition) : FlowDefinition :=
  { record with stateSchemaRef := record.stateSchemaRef.filter (· ≠ "") }

/-- A named process with its flows; the name is never empty. -/
structure ProcessDefinition where
  name : String
  flows : List FlowDefinition := []
  storage : String := "memory"
  metadata : JsonText := "{}"
  id : Option String := none
  name_ne : name ≠ "" := by decide
  deriving DecidableEq

/-- A named schema of states; the name is never empty. -/
structure StateSchemaDefinition where
  name : String
  schema : JsonText
  id : Option String := none
  metadata : JsonText := "{}"
  name_ne : name ≠ "" := by decide
  deriving DecidableEq

/-- A named resource with its provider and action; none of the three is ever empty. -/
structure ResourceDefinition where
  name : String
  provider : String
  id : Option String := none
  action : String := "fetch"
  resourceId : Option String := none
  params : JsonText := "{}"
  inputSchema : Option JsonText := none
  outputSchema : Option JsonText := none
  outputKey : Option String := none
  metadata : JsonText := "{}"
  name_ne : name ≠ "" := by decide
  provider_ne : provider ≠ "" := by decide
  action_ne : action ≠ "" := by decide
  deriving DecidableEq

/-- What the repository keeps under a storage key. -/
inductive StoredValue where
  | record (flow : FlowDefinition)
  | process (process : ProcessDefinition)
  | schema (schema : StateSchemaDefinition)
  | resource (resource : ResourceDefinition)
  | number (n : ℕ)
  | numbers (ns : List ℕ)
  | ids (ids : List String)
  deriving DecidableEq

/-- The errors of the repository. -/
inductive RepositoryError where
  | definitionNotFound (kind ref : String)
  | storageNotConfigured
  deriving DecidableEq, Repr

/-- The contents of a storage engine. -/
abbrev Storage := String → Option StoredValue

/-- The definitions of one kind in memory, by id and by name. -/
structure DefinitionIndex (D : Type) where
  byId : Dict String D := .empty
  byName : Dict String D := .empty

/-- A repository: its storage, none when it is absent or not initialized, and its caches. -/
structure Repository where
  storage : Option Storage
  keyPrefix : String
  flowsById : Dict String FlowDefinition := .empty
  flowsByName : Dict String FlowDefinition := .empty
  flowRevisions : Dict String (Dict ℕ FlowDefinition) := .empty
  flowLatestRevision : Dict String ℕ := .empty
  processes : DefinitionIndex ProcessDefinition := {}
  schemas : DefinitionIndex StateSchemaDefinition := {}
  resources : DefinitionIndex ResourceDefinition := {}

/-- A repository as constructed: the key prefix loses its trailing colons. -/
def Repository.new (storage : Option Storage) (keyPrefix : String) : Repository :=
  { storage := storage, keyPrefix := String.ofList (keyPrefix.toList.rdropWhile (· = ':')) }

namespace Repository

/-- The key of one revision document. -/
def flowRevisionKey (r : Repository) (flowId : String) (revision : ℕ) : String :=
  r.keyPrefix ++ ":flow:" ++ flowId ++ ":rev:" ++ toString revision

/-- The key of the latest pointer. -/
def flowLatestKey (r : Repository) (flowId : String) : String :=
  r.keyPrefix ++ ":flow:" ++ flowId ++ ":latest"

/-- The key of the list of revision numbers. -/
def flowRevisionsIndexKey (r : Repository) (flowId : String) : String :=
  r.keyPrefix ++ ":flow:" ++ flowId ++ ":revs"

/-- The key of a definition stored without revisions. -/
def key (r : Repository) (kind definitionId : String) : String :=
  r.keyPrefix ++ ":" ++ kind ++ ":" ++ definitionId

/-- The key of the list of stored ids. -/
def indexKey (r : Repository) (kind : String) : String := r.keyPrefix ++ ":index:" ++ kind

/-- `storage.get`; nothing without a storage. -/
def fetch (r : Repository) (k : String) : Option StoredValue := r.storage.bind (· k)

/-- `storage.set`; a caller without a storage has raised before. -/
def store (r : Repository) (k : String) (value : StoredValue) : Repository :=
  { r with storage := r.storage.map (Function.update · k (some value)) }

/-- The stored document of one revision. -/
def loadFlowRevisionRecord (r : Repository) (flowId : String) (revision : ℕ) :
    Option FlowDefinition :=
  match r.fetch (r.flowRevisionKey flowId revision) with
  | some (.record flow) => some flow
  | _ => none

/-- The stored latest pointer. -/
def loadLatestRevisionNumber (r : Repository) (flowId : String) : Option ℕ :=
  match r.fetch (r.flowLatestKey flowId) with
  | some (.number n) => some n
  | _ => none

/-- A definition stored without revisions. -/
def loadRecord (r : Repository) (kind definitionId : String) : Option FlowDefinition :=
  match r.fetch (r.key kind definitionId) with
  | some (.record flow) => some flow
  | _ => none

/-- Cache one revision of a flow; the counter keeps the largest revision it has seen. -/
def cacheFlowRevision (r : Repository) (flow : FlowDefinition) : Repository :=
  match flow.revision with
  | none => r
  | some revision =>
    let revisions := (r.flowRevisions.get? flow.definitionId).getD .empty
    let latest := (r.flowLatestRevision.get? flow.definitionId).getD 0
    { r with
      flowRevisions := r.flowRevisions.set flow.definitionId (revisions.set revision flow)
      flowLatestRevision := r.flowLatestRevision.set flow.definitionId (max latest revision) }

/-- Make a flow the one found by its id and by its name. -/
def indexFlowLatest (r : Repository) (flow : FlowDefinition) : Repository :=
  { r with
    flowsById := r.flowsById.set flow.definitionId flow
    flowsByName := r.flowsByName.set flow.name flow }

/-- Add a revision number to the stored list of a flow. -/
def appendRevisionIndex (r : Repository) (flowId : String) (revision : ℕ) : Repository :=
  let current := match r.fetch (r.flowRevisionsIndexKey flowId) with
    | some (.numbers ns) => ns
    | _ => []
  if revision ∈ current then r
  else r.store (r.flowRevisionsIndexKey flowId)
    (.numbers ((current ++ [revision]).mergeSort (· ≤ ·)))

/-- Add an id to the stored list of a kind. -/
def updateIndex (r : Repository) (kind definitionId : String) : Repository :=
  let current := match r.fetch (r.indexKey kind) with
    | some (.ids ids) => ids
    | _ => []
  if definitionId ∈ current then r
  else r.store (r.indexKey kind) (.ids (current ++ [definitionId]))

/-- The revision a publication assigns: one after the repository's own counter. -/
def nextRevision (r : Repository) (flowId : String) : ℕ :=
  (r.flowLatestRevision.get? flowId).getD 0 + 1

/-- The stored part of a publication: the document, the pointer and the two indexes. -/
def persistRevision (r : Repository) (flowId : String) (revision : ℕ)
    (published : FlowDefinition) : Repository :=
  (((r.store (r.flowRevisionKey flowId revision) (.record published.toStorageRecord)).store
    (r.flowLatestKey flowId) (.number revision)).appendRevisionIndex flowId revision).updateIndex
      "flow" flowId

/-- Publish the next revision of a flow. The caches change before a missing storage raises. -/
def publishFlowRevisionWith (r : Repository) (flow : FlowDefinition) (persist : Bool) :
    Except RepositoryError FlowDefinition × Repository :=
  let flowId := flow.definitionId
  let revision := r.nextRevision flowId
  let published := { flow with revision := some revision }
  let cached := (r.cacheFlowRevision published).indexFlowLatest published
  if persist then
    if r.storage.isSome then (.ok published, cached.persistRevision flowId revision published)
    else (.error .storageNotConfigured, cached)
  else (.ok published, cached)

/-- Publish a flow revision in memory. -/
def registerFlow (r : Repository) (flow : FlowDefinition) :
    Except RepositoryError FlowDefinition × Repository :=
  r.publishFlowRevisionWith flow false

/-- Publish and persist a flow revision. -/
def saveFlow (r : Repository) (flow : FlowDefinition) :
    Except RepositoryError FlowDefinition × Repository :=
  r.publishFlowRevisionWith flow true

/-- Publish a flow revision, persisting it when a storage is configured. -/
def publishFlowRevision (r : Repository) (flow : FlowDefinition) :
    Except RepositoryError FlowDefinition × Repository :=
  r.publishFlowRevisionWith flow r.storage.isSome

/-- The latest revision: the counter, or the stored pointer, which then becomes the counter. -/
def getLatestRevision (r : Repository) (flowId : String) : Option ℕ × Repository :=
  match r.flowLatestRevision.get? flowId with
  | some latest => (some latest, r)
  | none =>
    match r.loadLatestRevisionNumber flowId with
    | some latest =>
      (some latest, { r with flowLatestRevision := r.flowLatestRevision.set flowId latest })
    | none => (none, r)

/-- One revision of a flow, from the cache or from its stored document. -/
def getFlowRevision (r : Repository) (definitionId : String) (revision : ℕ) :
    Except RepositoryError FlowDefinition × Repository :=
  match (r.flowRevisions.get? definitionId).bind (·.get? revision) with
  | some cached => (.ok cached, r)
  | none =>
    match r.loadFlowRevisionRecord definitionId revision with
    | some record =>
      (.ok (FlowDefinition.fromDict record), r.cacheFlowRevision (.fromDict record))
    | none => (.error (.definitionNotFound "flow" definitionId), r)

/-- A flow by id: the indexed one, the latest stored revision, or a record without revisions,
which is taken as revision one. -/
def getFlowById (r : Repository) (definitionId : String) (revision : Option ℕ) :
    Except RepositoryError FlowDefinition × Repository :=
  match revision with
  | some revision => r.getFlowRevision definitionId revision
  | none =>
    match r.flowsById.get? definitionId with
    | some cached => (.ok cached, r)
    | none =>
      match r.loadLatestRevisionNumber definitionId with
      | some latest => r.getFlowRevision definitionId latest
      | none =>
        match r.loadRecord "flow" definitionId with
        | none => (.error (.definitionNotFound "flow" definitionId), r)
        | some record =>
          let loaded := FlowDefinition.fromDict record
          let flow := { loaded with revision := some (loaded.revision.getD 1) }
          (.ok flow, (r.cacheFlowRevision flow).indexFlowLatest flow)

/-- The ids known in memory or in the stored index, sorted. -/
def collectIds (r : Repository) : List String :=
  let indexed := match r.fetch (r.indexKey "flow") with
    | some (.ids ids) => ids
    | _ => []
  (r.flowsById.keys ++ indexed).dedup.mergeSort (· ≤ ·)

/-- Load the flows of the given ids until one has the name. -/
def scanStorageForName (name : String) : Repository → List String →
    Option FlowDefinition × Repository
  | r, [] => (none, r)
  | r, definitionId :: rest =>
    match r.getFlowById definitionId none with
    | (.ok flow, r') => if flow.name = name then (some flow, r') else scanStorageForName name r' rest
    | (.error _, r') => scanStorageForName name r' rest

/-- A flow by name: the indexed one, another registered one, or the first stored one. -/
def getFlowByName (r : Repository) (name : String) (revision : Option ℕ) :
    Except RepositoryError FlowDefinition × Repository :=
  match r.flowsByName.get? name, revision with
  | some cached, none => (.ok cached, r)
  | _, _ =>
    match r.flowsById.values.find? (·.name = name) with
    | some flow =>
      if revision.isNone then (.ok flow, r) else r.getFlowById flow.definitionId revision
    | none =>
      match scanStorageForName name r r.collectIds with
      | (some loaded, r') =>
        ((r'.cacheFlowRevision loaded).indexFlowLatest loaded).getFlowById loaded.definitionId revision
      | (none, r') => (.error (.definitionNotFound "flow" name), r')

/-- The revision numbers known in memory or in the stored list, sorted; the counter when there
are none. -/
def revisionNumbers (r : Repository) (flowId : String) : List ℕ :=
  let cached := ((r.flowRevisions.get? flowId).map Dict.keys).getD []
  let indexed := match r.fetch (r.flowRevisionsIndexKey flowId) with
    | some (.numbers ns) => ns
    | _ => []
  match (cached ++ indexed).dedup with
  | [] => (r.flowLatestRevision.get? flowId).toList
  | numbers => numbers.mergeSort (· ≤ ·)

/-- The revision numbers of a flow, which is loaded first. -/
def listFlowRevisions (r : Repository) (flowId : String) :
    Except RepositoryError (List ℕ) × Repository :=
  match r.getFlowById flowId none with
  | (.ok _, r') => (.ok (r'.revisionNumbers flowId), r')
  | (.error e, r') => (.error e, r')

end Repository

/-- One call into the repository, or its re-creation over the same storage and prefix. -/
inductive RepositoryOp where
  | registerFlow (flow : FlowDefinition)
  | saveFlow (flow : FlowDefinition)
  | publishFlowRevision (flow : FlowDefinition)
  | getLatestRevision (flowId : String)
  | getFlowById (definitionId : String) (revision : Option ℕ)
  | getFlowByName (name : String) (revision : Option ℕ)
  | listFlowRevisions (flowId : String)
  | recreate

/-- The repository after a call; a call that raises keeps what it had done. -/
def Repository.step (r : Repository) : RepositoryOp → Option Repository
  | .registerFlow flow => some (r.registerFlow flow).2
  | .saveFlow flow => some (r.saveFlow flow).2
  | .publishFlowRevision flow => some (r.publishFlowRevision flow).2
  | .getLatestRevision flowId => some (r.getLatestRevision flowId).2
  | .getFlowById definitionId revision => some (r.getFlowById definitionId revision).2
  | .getFlowByName name revision => some (r.getFlowByName name revision).2
  | .listFlowRevisions flowId => some (r.listFlowRevisions flowId).2
  | .recreate => some { storage := r.storage, keyPrefix := r.keyPrefix }

/-- What a publishing call returned to its caller. -/
def Repository.published (r : Repository) : RepositoryOp → Option FlowDefinition
  | .registerFlow flow => (r.registerFlow flow).1.toOption
  | .saveFlow flow => (r.saveFlow flow).1.toOption
  | .publishFlowRevision flow => (r.publishFlowRevision flow).1.toOption
  | _ => none

end PalmEngine.Persistence
