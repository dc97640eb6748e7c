import PalmEngine.Lib.ScriptValues

/-!
# Invoking a resource

The engine resolves the definition of a resource, binds its templates, asks the cache, and runs the
provider between an opening and a closing event. The correlation of the caller and the metadata of
the provider are dictionaries with any keys; they are passed on as keyword arguments, and a call
raises when one of them is not a name or is given twice.
-/

namespace PalmEngine.Resource

open PalmEngine.Lib

variable {K V : Type} [DecidableEq K]

/-- A key that may name an argument. -/
def IsName (ops : ScriptValues K V) (k : K) : Prop := ops.key (ops.keyText k) = k

instance (ops : ScriptValues K V) (k : K) : Decidable (IsName ops k) :=
  inferInstanceAs (Decidable (_ = _))

/-- The keyword arguments of a call that has other parameters, collected from dictionaries: every
key is a name, none is given twice, and none is the name of another parameter. -/
def keywords (ops : ScriptValues K V) (parameters : List String) (groups : List (Dict K V)) :
    Option (Dict K V) :=
  let keys := groups.flatMap Dict.keys
  if keys.Nodup ∧ ∀ k ∈ keys, IsName ops k ∧ k ∉ parameters.map ops.key then
    some (groups.foldl Dict.update .empty)
  else none

/-- The outcome of a provider. -/
structure ProviderResult (K V : Type) where
  success : Bool
  data : V
  error : Option String
  metadata : Dict K V

/-- A successful result made with keyword arguments. -/
def ProviderResult.ok (ops : ScriptValues K V) (data : V) (metadata : Dict K V) :
    Option (ProviderResult K V) :=
  (keywords ops ["cls", "data"] [metadata]).map fun metadata =>
    { success := true, data, error := none, metadata }

/-- A failed result made with keyword arguments. -/
def ProviderResult.fail (ops : ScriptValues K V) (error : String) (metadata : Dict K V) :
    Option (ProviderResult K V) :=
  (keywords ops ["cls", "error"] [metadata]).map fun metadata =>
    { success := false, data := ops.null, error := some error, metadata }

/-- A provider invocation that a definition stands for. -/
structure ResolvedResourceSpec (K V : Type) where
  definitionId : String
  name : String
  provider : String
  action : String := "fetch"
  resourceId : Option String := none
  params : Dict K V := .empty

/-- An event of the engine. -/
structure ResourceEvent (K V : Type) where
  type : String
  payload : Dict K V

/-- The arguments of an invocation, with the binding of templates to its state. -/
structure Request (K V : Type) where
  resourceRef : Option String := none
  provider : Option String := none
  action : Option String := none
  params : Dict K V := .empty
  resourceId : Option String := none
  correlation : Dict K V := .empty
  bindParams : Dict K V → Except String (Dict K V)
  bindResourceId : Option String → Dict K V → Except String (Option String)

/-- An invocation that is resolved and bound. -/
structure Prepared (K V : Type) where
  provider : String
  action : String
  resourceRef : Option String
  definitionId : Option String
  definitionName : Option String
  resourceId : Option String
  params : Dict K V

/-- What a provider does: it returns a result, or raises. -/
inductive ProviderOutcome (K V : Type) where
  | returned (result : ProviderResult K V)
  | raised (text : String)

/-- The errors that an invocation raises: a call with wrong keywords, a publisher that raises, a
template that does not bind, a cache key that cannot be made. -/
inductive InvokeError where
  | wrongKeywords
  | publisher
  | binding (text : String)
  | cacheKey (text : String)
  deriving DecidableEq, Repr

/-- The engine: its resolver of definitions, its publisher, if it has one, which returns or raises
for an event, its cache of results, and its providers. -/
structure ResourceEngine (K V : Type) where
  initialized : Bool
  definitionResolver : Option (String → Except String (ResolvedResourceSpec K V))
  publisher : Option (ResourceEvent K V → Bool)
  cachedResult : Prepared K V → Except String (Option (ProviderResult K V))
  run : Prepared K V → ProviderOutcome K V

/-- How an invocation ends. -/
inductive Answer (K V : Type) where
  | cached (result : ProviderResult K V)
  | returned (result : ProviderResult K V)
  | raised (e : InvokeError)

/-- The events an invocation emits, in order, and how it ends. -/
structure Invocation (K V : Type) where
  events : List (ResourceEvent K V)
  answer : Answer K V

/-- An invocation before it runs: it is refused, answered from the cache, or ready. -/
inductive Preparation (K V : Type) where
  | refused (invocation : Invocation K V)
  | cached (result : ProviderResult K V)
  | ready (p : Prepared K V)

namespace ResourceEngine

variable (ops : ScriptValues K V) (engine : ResourceEngine K V)

/-- The publisher returns for the event; without one nothing happens. -/
def publishes (event : ResourceEvent K V) : Bool := engine.publisher.elim true fun publish => publish event

/-- Emit an event with a payload collected from dictionaries. -/
def emit (type : String) (groups : List (Dict K V)) : Except InvokeError (ResourceEvent K V) :=
  match keywords ops ["self", "event_type"] groups with
  | none => .error .wrongKeywords
  | some payload =>
    if engine.publishes { type, payload } then .ok { type, payload } else .error .publisher

/-- A result for which one event is emitted. -/
def refuse (result : ProviderResult K V) (resourceRef : Option String) : Invocation K V :=
  match emit ops engine "resource.failed" [ops.record [("resource_ref", ops.optText resourceRef),
      ("error", ops.optText result.error)]] with
  | .error e => ⟨[], .raised e⟩
  | .ok event => ⟨[event], .returned result⟩

/-- A failed result about a resource. -/
def failed (error : String) (metadata : Dict K V) : ProviderResult K V :=
  { success := false, data := ops.null, error := some error, metadata }

/-- The definition that the request names, if it names one. -/
def resolveDefinition (request : Request K V) :
    Except String (Option (ResolvedResourceSpec K V)) :=
  match request.resourceRef, engine.definitionResolver with
  | none, _ => .ok none
  | some _, none => .error "Definition resolver is not configured"
  | some ref, some resolve => (resolve ref).map some

/-- What a request asks for, with the defaults of its definition, before its templates are bound. -/
def merge (request : Request K V) (spec : Option (ResolvedResourceSpec K V)) (provider : String) :
    Prepared K V where
  provider := provider
  action := (request.action.filter (· ≠ "")).getD ((spec.map (·.action)).getD "fetch")
  resourceRef := request.resourceRef
  definitionId := spec.map (·.definitionId)
  definitionName := spec.map (·.name)
  resourceId := match spec with
    | some spec => (request.resourceId.filter (· ≠ "")).or spec.resourceId
    | none => request.resourceId
  params := match spec with
    | some spec => spec.params.update request.params
    | none => request.params

/-- Bind the templates. -/
def bindTemplates (request : Request K V) (p : Prepared K V) : Except String (Prepared K V) := do
  let params ← request.bindParams p.params
  let resourceId ← request.bindResourceId p.resourceId params
  .ok { p with params, resourceId }

/-- Bind the templates and ask the cache. -/
def lookUp (request : Request K V) (p : Prepared K V) : Preparation K V :=
  match bindTemplates request p with
  | .error text => .refused ⟨[], .raised (.binding text)⟩
  | .ok p =>
    match engine.cachedResult p with
    | .error text => .refused ⟨[], .raised (.cacheKey text)⟩
    | .ok (some result) => .cached result
    | .ok none => .ready p

/-- Resolve the definition, bind the templates, and ask the cache. -/
def prepare (request : Request K V) : Preparation K V :=
  if engine.initialized = false then
    .refused ⟨[], .returned (failed ops "ResourceEngine is not initialized" .empty)⟩
  else match engine.resolveDefinition request with
  | .error text =>
    let metadata := ops.record [("resource_ref", ops.optText request.resourceRef)]
    .refused (refuse ops engine (failed ops text metadata) request.resourceRef)
  | .ok spec =>
    match ((spec.map (·.provider)).or request.provider).filter (· ≠ "") with
    | none =>
      .refused (refuse ops engine (failed ops "provider or resource_ref is required" .empty)
        request.resourceRef)
    | some provider => engine.lookUp request (merge request spec provider)

/-- The correlation of a caller without its null values. -/
def noted (correlation : Dict K V) : Dict K V :=
  ⟨correlation.entries.filter fun e => ops.isNull e.2 = false,
    correlation.nodup.sublist ((List.filter_sublist).map Prod.fst)⟩

/-- The fields of an event about an invocation. -/
def eventFields (p : Prepared K V) : Dict K V :=
  ops.record [("provider", ops.text p.provider), ("action", ops.text p.action),
    ("resource_ref", ops.optText p.resourceRef), ("definition_id", ops.optText p.definitionId),
    ("definition_name", ops.optText p.definitionName), ("resource_id", ops.optText p.resourceId),
    ("params", ops.dict p.params),
    ("mutating", ops.bool (p.action ∉ ["fetch", "health", "describe"]))]

/-- What all events of an invocation have: its fields, with the correlation over them. -/
def eventBase (p : Prepared K V) (correlation : Dict K V) : Dict K V :=
  (eventFields ops p).update (noted ops correlation)

/-- The fields that a result adds to the closing event. -/
def correlationPayload (result : ProviderResult K V) : Dict K V :=
  ops.recordSome [
    ("invoke_depth", result.metadata.get? (ops.key "invoke_depth")),
    ("parent_job_id", result.metadata.get? (ops.key "parent_job_id")),
    ("mode", result.metadata.get? (ops.key "mode")),
    ("invoke_chain", ((ops.asDict result.data).bind fun data =>
      data.get? (ops.key "invoke_chain")).filter fun chain => ops.isNull chain = false)]

/-- The error of a closing event. -/
def errorField (error : Option String) : Dict K V := ops.record [("error", ops.optText error)]

/-- The metadata of the result that is returned. -/
def resultMetadata (p : Prepared K V) (result : ProviderResult K V) : Dict K V :=
  result.metadata.update (ops.record [("provider", ops.text p.provider),
    ("action", ops.text p.action), ("resource_ref", ops.optText p.resourceRef),
    ("definition_id", ops.optText p.definitionId),
    ("definition_name", ops.optText p.definitionName),
    ("resource_id", ops.optText p.resourceId)])

/-- Close an invocation whose provider raised. -/
def closeRaised (p : Prepared K V) (base : Dict K V) (opened : ResourceEvent K V) (text : String) :
    Invocation K V :=
  match emit ops engine "resource.failed" [errorField ops (some text), base] with
  | .error e => ⟨[opened], .raised e⟩
  | .ok closed =>
    let metadata := ops.record [("provider", ops.text p.provider), ("action", ops.text p.action)]
    ⟨[opened, closed], .returned (failed ops text metadata)⟩

/-- Close an invocation whose provider succeeded. -/
def closeCompleted (p : Prepared K V) (base : Dict K V) (opened : ResourceEvent K V)
    (result : ProviderResult K V) : Invocation K V :=
  match ProviderResult.ok ops result.data (resultMetadata ops p result) with
  | none => ⟨[opened], .raised .wrongKeywords⟩
  | some final =>
    match emit ops engine "resource.completed" [base, correlationPayload ops result] with
    | .error e => ⟨[opened], .raised e⟩
    | .ok closed => ⟨[opened, closed], .returned final⟩

/-- Close an invocation whose provider failed. -/
def closeFailed (p : Prepared K V) (base : Dict K V) (opened : ResourceEvent K V)
    (result : ProviderResult K V) : Invocation K V :=
  match emit ops engine "resource.failed"
      [errorField ops result.error, base, correlationPayload ops result] with
  | .error e => ⟨[opened], .raised e⟩
  | .ok closed =>
    let error := (result.error.filter (· ≠ "")).getD "invoke failed"
    match ProviderResult.fail ops error (resultMetadata ops p result) with
    | none => ⟨[opened, closed], .raised .wrongKeywords⟩
    | some final => ⟨[opened, closed], .returned final⟩

/-- Run an invocation that is ready. -/
def invokePrepared (p : Prepared K V) (correlation : Dict K V) : Invocation K V :=
  let base := eventBase ops p correlation
  match emit ops engine "resource.invoked" [base] with
  | .error e => ⟨[], .raised e⟩
  | .ok opened =>
    match engine.run p with
    | .raised text => closeRaised ops engine p base opened text
    | .returned result =>
      if result.success then closeCompleted ops engine p base opened result
      else closeFailed ops engine p base opened result

/-- Invoke a resource. -/
def invoke (request : Request K V) : Invocation K V :=
  match prepare ops engine request with
  | .refused invocation => invocation
  | .cached result => ⟨[], .cached result⟩
  | .ready p => invokePrepared ops engine p request.correlation

end ResourceEngine

end PalmEngine.Resource
