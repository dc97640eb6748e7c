import PalmEngine.Context.Schema
import PalmEngine.Context.Scoping

/-!
# The transform engine

A rule takes a context, which has the original value and a frame for every step made of it, to the
next one, or raises. The engine resolves rules by name and applies one, a chain or one for each item
of a list. On a state it reads the source, applies the rules and writes the result, and if asked
the trace of all steps.

Rules are pure: they read the state of their context but do not change it. The engine that rules are
given with their options is left out.
-/

namespace PalmEngine.Transform

open PalmEngine.Lib PalmEngine.Context

/-- Options by keyword. -/
abbrev Options := List (String × Value)

/-- Options with others over them. -/
def Options.merge (options others : Options) : Options :=
  others.foldl (fun merged e => setEntry e.1 e.2 merged) options

/-- How a rule expects to process values. -/
inductive TransformMode where
  | single
  | batch
  | auto
  deriving DecidableEq, Repr

/-- One step of a chain. -/
structure TransformFrame where
  rule : String
  value : Value
  metadata : List (String × Value) := []

/-- The views over a pipeline. -/
structure TransformContext where
  original : Value
  state : Option BlackboardState := none
  frames : List TransformFrame := []

namespace TransformContext

variable (context : TransformContext)

/-- The latest value. -/
def value : Value := (context.frames.getLast?.map TransformFrame.value).getD context.original

/-- The rules applied, in order. -/
def steps : List String := context.frames.map TransformFrame.rule

/-- A context with a value recorded under a rule. -/
def advance (rule : String) (value : Value) (metadata : List (String × Value)) :
    TransformContext :=
  { context with frames := context.frames ++ [⟨rule, value, metadata⟩] }

/-- The pipeline as a value. -/
def toTrace : Value :=
  .dict [("original", context.original), ("value", context.value),
    ("steps", .list (context.steps.map .str)),
    ("frames", .list (context.frames.map fun frame =>
      .dict [("rule", .str frame.rule), ("value", frame.value), ("meta", .dict frame.metadata)]))]

end TransformContext

/-- The outcome of a transform: the context and what was written to the state. -/
structure TransformResult where
  context : TransformContext
  stateWrites : List (String × Value) := []

/-- What a transform raises. -/
inductive TransformFault where
  /-- `Source key … is missing or null` -/
  | missingSource (key : String)
  /-- `Transform … does not support …` -/
  | unsupported (rule : String) (value : Value)
  /-- `Per-item batch requires a list at …` -/
  | notList (key : String) (value : Value)
  /-- `Unknown transform …` -/
  | unknownRule (name : String)
  /-- An option with the name of a parameter. -/
  | duplicateArgument (parameter : String)
  /-- `State does not support nested scope storage` -/
  | noScopeStorage
  | noActiveScope (text : String)
  | invalid (error : SchemaError)
  | schemaFault (fault : SchemaFault)
  /-- What a rule raises, when it is built or applied. -/
  | raised (text : String)

/-- A rule: pure functions of the value, and of the context and the options. -/
structure TransformRule where
  ruleName : String
  mode : TransformMode
  supports : Value → Except TransformFault Bool
  apply : TransformContext → Options → Except TransformFault TransformContext

/-- Options are passed beside parameters, which are not among them. -/
def accepts (parameters : List String) (options : Options) : Except TransformFault Unit :=
  match parameters.find? fun p => (valueOf? p options).isSome with
  | some p => .error (.duplicateArgument p)
  | none => .ok ()

/-- The registered rules, which are built from options. -/
abbrev TransformRegistry := Dict String (Options → Except TransformFault TransformRule)

/-- Apply a rule to a context whose value it supports. -/
def applyRule (rule : TransformRule) (context : TransformContext) (options : Options) :
    Except TransformFault TransformContext := do
  accepts ["self", "rule", "context"] options
  if ← rule.supports context.value then
    rule.apply context options
  else
    throw (.unsupported rule.ruleName context.value)

namespace TransformRegistry

variable (registry : TransformRegistry)

/-- Build a registered rule. -/
def resolve (name : String) (options : Options) : Except TransformFault TransformRule := do
  accepts ["self", "name"] options
  match registry.get? name with
  | none => throw (.unknownRule name)
  | some fromOptions => fromOptions (options.filter fun e => !e.1.startsWith "_")

/-- Apply one rule to a value. -/
def apply (name : String) (value : Value) (state : BlackboardState) (options : Options) :
    Except TransformFault TransformResult := do
  accepts ["self", "name", "value", "state"] options
  let rule ← registry.resolve name options
  let advanced ← applyRule rule { original := value, state := some state } options
  return { context := advanced }

/-- Apply rules in order. -/
def applyChain (names : List String) (value : Value) (state : BlackboardState)
    (optionsByRule : Dict String Options) (sharedOptions : Options) :
    Except TransformFault TransformResult := do
  accepts ["self", "names", "value", "state", "options_by_rule"] sharedOptions
  let context ← names.foldlM (fun context ruleName => do
    let merged := sharedOptions.merge ((optionsByRule.get? ruleName).getD [])
    let rule ← registry.resolve ruleName merged
    applyRule rule context merged) { original := value, state := some state }
  return { context }

/-- Apply a rule to each item on its own. -/
def applyBatch (name : String) (items : List Value) (state : BlackboardState) (options : Options) :
    Except TransformFault (List TransformResult) := do
  accepts ["self", "name", "items", "state"] options
  let rule ← registry.resolve name options
  items.mapM fun item => do
    let advanced ← applyRule rule { original := item, state := some state } options
    return { context := advanced }

/-- Apply a rule by its mode: a batch rule, and an automatic one on a list, to the value as a whole. -/
def applyAuto (name : String) (value : Value) (state : BlackboardState) (options : Options) :
    Except TransformFault TransformResult := do
  accepts ["self", "name", "value", "state"] options
  let rule ← registry.resolve name options
  let whole := match rule.mode, value with
    | .batch, _ => true
    | .auto, .list _ => true
    | _, _ => false
  if whole then
    let advanced ← applyRule rule { original := value, state := some state } options
    return { context := advanced }
  else
    registry.apply name value state options

end TransformRegistry

/-- What a state is besides what it holds: whether it stores nested scopes, and how its schemas
validate a key. -/
structure StateClass where
  storesScopes : Bool
  ops : Operators
  validateOther : ℕ → String → Value → Except TransformFault Unit

/-- What is computed on a state, which stays as it was left if that raises. -/
abbrev TransformM (α : Type) := ExceptT TransformFault (StateM BlackboardState) α

namespace StateClass

variable (cls : StateClass)

/-- Validate a value for a key: the first error is raised. -/
def validateKey (schema : StateSchema) (key : String) (value : Value) :
    Except TransformFault Unit :=
  match schema with
  | .other n _ => cls.validateOther n key value
  | .dict definition =>
    match valueOf? key (rootProperties definition) with
    | none => .ok ()
    | some (.dict spec) =>
      match cls.ops.validateValue value spec key with
      | .ok [] => .ok ()
      | .ok (error :: _) => .error (.invalid error)
      | .error fault => .error (.schemaFault fault)
    | some _ => .error (.schemaFault .notMapping)

/-- Validate a value by a schema, if there is one. -/
def validateWith (schema : Option StateSchema) (key : String) (value : Value) :
    Except TransformFault Unit :=
  match schema with
  | some schema => cls.validateKey schema key value
  | none => .ok ()

/-- Read a key, from the scopes if asked and one is entered. -/
def readStateValue (s : BlackboardState) (key : String) (inScope : Bool) :
    Except TransformFault (Option Value) :=
  if inScope && s.currentScope.isSome then
    if cls.storesScopes then .ok (s.getScoped key) else .error .noScopeStorage
  else .ok (s.get key)

/-- Store a value in the current scope. -/
def setScoped (key : String) (value : Value) : TransformM Unit := do
  if !cls.storesScopes then throw .noScopeStorage
  match (← get).setScoped key value with
  | .ok s => set s
  | .error text => throw (.noActiveScope text)

/-- Write a key, to the current scope if asked and one is entered, once its value is validated. -/
def writeStateValue (key : String) (value : Value) (inScope validate : Bool) :
    TransformM Unit := do
  let s ← get
  if inScope && s.currentScope.isSome then
    if validate then cls.validateWith s.effectiveSchema key value
    cls.setScoped key value
  else
    if validate then cls.validateWith s.schema key value
    set (s.set key value)

end StateClass

/-- What the calls on a state have in common. -/
structure StateCall where
  sourceKey : String
  targetKey : Option String := none
  inScope : Bool := false
  validateOutput : Bool := true
  skipIfMissing : Bool := false
  traceKey : Option String := none

namespace StateCall

variable (call : StateCall) (cls : StateClass)

/-- The key to write: the target, or else the source. -/
def destination : String := (call.targetKey.filter (· ≠ "")).getD call.sourceKey

/-- The keys that are written. -/
def writtenKeys : List String := call.destination :: call.traceKey.toList

/-- Read the source, none if it is missing and skipped. -/
def readSource : TransformM (Option Value) := do
  match ← cls.readStateValue (← get) call.sourceKey call.inScope with
  | none | some .null =>
    if call.skipIfMissing then return none else throw (.missingSource call.sourceKey)
  | some raw => return some raw

/-- Write the output and, if asked, the trace, which is not validated. -/
def writeResult (output : Value) (context : TransformContext) :
    TransformM TransformResult := do
  cls.writeStateValue call.destination output call.inScope call.validateOutput
  match call.traceKey with
  | none => return { context, stateWrites := [(call.destination, output)] }
  | some traceKey =>
    cls.writeStateValue traceKey context.toTrace call.inScope false
    return { context, stateWrites := [(call.destination, output), (traceKey, context.toTrace)] }

end StateCall

namespace TransformRegistry

variable (registry : TransformRegistry) (cls : StateClass) (call : StateCall)

/-- Apply one rule to the source and write the result. -/
def applyToState (name : String) (options : Options) : TransformM (Option TransformResult) := do
  match ← call.readSource cls with
  | none => return none
  | some raw =>
    let result ← registry.applyAuto name raw (← get)
      (setEntry "_target_key" (.str call.destination) options)
    some <$> call.writeResult cls result.context.value result.context

/-- Apply a chain of rules to the source and write the final value. -/
def applyChainToState (names : List String) (optionsByRule : Dict String Options)
    (sharedOptions : Options) : TransformM (Option TransformResult) := do
  match ← call.readSource cls with
  | none => return none
  | some raw =>
    let result ← registry.applyChain names raw (← get) optionsByRule
      (setEntry "_target_key" (.str call.destination) sharedOptions)
    some <$> call.writeResult cls result.context.value result.context

/-- Apply a rule to the list at the source, as a whole or to each item, and write the results. -/
def applyBatchToState (name : String) (perItem : Option Bool) (options : Options) :
    TransformM (Option TransformResult) := do
  match ← call.readSource cls with
  | none => return none
  | some raw =>
    let rule ← registry.resolve name options
    if perItem.getD (rule.mode = .single) then
      match raw with
      | .list items =>
        let results ← registry.applyBatch name items (← get) options
        let output := Value.list (results.map fun item => item.context.value)
        let original : TransformContext := { original := raw, state := some (← get) }
        let context := original.advance rule.ruleName output [("mode", .str "per_item")]
        some <$> call.writeResult cls output context
      | _ => throw (.notList call.sourceKey raw)
    else
      let result ← registry.applyAuto name raw (← get) options
      some <$> call.writeResult cls result.context.value result.context

end TransformRegistry

/-- The three calls on a state, with what is their own. -/
inductive StateTransform where
  | single (name : String) (options : Options)
  | chain (names : List String) (optionsByRule : Dict String Options) (sharedOptions : Options)
  | batch (name : String) (perItem : Option Bool) (options : Options)

/-- Make a call on a state. -/
def TransformRegistry.call (registry : TransformRegistry) (cls : StateClass) (call : StateCall) :
    StateTransform → TransformM (Option TransformResult)
  | .single name options => registry.applyToState cls call name options
  | .chain names optionsByRule sharedOptions =>
    registry.applyChainToState cls call names optionsByRule sharedOptions
  | .batch name perItem options => registry.applyBatchToState cls call name perItem options

end PalmEngine.Transform
