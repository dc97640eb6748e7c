import PalmEngine.Context.Schema
import PalmEngine.Wizard.Collection

/-!
# How an input is prepared and validated

An input for a step is prepared first: the input of a choice is resolved to one of the choices, and
a text is then read as a number or a boolean if the schema of the step asks for one. What comes out
is validated by the type of the field, by its rules, by the schema of the step and by the schema of
the flow. The input of a step is prepared once, and what is validated is stored. The input for a
field of a collection is prepared and then given to a validation that prepares it once more.

How texts are read as numbers, what patterns match and what validators of other names say is left
open. Each of these may raise.
-/

namespace PalmEngine.Wizard

open PalmEngine.Lib PalmEngine.Context

/-- What a validation raises. -/
inductive StepFault where
  /-- `int` of a text or of another value that it does not read. -/
  | notANumber
  /-- A list or a dictionary is looked up in a set. -/
  | unhashable
  /-- The pattern of a rule is none. -/
  | badPattern
  /-- A validator of another name raises. -/
  | custom
  /-- The message of a rule is none that can be shown. -/
  | badMessage
  /-- A step without a slug, or a choice without choices. -/
  | badStep
  /-- A schema raises. -/
  | schema (fault : SchemaFault)
  deriving DecidableEq, Repr

/-- What is wrong with an input. -/
inductive StepError where
  | required
  | choice (raw : Value) (choices : List String)
  | yesOrNo
  | tooShort (minimum : ℤ)
  | tooLong (maximum : ℤ)
  | noMatch (message : Value)
  | empty
  | custom (message : String)
  | unknownRule (name : String)
  | schema (error : SchemaError)

/-- Why an input is not accepted: the validation raises, or it rejects the input. -/
inductive Refusal where
  | raised (fault : StepFault)
  | rejected (errors : List StepError)

/-- The operations of the language that the validators use. -/
structure ValidationOps extends Operators where
  text : TextOps
  /-- Whether a text of digits is none that `int` reads. -/
  misread : String → Bool
  /-- The integer that a text is read as. -/
  intOf : String → Option ℤ
  /-- The floating point number that a text is read as. -/
  floatOf : String → Option ℕ
  /-- The integer that a floating point number is. -/
  wholeOf : ℕ → Option ℤ
  /-- The integer that `int` makes of another value. -/
  truncated : ℕ → Option ℤ
  /-- Whether a pattern is found in a text, if it is a pattern. -/
  search : String → String → Option Bool
  /-- The validators of other names: they raise, or return a message if something is wrong. -/
  custom : String → Option (Value → Option (Option String))

/-- The types of fields. -/
inductive WizardFieldType where
  | text
  | choice
  | confirm
  deriving DecidableEq, Repr

/-- A rule with its parameters. -/
structure StepValidationRule where
  rule : String
  params : List (String × Value) := []

/-- What the preparation and the validation read of a step or of a field of a collection. -/
structure FieldSpec where
  slug : String
  fieldType : WizardFieldType := .text
  choices : List String := []
  required : Bool := true
  validation : List StepValidationRule := []
  stateSchema : Option (List (String × Value)) := none
  schema : Option (List (String × Value)) := none

/-- A step has a slug, and a choice has choices. -/
structure WizardStepConfig extends FieldSpec where
  named : slug ≠ ""
  hasChoices : fieldType = .choice → choices ≠ []

/-- The schemas of a state: those of its scopes, and the one of the flow. -/
structure SchemaState where
  scopeSchemas : List (String × List (String × Value)) := []
  schema : Option (List (String × Value)) := none

/-- A field as a step, which raises if it is none. -/
def fieldAsStep (field : FieldSpec) : Except Refusal WizardStepConfig :=
  if hnamed : field.slug = "" then .error (.raised .badStep)
  else if hchoices : field.fieldType = .choice ∧ field.choices = [] then
    .error (.raised .badStep)
  else .ok { field with named := hnamed, hasChoices := fun htype hnone => hchoices ⟨htype, hnone⟩ }

/-- The only element of a list is in it. -/
theorem mem_of_only? {α : Type} {l : List α} {a : α} (h : only? l = some a) : a ∈ l := by
  match l, h with
  | [_], h => exact List.mem_singleton.mpr (Option.some.inj h).symm

section Prepare

variable (ops : ValidationOps)

/-- The choice that an input stands for. A text that looks like a number but is read as none raises
once it is neither a choice nor one in lower case. -/
def resolveChoice (value : Value) (choices : List String) : Except Refusal (Option String) :=
  let labels := choices.map fun choice => (choice, choice)
  match choices, value with
  | [], _ => .ok none
  | _, .str s =>
    let stripped := ops.text.strip s
    if stripped = "" then .ok none
    else if stripped ∈ choices then .ok (some stripped)
    else
      match resolveLowered ops.text (ops.text.lower stripped) labels with
      | some choice => .ok (some choice)
      | none =>
        if ops.misread stripped then .error (.raised .notANumber)
        else .ok
          (((ops.text.digits stripped).bind fun i => if 1 ≤ i then choices[i - 1]? else none) <|>
            resolvePartial ops.text (ops.text.lower stripped) labels)
  | _, .int i => .ok (if 1 ≤ i then choices[i.toNat - 1]? else none)
  | _, _ => .ok none

/-- The document by which the value of a step is read. -/
def stepValueSchemaSpec (state : SchemaState) (step : FieldSpec) : Option (List (String × Value)) :=
  step.schema <|> step.stateSchema <|>
    (state.scopeSchemas.find? fun e => e.1 = step.slug).map Prod.snd <|>
    state.schema.bind fun definition =>
      (((valueOf? "properties" definition).bind Value.asDict).bind (valueOf? step.slug)).bind
        Value.asDict

/-- The integer that a text is read as: also one with a point or an exponent. -/
def coerceStringToInteger (t : String) : Option ℤ :=
  if t.contains '.' || (ops.text.lower t).contains 'e' then (ops.floatOf t).bind ops.wholeOf
  else ops.intOf t

/-- Read a text as the type that a document asks for, if it can be read so. -/
def coerceValueForSchema (value : Value) (spec : List (String × Value)) : Value :=
  match value with
  | .str s =>
    let stripped := ops.text.strip s
    if stripped = "" then value
    else
      match expectedName spec with
      | some "integer" => (coerceStringToInteger ops stripped).elim value .int
      | some "number" => (ops.floatOf stripped).elim value .other
      | some "boolean" =>
        if ops.text.lower stripped ∈ ["true", "yes", "1"] then .bool true
        else if ops.text.lower stripped ∈ ["false", "no", "0"] then .bool false
        else value
      | _ => value
  | _ => value

variable (state : SchemaState) (step : FieldSpec)

/-- Read an input as the type that the schema of a step asks for. -/
def coerceStepInput (value : Value) : Value :=
  (stepValueSchemaSpec state step).elim value (coerceValueForSchema ops value)

/-- Prepare an input: resolve the choice and read the text. -/
def prepareStepInput (value : Value) : Except Refusal Value := do
  if step.fieldType = .choice ∧ step.choices ≠ [] then
    match ← resolveChoice ops value step.choices with
    | none => throw (.rejected [.choice value step.choices])
    | some choice => return coerceStepInput ops state step (.str choice)
  else return coerceStepInput ops state step value

end Prepare

section Validate

variable (ops : ValidationOps)

/-- Whether a value is one of those that answer a confirmation. -/
def isConfirmation : Value → Except Refusal Bool
  | .bool _ => .ok true
  | .int n => .ok (n = 0 ∨ n = 1)
  | .str s => .ok (s ∈ ["yes", "no", "Yes", "No"])
  | .null => .ok false
  | .list _ | .dict _ => .error (.raised .unhashable)
  | .other n =>
    if ops.isHashable n then
      .ok (ops.equal (.other n) (.bool true) || ops.equal (.other n) (.bool false))
    else .error (.raised .unhashable)

/-- The check of an input by the type of the field. -/
def builtinFieldValidation (step : FieldSpec) (value : Value) : Except Refusal Unit := do
  if step.required ∧ (value.isNull ∨ value.asStr = some "") then throw (.rejected [.required])
  match step.fieldType with
  | .text => return
  | .choice =>
    if (value.asStr.any fun s => s ∈ step.choices) then return
    else throw (.rejected [.choice value step.choices])
  | .confirm => if ← isConfirmation ops value then return else throw (.rejected [.yesOrNo])

/-- The integer that `int` makes of a value. -/
def intOfValue : Value → Except Refusal ℤ
  | .int n => .ok n
  | .bool b => .ok b.toInt
  | .str s => (ops.intOf s).elim (.error (.raised .notANumber)) .ok
  | .other n => (ops.truncated n).elim (.error (.raised .notANumber)) .ok
  | _ => .error (.raised .notANumber)

/-- What a rule finds wrong. -/
def runRule (rule : StepValidationRule) (value : Value) : Except Refusal (List StepError) :=
  let size : ℤ := (textOf ops.shown value).length
  let param (key : String) (default : Value) : Value := (valueOf? key rule.params).getD default
  match ops.custom rule.rule with
  | some validator =>
    match validator value with
    | none => .error (.raised .custom)
    | some message => .ok ((message.filter (· ≠ "")).toList.map .custom)
  | none =>
    match rule.rule with
    | "min_length" => do
      let minimum ← intOfValue ops (param "min" (.int 1))
      return if size < minimum then [.tooShort minimum] else []
    | "max_length" => do
      let maximum ← intOfValue ops (param "max" (.int 10000))
      return if maximum < size then [.tooLong maximum] else []
    | "regex" =>
      let pattern := textOf ops.shown (param "pattern" (.str ""))
      let candidate := if value.isNull then "" else textOf ops.shown value
      if pattern = "" then .ok []
      else
        match ops.search pattern candidate with
        | none => .error (.raised .badPattern)
        | some true => .ok []
        | some false =>
          .ok [.noMatch (param "message" (.str "Value does not match the required pattern"))]
    | "not_empty" =>
      .ok (if value.isNull ∨ ops.text.strip (textOf ops.shown value) = "" then [.empty] else [])
    | name => .ok [.unknownRule name]

/-- Whether an error can be shown: the message of a pattern has to be a text. -/
def StepError.canBeShown : StepError → Bool
  | noMatch message => message.asStr.isSome
  | _ => true

/-- Reject an input for which there are errors, each of which is brought into words. -/
def resultFromErrors (errors : List StepError) : Except Refusal Unit :=
  if errors.isEmpty then .ok ()
  else if errors.all StepError.canBeShown then .error (.rejected errors)
  else .error (.raised .badMessage)

/-- What all rules together find wrong. -/
def validateRules (rules : List StepValidationRule) (value : Value) : Except Refusal Unit := do
  resultFromErrors (← rules.mapM fun rule => runRule ops rule value).flatten

/-- The errors of a schema. -/
def schemaResult : Except SchemaFault (List SchemaError) → Except Refusal Unit
  | .ok errors => resultFromErrors (errors.map .schema)
  | .error fault => .error (.raised (.schema fault))

/-- The check of an input by the schema of its step, or of the scope of it. -/
def validateStepSchema (state : SchemaState) (step : FieldSpec) (value : Value) :
    Except Refusal Unit :=
  match step.schema <|> (state.scopeSchemas.find? fun e => e.1 = step.slug).map Prod.snd with
  | some definition => schemaResult (ops.validateValue value definition step.slug)
  | none => .ok ()

/-- The check of an input by what the schema of the flow says of its key. -/
def validateStepStateSchema (state : SchemaState) (slug : String) (value : Value) :
    Except Refusal Unit :=
  match state.schema.bind fun definition => valueOf? slug (rootProperties definition) with
  | none => .ok ()
  | some (.dict spec) => schemaResult ((ops.validateValue value spec slug).map (·.take 1))
  | some _ => .error (.raised (.schema .notMapping))

/-- Validate an input that has been prepared. -/
def validatePreparedStepInput (state : SchemaState) (step : FieldSpec) (value : Value) :
    Except Refusal Unit := do
  builtinFieldValidation ops step value
  validateRules ops step.validation value
  validateStepSchema ops state step value
  validateStepStateSchema ops state step.slug value

/-- Prepare an input and validate what comes out. -/
def validateStepInput (state : SchemaState) (step : FieldSpec) (value : Value) :
    Except Refusal Unit := do
  validatePreparedStepInput ops state step (← prepareStepInput ops state step value)

/-- The answer that is stored for an input of a step. -/
def completeStepInput (state : SchemaState) (step : FieldSpec) (value : Value) :
    Except Refusal Value := do
  let value ← prepareStepInput ops state step value
  validatePreparedStepInput ops state step value
  return value

/-- The missing value for an optional field that is left empty. -/
def normalizeOptionalField (field : FieldSpec) (value : Value) : Value :=
  if field.required then value
  else
    match value with
    | .str s => if ops.text.lower (ops.text.strip s) ∈ optionalSkipTokens then .null else value
    | _ => value

/-- The value that is stored in the draft for an input of a field. -/
def applyInput (state : SchemaState) (field : FieldSpec) (value : Value) :
    Except Refusal Value := do
  let value := normalizeOptionalField ops field value
  let step ← fieldAsStep field
  let value ← prepareStepInput ops state step.toFieldSpec value
  validateStepInput ops state step.toFieldSpec value
  return value

end Validate

/-- A draft with the value of a field; the missing value removes the field. -/
def draftWith (slug : String) (value : Value) (draft : Item) : Item :=
  if value.isNull then draft.filter (·.1 ≠ slug) else setEntry slug value draft

/-- The draft of a session is changed in this way. -/
theorem draft_storeField (c : CollectionStep) (field : CollectionFieldConfig) (value : Value)
    (b : WizardBoard) :
    (storeField c field value b).session.draft = draftWith field.slug value b.session.draft := by
  unfold storeField draftWith WizardBoard.leaveStep
  split <;> rfl

end PalmEngine.Wizard
