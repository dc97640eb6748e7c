import PalmEngine.Context.State

/-!
# Schema documents and their two validators

A document describes a value by its type, the values allowed, bounds, and documents for what is
inside it. A state is validated key by key against the properties of the root document, and a value
against the root document as a whole. The rules for a value inside are the same; those for the root
were written twice.

What the operators of the language make of two values is a parameter, and so are values of other
types, of which some are floats. An error tells where it is and what is wrong.
-/

namespace PalmEngine.Context

open PalmEngine.Lib

/-- What a validation raises: a document that is no mapping, a key that cannot be hashed, or values
that cannot be compared. -/
inductive SchemaFault where
  | notMapping
  | unhashable
  | notComparable
  deriving DecidableEq, Repr

/-- The operators of the language on values: equality, the order (which may raise), the type and
the hashing of the other values, and how a value is shown as a text. -/
structure Operators where
  equal : Value → Value → Bool
  less : Value → Value → Except SchemaFault Bool
  isFloat : ℕ → Bool
  isHashable : ℕ → Bool
  shown : Value → String

/-- What is wrong with a value. -/
inductive SchemaProblem where
  | wrongType (expected : Value)
  | notInEnum (allowed : List Value)
  | belowMinimum (bound : Value)
  | aboveMaximum (bound : Value)
  | belowMinLength (bound : Value)
  | aboveMaxLength (bound : Value)
  | belowMinItems (bound : Value)
  | aboveMaxItems (bound : Value)

/-- An error of a validation. -/
inductive SchemaError where
  /-- `missing required key`, with the key or its path. -/
  | missingKey (path : String)
  /-- A value that is not as it should be. -/
  | invalid (path : String) (problem : SchemaProblem)

/-- The type that a document asks for, none if it names none. -/
def expectedType (spec : List (String × Value)) : Option Value :=
  (valueOf? "type" spec).filter fun t => !t.isNull

/-- The name of the single type that a document asks for. -/
def expectedName (spec : List (String × Value)) : Option String :=
  (expectedType spec).bind Value.asStr

/-- The properties of a document, none if they are no dictionary. -/
def propertiesOf (spec : List (String × Value)) : Option (List (String × Value)) :=
  match valueOf? "properties" spec with
  | none => some []
  | some properties => properties.asDict

/-- The required keys of a document, none if they are no list. -/
def requiredOf (spec : List (String × Value)) : List Value :=
  match valueOf? "required" spec with
  | some (.list keys) => keys
  | _ => []

/-- The values that a document allows, if it lists them. -/
def enumOf (spec : List (String × Value)) : Option (List Value) :=
  match valueOf? "enum" spec with
  | some (.list allowed) => some allowed
  | _ => none

/-- The properties by which a state is validated: those of a root that is an object, which it is
also if it names no type. -/
def rootProperties (definition : List (String × Value)) : List (String × Value) :=
  match valueOf? "type" definition with
  | none | some (.str "object") => ((valueOf? "properties" definition).bind Value.asDict).getD []
  | some _ => []

/-- A found value is smaller than the entries it is found in. -/
theorem sizeOf_valueOf? {k : String} {v : Value} {entries : List (String × Value)}
    (h : valueOf? k entries = some v) : sizeOf v < sizeOf entries := by
  induction entries with
  | nil => cases h
  | cons e rest ih =>
    rw [valueOf?_cons] at h
    obtain ⟨k', v'⟩ := e
    simp only [List.cons.sizeOf_spec, Prod.mk.sizeOf_spec]
    split at h
    · cases h
      simp only
      omega
    · have hrest := ih h
      omega

/-- The document of a property is smaller than the one it is a property of. -/
theorem sizeOf_property {k : String} {spec properties nested : List (String × Value)}
    (hp : propertiesOf spec = some properties) (h : valueOf? k properties = some (.dict nested)) :
    sizeOf nested < sizeOf spec := by
  have hnested := sizeOf_valueOf? h
  unfold propertiesOf at hp
  split at hp
  · cases hp
    cases h
  · next value hvalue =>
    have hproperties := sizeOf_valueOf? hvalue
    cases value <;> cases hp
    simp only [Value.dict.sizeOf_spec] at hnested hproperties
    omega

/-- The document of the items is smaller than the one of the list. -/
theorem sizeOf_items {spec items : List (String × Value)}
    (h : valueOf? "items" spec = some (.dict items)) : sizeOf items < sizeOf spec := by
  have hitems := sizeOf_valueOf? h
  simp only [Value.dict.sizeOf_spec] at hitems
  omega

namespace Operators

variable (ops : Operators)

/-- Whether a value can be a key. -/
def canHash : Value → Bool
  | .list _ | .dict _ => false
  | .other n => ops.isHashable n
  | _ => true

/-- The check of a type by its name; a name that is not known admits every value. -/
def checkType (value : Value) : String → Bool
  | "string" => value.asStr.isSome
  | "integer" => match value with
    | .int _ => true
    | _ => false
  | "number" => match value with
    | .int _ => true
    | .other n => ops.isFloat n
    | _ => false
  | "boolean" => match value with
    | .bool _ => true
    | _ => false
  | "array" => match value with
    | .list _ => true
    | _ => false
  | "object" => value.asDict.isSome
  | "null" => value.isNull
  | _ => true

mutual

/-- `_matches_type`: a value is of a type, or of one of several. -/
def matchesType (value : Value) : Value → Except SchemaFault Bool
  | .list types => matchesAny value types
  | .str name => .ok (ops.checkType value name)
  | expected => if ops.canHash expected then .ok true else .error .unhashable

/-- The first type that a value is of ends the search. -/
def matchesAny (value : Value) : List Value → Except SchemaFault Bool
  | [] => .ok false
  | expected :: rest =>
    match matchesType value expected with
    | .ok true => .ok true
    | .ok false => matchesAny value rest
    | .error fault => .error fault

end

/-- Whether a value is of the type that a document asks for. -/
def admitsType (value : Value) (spec : List (String × Value)) : Except SchemaFault Bool :=
  (expectedType spec).elim (.ok true) (ops.matchesType value)

/-- A value that is not among the allowed ones. -/
def enumProblems (value : Value) (spec : List (String × Value)) : List SchemaProblem :=
  match enumOf spec with
  | some allowed => if allowed.any (ops.equal value) then [] else [.notInEnum allowed]
  | none => []

/-- A measure that is out of the bounds under two keys of a document. -/
def boundProblems (measure : Value) (spec : List (String × Value)) (least greatest : String)
    (below above : Value → SchemaProblem) : Except SchemaFault (List SchemaProblem) := do
  let low ← match valueOf? least spec with
    | some bound => do pure (if ← ops.less measure bound then [below bound] else [])
    | none => pure []
  let high ← match valueOf? greatest spec with
    | some bound => do pure (if ← ops.less bound measure then [above bound] else [])
    | none => pure []
  return low ++ high

/-- What is wrong with a value itself, once its type is right: a number, a text or a list out of
its bounds, or a value that is not allowed. A union of types has no bounds. -/
def localProblems (value : Value) (spec : List (String × Value)) :
    Except SchemaFault (List SchemaProblem) := do
  let bounds ← match expectedName spec, value with
    | some "integer", _ | some "number", _ =>
      ops.boundProblems value spec "minimum" "maximum" .belowMinimum .aboveMaximum
    | some "string", .str text =>
      ops.boundProblems (.int text.length) spec "minLength" "maxLength" .belowMinLength
        .aboveMaxLength
    | some "array", .list items =>
      ops.boundProblems (.int items.length) spec "minItems" "maxItems" .belowMinItems .aboveMaxItems
    | _, _ => pure []
  return ops.enumProblems value spec ++ bounds

/-- The required keys that a dictionary does not have. -/
def missingKeys (entries : List (String × Value)) (path : String) :
    List Value → Except SchemaFault (List SchemaError)
  | [] => .ok []
  | key :: rest =>
    if ops.canHash key then do
      let missing ← missingKeys entries path rest
      match key.asStr.bind (valueOf? · entries) with
      | some _ => return missing
      | none => return .missingKey (path ++ "." ++ textOf ops.shown key) :: missing
    else .error .unhashable

/-- `_validate_value`: the errors of a value by a document, and of what is inside it. -/
def validateValue (value : Value) (spec : List (String × Value)) (path : String) :
    Except SchemaFault (List SchemaError) :=
  ops.admitsType value spec >>= fun
  | false => pure [.invalid path (.wrongType ((expectedType spec).getD .null))]
  | true => do
    let problems ← ops.localProblems value spec
    let inside ← (match expectedName spec, value with
      | some "object", .dict entries =>
        match _hp : propertiesOf spec with
        | none => pure []
        | some properties => do
          let missing ← ops.missingKeys entries path (requiredOf spec)
          let nested ← entries.mapM fun e =>
            match _hn : valueOf? e.1 properties with
            | some (.dict nested) => validateValue e.2 nested (path ++ "." ++ e.1)
            | _ => pure []
          pure (missing ++ nested.flatten)
      | some "array", .list items =>
        match _hi : valueOf? "items" spec with
        | some (.dict nested) => do
          let inside ← items.zipIdx.mapM fun item =>
            validateValue item.1 nested (path ++ "[" ++ toString item.2 ++ "]")
          pure inside.flatten
        | _ => pure []
      | _, _ => pure [])
    return problems.map (.invalid path) ++ inside
termination_by sizeOf spec
decreasing_by
  · exact sizeOf_property _hp _hn
  · exact sizeOf_items _hi

/-- `validate_state`: the errors of a state by a document. -/
def validateState (definition state : List (String × Value)) :
    Except SchemaFault (List SchemaError) := do
  let missing := ((requiredOf definition).map (textOf ops.shown)).filter
    fun key => (valueOf? key state).isNone
  let nested ← state.mapM fun e =>
    match valueOf? e.1 (rootProperties definition) with
    | none => pure []
    | some (.dict spec) => ops.validateValue e.2 spec e.1
    | some _ => .error .notMapping
  return missing.map .missingKey ++ nested.flatten

end Operators

end PalmEngine.Context
