import PalmEngine.Context.Comparing

/-!
# The conditional rule

The rule tests its input, or one field of it, and gives one of two values. Its test is the first of
its options that names one.
-/

namespace PalmEngine.Transform

open PalmEngine.Context

variable (floats : ℕ → ℚ)

/-- A field is a value that can be looked up in a dictionary; lists and dictionaries cannot. -/
def canBeKey : Value → Bool
  | .list _ | .dict _ => false
  | _ => true

/-- Whether a dictionary has a field. -/
def hasField (field : Value) (container : List (String × Value)) : Bool :=
  field.asStr.any fun k => (valueOf? k container).isSome

/-- The tests of the conditional rule, the first that is named. -/
def conditionalMatches (subject : Value) (container : Option (List (String × Value)))
    (options : List (String × Value)) : Except String Bool :=
  match valueOf? "equals" options with
  | some v => .ok (valuesEqual floats subject v)
  | none => match valueOf? "not_equals" options with
  | some v => .ok (!valuesEqual floats subject v)
  | none => match valueOf? "gt" options with
  | some v => compareBy floats (· = .gt) ">" subject v
  | none => match valueOf? "gte" options with
  | some v => compareBy floats (· ≠ .lt) ">=" subject v
  | none => match valueOf? "lt" options with
  | some v => compareBy floats (· = .lt) "<" subject v
  | none => match valueOf? "lte" options with
  | some v => compareBy floats (· ≠ .gt) "<=" subject v
  | none =>
    if (valueOf? "is_truthy" options).any (isTrue floats) then .ok (isTrue floats subject)
    else if (valueOf? "exists" options).any (isTrue floats) then
      .ok (match container with
        | none => !subject.isNull
        | some entries => hasField ((valueOf? "field" options).getD .null) entries)
    else .error "conditional requires a predicate (equals, gt, gte, is_truthy, exists, ...)"

/-- Whether an input meets the conditional rule. -/
def conditionalMatched (value : Value) (options : List (String × Value)) : Except String Bool :=
  match (valueOf? "field" options).getD .null with
  | .null => conditionalMatches floats value none options
  | field =>
    match value with
    | .dict entries =>
      if canBeKey field then
        conditionalMatches floats ((field.asStr.bind fun k => valueOf? k entries).getD .null)
          (if isTrue floats field then some entries else none) options
      else .error "unhashable type"
    | _ => .error "conditional requires a mapping input for a field"

/-- The value that the conditional rule gives. -/
def conditionalApply (value : Value) (options : List (String × Value)) : Except String Value := do
  let passthrough := (valueOf? "passthrough" options).any (isTrue floats)
  if !passthrough && (valueOf? "then" options).isNone then .error "conditional requires then="
  let matched ← conditionalMatched floats value options
  let otherwise := (valueOf? "else" options).getD .null
  return if matched then (if passthrough then value else (valueOf? "then" options).getD .null)
    else otherwise

end PalmEngine.Transform
