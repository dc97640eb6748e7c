import PalmEngine.Lib.Dict

/-!
# Blackboard states

The state an execution reads and changes: a dictionary, an optional schema, a stack of named scopes
and schemas for some of the names. What is stored for nested scopes is part of the dictionary. A
schema is a document, or of another implementation, which may have no document to serialize.
Observers are left out.
-/

namespace PalmEngine.Context

open PalmEngine.Lib

/-- A stored value; values of other types are told apart by a number. -/
inductive Value where
  | null
  | bool (b : Bool)
  | int (n : ℤ)
  | str (s : String)
  | list (items : List Value)
  | dict (entries : List (String × Value))
  | other (n : ℕ)

/-- The value of a key in a nested dictionary. -/
def valueOf? (k : String) (entries : List (String × Value)) : Option Value :=
  (entries.find? fun e => e.1 = k).map Prod.snd

/-- Store a value in a nested dictionary; a key that is there keeps its place. -/
def setEntry (k : String) (v : Value) (entries : List (String × Value)) : List (String × Value) :=
  if (valueOf? k entries).isSome then entries.map fun e => if e.1 = k then (k, v) else e
  else entries ++ [(k, v)]

/-- The entries of a value that is a dictionary. -/
def Value.asDict : Value → Option (List (String × Value))
  | dict entries => some entries
  | _ => none

/-- A value that is a text. -/
def Value.asStr : Value → Option String
  | str s => some s
  | _ => none

/-- Whether a value is the missing one. -/
def Value.isNull : Value → Bool
  | null => true
  | _ => false

/-- Whether a value counts as true. -/
def truthy (otherTruthy : ℕ → Bool) : Value → Bool
  | .null => false
  | .bool b => b
  | .int n => n ≠ 0
  | .str s => s ≠ ""
  | .list items => !items.isEmpty
  | .dict entries => !entries.isEmpty
  | .other n => otherTruthy n

/-- The text of a value, as it is shown if it is none. -/
def textOf (shown : Value → String) : Value → String
  | .str s => s
  | v => shown v

/-- The first entry of a key gives its value. -/
theorem valueOf?_cons (k : String) (e : String × Value) (rest : List (String × Value)) :
    valueOf? k (e :: rest) = if e.1 = k then some e.2 else valueOf? k rest := by
  by_cases h : e.1 = k <;> simp [valueOf?, h]

/-- An entry at the end gives the value of a key that has none before. -/
theorem valueOf?_append_singleton (k i : String) (v : Value) (entries : List (String × Value)) :
    valueOf? i (entries ++ [(k, v)]) = (valueOf? i entries).or (if k = i then some v else none) := by
  induction entries with
  | nil => simp [valueOf?]
  | cons e rest ih =>
    rw [List.cons_append, valueOf?_cons, valueOf?_cons, ih]
    split <;> rfl

/-- Replacing the value of a key gives it to that key only. -/
theorem valueOf?_map_replace (k i : String) (v : Value) (entries : List (String × Value)) :
    valueOf? i (entries.map fun e => if e.1 = k then (k, v) else e) =
      if i = k then (valueOf? k entries).map fun _ => v else valueOf? i entries := by
  induction entries with
  | nil => simp [valueOf?]
  | cons e rest ih =>
    rw [List.map_cons, valueOf?_cons, ih, valueOf?_cons, valueOf?_cons]
    by_cases he : e.1 = k
    · by_cases hi : i = k
      · simp [he, hi]
      · simp [he, hi, Ne.symm hi]
    · by_cases hi : i = k
      · simp [he, hi]
      · simp [he, hi]

/-- A stored value is found under its key. -/
@[simp] theorem valueOf?_setEntry_self (k : String) (v : Value) (entries : List (String × Value)) :
    valueOf? k (setEntry k v entries) = some v := by
  unfold setEntry
  split
  · next hsome =>
    obtain ⟨old, hold⟩ := Option.isSome_iff_exists.mp hsome
    simp [valueOf?_map_replace, hold]
  · next hnone =>
    have hfresh : valueOf? k entries = none := by simpa using hnone
    simp [valueOf?_append_singleton, hfresh]

/-- Storing a value leaves the other keys as they are. -/
theorem valueOf?_setEntry_ne {i k : String} (v : Value) (entries : List (String × Value))
    (h : i ≠ k) : valueOf? i (setEntry k v entries) = valueOf? i entries := by
  unfold setEntry
  split
  · simp [valueOf?_map_replace, h]
  · simp [valueOf?_append_singleton, h.symm]

/-- A schema: a document that validates, or another implementation. -/
inductive StateSchema where
  | dict (definition : List (String × Value))
  | other (n : ℕ) (definition : Option (List (String × Value)))

/-- The document of a schema, if it has one. -/
def StateSchema.definition : StateSchema → Option (List (String × Value))
  | dict definition => some definition
  | other _ definition => definition

/-- The schema is a document that validates. -/
def StateSchema.IsDocument (schema : StateSchema) : Prop := ∃ definition, schema = dict definition

/-- What a state holds. The scope stack is from the root to the innermost scope. -/
structure BlackboardState where
  data : Dict String Value := .empty
  schema : Option StateSchema := none
  scopeStack : List String := []
  scopeSchemas : Dict String StateSchema := .empty

namespace BlackboardState

/-- The value of a key. -/
def get (s : BlackboardState) (k : String) : Option Value := s.data.get? k

/-- Store a value. -/
def set (s : BlackboardState) (k : String) (v : Value) : BlackboardState :=
  { s with data := s.data.set k v }

/-- Remove a key. -/
def delete (s : BlackboardState) (k : String) : BlackboardState :=
  { s with data := s.data.erase k }

/-- The schema of the innermost scope that has one, or else that of the state. -/
def effectiveSchema (s : BlackboardState) : Option StateSchema :=
  (s.scopeStack.reverse.findSome? s.scopeSchemas.get?).or s.schema

/-- Attach a schema to a scope name, or detach it. -/
def bindScopeSchema (s : BlackboardState) (name : String) (schema : Option StateSchema) :
    Except String BlackboardState :=
  if name = "" then .error "Scope schema name cannot be empty"
  else .ok { s with scopeSchemas := schema.elim (s.scopeSchemas.erase name) (s.scopeSchemas.set name) }

/-- Replace the schemas of the scopes. -/
def restoreScopeSchemas (s : BlackboardState) (schemas : Dict String StateSchema) :
    BlackboardState :=
  { s with scopeSchemas := schemas }

/-- The innermost scope. -/
def currentScope (s : BlackboardState) : Option String := s.scopeStack.getLast?

/-- Enter a scope. -/
def enterScope (s : BlackboardState) (name : String) : Except String BlackboardState :=
  if name = "" then .error "State scope name cannot be empty"
  else .ok { s with scopeStack := s.scopeStack ++ [name] }

/-- Leave the innermost scope. -/
def exitScope (s : BlackboardState) : Except String BlackboardState :=
  if s.scopeStack = [] then .error "Cannot exit state scope: stack is empty"
  else .ok { s with scopeStack := s.scopeStack.dropLast }

/-- Replace the scope stack. -/
def restoreScopeStack (s : BlackboardState) (stack : List String) : BlackboardState :=
  { s with scopeStack := stack }

end BlackboardState

end PalmEngine.Context
