import PalmEngine.Context.Scoping

/-!
# Positions in a state

A position is a path of keys from a state through the dictionaries in it. The values of the scopes
lie at positions below the reserved key of the state. A write changes what lies at its position,
and with it what lies inside and around it; what lies apart from it stays as it is.
-/

namespace PalmEngine.Context

open PalmEngine.Lib

/-- What lies in a value at a path of keys. -/
def valueAt : List String → Value → Option Value
  | [], v => some v
  | k :: path, v => (v.asDict.bind (valueOf? k)).bind (valueAt path)

/-- Two positions of which neither lies inside the other. -/
def Apart (p q : List String) : Prop := ¬ p <+: q ∧ ¬ q <+: p

/-- The path to a key of a scope from the container of the outermost scopes. -/
def scopePath (k : String) : List String → List String
  | [] => [k]
  | [name] => [name, k]
  | name :: rest => name :: nestedScopesKey :: scopePath k rest

namespace BlackboardState

/-- What lies in a state at a position. -/
def at? (s : BlackboardState) : List String → Option Value
  | [] => none
  | k :: path => (s.get k).bind (valueAt path)

/-- The position of a key of the state, or of its current scope. -/
def positionOf (s : BlackboardState) (inScope : Bool) (k : String) : List String :=
  if inScope && s.currentScope.isSome then scopesRootKey :: scopePath k s.scopeStack else [k]

/-- Two states differ in what lies at some positions only: what lies apart from all of them is the
same, and so are the scopes and the schemas. -/
structure DiffersOnlyAt (s s' : BlackboardState) (positions : List (List String)) : Prop where
  schema : s'.schema = s.schema
  scopeStack : s'.scopeStack = s.scopeStack
  scopeSchemas : s'.scopeSchemas = s.scopeSchemas
  apart : ∀ p, (∀ q ∈ positions, Apart p q) → s'.at? p = s.at? p

end BlackboardState

variable {k : String} {v : Value} {p q : List String}

/-- Positions below one key are apart if they are apart from there on. -/
theorem apart_cons_iff : Apart (k :: p) (k :: q) ↔ Apart p q := by
  simp [Apart, List.cons_prefix_cons]

/-- What lies in a dictionary below a key. -/
theorem valueAt_dict (k : String) (path : List String) (entries : List (String × Value)) :
    valueAt (k :: path) (.dict entries) = (valueOf? k entries).bind (valueAt path) :=
  rfl

/-- Below a missing dictionary there is nothing, as below an empty one. -/
theorem valueAt_getD (value : Option Value) (hp : p ≠ []) :
    valueAt p (.dict ((value.bind Value.asDict).getD [])) = value.bind (valueAt p) := by
  match p, hp with
  | i :: path, _ =>
    rw [valueAt_dict, bind_valueOf?_getD]
    cases value with
    | none => rfl
    | some v => rfl

/-- Storing a value leaves what lies apart from it. -/
theorem valueAt_setEntry (v : Value) (entries : List (String × Value))
    (hinside : ∀ path, path ≠ [] → Apart path q →
      valueAt path v = (valueOf? k entries).bind (valueAt path))
    (h : Apart p (k :: q)) :
    valueAt p (.dict (setEntry k v entries)) = valueAt p (.dict entries) := by
  match p with
  | [] => exact absurd List.nil_prefix h.1
  | i :: path =>
    rw [valueAt_dict, valueAt_dict]
    by_cases hi : i = k
    · subst hi
      have hpath : Apart path q := apart_cons_iff.mp h
      have hne : path ≠ [] := by
        intro hnil
        exact hpath.1 (hnil ▸ List.nil_prefix)
      rw [valueOf?_setEntry_self]
      exact hinside path hne hpath
    · rw [valueOf?_setEntry_ne v entries hi]

/-- Nothing lies apart from the value itself. -/
theorem not_apart_nil (p : List String) : ¬ Apart p [] :=
  fun h => h.2 List.nil_prefix

/-- Storing a value in a scope leaves what lies apart from its path. -/
theorem valueAt_storeIn (stack : List String) (hstack : stack ≠ []) :
    ∀ current p, Apart p (scopePath k stack) →
      valueAt p (.dict (storeIn k v stack current)) = valueAt p (.dict current) := by
  induction stack with
  | nil => exact absurd rfl hstack
  | cons name rest ih =>
    intro current p h
    cases rest with
    | nil =>
      refine valueAt_setEntry _ _ (fun path hne hpath => ?_) h
      rw [valueAt_setEntry _ _ (fun inner _ hinner => absurd hinner (not_apart_nil inner)) hpath]
      exact valueAt_getD _ hne
    | cons inner rest =>
      rw [storeIn_cons]
      refine valueAt_setEntry _ _ (fun path hne hpath => ?_) h
      rw [valueAt_setEntry _ _ (fun path' hne' hpath' => ?_) hpath]
      · exact valueAt_getD _ hne
      · rw [ih (by simp) _ _ hpath']
        exact valueAt_getD _ hne'

namespace BlackboardState

variable {s s' : BlackboardState} {positions : List (List String)}

/-- A state differs from itself nowhere. -/
theorem DiffersOnlyAt.refl (s : BlackboardState) (positions : List (List String)) :
    s.DiffersOnlyAt s positions :=
  ⟨rfl, rfl, rfl, fun _ _ => rfl⟩

/-- Two changes one after the other differ at the positions of both. -/
theorem DiffersOnlyAt.trans {s₁ s₂ s₃ : BlackboardState} {ps qs : List (List String)}
    (h₁ : s₁.DiffersOnlyAt s₂ ps) (h₂ : s₂.DiffersOnlyAt s₃ qs) :
    s₁.DiffersOnlyAt s₃ (ps ++ qs) where
  schema := h₂.schema.trans h₁.schema
  scopeStack := h₂.scopeStack.trans h₁.scopeStack
  scopeSchemas := h₂.scopeSchemas.trans h₁.scopeSchemas
  apart p hp :=
    (h₂.apart p fun q hq => hp q (List.mem_append_right ps hq)).trans
      (h₁.apart p fun q hq => hp q (List.mem_append_left qs hq))

/-- Storing a value leaves what lies apart from its key. -/
theorem at?_set (s : BlackboardState) (v : Value)
    (hinside : ∀ path, path ≠ [] → Apart path q →
      valueAt path v = (s.get k).bind (valueAt path))
    (h : Apart p (k :: q)) : (s.set k v).at? p = s.at? p := by
  match p with
  | [] => rfl
  | i :: path =>
    rw [at?, at?]
    by_cases hi : i = k
    · subst hi
      have hpath : Apart path q := apart_cons_iff.mp h
      have hne : path ≠ [] := by
        intro hnil
        exact hpath.1 (hnil ▸ List.nil_prefix)
      have hget : (s.set i v).get i = some v := Dict.get?_set_self _ _ _
      rw [hget]
      exact hinside path hne hpath
    · have hget : (s.set k v).get i = s.get i := Dict.get?_set_ne _ _ hi
      rw [hget]

/-- Storing a value under a key of the state changes only what lies there. -/
theorem set_differsOnlyAt (s : BlackboardState) (k : String) (v : Value) :
    s.DiffersOnlyAt (s.set k v) [[k]] where
  schema := rfl
  scopeStack := rfl
  scopeSchemas := rfl
  apart _ hp := at?_set s v (fun path _ hpath => absurd hpath (not_apart_nil path))
    (hp _ List.mem_cons_self)

/-- Storing a value in the current scope changes only what lies there. -/
theorem setScoped_differsOnlyAt (h : s.setScoped k v = .ok s') :
    s.DiffersOnlyAt s' [scopesRootKey :: scopePath k s.scopeStack] := by
  unfold setScoped at h
  split at h
  · cases h
  · next hstack =>
    cases h
    refine ⟨rfl, rfl, rfl, fun p hp => at?_set s _ (fun path hne hpath => ?_)
      (hp _ List.mem_cons_self)⟩
    rw [valueAt_storeIn _ hstack _ _ hpath]
    exact valueAt_getD _ hne

end BlackboardState

end PalmEngine.Context
