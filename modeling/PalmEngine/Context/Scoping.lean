import PalmEngine.Context.State

/-!
# Values in nested scopes

The values of the scopes are stored in the dictionary of the state itself, under one reserved key.
Each scope is a dictionary with its values, and with the scopes inside it under another reserved
key. A lookup starts in the innermost scope and never finds the reserved key of a scope; a stored
value is put under any key at all.

A stored value is visible in its scope and changes nothing else, unless its key is the reserved
one: then it takes the place of the scopes inside.
-/

namespace PalmEngine.Context

open PalmEngine.Lib

/-- The key of the state under which the scopes are stored. -/
def scopesRootKey : String := "__palm:scopes"

/-- The key of a scope under which the scopes inside it are stored. -/
def nestedScopesKey : String := "__scopes"

/-- The dictionary under a key, none if there is no dictionary. -/
def dictAt (k : String) (entries : List (String × Value)) : Option (List (String × Value)) :=
  (valueOf? k entries).bind Value.asDict

/-- `_navigate` without creating: the dictionary of a scope inside a container of scopes. -/
def navigate (current : List (String × Value)) : List String → Option (List (String × Value))
  | [] => none
  | [name] => dictAt name current
  | name :: rest =>
    (dictAt name current).bind fun node =>
      (dictAt nestedScopesKey node).bind fun children => navigate children rest

/-- Store a value in a scope inside a container of scopes. What is missing on the way to it is
created, and so is what is there but no dictionary. -/
def storeIn (k : String) (v : Value) :
    List String → List (String × Value) → List (String × Value)
  | [], current => current
  | [name], current => setEntry name (.dict (setEntry k v ((dictAt name current).getD []))) current
  | name :: rest, current =>
    let node := (dictAt name current).getD []
    let children := (dictAt nestedScopesKey node).getD []
    setEntry name (.dict (setEntry nestedScopesKey (.dict (storeIn k v rest children)) node)) current

namespace BlackboardState

variable (s : BlackboardState)

/-- The dictionary of a scope. -/
def scopeNode (path : List String) : Option (List (String × Value)) :=
  ((s.get scopesRootKey).bind Value.asDict).bind fun root => navigate root path

/-- The value of a key in one scope, which never has one for the reserved key. -/
def valueInScope (k : String) (path : List String) : Option Value :=
  if k = nestedScopesKey then none else (s.scopeNode path).bind (valueOf? k)

/-- The value of a key that is visible from a scope: that of the innermost scope which has one. -/
def visibleFrom (path : List String) (k : String) : Option Value :=
  (List.range path.length).reverse.findSome? fun depth => s.valueInScope k (path.take (depth + 1))

/-- The value of a key in the current scope or the ones around it. -/
def getScoped (k : String) : Option Value := s.visibleFrom s.scopeStack k

/-- Store a value in the current scope. -/
def setScoped (k : String) (v : Value) : Except String BlackboardState :=
  if s.scopeStack = [] then .error "Cannot set scoped value without an active scope"
  else .ok (s.set scopesRootKey (.dict (storeIn k v s.scopeStack
    (((s.get scopesRootKey).bind Value.asDict).getD []))))

/-- A stored value is visible in its scope; what is visible from a scope that is neither the
current one nor inside it is what it was; and all other keys have the values they had, in every
scope and in the state itself, whose reserved key holds the scopes. -/
structure KeepsFrame (k : String) (v : Value) (s' : BlackboardState) : Prop where
  visible : s'.getScoped k = some v
  scopeStack : s'.scopeStack = s.scopeStack
  outside : ∀ path, ¬ s.scopeStack <+: path → ∀ i, s'.visibleFrom path i = s.visibleFrom path i
  others : ∀ path, ∀ i, i ≠ k → s'.visibleFrom path i = s.visibleFrom path i
  unscoped : ∀ i, i ≠ scopesRootKey → s'.get i = s.get i

end BlackboardState

variable {k i : String} {v : Value}

/-- A stored dictionary is found under its key. -/
@[simp] theorem dictAt_setEntry_self (k : String) (entries current : List (String × Value)) :
    dictAt k (setEntry k (.dict entries) current) = some entries := by
  simp [dictAt, Value.asDict]

/-- Storing a value leaves the dictionaries under other keys. -/
theorem dictAt_setEntry_ne (h : i ≠ k) (v : Value) (current : List (String × Value)) :
    dictAt i (setEntry k v current) = dictAt i current := by
  rw [dictAt, valueOf?_setEntry_ne v current h, dictAt]

/-- There are no scopes in an empty container. -/
@[simp] theorem navigate_nil (path : List String) : navigate [] path = none := by
  match path with
  | [] | [_] | _ :: _ :: _ => rfl

/-- An empty dictionary in the place of a missing one has no values either. -/
theorem bind_valueOf?_getD (i : String) (node : Option (List (String × Value))) :
    valueOf? i (node.getD []) = node.bind (valueOf? i) := by
  cases node <;> rfl

/-- No scopes are missing in an empty container in the place of a missing one. -/
theorem bind_navigate_getD (container : Option (List (String × Value))) (path : List String) :
    navigate (container.getD []) path = container.bind fun current => navigate current path := by
  cases container <;> simp

/-- The dictionary of a scope inside another one. -/
theorem navigate_cons (current : List (String × Value)) (name inner : String) (rest : List String) :
    navigate current (name :: inner :: rest) =
      navigate ((dictAt nestedScopesKey ((dictAt name current).getD [])).getD []) (inner :: rest) := by
  rw [bind_navigate_getD]
  have hempty : dictAt nestedScopesKey [] = none := rfl
  cases hnode : dictAt name current with
  | none => simp [navigate, hnode, hempty]
  | some node => simp [navigate, hnode]

/-- A value in a scope inside another one is stored through the container of that one. -/
theorem storeIn_cons (k : String) (v : Value) (name inner : String) (rest : List String)
    (current : List (String × Value)) :
    storeIn k v (name :: inner :: rest) current =
      setEntry name (.dict (setEntry nestedScopesKey (.dict (storeIn k v (inner :: rest)
        ((dictAt nestedScopesKey ((dictAt name current).getD [])).getD [])))
          ((dictAt name current).getD []))) current :=
  rfl

/-- A value stored in a scope is found there. -/
theorem navigate_storeIn_self (stack : List String) (h : stack ≠ []) :
    ∀ current, (navigate (storeIn k v stack current) stack).bind (valueOf? k) = some v := by
  induction stack with
  | nil => exact absurd rfl h
  | cons name rest ih =>
    intro current
    cases rest with
    | nil => simp [navigate, storeIn]
    | cons inner rest =>
      rw [navigate_cons, storeIn_cons]
      simpa using ih (by simp) _

/-- A value stored in a scope under another key than the reserved one changes no other value of any
scope. -/
theorem navigate_storeIn_ne (hk : k ≠ nestedScopesKey) (hi : i ≠ nestedScopesKey)
    (stack : List String) : ∀ current path, path ≠ stack ∨ i ≠ k →
      (navigate (storeIn k v stack current) path).bind (valueOf? i) =
        (navigate current path).bind (valueOf? i) := by
  induction stack with
  | nil => exact fun _ _ _ => rfl
  | cons name rest ih =>
    intro current path hother
    match path with
    | [] => rfl
    | [first] =>
      by_cases hfirst : first = name
      · subst hfirst
        cases rest with
        | nil =>
          have hik : i ≠ k := hother.resolve_left (by simp)
          simp [navigate, storeIn, valueOf?_setEntry_ne v _ hik, bind_valueOf?_getD]
        | cons inner rest =>
          rw [storeIn_cons]
          simp [navigate, valueOf?_setEntry_ne _ _ hi, bind_valueOf?_getD]
      · cases rest <;> simp [navigate, storeIn, dictAt_setEntry_ne hfirst]
    | first :: second :: path =>
      rw [navigate_cons, navigate_cons]
      by_cases hfirst : first = name
      · subst hfirst
        cases rest with
        | nil => simp [storeIn, dictAt_setEntry_ne hk.symm]
        | cons inner rest =>
          rw [storeIn_cons]
          have hother' : second :: path ≠ inner :: rest ∨ i ≠ k :=
            hother.imp_left fun hne heq => hne (by rw [heq])
          simpa using ih _ (second :: path) hother'
      · cases rest <;> simp [storeIn, dictAt_setEntry_ne hfirst]

namespace BlackboardState

variable {s s' : BlackboardState}

/-- What a value stored in the current scope makes of the dictionary of a scope. -/
theorem scopeNode_setScoped (h : s.setScoped k v = .ok s') (path : List String) :
    s'.scopeNode path = navigate (storeIn k v s.scopeStack
      (((s.get scopesRootKey).bind Value.asDict).getD [])) path := by
  unfold setScoped at h
  split at h
  · cases h
  · cases h
    simp [scopeNode, get, set, Value.asDict]

/-- A value stored under another key than the reserved one is in its scope. -/
theorem valueInScope_setScoped_self (h : s.setScoped k v = .ok s') (hk : k ≠ nestedScopesKey) :
    s'.valueInScope k s.scopeStack = some v := by
  have hstack : s.scopeStack ≠ [] := by
    intro hempty
    simp [setScoped, hempty] at h
  rw [valueInScope, if_neg hk, scopeNode_setScoped h]
  exact navigate_storeIn_self _ hstack _

/-- It changes no other value of any scope. -/
theorem valueInScope_setScoped_ne (h : s.setScoped k v = .ok s') (hk : k ≠ nestedScopesKey)
    (path : List String) (hother : path ≠ s.scopeStack ∨ i ≠ k) :
    s'.valueInScope i path = s.valueInScope i path := by
  unfold valueInScope
  by_cases hi : i = nestedScopesKey
  · rw [if_pos hi, if_pos hi]
  · rw [if_neg hi, if_neg hi, scopeNode_setScoped h, navigate_storeIn_ne hk hi _ _ _ hother,
      bind_navigate_getD]
    rfl

/-- What is visible from a scope is what the scopes around it have. -/
theorem visibleFrom_congr {path : List String}
    (h : ∀ depth, s'.valueInScope i (path.take depth) = s.valueInScope i (path.take depth)) :
    s'.visibleFrom path i = s.visibleFrom path i := by
  unfold visibleFrom
  congr 1
  funext depth
  exact h (depth + 1)

/-- What the innermost scope has is visible. -/
theorem visibleFrom_of_valueInScope {path : List String} (hpath : path ≠ [])
    (h : s.valueInScope k path = some v) : s.visibleFrom path k = some v := by
  obtain ⟨n, hn⟩ := Nat.exists_eq_succ_of_ne_zero (List.length_pos_iff.mpr hpath).ne'
  have htake : path.take (n + 1) = path := List.take_of_length_le (by omega)
  rw [visibleFrom, hn, List.range_succ, List.reverse_append]
  simp [htake, h]

/-- The reserved key is visible from no scope. -/
theorem visibleFrom_nestedScopesKey (s : BlackboardState) (path : List String) :
    s.visibleFrom path nestedScopesKey = none :=
  List.findSome?_eq_none_iff.mpr fun _ _ => if_pos rfl

/-- A value stored in the current scope is visible there and changes nothing else if and only if
its key is not the reserved one of the scopes. -/
theorem setScoped_keepsFrame_iff (s : BlackboardState) (k : String) (v : Value) :
    (∀ s', s.setScoped k v = .ok s' → s.KeepsFrame k v s') ↔
      k ≠ nestedScopesKey ∨ s.scopeStack = [] := by
  constructor
  · intro hkeeps
    by_cases hstack : s.scopeStack = []
    · exact .inr hstack
    · refine .inl fun hk => ?_
      have hvisible := (hkeeps _ (by rw [setScoped, if_neg hstack])).visible
      rw [getScoped, hk, visibleFrom_nestedScopesKey] at hvisible
      cases hvisible
  · intro hcond s' h
    have hstack : s.scopeStack ≠ [] := by
      intro hempty
      simp [setScoped, hempty] at h
    have hk : k ≠ nestedScopesKey := hcond.resolve_right hstack
    have hset : s' = s.set scopesRootKey (.dict (storeIn k v s.scopeStack
        (((s.get scopesRootKey).bind Value.asDict).getD []))) := by
      rw [setScoped, if_neg hstack] at h
      exact (Except.ok.inj h).symm
    have hsame : s'.scopeStack = s.scopeStack := by rw [hset]; rfl
    refine ⟨?_, hsame, fun path hprefix i => ?_, fun path i hi => ?_, fun i hi => ?_⟩
    · rw [getScoped, hsame]
      exact visibleFrom_of_valueInScope hstack (valueInScope_setScoped_self h hk)
    · refine visibleFrom_congr fun depth => valueInScope_setScoped_ne h hk _ (.inl fun heq => ?_)
      exact hprefix (heq ▸ List.take_prefix depth path)
    · exact visibleFrom_congr fun depth => valueInScope_setScoped_ne h hk _ (.inr hi)
    · rw [hset]
      exact Dict.get?_set_ne _ _ hi

/-- A value under the reserved key is not visible in its scope. -/
theorem setScoped_keepsFrame_fails : ¬ ∀ (s : BlackboardState) (k : String) (v : Value),
    ∀ s', s.setScoped k v = .ok s' → s.KeepsFrame k v s' := by
  intro h
  have hvisible := (h { scopeStack := ["step"] } "__scopes" (.int 1) _ rfl).visible
  cases (visibleFrom_nestedScopesKey _ _).symm.trans hvisible

end BlackboardState

end PalmEngine.Context
