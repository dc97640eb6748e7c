import PalmEngine.Lib.Fallible
import PalmEngine.Transform.Conditional
import PalmEngine.Wizard.Branch

/-!
# The condition of a branch

A condition is accepted if it names a test, and is then evaluated on the answers and the state. The
evaluation raises when a test asks for the order of values that have none, such as a missing answer
and a number, when the only tests it names are switched off, and when its field cannot be looked up.
Where the answer for its field is there, it gives what the conditional rule gives.
-/

namespace PalmEngine.Wizard

open PalmEngine.Context PalmEngine.Lib PalmEngine.Transform

/-- How values are compared: equality never raises, and values without an order cannot be ordered. -/
def valueComparing (floats : ℕ → ℚ) : Comparing where
  compare comparison v w := match comparison with
    | .equals => .ok (valuesEqual floats v w)
    | .notEquals => .ok (!valuesEqual floats v w)
    | .gt => compareBy floats (· = .gt) ">" v w
    | .gte => compareBy floats (· ≠ .lt) ">=" v w
    | .lt => compareBy floats (· = .lt) "<" v w
    | .lte => compareBy floats (· ≠ .gt) "<=" v w
  otherTruthy n := floats n ≠ 0

/-- A condition that is accepted. -/
structure WhenClause where
  entries : List (String × Value)
  accepted : validateWhenClause entries = .ok ()

namespace WhenClause

variable (clause : WhenClause)

/-- The field of a condition, null if it has none. -/
def field : Value := (valueOf? "field" clause.entries).getD .null

/-- What a condition is about. A field that is no text is not among the answers and the keys of a
state, but its text may be a part of one. -/
def subject (shown : Value → String) (state : BlackboardState) : Value :=
  match clause.field with
  | .null => .dict (getAnswers state)
  | .str k => subjectOf state (some k)
  | field => (state.get (wizardPrefix ++ "." ++ textOf shown field)).getD .null

/-- Whether the condition of a branch holds. -/
def evaluate (floats : ℕ → ℚ) (shown : Value → String) (state : BlackboardState) :
    Except String Bool := do
  validateWhenClause clause.entries
  if canBeKey clause.field then
    matchesClause (valueComparing floats) (clause.subject shown state) (getAnswers state)
      clause.field.asStr clause.entries
  else .error "unhashable type"

/-- The first comparison that a condition names, with the value to compare with. -/
def comparison? : Option (Comparison × Value) :=
  comparisons.findSome? fun e => (valueOf? e.1 clause.entries).map (e.2, ·)

/-- A test of a condition is switched on. -/
def SwitchedOn (floats : ℕ → ℚ) (test : String) : Prop :=
  (valueOf? test clause.entries).any (isTrue floats) = true

/-- A condition can be evaluated: its field can be looked up; if its first comparison is one of order
then what it is about has an order with the value; and if it has no comparison then one of its tests
is switched on. -/
structure Evaluable (floats : ℕ → ℚ) (shown : Value → String) (state : BlackboardState) : Prop where
  field : canBeKey clause.field = true
  ordered : ∀ c v, clause.comparison? = some (c, v) → c ≠ .equals → c ≠ .notEquals →
    Comparable floats (clause.subject shown state) v
  switched : clause.comparison? = none →
    clause.SwitchedOn floats "is_truthy" ∨ clause.SwitchedOn floats "exists"

/-- If the answer for the field of a condition is there and not null, then the condition gives what
the conditional rule gives with the same options on the answers. -/
def Agrees (floats : ℕ → ℚ) (shown : Value → String) (state : BlackboardState) : Prop :=
  ∀ k v, clause.field = .str k → valueOf? k (getAnswers state) = some v → v.isNull = false →
    (clause.evaluate floats shown state).toOption =
      (conditionalMatched floats (.dict (getAnswers state)) clause.entries).toOption

variable {clause} {floats : ℕ → ℚ} {shown : Value → String} {state : BlackboardState}

/-- For a text as field, and for none, a condition is evaluated as the branch step does it. -/
theorem evaluate_eq_evaluateBranchPredicate
    (hfield : clause.field = .null ∨ ∃ k, clause.field = .str k) :
    clause.evaluate floats shown state =
      evaluateBranchPredicate (valueComparing floats) state clause.entries := by
  have hlooked : clause.subject shown state =
      subjectOf state ((valueOf? "field" clause.entries).bind Value.asStr) ∧
      clause.field.asStr = (valueOf? "field" clause.entries).bind Value.asStr ∧
      canBeKey clause.field = true := by
    rw [subject, field] at *
    cases hvalue : valueOf? "field" clause.entries with
    | none => exact ⟨rfl, rfl, rfl⟩
    | some v =>
      rw [hvalue] at hfield
      rcases hfield with rfl | ⟨k, rfl⟩ <;> exact ⟨rfl, rfl, rfl⟩
  obtain ⟨hsubject, hasStr, hkey⟩ := hlooked
  rw [evaluate, evaluateBranchPredicate, hsubject, hasStr, if_pos hkey]

/-- An accepted condition that can be looked up is matched. -/
theorem evaluate_eq (hfield : canBeKey clause.field = true) :
    clause.evaluate floats shown state =
      matchesClause (valueComparing floats) (clause.subject shown state) (getAnswers state)
        clause.field.asStr clause.entries := by
  rw [evaluate, clause.accepted, if_pos hfield]
  rfl

/-- Two values can be compared exactly if equality is asked for or they have an order. -/
theorem exists_compare_iff (c : Comparison) (v w : Value) :
    (∃ b, (valueComparing floats).compare c v w = .ok b) ↔
      (c ≠ .equals → c ≠ .notEquals → Comparable floats v w) := by
  have hordered : ∀ test symbol, c ≠ .equals → c ≠ .notEquals →
      ((∃ b, compareBy floats test symbol v w = .ok b) ↔
        (c ≠ .equals → c ≠ .notEquals → Comparable floats v w)) := by
    intro test symbol hequals hnotEquals
    rw [exists_compareBy_iff]
    exact ⟨fun h _ _ => h, fun h => h hequals hnotEquals⟩
  cases c with
  | equals => exact iff_of_true ⟨_, rfl⟩ fun h => absurd rfl h
  | notEquals => exact iff_of_true ⟨_, rfl⟩ fun _ h => absurd rfl h
  | gt | gte | lt | lte => exact hordered _ _ (by decide) (by decide)

/-- A condition with a comparison compares. -/
theorem matchesClause_of_comparison {subject : Value} {answers : List (String × Value)}
    {field : Option String} {c : Comparison} {v : Value} (h : clause.comparison? = some (c, v)) :
    matchesClause (valueComparing floats) subject answers field clause.entries =
      (valueComparing floats).compare c subject v := by
  rw [comparison?] at h
  rw [matchesClause, h]

/-- A condition without a comparison tests for truth or for presence. -/
theorem matchesClause_of_none {subject : Value} {answers : List (String × Value)}
    {field : Option String} (h : clause.comparison? = none) :
    matchesClause (valueComparing floats) subject answers field clause.entries =
      if (valueOf? "is_truthy" clause.entries).any (isTrue floats) then .ok (isTrue floats subject)
      else if (valueOf? "exists" clause.entries).any (isTrue floats) then
        .ok (field.any fun k => (valueOf? k answers).isSome)
      else .error "branch when requires a predicate (equals, gt, gte, is_truthy, exists, ...)" := by
  rw [comparison?] at h
  rw [matchesClause, h]
  rfl

/-- A condition returns exactly if it can be evaluated. -/
theorem evaluate_returns_iff :
    (∃ b, clause.evaluate floats shown state = .ok b) ↔ clause.Evaluable floats shown state := by
  by_cases hfield : canBeKey clause.field = true
  · rw [evaluate_eq hfield]
    cases hc : clause.comparison? with
    | some comparison =>
      obtain ⟨c, v⟩ := comparison
      rw [matchesClause_of_comparison hc, exists_compare_iff]
      constructor
      · intro h
        refine ⟨hfield, fun c' v' heq => ?_, fun hnone => ?_⟩
        · obtain ⟨rfl, rfl⟩ := Prod.mk.inj (Option.some.inj (hc.symm.trans heq))
          exact h
        · rw [hc] at hnone
          cases hnone
      · intro h
        exact h.ordered c v hc
    | none =>
      rw [matchesClause_of_none hc]
      by_cases htruthy : (valueOf? "is_truthy" clause.entries).any (isTrue floats) = true
      · rw [if_pos htruthy]
        refine iff_of_true ⟨_, rfl⟩ ⟨hfield, fun c v heq => ?_, fun _ => Or.inl htruthy⟩
        rw [hc] at heq
        cases heq
      · rw [if_neg htruthy]
        by_cases hexists : (valueOf? "exists" clause.entries).any (isTrue floats) = true
        · rw [if_pos hexists]
          refine iff_of_true ⟨_, rfl⟩ ⟨hfield, fun c v heq => ?_, fun _ => Or.inr hexists⟩
          rw [hc] at heq
          cases heq
        · rw [if_neg hexists]
          exact iff_of_false (fun ⟨_, h⟩ => by cases h) fun h =>
            (h.switched hc).elim htruthy hexists
  · refine iff_of_false (fun ⟨_, h⟩ => ?_) fun h => hfield h.field
    rw [evaluate, clause.accepted, if_neg hfield] at h
    cases h

/-- The conditional rule makes the same comparison, or else the same tests. -/
theorem conditionalMatches_eq (subject : Value) (container : Option (List (String × Value))) :
    conditionalMatches floats subject container clause.entries =
      match clause.comparison? with
      | some (c, v) => (valueComparing floats).compare c subject v
      | none =>
        if (valueOf? "is_truthy" clause.entries).any (isTrue floats) then
          .ok (isTrue floats subject)
        else if (valueOf? "exists" clause.entries).any (isTrue floats) then
          .ok (match container with
            | none => !subject.isNull
            | some entries => hasField clause.field entries)
        else .error "conditional requires a predicate (equals, gt, gte, is_truthy, exists, ...)" := by
  unfold conditionalMatches comparison?
  simp only [comparisons, List.findSome?_cons, List.findSome?_nil]
  cases valueOf? "equals" clause.entries with
  | some v => rfl
  | none => cases valueOf? "not_equals" clause.entries with
    | some v => rfl
    | none => cases valueOf? "gt" clause.entries with
      | some v => rfl
      | none => cases valueOf? "gte" clause.entries with
        | some v => rfl
        | none => cases valueOf? "lt" clause.entries with
          | some v => rfl
          | none => cases valueOf? "lte" clause.entries with
            | some v => rfl
            | none => rfl

/-- A condition agrees with the conditional rule. -/
theorem agrees : clause.Agrees floats shown state := by
  intro k v hfield hv hpresent
  have hsubject : clause.subject shown state = v := by
    rw [subject, hfield]
    simp [subjectOf, hv, present?, Option.filter, hpresent]
  have hkey : canBeKey clause.field = true := by rw [hfield]; rfl
  have hrule : ∃ container, conditionalMatched floats (.dict (getAnswers state)) clause.entries =
      conditionalMatches floats v container clause.entries ∧
      (container = none ∨ container = some (getAnswers state)) := by
    have hoption : (valueOf? "field" clause.entries).getD .null = .str k := hfield
    rw [conditionalMatched, hoption]
    simp only [canBeKey, if_pos, Value.asStr, Option.bind_some, hv, Option.getD_some]
    refine ⟨_, rfl, ?_⟩
    split
    · exact Or.inr rfl
    · exact Or.inl rfl
  obtain ⟨container, hmatched, hcontainer⟩ := hrule
  rw [evaluate_eq hkey, hsubject, hmatched, conditionalMatches_eq]
  cases hc : clause.comparison? with
  | some comparison => rw [matchesClause_of_comparison hc]
  | none =>
    rw [matchesClause_of_none hc, hfield]
    simp only [Value.asStr, Option.any_some, hv, Option.isSome_some]
    split
    · rfl
    · split
      · rcases hcontainer with rfl | rfl
        · simp [hpresent]
        · simp [hasField, Value.asStr, hv]
      · rfl

/-- A condition that is accepted returns exactly if it can be evaluated, and where the answer for its
field is there it gives what the conditional rule gives. -/
theorem evaluate_spec (floats : ℕ → ℚ) (shown : Value → String) (clause : WhenClause)
    (state : BlackboardState) :
    ((∃ b, clause.evaluate floats shown state = .ok b) ↔ clause.Evaluable floats shown state) ∧
      clause.Agrees floats shown state :=
  ⟨evaluate_returns_iff, agrees⟩

/-- A condition that compares an answer with a number. -/
def adult : WhenClause := ⟨[("field", .str "age"), ("gte", .int 18)], by decide⟩

/-- A comparison with an answer that is missing raises. -/
theorem evaluate_fails : ¬∀ (clause : WhenClause) (state : BlackboardState),
    ∃ b, clause.evaluate (fun n => n) (fun _ => "") state = .ok b := by
  intro h
  obtain ⟨b, hb⟩ := h adult {}
  cases hb

end WhenClause

end PalmEngine.Wizard
