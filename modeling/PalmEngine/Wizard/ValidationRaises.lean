import PalmEngine.Lib.Fallible
import PalmEngine.Wizard.Validation

/-!
# When a validation raises

A validation is a sequence of checks, each of which returns, rejects, or raises. A sequence raises
nothing exactly if its first part raises nothing and the rest raises nothing on what the first part
returns. From this follows for each check when it raises: a text that looks like a number but is none,
a list for a confirmation, a parameter or a pattern of a rule that is none, a message that is no text,
and a schema that does not fit the value.
-/

namespace PalmEngine.Wizard

open PalmEngine.Lib PalmEngine.Context

/-- A computation raises nothing. -/
def Unraised {α : Type} (x : Except Refusal α) : Prop := ∀ fault, x ≠ .error (.raised fault)

section Sequences

variable {α β : Type}

/-- What returns raises nothing. -/
theorem unraised_ok (a : α) : Unraised (.ok a : Except Refusal α) := fun _ h => by cases h

/-- What rejects raises nothing. -/
theorem unraised_rejected (errors : List StepError) :
    Unraised (.error (.rejected errors) : Except Refusal α) := fun _ h => by cases h

/-- What raises does so. -/
theorem not_unraised_raised (fault : StepFault) :
    ¬Unraised (.error (.raised fault) : Except Refusal α) := fun h => h fault rfl

/-- A sequence raises nothing if neither part does. -/
theorem unraised_bind_iff {x : Except Refusal α} {f : α → Except Refusal β} :
    Unraised (x >>= f) ↔ Unraised x ∧ ∀ a, x = .ok a → Unraised (f a) := by
  cases x with
  | ok a => exact ⟨fun h => ⟨unraised_ok a, fun b hb => Except.ok.inj hb ▸ h⟩, fun h => h.2 a rfl⟩
  | error refusal =>
    constructor
    · exact fun h => ⟨fun fault hx => h fault (by rw [hx]; rfl), fun a ha => (by cases ha)⟩
    · rintro ⟨h, -⟩ fault hbind
      exact h fault (by rcases except_bind_eq_error_iff.mp hbind with hx | ⟨a, ha, -⟩
                        · exact hx
                        · cases ha)

end Sequences

section Sound

variable (ops : ValidationOps)

/-- A text that is neither a choice nor one in lower case does not look like a number that it is not. -/
def ChoiceSound (choices : List String) (value : Value) : Prop :=
  ∀ s, value = .str s → ops.text.strip s ≠ "" → ops.text.strip s ∉ choices →
    resolveLowered ops.text (ops.text.lower (ops.text.strip s))
      (choices.map fun choice => (choice, choice)) = none →
        ops.misread (ops.text.strip s) = false

/-- A parameter of a rule is a number. -/
def NumberSound (value : Value) : Prop := ∃ n, intOfValue ops value = .ok n

/-- A rule can be checked: a validator of another name returns, a length is a number, and a pattern is
one, with a message that is a text if it is not found. -/
def RuleSound (rule : StepValidationRule) (value : Value) : Prop :=
  match ops.custom rule.rule with
  | some validator => validator value ≠ none
  | none =>
    match rule.rule with
    | "min_length" => NumberSound ops ((valueOf? "min" rule.params).getD (.int 1))
    | "max_length" => NumberSound ops ((valueOf? "max" rule.params).getD (.int 10000))
    | "regex" =>
      let pattern := textOf ops.shown ((valueOf? "pattern" rule.params).getD (.str ""))
      let message := (valueOf? "message" rule.params).getD
        (.str "Value does not match the required pattern")
      pattern = "" ∨
        ∃ found, ops.search pattern (if value.isNull then "" else textOf ops.shown value) =
          some found ∧ (found = false → message.asStr.isSome)
    | _ => True

/-- A schema can be checked on a value. -/
def SchemaSound (value : Value) (spec : List (String × Value)) (path : String) : Prop :=
  ∃ errors, ops.validateValue value spec path = .ok errors

variable (state : SchemaState) (step : FieldSpec)

/-- The choice of a step can be resolved. -/
def PrepareSound (value : Value) : Prop :=
  step.fieldType = .choice → step.choices ≠ [] → ChoiceSound ops step.choices value

/-- A prepared value can be validated: each check that is reached can be done. -/
structure ValidSound (value : Value) : Prop where
  field : ¬(step.required ∧ (value.isNull ∨ value.asStr = some "")) → step.fieldType = .confirm →
    ops.canHash value = true
  rules : builtinFieldValidation ops step value = .ok () →
    ∀ rule ∈ step.validation, RuleSound ops rule value
  stepSchema : builtinFieldValidation ops step value = .ok () →
    validateRules ops step.validation value = .ok () →
      ∀ definition, (step.schema <|>
        (state.scopeSchemas.find? fun e => e.1 = step.slug).map Prod.snd) = some definition →
          SchemaSound ops value definition step.slug
  flowSchema : builtinFieldValidation ops step value = .ok () →
    validateRules ops step.validation value = .ok () →
      validateStepSchema ops state step value = .ok () →
        ∀ spec, (state.schema.bind fun definition =>
          valueOf? step.slug (rootProperties definition)) = some spec →
            ∃ entries, spec = .dict entries ∧ SchemaSound ops value entries step.slug

/-- An input of a step can be prepared and validated. -/
structure InputSound (value : Value) : Prop where
  prepare : PrepareSound ops step value
  valid : ∀ v, prepareStepInput ops state step value = .ok v → ValidSound ops state step v

/-- An input for a field can be prepared and validated: the field is valid as a step, and what it is
prepared to can be prepared once more. -/
structure FieldSound (field : FieldSpec) (value : Value) : Prop where
  step : field.slug ≠ "" ∧ (field.fieldType = .choice → field.choices ≠ [])
  prepare : PrepareSound ops field (normalizeOptionalField ops field value)
  valid : ∀ v, prepareStepInput ops state field (normalizeOptionalField ops field value) = .ok v →
    InputSound ops state field v

end Sound

section Checks

variable {ops : ValidationOps} {state : SchemaState} {step : FieldSpec} {value : Value}

/-- A text is resolved to a choice unless it is misread. -/
theorem unraised_resolveChoice_str_iff {choices : List String} (hchoices : choices ≠ [])
    (s : String) : Unraised (resolveChoice ops (.str s) choices) ↔
      (ops.text.strip s ≠ "" → ops.text.strip s ∉ choices →
        resolveLowered ops.text (ops.text.lower (ops.text.strip s))
          (choices.map fun choice => (choice, choice)) = none →
            ops.misread (ops.text.strip s) = false) := by
  obtain ⟨first, rest, rfl⟩ := List.exists_cons_of_ne_nil hchoices
  simp only [resolveChoice]
  split
  · next hblank => exact ⟨fun _ h => absurd hblank h, fun _ => unraised_ok _⟩
  · next hblank =>
    split
    · next hmem => exact ⟨fun _ _ h => absurd hmem h, fun _ => unraised_ok _⟩
    · next hmem =>
      split
      · next hlowered =>
        refine ⟨fun _ _ _ h => ?_, fun _ => unraised_ok _⟩
        rw [hlowered] at h
        cases h
      · next hlowered =>
        split
        · next hmisread =>
          refine ⟨fun h => absurd h (not_unraised_raised _), fun h => ?_⟩
          rw [h hblank hmem hlowered] at hmisread
          cases hmisread
        · next hmisread =>
          exact ⟨fun _ _ _ _ => Bool.not_eq_true _ ▸ hmisread, fun _ => unraised_ok _⟩

/-- A choice is resolved unless a text is misread. -/
theorem unraised_resolveChoice_iff {choices : List String} :
    Unraised (resolveChoice ops value choices) ↔ (choices ≠ [] → ChoiceSound ops choices value) := by
  cases choices with
  | nil => exact ⟨fun _ h => absurd rfl h, fun _ => unraised_ok none⟩
  | cons first rest =>
    have hne : first :: rest ≠ [] := List.cons_ne_nil _ _
    cases value with
    | str s =>
      rw [unraised_resolveChoice_str_iff hne]
      constructor
      · rintro h - t ht
        exact Value.str.inj ht ▸ h
      · exact fun h => h hne s rfl
    | _ => exact ⟨fun _ _ s hs => (by cases hs), fun _ => unraised_ok _⟩

/-- An input is prepared unless a choice is misread. -/
theorem unraised_prepareStepInput_iff :
    Unraised (prepareStepInput ops state step value) ↔ PrepareSound ops step value := by
  unfold prepareStepInput PrepareSound
  split
  · next hchoice =>
    rw [unraised_bind_iff, unraised_resolveChoice_iff]
    constructor
    · exact fun h _ hne => h.1 hne
    · intro h
      refine ⟨h hchoice.1, fun choice _ => ?_⟩
      cases choice with
      | none => exact unraised_rejected _
      | some choice => exact unraised_ok _
  · next hchoice =>
    exact ⟨fun _ htype hne => absurd ⟨htype, hne⟩ hchoice, fun _ => unraised_ok _⟩

/-- The check by the type of a field raises only if a list or a dictionary is to be a confirmation. -/
theorem unraised_builtinFieldValidation_iff :
    Unraised (builtinFieldValidation ops step value) ↔
      (¬(step.required ∧ (value.isNull ∨ value.asStr = some "")) → step.fieldType = .confirm →
        ops.canHash value = true) := by
  have hconfirmation : Unraised (isConfirmation ops value) ↔ ops.canHash value = true := by
    cases value with
    | list items => exact ⟨fun h => absurd h (not_unraised_raised _), fun h => by cases h⟩
    | dict entries => exact ⟨fun h => absurd h (not_unraised_raised _), fun h => by cases h⟩
    | other n =>
      simp only [isConfirmation, Operators.canHash]
      cases ops.isHashable n with
      | true => exact ⟨fun _ => rfl, fun _ => unraised_ok _⟩
      | false => exact ⟨fun h => absurd h (not_unraised_raised _), fun h => by cases h⟩
    | _ => exact ⟨fun _ => rfl, fun _ => unraised_ok _⟩
  unfold builtinFieldValidation
  by_cases hmissing : step.required = true ∧ (value.isNull = true ∨ value.asStr = some "")
  · simp only [if_pos hmissing]
    exact ⟨fun _ h => absurd hmissing h, fun _ => unraised_rejected _⟩
  · rw [forall_prop_of_true hmissing]
    simp only [if_neg hmissing]
    cases step.fieldType with
    | text => exact ⟨fun _ h => (by cases h), fun _ => unraised_ok _⟩
    | choice =>
      refine ⟨fun _ h => (by cases h), fun _ => ?_⟩
      simp only
      split
      · exact unraised_ok _
      · exact unraised_rejected _
    | confirm =>
      rw [forall_prop_of_true rfl, ← hconfirmation]
      simp only
      rw [unraised_bind_iff]
      refine ⟨And.left, fun h => ⟨h, fun confirms _ => ?_⟩⟩
      cases confirms with
      | true => exact unraised_ok _
      | false => exact unraised_rejected _

/-- What is rejected can be shown, or the rejection raises. -/
theorem unraised_resultFromErrors_iff {errors : List StepError} :
    Unraised (resultFromErrors errors) ↔ errors.all StepError.canBeShown = true := by
  unfold resultFromErrors
  split
  · next hempty =>
    rw [List.isEmpty_iff.mp hempty]
    exact ⟨fun _ => rfl, fun _ => unraised_ok ()⟩
  · split
    · next hshown => exact ⟨fun _ => hshown, fun _ => unraised_rejected errors⟩
    · next hshown =>
      exact ⟨fun h => absurd h (not_unraised_raised _), fun h => absurd h hshown⟩

/-- What `int` makes of a value is a number, or it raises. -/
theorem intOfValue_eq (ops : ValidationOps) (value : Value) :
    (∃ n, intOfValue ops value = .ok n) ∨ intOfValue ops value = .error (.raised .notANumber) := by
  cases value with
  | int n => exact .inl ⟨n, rfl⟩
  | bool b => exact .inl ⟨b.toInt, rfl⟩
  | str s =>
    simp only [intOfValue]
    cases ops.intOf s with
    | some n => exact .inl ⟨n, rfl⟩
    | none => exact .inr rfl
  | other k =>
    simp only [intOfValue]
    cases ops.truncated k with
    | some n => exact .inl ⟨n, rfl⟩
    | none => exact .inr rfl
  | _ => exact .inr rfl

/-- The check of a length is done once its bound is a number. -/
theorem lengthRule_iff {bound : Value} {check : ℤ → List StepError}
    (hshown : ∀ n, (check n).all StepError.canBeShown = true) :
    (∃ errors, (intOfValue ops bound >>= fun n => pure (check n)) = .ok errors ∧
      errors.all StepError.canBeShown = true) ↔ NumberSound ops bound := by
  constructor
  · rintro ⟨errors, h, -⟩
    obtain ⟨n, hn, -⟩ := except_bind_eq_ok_iff.mp h
    exact ⟨n, hn⟩
  · rintro ⟨n, hn⟩
    exact ⟨check n, except_bind_eq_ok_iff.mpr ⟨n, hn, rfl⟩, hshown n⟩

/-- A rule finds something wrong that can be shown, or nothing, exactly if it can be checked. -/
theorem runRule_iff_ruleSound {rule : StepValidationRule} :
    (∃ errors, runRule ops rule value = .ok errors ∧ errors.all StepError.canBeShown = true) ↔
      RuleSound ops rule value := by
  obtain ⟨name, params⟩ := rule
  unfold runRule RuleSound
  simp only
  cases ops.custom name with
  | some validator =>
    simp only
    cases validator value with
    | none =>
      constructor
      · rintro ⟨errors, h, -⟩
        cases h
      · exact fun h => absurd rfl h
    | some message =>
      refine ⟨fun _ => Option.some_ne_none message, fun _ => ⟨_, rfl, ?_⟩⟩
      cases message.filter (· ≠ "") <;> rfl
  | none =>
    simp only
    split
    · refine lengthRule_iff fun n => ?_
      split <;> rfl
    · refine lengthRule_iff fun n => ?_
      split <;> rfl
    · split
      · next hpattern => exact ⟨fun _ => .inl hpattern, fun _ => ⟨[], rfl, rfl⟩⟩
      · next hpattern =>
        rw [or_iff_right hpattern]
        split
        · next hsearch => simp [hsearch]
        · next hsearch => simp [hsearch]
        · next hsearch => simp [hsearch, StepError.canBeShown]
    · refine ⟨fun _ => trivial, fun _ => ⟨_, rfl, ?_⟩⟩
      split <;> rfl
    · next hmin hmax hregex hempty =>
      refine ⟨fun _ => ?_, fun _ => ⟨_, rfl, rfl⟩⟩
      split
      · exact absurd rfl hmin
      · exact absurd rfl hmax
      · exact absurd rfl hregex
      · trivial

/-- A rule that is not checked raises: it does not reject. -/
theorem runRule_eq_error {rule : StepValidationRule} {refusal : Refusal}
    (h : runRule ops rule value = .error refusal) : ∃ fault, refusal = .raised fault := by
  have hbound {bound : Value} {check : ℤ → List StepError}
      (h : (intOfValue ops bound >>= fun n => pure (check n)) = .error refusal) :
      ∃ fault, refusal = .raised fault := by
    rcases except_bind_eq_error_iff.mp h with hraise | ⟨n, -, hpure⟩
    · rcases intOfValue_eq ops bound with ⟨n, hn⟩ | hfault
      · rw [hn] at hraise
        cases hraise
      · rw [hfault] at hraise
        cases hraise
        exact ⟨_, rfl⟩
    · cases hpure
  unfold runRule at h
  simp only at h
  split at h
  · split at h <;> cases h
    exact ⟨_, rfl⟩
  · split at h
    · exact hbound h
    · exact hbound h
    · split at h
      · cases h
      · split at h <;> cases h
        exact ⟨_, rfl⟩
    · cases h
    · cases h

/-- The rules raise nothing exactly if each of them can be checked. -/
theorem unraised_validateRules_iff {rules : List StepValidationRule} :
    Unraised (validateRules ops rules value) ↔ ∀ rule ∈ rules, RuleSound ops rule value := by
  have hall := except_mapM_flatten_all_iff (f := fun rule => runRule ops rule value)
    (p := StepError.canBeShown) (l := rules)
  simp only [runRule_iff_ruleSound] at hall
  rw [← hall, validateRules, unraised_bind_iff]
  constructor
  · rintro ⟨hrules, hresult⟩
    cases hm : rules.mapM fun rule => runRule ops rule value with
    | ok r => exact ⟨r, rfl, unraised_resultFromErrors_iff.mp (hresult r hm)⟩
    | error refusal =>
      obtain ⟨rule, -, hrule⟩ := exists_of_except_mapM_eq_error hm
      obtain ⟨fault, rfl⟩ := runRule_eq_error hrule
      exact absurd hm (hrules fault)
  · rintro ⟨r, hr, hshown⟩
    refine ⟨hr ▸ unraised_ok r, fun r' hr' => ?_⟩
    obtain rfl := Except.ok.inj (hr.symm.trans hr')
    exact unraised_resultFromErrors_iff.mpr hshown

/-- The check by a schema raises nothing exactly if the schema can be checked. -/
theorem unraised_schemaResult_iff {checked : Except SchemaFault (List SchemaError)} :
    Unraised (schemaResult checked) ↔ ∃ errors, checked = .ok errors := by
  cases checked with
  | ok errors =>
    refine ⟨fun _ => ⟨errors, rfl⟩, fun _ => unraised_resultFromErrors_iff.mpr ?_⟩
    rw [List.all_map]
    exact List.all_eq_true.mpr fun _ _ => rfl
  | error fault => exact ⟨fun h => absurd h (not_unraised_raised _), fun ⟨_, h⟩ => (by cases h)⟩

/-- The check by the schema of a step raises nothing exactly if this schema can be checked. -/
theorem unraised_validateStepSchema_iff :
    Unraised (validateStepSchema ops state step value) ↔
      ∀ definition, (step.schema <|>
        (state.scopeSchemas.find? fun e => e.1 = step.slug).map Prod.snd) = some definition →
          SchemaSound ops value definition step.slug := by
  unfold validateStepSchema
  split
  · next definition hdefinition =>
    rw [unraised_schemaResult_iff, hdefinition]
    exact ⟨fun h d hd => Option.some.inj hd ▸ h, fun h => h definition rfl⟩
  · next hnone =>
    rw [hnone]
    exact ⟨fun _ d hd => (by cases hd), fun _ => unraised_ok ()⟩

/-- The check by the schema of the flow raises nothing exactly if what it says of the key is a
document that can be checked. -/
theorem unraised_validateStepStateSchema_iff {slug : String} :
    Unraised (validateStepStateSchema ops state slug value) ↔
      ∀ spec, (state.schema.bind fun definition =>
        valueOf? slug (rootProperties definition)) = some spec →
          ∃ entries, spec = .dict entries ∧ SchemaSound ops value entries slug := by
  have hfirst {checked : Except SchemaFault (List SchemaError)} :
      (∃ errors, checked.map (·.take 1) = .ok errors) ↔ ∃ errors, checked = .ok errors := by
    cases checked with
    | ok errors => exact ⟨fun _ => ⟨errors, rfl⟩, fun _ => ⟨_, rfl⟩⟩
    | error fault => exact ⟨fun ⟨_, h⟩ => (by cases h), fun ⟨_, h⟩ => (by cases h)⟩
  unfold validateStepStateSchema
  split
  · next hnone =>
    rw [hnone]
    exact ⟨fun _ spec h => (by cases h), fun _ => unraised_ok ()⟩
  · next entries hentries =>
    rw [unraised_schemaResult_iff, hfirst, hentries]
    constructor
    · intro h spec hspec
      exact ⟨entries, (Option.some.inj hspec).symm, h⟩
    · intro h
      obtain ⟨entries', hdict, hsound⟩ := h _ rfl
      exact Value.dict.inj hdict ▸ hsound
  · next spec hno hspec =>
    rw [hspec]
    refine ⟨fun h => absurd h (not_unraised_raised _), fun h => ?_⟩
    obtain ⟨entries, hdict, -⟩ := h spec rfl
    exact absurd hdict (hno entries)

/-- A prepared value is validated without raising exactly if each check that is reached can be done. -/
theorem unraised_validatePreparedStepInput_iff :
    Unraised (validatePreparedStepInput ops state step value) ↔
      ValidSound ops state step value := by
  rw [validatePreparedStepInput, unraised_bind_iff, unraised_builtinFieldValidation_iff]
  simp only [unraised_bind_iff, unraised_validateRules_iff, unraised_validateStepSchema_iff,
    unraised_validateStepStateSchema_iff]
  constructor
  · rintro ⟨hfield, hrest⟩
    exact ⟨hfield, fun hb => (hrest () hb).1, fun hb hr => ((hrest () hb).2 () hr).1,
      fun hb hr hs => ((hrest () hb).2 () hr).2 () hs⟩
  · intro h
    exact ⟨h.field, fun _ hb => ⟨h.rules hb, fun _ hr => ⟨h.stepSchema hb hr,
      fun _ hs => h.flowSchema hb hr hs⟩⟩⟩

/-- The input of a step is completed without raising exactly if it can be prepared and validated. -/
theorem unraised_completeStepInput_iff :
    Unraised (completeStepInput ops state step value) ↔ InputSound ops state step value := by
  simp only [completeStepInput, unraised_bind_iff, unraised_prepareStepInput_iff,
    unraised_validatePreparedStepInput_iff]
  constructor
  · rintro ⟨hprepare, hrest⟩
    exact ⟨hprepare, fun v hv => (hrest v hv).1⟩
  · intro h
    exact ⟨h.prepare, fun v hv => ⟨h.valid v hv, fun _ _ => unraised_ok v⟩⟩

/-- An input is prepared and then validated without raising exactly if it can be. -/
theorem unraised_validateStepInput_iff :
    Unraised (validateStepInput ops state step value) ↔ InputSound ops state step value := by
  rw [validateStepInput, unraised_bind_iff, unraised_prepareStepInput_iff]
  simp only [unraised_validatePreparedStepInput_iff]
  exact ⟨fun h => ⟨h.1, h.2⟩, fun h => ⟨h.prepare, h.valid⟩⟩

/-- The input of a field is applied without raising exactly if the field is valid as a step, and the
input can be prepared and validated. -/
theorem unraised_applyInput_iff {field : FieldSpec} :
    Unraised (applyInput ops state field value) ↔ FieldSound ops state field value := by
  unfold applyInput fieldAsStep
  simp only
  by_cases hnamed : field.slug = ""
  · rw [dif_pos hnamed]
    exact ⟨fun h => absurd h (not_unraised_raised .badStep), fun h => absurd hnamed h.step.1⟩
  · rw [dif_neg hnamed]
    by_cases hchoices : field.fieldType = .choice ∧ field.choices = []
    · rw [dif_pos hchoices]
      exact ⟨fun h => absurd h (not_unraised_raised .badStep),
        fun h => absurd hchoices.2 (h.step.2 hchoices.1)⟩
    · rw [dif_neg hchoices]
      simp only [unraised_bind_iff, unraised_prepareStepInput_iff, unraised_validateStepInput_iff]
      constructor
      · rintro ⟨-, hrest⟩
        obtain ⟨hprepare, hvalid⟩ := hrest _ rfl
        exact ⟨⟨hnamed, fun htype hnone => hchoices ⟨htype, hnone⟩⟩, hprepare,
          fun v hv => (hvalid v hv).1⟩
      · intro h
        refine ⟨unraised_ok _, fun step hstep => ?_⟩
        obtain rfl := Except.ok.inj hstep
        exact ⟨h.prepare, fun v hv => ⟨h.valid v hv, fun _ _ => unraised_ok v⟩⟩

end Checks

end PalmEngine.Wizard
