import PalmEngine.Wizard.PreparedInput

/-!
# Fields that may be left empty

An input that leaves an optional field empty is made the missing value before anything else looks at
it. The missing value is then prepared and validated like any other, so it has to be accepted by the
type of the field, by its rules and by the schemas. A choice whose own text leaves the field empty
never reaches the draft.
-/

namespace PalmEngine.Wizard

open PalmEngine.Lib PalmEngine.Context

/-- The missing value is under no key. -/
theorem valueOf?_draftWith_null (slug : String) (draft : Item) :
    valueOf? slug (draftWith slug .null draft) = none := by
  have hnone : ((draft.filter (·.1 ≠ slug)).find? fun e => e.1 = slug) = none := by
    rw [List.find?_eq_none]
    intro e he hslug
    exact absurd (of_decide_eq_true hslug) (of_decide_eq_true (List.mem_filter.mp he).2)
  exact congrArg (Option.map Prod.snd) hnone

section Optional

variable (ops : ValidationOps) (state : SchemaState) (field : FieldSpec)

/-- The draft after an input for a field. -/
def enterField (raw : Value) (draft : Item) : Except Refusal Item := do
  return draftWith field.slug (← applyInput ops state field raw) draft

/-- An input that leaves an optional field empty. -/
inductive LeavesEmpty : Value → Prop
  | missing : LeavesEmpty .null
  | token (s : String) (h : ops.text.lower (ops.text.strip s) ∈ optionalSkipTokens) :
      LeavesEmpty (.str s)

/-- Every input that leaves the field empty is accepted, and the field is absent from the draft. -/
def CanBeSkipped : Prop :=
  ∀ raw draft, LeavesEmpty ops raw → ∃ draft', enterField ops state field raw draft = .ok draft' ∧
    valueOf? field.slug draft' = none

/-- Every choice of the field that is typed exactly is stored. -/
def TakesChoices : Prop :=
  ∀ c ∈ field.choices, ∀ draft, ∃ draft', enterField ops state field (.str c) draft = .ok draft' ∧
    valueOf? field.slug draft' = some (.str c)

/-- The missing value is valid: the field is one of texts, and its rules and the schemas let the
missing value pass. -/
structure AcceptsMissing : Prop where
  named : field.slug ≠ ""
  isText : field.fieldType = .text
  rules : validateRules ops field.validation .null = .ok ()
  stepSchema : validateStepSchema ops state field .null = .ok ()
  flowSchema : validateStepStateSchema ops state field.slug .null = .ok ()

/-- A choice is kept: it is not taken for an empty field, it stands for itself, it is not read as a
value of another type, and it is valid. -/
structure KeepsChoice (c : String) : Prop where
  named : field.slug ≠ ""
  notEmpty : ops.text.lower (ops.text.strip c) ∉ optionalSkipTokens
  itself : field.fieldType = .choice → resolveChoice ops (.str c) field.choices = .ok (some c)
  passes : Passes ops state field c

variable {ops state field}

/-- A field that is a step is this step. -/
theorem toFieldSpec_of_fieldAsStep {step : WizardStepConfig} (h : fieldAsStep field = .ok step) :
    step.toFieldSpec = field := by
  unfold fieldAsStep at h
  split at h
  · cases h
  · split at h
    · cases h
    · rw [← Except.ok.inj h]

/-- A field that takes an input is a step. -/
theorem exists_step {raw v : Value} (h : applyInput ops state field raw = .ok v) :
    ∃ step : WizardStepConfig, step.toFieldSpec = field := by
  obtain ⟨step, hstep, -⟩ := except_bind_eq_ok_iff.mp h
  exact ⟨step, toFieldSpec_of_fieldAsStep hstep⟩

/-- When the draft comes out of an input. -/
theorem enterField_iff (raw : Value) (draft draft' : Item) :
    enterField ops state field raw draft = .ok draft' ↔
      ∃ v, applyInput ops state field raw = .ok v ∧ draftWith field.slug v draft = draft' := by
  rw [enterField, except_bind_eq_ok_iff]
  simp only [except_pure_eq_ok_iff]

/-- An input that leaves an optional field empty is the missing value. -/
theorem normalizeOptionalField_of_leavesEmpty (hoptional : field.required = false) {raw : Value}
    (h : LeavesEmpty ops raw) : normalizeOptionalField ops field raw = .null := by
  have hrequired : ¬field.required = true := by rw [hoptional]; exact Bool.false_ne_true
  cases h with
  | missing => exact if_neg hrequired
  | token s htoken => exact (if_neg hrequired).trans (if_pos htoken)

/-- When the missing value of an optional field is valid. -/
theorem validatePrepared_null_iff {step : WizardStepConfig} (hoptional : step.required = false) :
    validatePreparedStepInput ops state step.toFieldSpec .null = .ok () ∧ step.fieldType ≠ .choice ↔
      AcceptsMissing ops state step.toFieldSpec := by
  constructor
  · rintro ⟨h, htype⟩
    obtain ⟨_, hbuiltin, h⟩ := except_bind_eq_ok_iff.mp h
    obtain ⟨_, hrules, h⟩ := except_bind_eq_ok_iff.mp h
    obtain ⟨_, hstep, hflow⟩ := except_bind_eq_ok_iff.mp h
    refine ⟨step.named, ?_, hrules, hstep, hflow⟩
    cases hfield : step.fieldType with
    | text => rfl
    | choice => exact absurd hfield htype
    | confirm =>
      simp only [builtinFieldValidation, hoptional, hfield] at hbuiltin
      cases hbuiltin
  · intro h
    have hbuiltin : builtinFieldValidation ops step.toFieldSpec .null = .ok () := by
      simp only [builtinFieldValidation, hoptional, h.isText]
      rfl
    refine ⟨?_, by rw [h.isText]; decide⟩
    exact except_bind_eq_ok_iff.mpr ⟨_, hbuiltin, except_bind_eq_ok_iff.mpr ⟨_, h.rules,
      except_bind_eq_ok_iff.mpr ⟨_, h.stepSchema, h.flowSchema⟩⟩⟩

/-- The missing value is prepared to itself, unless a choice is asked for. -/
theorem prepareStepInput_null_iff {step : WizardStepConfig} (v : Value) :
    prepareStepInput ops state step.toFieldSpec .null = .ok v ↔
      step.fieldType ≠ .choice ∧ v = .null := by
  by_cases htype : step.fieldType = .choice
  · refine iff_of_false (fun h => ?_) fun h => h.1 htype
    obtain ⟨c, hc, -⟩ := (prepareStepInput_choice_iff htype _ _).mp h
    cases (resolveChoice_none rfl (fun m hm => by cases hm)).symm.trans hc
  · rw [prepareStepInput_of_ne htype, coerceStepInput_of_asStr rfl, Except.ok.injEq, eq_comm]
    exact (and_iff_right htype).symm

/-- What an input that leaves an optional field empty is stored as. -/
theorem applyInput_leavesEmpty_iff {step : WizardStepConfig} (hoptional : step.required = false)
    {raw : Value} (hempty : LeavesEmpty ops raw) (v : Value) :
    applyInput ops state step.toFieldSpec raw = .ok v ↔
      v = .null ∧ AcceptsMissing ops state step.toFieldSpec := by
  rw [applyInput_iff, normalizeOptionalField_of_leavesEmpty hoptional hempty,
    prepareStepInput_null_iff, ← validatePrepared_null_iff hoptional]
  constructor
  · rintro ⟨⟨htype, rfl⟩, hvalid⟩
    obtain ⟨w, hw, hvalid⟩ := (validateStepInput_iff _).mp hvalid
    obtain ⟨-, rfl⟩ := (prepareStepInput_null_iff w).mp hw
    exact ⟨rfl, hvalid, htype⟩
  · rintro ⟨rfl, hvalid, htype⟩
    exact ⟨⟨htype, rfl⟩, (validateStepInput_iff _).mpr
      ⟨.null, (prepareStepInput_null_iff _).mpr ⟨htype, rfl⟩, hvalid⟩⟩

/-- An optional field can be skipped exactly if the missing value is valid. -/
theorem canBeSkipped_iff (hoptional : field.required = false) :
    CanBeSkipped ops state field ↔ AcceptsMissing ops state field := by
  constructor
  · intro h
    obtain ⟨draft, hdraft, -⟩ := h .null [] .missing
    obtain ⟨v, hv, -⟩ := (enterField_iff _ _ _).mp hdraft
    obtain ⟨step, rfl⟩ := exists_step hv
    exact ((applyInput_leavesEmpty_iff hoptional .missing v).mp hv).2
  · intro h raw draft hempty
    let step : WizardStepConfig :=
      { field with
        named := h.named
        hasChoices := fun htype => by rw [h.isText] at htype; cases htype }
    have hstored : applyInput ops state step.toFieldSpec raw = .ok .null :=
      (applyInput_leavesEmpty_iff hoptional hempty .null).mpr ⟨rfl, h⟩
    exact ⟨_, (enterField_iff _ _ _).mpr ⟨.null, hstored, rfl⟩, valueOf?_draftWith_null _ _⟩

/-- A choice that is typed exactly is stored exactly if it is kept. -/
theorem applyInput_self_iff {step : WizardStepConfig} (hoptional : step.required = false)
    (c : String) : applyInput ops state step.toFieldSpec (.str c) = .ok (.str c) ↔
      KeepsChoice ops state step.toFieldSpec c := by
  by_cases htoken : ops.text.lower (ops.text.strip c) ∈ optionalSkipTokens
  · rw [applyInput_leavesEmpty_iff hoptional (.token c htoken)]
    exact iff_of_false (fun h => by cases h.1) fun h => h.notEmpty htoken
  · have hnormal : normalizeOptionalField ops step.toFieldSpec (.str c) = .str c := by
      rw [normalizeOptionalField]
      simp only [if_neg htoken, ite_self]
    have hprepare : prepareStepInput ops state step.toFieldSpec (.str c) = .ok (.str c) ↔
        (step.fieldType = .choice → resolveChoice ops (.str c) step.choices = .ok (some c)) ∧
          StaysText ops state step.toFieldSpec c := by
      by_cases htype : step.fieldType = .choice
      · rw [prepareStepInput_choice_iff htype]
        constructor
        · rintro ⟨c', hc', hcoerce⟩
          obtain ⟨hstays, rfl⟩ := eq_of_coerce_eq_str hcoerce
          exact ⟨fun _ => hc', hstays⟩
        · rintro ⟨hself, hstays⟩
          exact ⟨c, hself htype, hstays.coerce⟩
      · rw [prepareStepInput_of_ne htype, Except.ok.injEq]
        exact ⟨fun h => ⟨fun h' => absurd h' htype, (eq_of_coerce_eq_str h).1⟩, fun h => h.2.coerce⟩
    rw [applyInput_iff, hnormal, validateStepInput_iff]
    constructor
    · rintro ⟨hprepared, w, hw, hvalid⟩
      obtain rfl := Except.ok.inj (hw.symm.trans hprepared)
      obtain ⟨hself, hstays⟩ := hprepare.mp hprepared
      exact ⟨step.named, htoken, hself, hstays, hvalid⟩
    · intro h
      have hprepared := hprepare.mpr ⟨h.itself, h.passes.1⟩
      exact ⟨hprepared, _, hprepared, h.passes.2⟩

/-- The choices of an optional field are stored exactly if each is kept. -/
theorem takesChoices_iff (hoptional : field.required = false) :
    TakesChoices ops state field ↔ ∀ c ∈ field.choices, KeepsChoice ops state field c := by
  refine forall₂_congr fun c hc => ?_
  constructor
  · intro h
    obtain ⟨draft, hdraft, hc⟩ := h []
    obtain ⟨v, hv, rfl⟩ := (enterField_iff _ _ _).mp hdraft
    obtain ⟨step, rfl⟩ := exists_step hv
    rw [draftWith] at hc
    split at hc
    · cases hc
    · rw [valueOf?_setEntry_self, Option.some.injEq] at hc
      exact (applyInput_self_iff hoptional c).mp (hc ▸ hv)
  · intro h draft
    let step : WizardStepConfig :=
      { field with
        named := h.named
        hasChoices := fun _ hnone => by rw [hnone] at hc; cases hc }
    have hstored : applyInput ops state step.toFieldSpec (.str c) = .ok (.str c) :=
      (applyInput_self_iff hoptional c).mpr h
    exact ⟨_, (enterField_iff _ _ _).mpr ⟨.str c, hstored, rfl⟩, valueOf?_setEntry_self _ _ _⟩

/-- When an optional field can be skipped, and when its own choices are stored. -/
theorem optionalField_iff (ops : ValidationOps) (state : SchemaState) (field : FieldSpec)
    (hoptional : field.required = false) :
    (CanBeSkipped ops state field ↔ AcceptsMissing ops state field) ∧
      (TakesChoices ops state field ↔ ∀ c ∈ field.choices, KeepsChoice ops state field c) :=
  ⟨canBeSkipped_iff hoptional, takesChoices_iff hoptional⟩

end Optional

section Fixed

/-- A text that may be left empty. -/
def optionalNote : FieldSpec where
  slug := "note"
  required := false

/-- A choice that may be left empty and has the text of an empty field as one of the choices. -/
def optionalLabel : FieldSpec where
  slug := "label"
  fieldType := .choice
  choices := ["none", "urgent"]
  required := false

/-- A text without rules and schemas can be skipped. -/
theorem optionalField_iff_note : optionalNote.required = false ∧
    CanBeSkipped digitOps {} optionalNote :=
  ⟨rfl, (optionalField_iff digitOps {} optionalNote rfl).1.mpr ⟨by decide, rfl, rfl, rfl, rfl⟩⟩

/-- A choice can not be skipped, and its choice with the text of an empty field is not stored. -/
theorem optionalField_fails : ¬∀ field : FieldSpec, field.required = false →
    CanBeSkipped digitOps {} field ∧ TakesChoices digitOps {} field := by
  intro h
  have hskipped := (h optionalLabel rfl).1
  cases ((canBeSkipped_iff rfl).mp hskipped).isText

end Fixed

end PalmEngine.Wizard
