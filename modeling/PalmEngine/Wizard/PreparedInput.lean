import PalmEngine.Lib.Fallible
import PalmEngine.Wizard.Validation

/-!
# What is validated is what is stored

An input that has been prepared stays as it is when it is prepared again exactly if each choice,
once it is read by the schema, still stands for itself. A choice that is read as a number stands for
the choice of that number from then on.
-/

namespace PalmEngine.Wizard

open PalmEngine.Lib PalmEngine.Context

section Reads

variable (ops : ValidationOps) (state : SchemaState) (step : FieldSpec)

/-- The type that the document for the value of a step asks for. -/
def expects : Option String := (stepValueSchemaSpec state step).bind expectedName

/-- A text is read as a value of another type. -/
inductive Reads (c : String) : Value → Prop
  | integer (m : ℤ) (htype : expects state step = some "integer") (hblank : ops.text.strip c ≠ "")
      (hread : coerceStringToInteger ops (ops.text.strip c) = some m) : Reads c (.int m)
  | number (n : ℕ) (htype : expects state step = some "number") (hblank : ops.text.strip c ≠ "")
      (hread : ops.floatOf (ops.text.strip c) = some n) : Reads c (.other n)
  | yes (htype : expects state step = some "boolean") (hblank : ops.text.strip c ≠ "")
      (hread : ops.text.lower (ops.text.strip c) ∈ ["true", "yes", "1"]) : Reads c (.bool true)
  | no (htype : expects state step = some "boolean") (hblank : ops.text.strip c ≠ "")
      (hread : ops.text.lower (ops.text.strip c) ∈ ["false", "no", "0"]) : Reads c (.bool false)

/-- A text is not read as a value of another type. -/
def StaysText (c : String) : Prop := ∀ v, ¬Reads ops state step c v

/-- The choice of a number. -/
def choiceAt (choices : List String) (m : ℤ) : Option String :=
  if 1 ≤ m then choices[m.toNat - 1]? else none

/-- Choices as they should be: distinct, without blanks at the ends, and not blank. -/
structure ProperChoices (text : TextOps) (choices : List String) : Prop where
  distinct : choices.Nodup
  trimmed : ∀ c ∈ choices, text.strip c = c
  nonblank : ∀ c ∈ choices, c ≠ ""

/-- A text that is accepted as it is: it is not read as a value of another type, and the validators
accept it. -/
def Passes (c : String) : Prop :=
  StaysText ops state step c ∧ validatePreparedStepInput ops state step (.str c) = .ok ()

/-- A choice still stands for itself once it is read: as a text it does, and as a number it is read
like the choice of this number. -/
def StandsForItself (c : String) : Prop :=
  (StaysText ops state step c ∧ resolveChoice ops (.str c) step.choices = .ok (some c)) ∨
    ∃ m c', Reads ops state step c (.int m) ∧ choiceAt step.choices m = some c' ∧
      Reads ops state step c' (.int m)

/-- A choice, once it is read, stands for another choice. -/
def StandsFor (c c' : String) : Prop :=
  (StaysText ops state step c ∧ resolveChoice ops (.str c) step.choices = .ok (some c')) ∨
    ∃ m, Reads ops state step c (.int m) ∧ choiceAt step.choices m = some c'

end Reads

section Prepared

variable {ops : ValidationOps} {state : SchemaState} {step : FieldSpec}

/-- What a text is read as, if anything. -/
theorem coerceStepInput_str (ops : ValidationOps) (state : SchemaState) (step : FieldSpec)
    (c : String) :
    (∃ v, Reads ops state step c v ∧ coerceStepInput ops state step (.str c) = v) ∨
      (StaysText ops state step c ∧ coerceStepInput ops state step (.str c) = .str c) := by
  rw [coerceStepInput]
  cases hspec : stepValueSchemaSpec state step with
  | none =>
    have hexpects : expects state step = none := by rw [expects, hspec, Option.bind_none]
    refine Or.inr ⟨fun v hv => ?_, rfl⟩
    cases hv <;> simp_all
  | some spec =>
    have hexpects : expects state step = expectedName spec := by rw [expects, hspec, Option.bind_some]
    simp only [Option.elim_some, coerceValueForSchema]
    by_cases hblank : ops.text.strip c = ""
    · rw [if_pos hblank]
      refine Or.inr ⟨fun v hv => ?_, rfl⟩
      cases hv <;> contradiction
    · rw [if_neg hblank]
      split
      · next htype =>
        rw [htype] at hexpects
        cases hread : coerceStringToInteger ops (ops.text.strip c) with
        | some m => exact Or.inl ⟨_, .integer m hexpects hblank hread, rfl⟩
        | none =>
          refine Or.inr ⟨fun v hv => ?_, rfl⟩
          cases hv <;> simp_all
      · next htype =>
        rw [htype] at hexpects
        cases hread : ops.floatOf (ops.text.strip c) with
        | some n => exact Or.inl ⟨_, .number n hexpects hblank hread, rfl⟩
        | none =>
          refine Or.inr ⟨fun v hv => ?_, rfl⟩
          cases hv <;> simp_all
      · next htype =>
        rw [htype] at hexpects
        split
        · next hyes => exact Or.inl ⟨_, .yes hexpects hblank hyes, rfl⟩
        · next hyes =>
          split
          · next hno => exact Or.inl ⟨_, .no hexpects hblank hno, rfl⟩
          · next hno =>
            refine Or.inr ⟨fun v hv => ?_, rfl⟩
            cases hv <;> simp_all
      · next hinteger hnumber hboolean =>
        refine Or.inr ⟨fun v hv => ?_, rfl⟩
        cases hv <;> simp_all

/-- No text says both yes and no. -/
theorem no_of_yes : ∀ w ∈ ["true", "yes", "1"], w ∉ ["false", "no", "0"] := by decide

/-- A text is read as one value only. -/
theorem Reads.unique {c : String} {v w : Value} (hv : Reads ops state step c v)
    (hw : Reads ops state step c w) : v = w := by
  cases hv with
  | yes htype hblank hyes =>
    cases hw with
    | yes => rfl
    | no htype hblank hno => exact absurd hno (no_of_yes _ hyes)
    | _ => simp_all
  | no htype hblank hno =>
    cases hw with
    | yes htype hblank hyes => exact absurd hno (no_of_yes _ hyes)
    | no => rfl
    | _ => simp_all
  | _ => cases hw <;> simp_all

/-- What a text that is read becomes. -/
theorem Reads.coerce {c : String} {v : Value} (hv : Reads ops state step c v) :
    coerceStepInput ops state step (.str c) = v := by
  rcases coerceStepInput_str ops state step c with
    ⟨w, hw, hcoerce⟩ | ⟨hstays, -⟩
  · rw [hcoerce, hv.unique hw]
  · exact absurd hv (hstays v)

/-- A text that is not read stays as it is. -/
theorem StaysText.coerce {c : String} (hstays : StaysText ops state step c) :
    coerceStepInput ops state step (.str c) = .str c := by
  rcases coerceStepInput_str ops state step c with
    ⟨w, hw, -⟩ | ⟨-, hcoerce⟩
  · exact absurd hw (hstays w)
  · exact hcoerce

/-- A text is never read as a text. -/
theorem Reads.asStr {c : String} {v : Value} (hv : Reads ops state step c v) : v.asStr = none := by
  cases hv <;> rfl

/-- What becomes a text was this text. -/
theorem eq_of_coerce_eq_str {c c' : String} (h : coerceStepInput ops state step (.str c) = .str c') :
    StaysText ops state step c ∧ c = c' := by
  rcases coerceStepInput_str ops state step c with
    ⟨w, hw, hcoerce⟩ | ⟨hstays, hcoerce⟩
  · rw [← hcoerce, h] at hw
    cases hw.asStr
  · rw [hcoerce] at h
    exact ⟨hstays, Value.str.inj h⟩

/-- What becomes a number is read as it. -/
theorem reads_of_coerce_eq_int {c : String} {m : ℤ}
    (h : coerceStepInput ops state step (.str c) = .int m) : Reads ops state step c (.int m) := by
  rcases coerceStepInput_str ops state step c with
    ⟨w, hw, hcoerce⟩ | ⟨-, hcoerce⟩
  · rwa [← h, hcoerce]
  · rw [hcoerce] at h
    cases h

/-- Only texts are read. -/
theorem coerceStepInput_of_asStr {v : Value} (h : v.asStr = none) :
    coerceStepInput ops state step v = v := by
  cases v with
  | str s => cases h
  | _ => unfold coerceStepInput; cases stepValueSchemaSpec state step <;> rfl

/-- What has been read is not read again. -/
theorem coerceStepInput_coerceStepInput (v : Value) :
    coerceStepInput ops state step (coerceStepInput ops state step v) =
      coerceStepInput ops state step v := by
  cases hv : v.asStr with
  | none => rw [coerceStepInput_of_asStr hv, coerceStepInput_of_asStr hv]
  | some s =>
    obtain rfl : v = .str s := by
      cases v with
      | str t => rw [Value.asStr, Option.some.injEq] at hv; rw [hv]
      | _ => cases hv
    rcases coerceStepInput_str ops state step s with
      ⟨w, hw, hcoerce⟩ | ⟨-, hcoerce⟩
    · rw [hcoerce, coerceStepInput_of_asStr hw.asStr]
    · rw [hcoerce, hcoerce]

end Prepared

section Choices

variable {ops : ValidationOps} {choices : List String}

/-- The element of a label is one of the elements. -/
theorem mem_of_only?_filter {p : String × String → Bool} {c : String}
    (h : (only? ((choices.map fun choice => (choice, choice)).filter p)).map Prod.snd = some c) :
    c ∈ choices := by
  obtain ⟨e, honly, rfl⟩ := Option.map_eq_some_iff.mp h
  have hmem := List.mem_of_mem_filter (mem_of_only? honly)
  obtain ⟨c, hc, rfl⟩ := List.mem_map.mp hmem
  exact hc

/-- The choice of a number is one of the choices. -/
theorem mem_of_choiceAt {m : ℤ} {c : String} (h : choiceAt choices m = some c) : c ∈ choices := by
  unfold choiceAt at h
  split at h
  · exact List.mem_of_getElem? h
  · cases h

/-- Every choice is the choice of a number. -/
theorem exists_choiceAt {c : String} (h : c ∈ choices) : ∃ m, choiceAt choices m = some c := by
  obtain ⟨i, hi⟩ := List.mem_iff_getElem?.mp h
  refine ⟨i + 1, ?_⟩
  have hindex : ((i : ℤ) + 1).toNat - 1 = i := by omega
  rw [choiceAt, if_pos (by omega), hindex, hi]

/-- A number stands for the choice of this number. -/
theorem resolveChoice_int (m : ℤ) : resolveChoice ops (.int m) choices = .ok (choiceAt choices m) := by
  cases choices with
  | nil => rw [resolveChoice, choiceAt, List.getElem?_nil, ite_self]
  | cons c rest => rfl

/-- A value that is neither a text nor a number stands for no choice. -/
theorem resolveChoice_none {v : Value} (hstr : v.asStr = none) (hint : ∀ m, v ≠ .int m) :
    resolveChoice ops v choices = .ok none := by
  cases choices with
  | nil => rfl
  | cons c rest =>
    cases v with
    | str s => cases hstr
    | int m => exact absurd rfl (hint m)
    | _ => rfl

/-- What a text stands for is one of the choices. -/
theorem mem_of_resolveChoice_str {s c : String}
    (h : resolveChoice ops (.str s) choices = .ok (some c)) : c ∈ choices := by
  have hpartial : ∀ {p : String × String → Bool} {e : String × String},
      only? ((choices.map fun choice => (choice, choice)).filter p) = some e → e.2 = c →
        c ∈ choices :=
    fun honly hc => mem_of_only?_filter (by rw [honly, Option.map_some, hc])
  unfold resolveChoice at h
  split at h
  · cases h
  · next hstr =>
    cases hstr
    simp only at h
    split at h
    · cases h
    · split at h
      · next hmem => exact Option.some.inj (Except.ok.inj h) ▸ hmem
      · split at h
        · next hlowered => exact Option.some.inj (Except.ok.inj h) ▸ mem_of_only?_filter hlowered
        · split at h
          · cases h
          · have hfound := Except.ok.inj h
            rw [Option.orElse_eq_orElse, Option.orElse_eq_or] at hfound
            rcases Option.or_eq_some_iff.mp hfound with hdigits | ⟨-, hrest⟩
            · obtain ⟨i, -, hi⟩ := Option.bind_eq_some_iff.mp hdigits
              split at hi
              · exact List.mem_of_getElem? hi
              · cases hi
            · obtain ⟨e, honly, hc⟩ := Option.map_eq_some_iff.mp hrest
              rw [Option.orElse_eq_orElse, Option.orElse_eq_or] at honly
              rcases Option.or_eq_some_iff.mp honly with honly | ⟨-, honly⟩
              · exact hpartial honly hc
              · exact hpartial honly hc
  · next hint => cases hint
  · next hstr hint => exact absurd rfl (hstr s)

/-- What an input stands for is one of the choices. -/
theorem mem_of_resolveChoice {v : Value} {c : String}
    (h : resolveChoice ops v choices = .ok (some c)) : c ∈ choices := by
  cases v with
  | int m => exact mem_of_choiceAt (Except.ok.inj ((resolveChoice_int m).symm.trans h))
  | str s => exact mem_of_resolveChoice_str h
  | _ => cases (resolveChoice_none rfl (fun m hm => by cases hm)).symm.trans h

/-- A choice without blanks at the ends stands for itself. -/
theorem resolveChoice_self (ops : ValidationOps) {c : String} (hc : c ∈ choices) (htrimmed : ops.text.strip c = c)
    (hblank : c ≠ "") : resolveChoice ops (.str c) choices = .ok (some c) := by
  cases hchoices : choices with
  | nil => rw [hchoices] at hc; cases hc
  | cons first rest =>
    simp only [resolveChoice, htrimmed, if_neg hblank]
    rw [← hchoices, if_pos hc]

end Choices

section Steps

variable {ops : ValidationOps} {state : SchemaState} {step : WizardStepConfig}

/-- A step as a field is this step. -/
theorem fieldAsStep_toFieldSpec (step : WizardStepConfig) : fieldAsStep step.toFieldSpec = .ok step := by
  unfold fieldAsStep
  rw [dif_neg step.named, dif_neg fun h => step.hasChoices h.1 h.2]

/-- The input of a choice is prepared if it stands for one of the choices. -/
theorem prepareStepInput_choice_iff (htype : step.fieldType = .choice) (raw v : Value) :
    prepareStepInput ops state step.toFieldSpec raw = .ok v ↔
      ∃ c, resolveChoice ops raw step.choices = .ok (some c) ∧
        coerceStepInput ops state step.toFieldSpec (.str c) = v := by
  rw [prepareStepInput, if_pos ⟨htype, step.hasChoices htype⟩]
  cases hresolve : resolveChoice ops raw step.choices with
  | error refusal =>
    refine iff_of_false (fun h => ?_) fun ⟨c, hc, _⟩ => ?_
    · cases h
    · cases hc
  | ok found =>
    cases found with
    | none =>
      refine iff_of_false (fun h => ?_) fun ⟨c, hc, _⟩ => ?_
      · cases h
      · cases hc
    | some c =>
      constructor
      · intro h
        exact ⟨c, rfl, Except.ok.inj h⟩
      · rintro ⟨c', hc', rfl⟩
        rw [Option.some.inj (Except.ok.inj hc')]
        rfl

/-- The input of another field is read. -/
theorem prepareStepInput_of_ne (htype : step.fieldType ≠ .choice) (raw : Value) :
    prepareStepInput ops state step.toFieldSpec raw =
      .ok (coerceStepInput ops state step.toFieldSpec raw) := by
  rw [prepareStepInput, if_neg fun h => htype h.1]
  rfl

/-- An input is valid if what it is prepared to is. -/
theorem validateStepInput_iff (v : Value) :
    validateStepInput ops state step.toFieldSpec v = .ok () ↔
      ∃ w, prepareStepInput ops state step.toFieldSpec v = .ok w ∧
        validatePreparedStepInput ops state step.toFieldSpec w = .ok () := by
  rw [validateStepInput, except_bind_eq_ok_iff]

/-- A value that is checked and returned is returned exactly if it passes the check. -/
theorem checked_eq_ok_iff {x : Except Refusal Value} {check : Value → Except Refusal Unit}
    {v : Value} : (do let w ← x; check w; return w) = .ok v ↔ x = .ok v ∧ check v = .ok () := by
  rw [except_bind_eq_ok_iff]
  constructor
  · rintro ⟨w, hw, h⟩
    obtain ⟨_, hcheck, hreturn⟩ := except_bind_eq_ok_iff.mp h
    obtain rfl := except_pure_eq_ok_iff.mp hreturn
    exact ⟨hw, hcheck⟩
  · rintro ⟨hv, hcheck⟩
    exact ⟨v, hv, except_bind_eq_ok_iff.mpr ⟨(), hcheck, rfl⟩⟩

/-- An answer is stored if its preparation is valid. -/
theorem completeStepInput_iff (raw v : Value) :
    completeStepInput ops state step.toFieldSpec raw = .ok v ↔
      prepareStepInput ops state step.toFieldSpec raw = .ok v ∧
        validatePreparedStepInput ops state step.toFieldSpec v = .ok () :=
  checked_eq_ok_iff

/-- A value of a field is stored if it is the preparation of the input and is valid. -/
theorem applyInput_iff (raw v : Value) :
    applyInput ops state step.toFieldSpec raw = .ok v ↔
      prepareStepInput ops state step.toFieldSpec
          (normalizeOptionalField ops step.toFieldSpec raw) = .ok v ∧
        validateStepInput ops state step.toFieldSpec v = .ok () := by
  rw [applyInput, fieldAsStep_toFieldSpec]
  exact checked_eq_ok_iff

end Steps

section Collections

variable {ops : ValidationOps} (spec : CollectionFieldConfig → WizardStepConfig)

/-- What is left open for a wizard, with fields that are prepared and validated as here. -/
def validatingEnv (ops : ValidationOps) (hasSchema : Bool) (label : CollectionStep → ℕ → Item → String)
    (spec : CollectionFieldConfig → WizardStepConfig) : WizardEnv SchemaState where
  hasSchema
  text := ops.text
  label
  prepareStepInput state field value :=
    (prepareStepInput ops state (spec field).toFieldSpec value).toOption
  validateStepInput state field value :=
    (validateStepInput ops state (spec field).toFieldSpec value).toOption.isSome

/-- A computation returns the value that is left when its errors are forgotten. -/
theorem toOption_eq_some_iff {x : Except Refusal Value} {v : Value} :
    x.toOption = some v ↔ x = .ok v := by
  cases x with
  | error refusal => exact ⟨fun h => (by cases h), fun h => (by cases h)⟩
  | ok w => exact ⟨fun h => congrArg _ (Option.some.inj h), fun h => congrArg _ (Except.ok.inj h)⟩

/-- The value that a collection stores for an input of a field is the one that is stored here. -/
theorem acceptedValue_eq_some_iff {hasSchema : Bool} {label : CollectionStep → ℕ → Item → String}
    (a : LeafAnswer SchemaState) (field : CollectionFieldConfig)
    (hrequired : (spec field).required = field.required) (raw v : Value) :
    acceptedValue (validatingEnv ops hasSchema label spec) a field raw = some v ↔
      applyInput ops a.seen (spec field).toFieldSpec raw = .ok v := by
  have hnormal : normalizeOptionalFieldValue (validatingEnv ops hasSchema label spec) field raw =
      normalizeOptionalField ops (spec field).toFieldSpec raw := by
    unfold normalizeOptionalFieldValue normalizeOptionalField
    rw [hrequired]
    rfl
  rw [acceptedValue, hnormal, Option.filter_eq_some_iff, applyInput_iff]
  refine and_congr toOption_eq_some_iff ?_
  simp only [validatingEnv]
  cases validateStepInput ops a.seen (spec field).toFieldSpec v with
  | error refusal => exact ⟨fun h => (by cases h), fun h => (by cases h)⟩
  | ok done => exact ⟨fun _ => rfl, fun _ => rfl⟩

end Collections

section Claims

variable (ops : ValidationOps) (state : SchemaState) (step : WizardStepConfig)

/-- A prepared input is left as it is when it is prepared again. -/
def PreparesOnce : Prop :=
  ∀ raw v, prepareStepInput ops state step.toFieldSpec raw = .ok v →
    prepareStepInput ops state step.toFieldSpec v = .ok v

/-- The value that is stored for a field is the one that its validation has validated, which is what
the value is prepared to. -/
def StoresValidated : Prop :=
  ∀ raw v, applyInput ops state step.toFieldSpec raw = .ok v →
    ∀ w, prepareStepInput ops state step.toFieldSpec v = .ok w → w = v

/-- An input is accepted by a step. -/
def StepAccepts (raw : Value) : Prop :=
  ∃ v, completeStepInput ops state step.toFieldSpec raw = .ok v

/-- An input is accepted by a field of a collection. -/
def FieldAccepts (raw : Value) : Prop := ∃ v, applyInput ops state step.toFieldSpec raw = .ok v

/-- A text is not taken for an empty field. -/
def NotSkipped (c : String) : Prop :=
  step.required ∨ ops.text.lower (ops.text.strip c) ∉ optionalSkipTokens

variable {ops state step}

/-- A valid value of a choice is one of the choices. -/
theorem mem_of_validatePrepared (htype : step.fieldType = .choice) {w : Value}
    (h : validatePreparedStepInput ops state step.toFieldSpec w = .ok ()) :
    ∃ c ∈ step.choices, w = .str c := by
  obtain ⟨_, hbuiltin, -⟩ := except_bind_eq_ok_iff.mp h
  simp only [builtinFieldValidation, htype] at hbuiltin
  split at hbuiltin
  · cases hbuiltin
  · split at hbuiltin
    · next hmem =>
      cases w with
      | str c => exact ⟨c, by simpa [Value.asStr] using hmem, rfl⟩
      | _ => cases hmem
    · cases hbuiltin

/-- A choice that is read as something else is not valid. -/
theorem passes_of_coerce (htype : step.fieldType = .choice) {c : String} {w : Value}
    (hcoerce : coerceStepInput ops state step.toFieldSpec (.str c) = w)
    (h : validatePreparedStepInput ops state step.toFieldSpec w = .ok ()) :
    Passes ops state step.toFieldSpec c ∧ w = .str c := by
  obtain ⟨c', -, rfl⟩ := mem_of_validatePrepared htype h
  obtain ⟨hstays, rfl⟩ := eq_of_coerce_eq_str hcoerce
  exact ⟨⟨hstays, h⟩, rfl⟩

/-- What the choice of an input is prepared to when it is prepared again. -/
theorem prepare_again_iff (htype : step.fieldType = .choice) {c : String} {v w : Value}
    (hv : coerceStepInput ops state step.toFieldSpec (.str c) = v) :
    prepareStepInput ops state step.toFieldSpec v = .ok w ↔
      ∃ c', StandsFor ops state step.toFieldSpec c c' ∧
        coerceStepInput ops state step.toFieldSpec (.str c') = w := by
  rw [prepareStepInput_choice_iff htype]
  constructor
  · rintro ⟨c', hc', hw⟩
    refine ⟨c', ?_, hw⟩
    rcases coerceStepInput_str ops state step.toFieldSpec c with
      ⟨u, hu, hcoerce⟩ | ⟨hstays, hcoerce⟩
    · obtain rfl : u = v := hcoerce.symm.trans hv
      cases hu with
      | integer m h₁ h₂ h₃ =>
        rw [resolveChoice_int] at hc'
        exact Or.inr ⟨m, .integer m h₁ h₂ h₃, Except.ok.inj hc'⟩
      | _ => cases (resolveChoice_none rfl (fun m hm => by cases hm)).symm.trans hc'
    · obtain rfl : .str c = v := hcoerce.symm.trans hv
      exact Or.inl ⟨hstays, hc'⟩
  · rintro ⟨c', ⟨hstays, hc'⟩ | ⟨m, hm, hc'⟩, hw⟩
    · rw [hstays.coerce] at hv
      exact ⟨c', hv ▸ hc', hw⟩
    · rw [hm.coerce] at hv
      exact ⟨c', by rw [← hv, resolveChoice_int, hc'], hw⟩

/-- A choice stands for itself exactly if its preparation is left as it is. -/
theorem standsForItself_iff (htype : step.fieldType = .choice) (c : String) :
    StandsForItself ops state step.toFieldSpec c ↔
      prepareStepInput ops state step.toFieldSpec
          (coerceStepInput ops state step.toFieldSpec (.str c)) =
        .ok (coerceStepInput ops state step.toFieldSpec (.str c)) := by
  rw [prepare_again_iff htype rfl]
  constructor
  · rintro (⟨hstays, hself⟩ | ⟨m, c', hm, hc', hsame⟩)
    · exact ⟨c, Or.inl ⟨hstays, hself⟩, rfl⟩
    · exact ⟨c', Or.inr ⟨m, hm, hc'⟩, by rw [hsame.coerce, hm.coerce]⟩
  · rintro ⟨c', ⟨hstays, hc'⟩ | ⟨m, hm, hc'⟩, hw⟩
    · rw [hstays.coerce] at hw
      obtain ⟨-, rfl⟩ := eq_of_coerce_eq_str hw
      exact Or.inl ⟨hstays, hc'⟩
    · rw [hm.coerce] at hw
      exact Or.inr ⟨m, c', hm, hc', reads_of_coerce_eq_int hw⟩

/-- A choice is an input, by its number, that is not taken for an empty field. -/
theorem exists_raw (ops : ValidationOps) {c : String} (hc : c ∈ step.choices) :
    ∃ raw, resolveChoice ops raw step.choices = .ok (some c) ∧
      normalizeOptionalField ops step.toFieldSpec raw = raw := by
  obtain ⟨m, hm⟩ := exists_choiceAt hc
  refine ⟨.int m, by rw [resolveChoice_int, hm], ?_⟩
  by_cases hrequired : step.required = true
  · exact if_pos hrequired
  · exact if_neg hrequired

/-- Inputs are prepared once and for all exactly if each choice stands for itself. -/
theorem preparesOnce_iff :
    PreparesOnce ops state step ↔ (step.fieldType = .choice →
      ∀ c ∈ step.choices, StandsForItself ops state step.toFieldSpec c) := by
  by_cases htype : step.fieldType = .choice
  · constructor
    · intro h _ c hc
      obtain ⟨raw, hraw, -⟩ := exists_raw ops hc
      exact (standsForItself_iff htype c).mpr
        (h raw _ ((prepareStepInput_choice_iff htype _ _).mpr ⟨c, hraw, rfl⟩))
    · intro h raw v hv
      obtain ⟨c, hc, rfl⟩ := (prepareStepInput_choice_iff htype _ _).mp hv
      exact (standsForItself_iff htype c).mp (h htype c (mem_of_resolveChoice hc))
  · refine iff_of_true (fun raw v hv => ?_) fun h => absurd h htype
    rw [prepareStepInput_of_ne htype] at hv ⊢
    rw [← Except.ok.inj hv, coerceStepInput_coerceStepInput]

/-- What is stored is what is validated exactly if no choice, once it is read, stands for another one
that passes. -/
theorem storesValidated_iff :
    StoresValidated ops state step ↔ (step.fieldType = .choice → ∀ c ∈ step.choices, ∀ c',
      StandsFor ops state step.toFieldSpec c c' → Passes ops state step.toFieldSpec c' →
        c' = c ∧ StaysText ops state step.toFieldSpec c) := by
  by_cases htype : step.fieldType = .choice
  · constructor
    · intro h _ c hc c' hstands hpasses
      obtain ⟨raw, hraw, hnormal⟩ := exists_raw ops hc
      have hprepared : prepareStepInput ops state step.toFieldSpec raw =
          .ok (coerceStepInput ops state step.toFieldSpec (.str c)) :=
        (prepareStepInput_choice_iff htype _ _).mpr ⟨c, hraw, rfl⟩
      have hagain := (prepare_again_iff htype rfl).mpr ⟨c', hstands, hpasses.1.coerce⟩
      have hstored := h raw _ ((applyInput_iff raw _).mpr ⟨by rwa [hnormal],
        (validateStepInput_iff _).mpr ⟨_, hagain, hpasses.2⟩⟩) _ hagain
      obtain ⟨hstays, rfl⟩ := eq_of_coerce_eq_str hstored.symm
      exact ⟨rfl, hstays⟩
    · intro h raw v hv w hw
      obtain ⟨hprepared, hvalid⟩ := (applyInput_iff raw v).mp hv
      obtain ⟨c, hc, rfl⟩ := (prepareStepInput_choice_iff htype _ _).mp hprepared
      obtain ⟨w', hw', hprepassed⟩ := (validateStepInput_iff _).mp hvalid
      obtain rfl : w' = w := Except.ok.inj (hw'.symm.trans hw)
      obtain ⟨c', hstands, hcoerce⟩ := (prepare_again_iff htype rfl).mp hw'
      obtain ⟨hpasses, rfl⟩ := passes_of_coerce htype hcoerce hprepassed
      obtain ⟨rfl, hstays⟩ := h htype c (mem_of_resolveChoice hc) c' hstands hpasses
      exact hstays.coerce.symm
  · refine iff_of_true (fun raw v hv w hw => ?_) fun h => absurd h htype
    obtain ⟨hprepared, -⟩ := (applyInput_iff raw v).mp hv
    rw [prepareStepInput_of_ne htype] at hprepared hw
    rw [← Except.ok.inj hw, ← Except.ok.inj hprepared, coerceStepInput_coerceStepInput]

/-- A choice that is typed exactly is accepted by a step exactly if it passes. -/
theorem stepAccepts_iff (htype : step.fieldType = .choice)
    (hproper : ProperChoices ops.text step.choices) {c : String} (hc : c ∈ step.choices) :
    StepAccepts ops state step (.str c) ↔ Passes ops state step.toFieldSpec c := by
  have hself := resolveChoice_self ops hc (hproper.trimmed c hc) (hproper.nonblank c hc)
  constructor
  · rintro ⟨v, hv⟩
    obtain ⟨hprepared, hvalid⟩ := (completeStepInput_iff _ v).mp hv
    obtain ⟨c', hc', hcoerce⟩ := (prepareStepInput_choice_iff htype _ _).mp hprepared
    obtain rfl : c = c' := Option.some.inj (Except.ok.inj (hself.symm.trans hc'))
    exact (passes_of_coerce htype hcoerce hvalid).1
  · intro h
    exact ⟨.str c, (completeStepInput_iff _ _).mpr
      ⟨(prepareStepInput_choice_iff htype _ _).mpr ⟨c, hself, h.1.coerce⟩, h.2⟩⟩

/-- A choice that is typed exactly is accepted by a field exactly if it is not taken for an empty
field and, once it is read, stands for a choice that passes. -/
theorem fieldAccepts_iff (htype : step.fieldType = .choice)
    (hproper : ProperChoices ops.text step.choices) {c : String} (hc : c ∈ step.choices) :
    FieldAccepts ops state step (.str c) ↔ NotSkipped ops step c ∧
      ∃ c', StandsFor ops state step.toFieldSpec c c' ∧ Passes ops state step.toFieldSpec c' := by
  have hself := resolveChoice_self ops hc (hproper.trimmed c hc) (hproper.nonblank c hc)
  by_cases hskip : NotSkipped ops step c
  · have hnormal : normalizeOptionalField ops step.toFieldSpec (.str c) = .str c := by
      rw [normalizeOptionalField]
      rcases hskip with hrequired | htoken
      · rw [if_pos hrequired]
      · rw [if_neg htoken, ite_self]
    rw [and_iff_right hskip]
    constructor
    · rintro ⟨v, hv⟩
      obtain ⟨hprepared, hvalid⟩ := (applyInput_iff _ v).mp hv
      rw [hnormal] at hprepared
      obtain ⟨c', hc', rfl⟩ := (prepareStepInput_choice_iff htype _ _).mp hprepared
      obtain rfl : c = c' := Option.some.inj (Except.ok.inj (hself.symm.trans hc'))
      obtain ⟨w, hw, hpasses⟩ := (validateStepInput_iff _).mp hvalid
      obtain ⟨c', hstands, hcoerce⟩ := (prepare_again_iff htype rfl).mp hw
      exact ⟨c', hstands, (passes_of_coerce htype hcoerce hpasses).1⟩
    · rintro ⟨c', hstands, hpasses⟩
      refine ⟨_, (applyInput_iff _ _).mpr ⟨?_, (validateStepInput_iff _).mpr
        ⟨_, (prepare_again_iff htype rfl).mpr ⟨c', hstands, hpasses.1.coerce⟩, hpasses.2⟩⟩⟩
      rw [hnormal]
      exact (prepareStepInput_choice_iff htype _ _).mpr ⟨c, hself, rfl⟩
  · refine iff_of_false ?_ fun h => hskip h.1
    rintro ⟨v, hv⟩
    obtain ⟨hprepared, -⟩ := (applyInput_iff _ v).mp hv
    rw [NotSkipped, not_or, not_not] at hskip
    rw [normalizeOptionalField, if_neg hskip.1] at hprepared
    simp only [if_pos hskip.2] at hprepared
    obtain ⟨c', hc', -⟩ := (prepareStepInput_choice_iff htype _ _).mp hprepared
    cases (resolveChoice_none rfl (fun m hm => by cases hm)).symm.trans hc'

/-- When the preparation of an input may be repeated, when what is stored is what was validated, and
when the choices are accepted as they are typed. -/
theorem validated_iff (ops : ValidationOps) (state : SchemaState) (step : WizardStepConfig) :
    (PreparesOnce ops state step ↔ (step.fieldType = .choice →
      ∀ c ∈ step.choices, StandsForItself ops state step.toFieldSpec c)) ∧
    (StoresValidated ops state step ↔ (step.fieldType = .choice → ∀ c ∈ step.choices, ∀ c',
      StandsFor ops state step.toFieldSpec c c' → Passes ops state step.toFieldSpec c' →
        c' = c ∧ StaysText ops state step.toFieldSpec c)) ∧
    (step.fieldType = .choice → ProperChoices ops.text step.choices → ∀ c ∈ step.choices,
      (StepAccepts ops state step (.str c) ↔ Passes ops state step.toFieldSpec c) ∧
        (FieldAccepts ops state step (.str c) ↔ NotSkipped ops step c ∧
          ∃ c', StandsFor ops state step.toFieldSpec c c' ∧ Passes ops state step.toFieldSpec c')) :=
  ⟨preparesOnce_iff, storesValidated_iff, fun htype hproper _ hc =>
    ⟨stepAccepts_iff htype hproper hc, fieldAccepts_iff htype hproper hc⟩⟩

end Claims

section Fixed

/-- The number of a text that is a digit. -/
def digitOf (t : String) : Option ℕ := if t = "1" then some 1 else if t = "2" then some 2 else none

/-- Operations that read the digits one and two. -/
def digitOps : ValidationOps where
  equal _ _ := false
  less _ _ := .ok false
  isFloat _ := true
  isHashable _ := true
  shown _ := ""
  text := { strip := id, lower := id, digits := digitOf }
  misread _ := false
  intOf t := (digitOf t).map fun n => n
  floatOf := digitOf
  wholeOf n := some n
  truncated n := some n
  search _ _ := some true
  custom _ := none

/-- A choice between the numbers two and one. -/
def twoOrOne : WizardStepConfig where
  slug := "level"
  fieldType := .choice
  choices := ["2", "1"]
  schema := some [("type", .str "integer")]
  named := by decide
  hasChoices _ := by decide

/-- The choice that is read as two. -/
theorem reads_two : Reads digitOps {} twoOrOne.toFieldSpec "2" (.int 2) := by
  refine .integer 2 rfl (by decide) ?_
  unfold coerceStringToInteger
  split <;> rfl

/-- A choice that is read as a number stands for another choice, and is not accepted. -/
theorem validated_fails : ¬∀ step : WizardStepConfig, PreparesOnce digitOps {} step ∧
    StoresValidated digitOps {} step ∧ (step.fieldType = .choice →
      ProperChoices digitOps.text step.choices →
        ∀ c ∈ step.choices, StepAccepts digitOps {} step (.str c)) := by
  intro h
  obtain ⟨-, -, haccepts⟩ := h twoOrOne
  have hproper : ProperChoices digitOps.text twoOrOne.choices :=
    ⟨by decide, fun _ _ => rfl, by decide⟩
  have htwo := haccepts rfl hproper "2" (by decide)
  exact ((stepAccepts_iff rfl hproper (by decide)).mp htwo).1 _ reads_two

end Fixed

end PalmEngine.Wizard
