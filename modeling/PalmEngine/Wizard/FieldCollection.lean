import PalmEngine.Wizard.CollectionEditor
import PalmEngine.Wizard.Validation

/-!
# A collection with the validation of its fields

The fields of a collection step are prepared and validated as those of an input step, except that an
optional field may be left empty and that a field may be none that is valid as a step. What the
validators look at is the field that is asked for. The step may raise on an input: at a text that looks
like a number where a choice or an item is selected, and in the validation of a field.
-/

namespace PalmEngine.Wizard

open PalmEngine.Context

/-- A collection: it has fields, and these have slugs. The schemas that are in effect where a field is
asked for are those of the scopes of its step. -/
structure FieldCollection where
  slug : String
  collectionKey : String
  minItems : ℕ := 1
  fields : List FieldSpec
  fields_ne_nil : fields ≠ []
  named : ∀ field ∈ fields, field.slug ≠ ""
  hasSchema : Bool := false
  label : ℕ → Item → String := fun _ _ => ""
  schemas : FieldSpec → SchemaState := fun _ => {}

namespace FieldCollection

variable (ops : ValidationOps) (C : FieldCollection)

/-- The step of the collection. -/
def step : CollectionStep where
  collectionKey := C.collectionKey
  itemFields := C.fields.map fun field => { slug := field.slug, required := field.required }
  minItems := C.minItems
  slug := C.slug

/-- What is left open for a wizard, with the fields of this collection: what the validators look at is
the field that is asked for. -/
def env : WizardEnv (Option FieldSpec) where
  hasSchema := C.hasSchema
  text := ops.text
  label := fun _ => C.label
  prepareStepInput seen _ value := seen.bind fun field =>
    (fieldAsStep field >>= fun step =>
      prepareStepInput ops (C.schemas field) step.toFieldSpec value).toOption
  validateStepInput seen _ value := seen.any fun field =>
    (fieldAsStep field >>= fun step =>
      validateStepInput ops (C.schemas field) step.toFieldSpec value).toOption.isSome

/-- The field that an editor asks for. -/
def askedField (e : ItemEditor) : Option (ℕ × FieldSpec) :=
  match e.mode with
  | .entering _ _ done => C.fields[done]?.map fun field => (done, field)
  | _ => none

/-- What a field makes of an input. -/
def answerOf (field : FieldSpec) (value : Value) : Except Refusal Value :=
  applyInput ops (C.schemas field) field value

/-- Whether a computation raises. -/
def isRaised {α : Type} : Except Refusal α → Bool
  | .error (.raised _) => true
  | _ => false

/-- Whether an editor raises on an input. -/
def raises (e : ItemEditor) (value : Value) : Bool :=
  match e.mode with
  | .menu =>
    isRaised (resolveChoice ops value ((menuChoices C.step e.items).map Prod.fst))
  | .selecting _ =>
    !isCancelInput ops.text value &&
      value.asStr.any fun s => ops.text.strip s ≠ "" && ops.misread (ops.text.strip s)
  | .entering _ _ _ => (C.askedField e).any fun asked => isRaised (C.answerOf ops asked.2 value)
  | .confirming _ => false

/-- What a field accepts in a wizard is what it makes of an input here. -/
theorem acceptedValue_env (ops : ValidationOps) (C : FieldCollection) (field : FieldSpec)
    (value : Value) :
    acceptedValue (C.env ops) { seen := some field }
      { slug := field.slug, required := field.required } value =
        (C.answerOf ops field value).toOption := by
  have hnormal : normalizeOptionalFieldValue (C.env ops)
      { slug := field.slug, required := field.required } value =
        normalizeOptionalField ops field value := rfl
  rw [acceptedValue, hnormal, answerOf, applyInput]
  simp only [env, Option.bind_some, Option.any_some]
  cases fieldAsStep field with
  | error refusal => rfl
  | ok step =>
    cases hprepare : prepareStepInput ops (C.schemas field) step.toFieldSpec
        (normalizeOptionalField ops field value) with
    | error refusal => simp [bind, Except.bind, Except.toOption, hprepare]
    | ok v =>
      cases hvalid : validateStepInput ops (C.schemas field) step.toFieldSpec v with
      | error refusal => simp [bind, Except.bind, Except.toOption, hprepare, hvalid]
      | ok done => simp [bind, Except.bind, Except.toOption, pure, Except.pure, hprepare, hvalid]

end FieldCollection

end PalmEngine.Wizard
