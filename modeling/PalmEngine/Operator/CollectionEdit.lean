import PalmEngine.Wizard.FieldCollection

/-!
# The edit of an item in one call

An edit of a collection is driven by the inputs that an operator would give: the label of the edit in
the menu, the number of the item, and then one value for each field, in the order of the fields. A
field that is not given gets its value from the item as the view of the wizard shows it. Each value is
read by the prompt that the wizard shows at that time.

The driver does not look at what a value leads to. The wizard is an editor of the list of items here,
which stays at a field whose value it rejects, and whose job fails if the validation raises.
-/

namespace PalmEngine.Operator

open PalmEngine.Context PalmEngine.Wizard

/-- The operations of the language that the coercion of an input uses as well. -/
structure InputOps extends ValidationOps where
  /-- The value of a JSON text, if it is one. -/
  loads : String → Option Value

/-- What the coercion of an input reads of a view. -/
structure InputPattern where
  fieldType : Option String := none
  effectiveSchemaType : Option String := none
  choices : Option (List String) := none
  collectionField : Option String := none

section Coercion

variable (ops : InputOps)

/-- The level of priority that a text speaks of. -/
def coercePriorityChoice (raw : String) (choices : List String) : String :=
  let text := ops.text.lower (ops.text.strip raw)
  let choiceTexts := choices.map ops.text.lower
  if text = "" then raw
  else
    (["high", "medium", "low"].find? fun level =>
      text.contains level && (choiceTexts.isEmpty || level ∈ choiceTexts)).getD raw

/-- Whether a text says yes. -/
def readsTrue (raw : String) : Bool := ops.text.lower raw ∈ ["true", "1", "yes", "on"]

/-- Read a text as the value that a prompt asks for; a text that is no number raises. -/
def coerceJobInput (raw : String) (pattern : InputPattern) : Option Value :=
  match pattern.fieldType with
  | some "choice" =>
    some (.str (pattern.choices.elim raw fun choices =>
      if pattern.collectionField = some "priority" then coercePriorityChoice ops raw choices
      else raw))
  | some "confirm" => some (.bool (readsTrue ops raw))
  | _ =>
    match pattern.effectiveSchemaType with
    | some "integer" => (ops.intOf raw).map .int
    | some "number" => (ops.floatOf raw).map .other
    | some "boolean" => some (.bool (readsTrue ops raw))
    | _ =>
      if pattern.choices.any fun choices => raw ∈ choices then some (.str raw)
      else some ((ops.loads raw).getD (.str raw))

/-- Read the value of a field as the prompt asks for it. -/
def coerceCollectionFieldInput (raw : Value) (pattern : InputPattern) : Option Value :=
  match raw with
  | .str s =>
    match pattern.choices with
    | some choices =>
      if pattern.collectionField = some "priority" ∧ pattern.fieldType = some "choice" then
        some (.str (coercePriorityChoice ops s choices))
      else coerceJobInput ops s pattern
    | none => coerceJobInput ops s pattern
  | value => some value

end Coercion

/-- What the driver reads of a view of a wizard. -/
structure WizardView where
  collectionKey : Option String := none
  answers : List (String × Value) := []
  /-- The slugs of the fields of an item, and which of them are required. -/
  itemFields : List (String × Bool) := []
  pattern : InputPattern := {}

/-- An item that is updated by fields. -/
def updateItem (item fields : Item) : Item := fields.foldl (fun item e => setEntry e.1 e.2 item) item

namespace WizardView

variable (view : WizardView)

/-- The item at an index of a list. -/
def entryAt (itemIndex : ℤ) : Value → Option Item
  | .list items => if 0 ≤ itemIndex then items[itemIndex.toNat]?.bind Value.asDict else none
  | _ => none

/-- The item at an index of the collection, or else of the first answer that has one. -/
def collectionItemAt (itemIndex : ℤ) : Item :=
  (((view.collectionKey.bind fun key => valueOf? key view.answers).bind (entryAt itemIndex)) <|>
    view.answers.findSome? fun e => entryAt itemIndex e.2).getD []

/-- The item that is shown, updated by fields. -/
def mergeEditFields (itemIndex : ℤ) (fields : Item) : Item :=
  updateItem (view.collectionItemAt itemIndex) fields

/-- Whether a field may be left out. -/
def fieldIsOptional (slug : String) : Bool :=
  (view.itemFields.find? fun e => e.1 = slug).any (!·.2)

/-- The slugs of the fields. -/
def collectionFieldSlugs : List String := (view.itemFields.map Prod.fst).filter (· ≠ "")

end WizardView

/-- A session that takes inputs and shows a view. -/
structure InputSession (σ : Type) where
  provideInput : σ → Value → σ
  view : σ → WizardView

/-- Why a drive raises. -/
inductive EditError where
  | missingValue (slug : String)
  | notANumber
  deriving DecidableEq, Repr

/-- A value that was given to a session, with the position of the field that it is for. -/
structure FedValue (σ : Type) where
  before : σ
  position : ℕ
  value : Value

/-- How a drive ends: the session, the values of fields that were given to it, and what was raised. -/
structure EditRun (σ : Type) where
  session : σ
  fed : List (FedValue σ) := []
  error : Option EditError := none

section Driver

variable {σ : Type} (ops : InputOps) (I : InputSession σ)

/-- The label of the edit in the menu. -/
def editMenuLabel : String := "Edit an item"

/-- Give a session the values of fields one after the other. -/
def feedFields (merged : Item) (position : ℕ) (s : σ) : List String → EditRun σ
  | [] => { session := s }
  | slug :: slugs =>
    let found : Option (Value × Item) :=
      match valueOf? slug merged with
      | some raw => some (raw, merged)
      | none =>
        if (I.view s).fieldIsOptional slug then some (.str "", setEntry slug (.str "") merged)
        else none
    match found with
    | none => { session := s, error := some (.missingValue slug) }
    | some (raw, merged) =>
      match coerceCollectionFieldInput ops raw (I.view s).pattern with
      | none => { session := s, error := some .notANumber }
      | some value =>
        let run := feedFields merged (position + 1) (I.provideInput s value) slugs
        { run with fed := ⟨s, position, value⟩ :: run.fed }

/-- Drive an edit: the menu, the selection of the item, and the values of the fields. -/
def driveCollectionEdit (itemIndex : ℤ) (fields : Item) (wizardView : WizardView) (s : σ) :
    EditRun σ :=
  let merged := wizardView.mergeEditFields itemIndex fields
  let s := I.provideInput s (.str editMenuLabel)
  let s := I.provideInput s (.str (toString (itemIndex + 1)))
  let slugs := (I.view s).collectionFieldSlugs
  feedFields ops I merged 0 s (if slugs = [] then merged.map Prod.fst else slugs)

end Driver

/-- A collection whose items are edited, with the type in the schema that is in effect at a field, or
in the step. -/
structure EditedCollection extends FieldCollection where
  effectiveSchemaType : Option FieldSpec → Option String := fun _ => none

/-- The name of a type of fields. -/
def fieldTypeName : WizardFieldType → String
  | .text => "text"
  | .choice => "choice"
  | .confirm => "confirm"

/-- The editor of a collection with the job that it runs in. -/
structure EditSession where
  editor : ItemEditor
  failed : Bool := false

namespace EditedCollection

variable (ops : InputOps) (C : EditedCollection)

/-- Take an input, unless the job has failed; it fails if the step raises. -/
def provideInput (s : EditSession) (value : Value) : EditSession :=
  if s.failed then s
  else if C.raises ops.toValidationOps s.editor value then { s with failed := true }
  else
    { s with
      editor := s.editor.take (C.env ops.toValidationOps) { seen := (C.askedField s.editor).map Prod.snd } C.step
        value }

/-- The pattern of the prompt of a field. -/
def fieldPattern (field : FieldSpec) : InputPattern where
  fieldType := some (fieldTypeName field.fieldType)
  effectiveSchemaType := C.effectiveSchemaType (some field)
  choices := if field.choices = [] then none else some field.choices
  collectionField := some field.slug

/-- The pattern of the prompt of an editor. -/
def patternOf (e : ItemEditor) : InputPattern :=
  let pattern (fieldType : String) (choices : Option (List String)) : InputPattern :=
    { fieldType := some fieldType, effectiveSchemaType := C.effectiveSchemaType none, choices }
  match e.mode with
  | .menu => pattern "choice" (some ((menuChoices C.step e.items).map Prod.fst))
  | .selecting _ => pattern "text" none
  | .entering _ _ _ => (C.askedField e).elim (pattern "text" none) fun asked => C.fieldPattern asked.2
  | .confirming _ => pattern "confirm" none

/-- The view of an editor. -/
def viewOf (s : EditSession) : WizardView where
  answers := [(C.collectionKey, .list (s.editor.items.map .dict))]
  itemFields := C.fields.map fun field => (field.slug, field.required)
  pattern := C.patternOf s.editor

/-- The session of the collection. -/
def session : InputSession EditSession where
  provideInput := C.provideInput ops
  view := C.viewOf

/-- Drive an edit of an item, from the menu. -/
def drive (items : List Item) (itemIndex : ℤ) (fields : Item) (wizardView : WizardView) :
    EditRun EditSession :=
  driveCollectionEdit ops (C.session ops) itemIndex fields wizardView { editor := { items } }

/-- The position of the field that stores an input. -/
def storedBy (s : EditSession) (value : Value) : Option ℕ :=
  if s.failed then none
  else
    (C.askedField s.editor).bind fun asked =>
      (C.answerOf ops.toValidationOps asked.2 value).toOption.map fun _ => asked.1

end EditedCollection

end PalmEngine.Operator
