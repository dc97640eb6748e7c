import PalmEngine.Wizard.Board

/-!
# Collection steps

A collection step is a loop over four phases, of which the blackboard says which one is on: the menu,
the fields of an item, the selection of an item and the confirmation of its removal. A phase that
goes over to another one is followed by it in the same tick. The keys of a session are shared by all
collection steps.

How texts are compared and what the validators of a field say is left open; the validators may look
at anything else of the state.
-/

namespace PalmEngine.Wizard

open PalmEngine.Lib PalmEngine.Context PalmEngine.BehaviorTree

/-- Operations on texts: without blanks at the ends, in lower case, and the number of a text of
digits. -/
structure TextOps where
  strip : String → String
  lower : String → String
  digits : String → Option ℕ

/-- The only element of a list. -/
def only? {α : Type} : List α → Option α
  | [x] => some x
  | _ => none

section Choices

variable (text : TextOps)

/-- The element that a text stands for among the elements with their labels: the only one whose
label starts with it, or else the only one whose label contains it, both in lower case. -/
def resolvePartial {α : Type} (lowered : String) (labels : List (String × α)) : Option α :=
  (only? (labels.filter fun e => lowered.isPrefixOf (text.lower e.1)) <|>
    only? (labels.filter fun e => (text.lower e.1).contains lowered)).map Prod.snd

/-- The element whose label is a text in lower case, if there is one only. -/
def resolveLowered {α : Type} (lowered : String) (labels : List (String × α)) : Option α :=
  (only? (labels.filter fun e => text.lower e.1 = lowered)).map Prod.snd

/-- The choice that an input stands for: the same text, in lower case, its number, its start or a
part of it. -/
def resolveChoiceValue (value : Value) (choices : List String) : Option String :=
  let labels := choices.map fun choice => (choice, choice)
  match value with
  | .str s =>
    let stripped := text.strip s
    if stripped = "" then none
    else if stripped ∈ choices then some stripped
    else
      resolveLowered text (text.lower stripped) labels <|>
        ((text.digits stripped).bind fun i => if 1 ≤ i then choices[i - 1]? else none) <|>
        resolvePartial text (text.lower stripped) labels
  | .int i => if 1 ≤ i then choices[i.toNat - 1]? else none
  | _ => none

/-- The index of the item that an input stands for: its number, its label, in lower case, the start
or a part of it. -/
def resolveItemIndex (value : Value) (labels : List String) : Option ℕ :=
  let indexed := labels.zipIdx
  match value with
  | .int i => if 1 ≤ i ∧ i.toNat ≤ labels.length then some (i.toNat - 1) else none
  | .str s =>
    let stripped := text.strip s
    if stripped = "" then none
    else
      match text.digits stripped with
      | some i => if 1 ≤ i ∧ i ≤ labels.length then some (i - 1) else none
      | none =>
        (indexed.find? fun e => e.1 = stripped).map Prod.snd <|>
          resolveLowered text (text.lower stripped) indexed <|>
          resolvePartial text (text.lower stripped) indexed
  | _ => none

/-- Whether an input cancels a selection. -/
def isCancelInput : Value → Bool
  | .str s => text.lower (text.strip s) ∈ ["cancel", "back", "c", "quit"]
  | _ => false

/-- Whether an input confirms. -/
def isAffirmative : Value → Bool
  | .bool b => b
  | .int n => n = 1
  | .str s => text.lower (text.strip s) ∈ ["yes", "y", "ok", "okay", "confirm", "continue"]
  | _ => false

/-- Whether an input declines. -/
def isNegative : Value → Bool
  | .bool b => !b
  | .str s => text.lower (text.strip s) ∈
      ["no", "n", "nope", "cancel", "back", "go back", "change", "edit"]
  | _ => false

/-- Whether an input says no to a removal. -/
def refusesRemoval : Value → Bool
  | .bool b => !b
  | .int n => n = 0
  | .str s => s ∈ ["no", "No", "NO"]
  | _ => false

end Choices

/-- A collection step. -/
structure CollectionStep extends CollectionConfig where
  slug : String

/-- What is left open for the steps of a wizard: whether the flow has a schema, the operations on
texts, the labels of items, and how an input for a field is prepared and validated, given what else
the validators look at. -/
structure WizardEnv (ε : Type) where
  hasSchema : Bool
  text : TextOps
  label : CollectionStep → ℕ → Item → String
  prepareStepInput : ε → CollectionFieldConfig → Value → Option Value
  validateStepInput : ε → CollectionFieldConfig → Value → Bool

/-- What a resource step finds of a nested job that it waits for. -/
inductive NestedPark where
  | absent
  | held
  | delivered
  deriving DecidableEq, Repr

/-- What the environment answers in the tick of a leaf. -/
structure LeafAnswer (ε : Type) where
  /-- What the validators look at. -/
  seen : ε
  /-- Whether a condition holds. -/
  holds : Bool := true
  /-- Whether the answers so far are valid and an answer is accepted. -/
  valid : Bool := true
  /-- What is stored as answers. -/
  results : List (String × Value) := []
  /-- The step to go to after this one. -/
  jump : Option String := none
  /-- The nested job of a resource step. -/
  park : NestedPark := .absent
  /-- How the work of a step that runs by itself, or of a commit, ends. -/
  effect : PatternStatus := .success
  /-- What the work writes. -/
  writes : List (String × Value) := []
  /-- Whether the work leaves the context engine bound to another state. -/
  rebinds : Bool := false
  /-- Whether a failed resource is passed over. -/
  recovers : Bool := false
  /-- Whether the step raises before it stores anything. -/
  raises : Bool := false
  /-- Whether the schema of the flow refuses what is stored. -/
  schemaRaises : Bool := false

section Session

variable {ε : Type} (env : WizardEnv ε) (a : LeafAnswer ε) (c : CollectionStep)

namespace WizardBoard

variable (b : WizardBoard)

/-- The items of a collection. -/
def collectionItems (key : String) : List Item :=
  match b.answers.get? key with
  | some (.list items) => items.filterMap Value.asDict
  | _ => []

/-- The phase of the session. -/
def collectionPhase : CollectionPhase := b.session.phase.getD .menu

/-- The index of the field that is asked for. -/
def collectionFieldIndex : ℕ := b.session.fieldIndex.getD 0

/-- Go over to a phase. -/
def setPhase (phase : CollectionPhase) : WizardBoard :=
  { b with session := { b.session with phase := some phase } }

/-- Clear the keys of the session. -/
def clearSession : WizardBoard := { b with session := {} }

/-- Choose what to do with the item to be selected. -/
def setSelectAction (action : Option SelectAction) : WizardBoard :=
  { b with session := { b.session with selectAction := action } }

/-- The name of the scope of an item. -/
def itemScopeName (index : ℕ) : String := "item-" ++ toString index

/-- The name of the scope of a field of an item. -/
def fieldScopeName (index : ℕ) (field : String) : String := itemScopeName index ++ ":" ++ field

/-- The index of the item that is edited, or of a new one. -/
def itemIndex (key : String) : ℕ := b.session.editIndex.getD (b.collectionItems key).length

end WizardBoard

/-- Store answers, with a schema also under public keys, unless it refuses them. -/
def persist (entries : List (String × Value)) (b : WizardBoard) : WizardBoard :=
  let b := b.setAnswers entries
  if env.hasSchema then if a.schemaRaises then b.interrupt .raised else b.publish entries else b

/-- Store the items of a collection. -/
def setCollectionItems (items : List Item) (b : WizardBoard) : WizardBoard :=
  persist env a [(c.collectionKey, .list (items.map .dict))] b

/-- Leave all scopes inside of the one of the step; the loop does not end if the operations do not
reach the state. -/
def leaveItemScope (b : WizardBoard) : WizardBoard :=
  let left := b.scopes.dropWhile (· ≠ c.slug)
  if b.scopes = left then b
  else if b.reaches then { b with scopes := left }
  else b.interrupt .hangs

/-- Begin to enter or to edit an item. -/
def beginItemSession (editIndex : Option ℕ) (b : WizardBoard) : WizardBoard :=
  let items := b.collectionItems c.collectionKey
  let begin' (draft : Item) (index : ℕ) : WizardBoard :=
    (({ b with session := { b.session with editIndex, draft, fieldIndex := some 0 } }.ensureScope
      c.slug).ensureScope (WizardBoard.itemScopeName index))
  match editIndex with
  | none => begin' [] items.length
  | some i => (items[i]?).elim (b.interrupt .indexError) fun item => begin' item i

/-- Store items and go back to the menu. -/
def storeItems (items : List Item) (b : WizardBoard) : PatternStatus × WizardBoard :=
  let b := setCollectionItems env a c items b
  if b.interrupted.isSome then (.running, b)
  else
    let b := leaveItemScope c b
    if b.interrupted.isSome then (.running, b) else (.running, b.clearSession.setPhase .menu)

/-- Store the draft as a new item or in place of the edited one. -/
def commitItem (b : WizardBoard) : PatternStatus × WizardBoard :=
  let items := b.collectionItems c.collectionKey
  match b.session.editIndex with
  | none => storeItems env a c (items ++ [b.session.draft]) b
  | some i =>
    if i < items.length then storeItems env a c (items.set i b.session.draft) b
    else (.running, b.interrupt .indexError)

end Session

section Phases

variable {ε : Type} (env : WizardEnv ε) (a : LeafAnswer ε) (c : CollectionStep)

/-- Ask for an input of the step. -/
def ask (slug : String) (b : WizardBoard) : PatternStatus × WizardBoard :=
  (.waitingForInput, b.prompt slug true)

/-- The actions of the menu. -/
inductive MenuAction where
  | add
  | editSelect
  | removeSelect
  | done
  deriving DecidableEq, Repr

/-- The choices of the menu with their actions. -/
def menuChoices (items : List Item) : List (String × MenuAction) :=
  [("Add a new item", .add)] ++
    (if items.isEmpty then []
      else [("Edit an item", .editSelect), ("Remove an item", .removeSelect)]) ++
    [(if items.length < c.minItems then
        "Continue to summary (need " ++ toString (c.minItems - items.length) ++ " more)"
      else "Continue to summary", .done)]

/-- Show the menu. -/
def menuRequest (b : WizardBoard) : PatternStatus × WizardBoard := ask c.slug (b.ensureScope c.slug)

/-- Finish a collection that has enough items and is valid. -/
def finishCollection (items : List Item) (b : WizardBoard) : PatternStatus × WizardBoard :=
  if items.length < c.minItems then ask c.slug b
  else if !a.valid then ask c.slug b
  else
    let b := setCollectionItems env a c items b
    if b.interrupted.isSome then (.running, b)
    else (.success, (b.clearSession.leaveStep c.slug).clearPrompt)

/-- Take a choice of the menu. -/
def menuHandle (value : Value) (b : WizardBoard) : PatternStatus × WizardBoard :=
  let items := b.collectionItems c.collectionKey
  let choices := menuChoices c items
  match (resolveChoiceValue env.text value (choices.map Prod.fst)).bind fun choice =>
      (choices.find? fun e => e.1 = choice).map Prod.snd with
  | none => ask c.slug b
  | some .add => (.running, (beginItemSession c none b).setPhase .field)
  | some .done => finishCollection env a c items b
  | some .editSelect => (.running, (b.setSelectAction (some .edit)).setPhase .selectItem)
  | some .removeSelect => (.running, (b.setSelectAction (some .remove)).setPhase .selectItem)

/-- Ask for the next field, or store the item after the last one. -/
def fieldRequest (b : WizardBoard) : PatternStatus × WizardBoard :=
  match c.itemFields[b.collectionFieldIndex]? with
  | none => commitItem env a c b
  | some field =>
    let index := b.itemIndex c.collectionKey
    let b := (b.ensureScope c.slug).ensureScope (WizardBoard.itemScopeName index)
    ask c.slug (b.enterStep (WizardBoard.fieldScopeName index field.slug))

/-- The texts that leave an optional field empty. -/
def optionalSkipTokens : List String :=
  ["", "-", "—", "skip", "none", "n/a", "na", "null", "nil", "pass", "empty", "leave empty",
    "no date", "no due date"]

/-- The missing value for an optional field that is left empty. -/
def normalizeOptionalFieldValue (field : CollectionFieldConfig) (value : Value) : Value :=
  if field.required then value
  else
    match value with
    | .str s => if env.text.lower (env.text.strip s) ∈ optionalSkipTokens then .null else value
    | _ => value

/-- The value of a field as it is stored, if the validators accept it. -/
def acceptedValue (field : CollectionFieldConfig) (value : Value) : Option Value :=
  (env.prepareStepInput a.seen field (normalizeOptionalFieldValue env field value)).filter
    (env.validateStepInput a.seen field)

/-- Put the value of a field into the draft; the missing one removes the field. -/
def storeField (field : CollectionFieldConfig) (value : Value) (b : WizardBoard) : WizardBoard :=
  let b := b.leaveStep
    (WizardBoard.fieldScopeName (b.itemIndex c.collectionKey) field.slug)
  let draft := if value.isNull then b.session.draft.filter (·.1 ≠ field.slug)
    else setEntry field.slug value b.session.draft
  { b with
    session := { b.session with draft, fieldIndex := some (b.collectionFieldIndex + 1) }
    entered := b.entered ++ [⟨c.slug, field.slug, value⟩] }

/-- Take the value of a field. -/
def fieldHandle (value : Value) (b : WizardBoard) : PatternStatus × WizardBoard :=
  match c.itemFields[b.collectionFieldIndex]? with
  | none => commitItem env a c b
  | some field =>
    match acceptedValue env a field value with
    | none => ask c.slug b
    | some value => fieldRequest env a c (storeField c field value b)

/-- Ask for an item; without items go back to the menu. -/
def selectRequest (b : WizardBoard) : PatternStatus × WizardBoard :=
  if (b.collectionItems c.collectionKey).isEmpty then (.running, b.setPhase .menu)
  else ask c.slug b

/-- Take a selection, for an edit unless it is for a removal. -/
def selectHandle (value : Value) (b : WizardBoard) : PatternStatus × WizardBoard :=
  let items := b.collectionItems c.collectionKey
  if isCancelInput env.text value then (.running, (b.setSelectAction none).setPhase .menu)
  else
    match resolveItemIndex env.text value (items.mapIdx (env.label c)) with
    | none => ask c.slug b
    | some index =>
      if b.session.selectAction = some .remove then
        let b := b.setSelectAction none
        (.running, { b with session := { b.session with
          removeIndex := some index, phase := some .removeConfirm } })
      else (.running, (beginItemSession c (some index) (b.setSelectAction none)).setPhase .field)

/-- Ask whether an item is to be removed. -/
def removeRequest (b : WizardBoard) : PatternStatus × WizardBoard :=
  match b.session.removeIndex with
  | none => (.running, b.setPhase .menu)
  | some index =>
    if index < (b.collectionItems c.collectionKey).length then ask c.slug b
    else (.running, b.interrupt .indexError)

/-- Remove an item after a confirmation. -/
def removeHandle (value : Value) (b : WizardBoard) : PatternStatus × WizardBoard :=
  if refusesRemoval value then (.running, b.clearSession.setPhase .menu)
  else if !isAffirmative env.text value then ask c.slug b
  else
    match b.session.removeIndex with
    | none => (.running, b.setPhase .menu)
    | some index =>
      let items := b.collectionItems c.collectionKey
      let b := if index < items.length then setCollectionItems env a c (items.eraseIdx index) b
        else b
      if b.interrupted.isSome then (.running, b) else (.running, b.clearSession.setPhase .menu)

/-- Ask in a phase. -/
def phaseRequest (b : WizardBoard) : CollectionPhase → PatternStatus × WizardBoard
  | .menu => menuRequest c b
  | .field => fieldRequest env a c b
  | .selectItem => selectRequest c b
  | .removeConfirm => removeRequest c b

/-- Take an input in a phase. -/
def phaseHandle (value : Value) (b : WizardBoard) : CollectionPhase → PatternStatus × WizardBoard
  | .menu => menuHandle env a c value b
  | .field => fieldHandle env a c value b
  | .selectItem => selectHandle env c value b
  | .removeConfirm => removeHandle env a c value b

end Phases

/-- The tick of an interactive leaf: it takes the input that is parked for it, or asks for one. -/
def interactiveTick (slug : String) (handle : Value → WizardBoard → PatternStatus × WizardBoard)
    (request : WizardBoard → PatternStatus × WizardBoard) (b : WizardBoard) :
    PatternStatus × WizardBoard :=
  match b.inputs.get? slug with
  | some parked => handle parked.value (b.consume slug parked)
  | none => request b

/-- Tick the phases of a collection while one goes over to another one, at most so often. -/
def collectionLoop {ε : Type} (env : WizardEnv ε) (a : LeafAnswer ε) (c : CollectionStep) :
    ℕ → WizardBoard → PatternStatus × WizardBoard
  | 0, b => (.failure, b)
  | rounds + 1, b =>
    let phase := b.collectionPhase
    let out := interactiveTick c.slug (fun value b => phaseHandle env a c value b phase)
      (fun b => phaseRequest env a c b phase) b
    if out.1 = .running ∧ out.2.interrupted = none ∧ out.2.collectionPhase ≠ phase then
      collectionLoop env a c rounds out.2
    else out

/-- The tick of a collection step. -/
def collectionTick {ε : Type} (env : WizardEnv ε) (a : LeafAnswer ε) (c : CollectionStep) :
    WizardBoard → PatternStatus × WizardBoard :=
  collectionLoop env a c 16

end PalmEngine.Wizard
