import PalmEngine.Context.State
import PalmEngine.Wizard.Steps

/-!
# The blackboard of a wizard

The keys that the steps of a wizard read and write, each as a field: the answers, the parked inputs
by the slugs of their steps, the active prompt, a queued backtrack or jump, the session of the
collection steps, and the scopes. The other keys that a step may write are public.

Beside the program's data a board has a history: in which visit a prompt was published and with
which number, what was consumed, which field values were entered, and with which scopes the leaves
were ticked. The history decides nothing.
-/

namespace PalmEngine.Wizard

open PalmEngine.Lib PalmEngine.Context

/-- A prompt: its step, the visit in which it was published and its number. -/
structure PromptMark where
  slug : String
  visit : ℕ
  number : ℕ
  deriving DecidableEq, Repr

/-- The active prompt; the prompts of steps that run by themselves name no input key. -/
structure ActivePrompt where
  mark : PromptMark
  takesInput : Bool
  deriving DecidableEq, Repr

/-- A parked input, with the prompt that was active when it was provided. -/
structure ParkedInput where
  value : Value
  mark : PromptMark

/-- A consumed input: the step that consumed it, the prompt for which it was provided, the visit in
which it was consumed and the latest prompt of the step. -/
structure Consumption where
  slug : String
  mark : PromptMark
  visit : ℕ
  latest : Option PromptMark
  deriving DecidableEq, Repr

/-- Where a backtrack goes. -/
inductive BacktrackTarget where
  | index (i : ℕ)
  | slug (s : String)
  deriving DecidableEq, Repr

/-- The phases of a collection step. -/
inductive CollectionPhase where
  | menu
  | field
  | removeConfirm
  | selectItem
  deriving DecidableEq, Repr

/-- What is done with a selected item. -/
inductive SelectAction where
  | edit
  | remove
  deriving DecidableEq, Repr

/-- The entries of an item of a collection. -/
abbrev Item := List (String × Value)

/-- The keys of a session, which all collection steps share. -/
structure CollectionSession where
  phase : Option CollectionPhase := none
  editIndex : Option ℕ := none
  fieldIndex : Option ℕ := none
  draft : Item := []
  removeIndex : Option ℕ := none
  selectAction : Option SelectAction := none

/-- A field value that was entered: the collection step, the field and the value that was stored. -/
structure Entered where
  slug : String
  field : String
  value : Value

/-- Why a tick has not come to its end: an exception, or a loop that does not end. -/
inductive Interruption where
  | indexError
  | raised
  | hangs
  deriving DecidableEq, Repr

/-- Copy the values that are not the missing one to keys that are unset or hold it. -/
def fillMissing (target source : Dict String Value) : Dict String Value :=
  source.entries.foldl (fun d e =>
    if e.2.isNull ∨ (d.get? e.1).any (!·.isNull) then d else d.set e.1 e.2) target

/-- Copy values to keys that are unset. -/
def fillUnset (target source : Dict String Value) : Dict String Value :=
  source.entries.foldl (fun d e => d.setDefault e.1 e.2) target

/-- The blackboard of a wizard. The scopes start with the innermost one. A context engine, if there
is one, is bound to this state or to another one. -/
structure WizardBoard where
  answers : Dict String Value := .empty
  publicKeys : Dict String Value := .empty
  inputs : Dict String ParkedInput := .empty
  activePrompt : Option ActivePrompt := none
  backtrackTo : Option BacktrackTarget := none
  jumpTo : Option String := none
  completed : Bool := false
  committed : Bool := false
  session : CollectionSession := {}
  scopes : List String := []
  context : Option Bool := none
  interrupted : Option Interruption := none
  clock : ℕ := 0
  visit : ℕ := 0
  prompts : ℕ := 0
  latest : Dict String PromptMark := .empty
  consumed : List Consumption := []
  entered : List Entered := []
  ticked : List (WizardLeaf × List String) := []

namespace WizardBoard

variable (b : WizardBoard)

section Scopes

/-- Whether the operations on scopes reach this state. -/
def reaches : Bool := b.context.getD true

/-- Enter the scope of a step, unless it is the innermost one. -/
def enterStep (slug : String) : WizardBoard :=
  { b with
    context := b.context.map fun _ => true
    scopes := if b.scopes.head? = some slug then b.scopes else slug :: b.scopes }

/-- Leave the scope of a step if it is the innermost one. -/
def leaveStep (slug : String) : WizardBoard :=
  if b.reaches ∧ b.scopes.head? = some slug then { b with scopes := b.scopes.tail } else b

/-- Enter a scope, unless it is among the scopes. -/
def ensureScope (name : String) : WizardBoard := if name ∈ b.scopes then b else b.enterStep name

end Scopes

section Prompts

/-- Publish the prompt of a step. -/
def prompt (slug : String) (takesInput : Bool) : WizardBoard :=
  let mark : PromptMark := ⟨slug, b.visit, b.prompts⟩
  { b with
    activePrompt := some ⟨mark, takesInput⟩
    prompts := b.prompts + 1
    latest := if takesInput then b.latest.set slug mark else b.latest }

/-- Clear the active prompt. -/
def clearPrompt : WizardBoard := { b with activePrompt := none }

/-- Route an input to the step whose prompt is active; without one it is dropped. -/
def provideInput (value : Value) : WizardBoard :=
  match b.activePrompt with
  | some ⟨mark, true⟩ => { b with inputs := b.inputs.set mark.slug ⟨value, mark⟩ }
  | _ => b

/-- Consume the input that is parked for a step. -/
def consume (slug : String) (parked : ParkedInput) : WizardBoard :=
  { b with
    inputs := b.inputs.erase slug
    consumed := b.consumed ++ [⟨slug, parked.mark, b.visit, b.latest.get? slug⟩] }

end Prompts

section Keys

/-- Store answers. -/
def setAnswers (entries : List (String × Value)) : WizardBoard :=
  { b with answers := entries.foldl (fun d e => d.set e.1 e.2) b.answers }

/-- Store values under public keys. -/
def publish (entries : List (String × Value)) : WizardBoard :=
  { b with publicKeys := entries.foldl (fun d e => d.set e.1 e.2) b.publicKeys }

/-- Stop the tick. -/
def interrupt (i : Interruption) : WizardBoard := { b with interrupted := some i }

/-- Note with which scopes a leaf is ticked. -/
def tickedAt (leaf : WizardLeaf) : WizardBoard :=
  { b with ticked := b.ticked ++ [(leaf, b.scopes)], clock := b.clock + 1 }

/-- Take over public values as answers where there is none. -/
def mergeCompositional : WizardBoard := { b with answers := fillMissing b.answers b.publicKeys }

/-- Copy answers to public keys that are unset or hold the missing value. -/
def promoteBindingKeys : WizardBoard := { b with publicKeys := fillMissing b.publicKeys b.answers }

/-- Copy answers to public keys that are unset. -/
def promoteAnswers : WizardBoard := { b with publicKeys := fillUnset b.publicKeys b.answers }

end Keys

end WizardBoard

end PalmEngine.Wizard
