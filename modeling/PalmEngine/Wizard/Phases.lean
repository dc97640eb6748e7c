import PalmEngine.Wizard.Collection

/-!
# The phases of a wizard

The ticks of the leaves of a wizard. An interactive phase takes the input that is parked for it or
asks for one; the other ones run by themselves. A phase enters the scope of its step when it asks or
runs, except for the summary and for a transform without a scope, and leaves it when it succeeds.

What the validators, the resources, the workloads, the transforms and the commit handlers do is the
answer of the environment in the tick. A phase that raises pauses on an interrupted board.
-/

namespace PalmEngine.Wizard

open PalmEngine.Lib PalmEngine.Context PalmEngine.BehaviorTree

/-- What the work of a step leaves behind whatever its end is. -/
def WizardBoard.afterWork {ε : Type} (a : LeafAnswer ε) (b : WizardBoard) : WizardBoard :=
  let b := b.publish a.writes
  if a.rebinds then { b with context := b.context.map fun _ => false } else b

section Phases

variable {ε : Type} (env : WizardEnv ε) (a : LeafAnswer ε) (slug : String)

/-- Raise out of the tick. -/
def raiseOut (b : WizardBoard) : PatternStatus × WizardBoard := (.running, b.interrupt .raised)

/-- Succeed once what has been stored before is accepted. -/
def succeed (finish : WizardBoard → WizardBoard) (b : WizardBoard) : PatternStatus × WizardBoard :=
  if b.interrupted.isSome then (.running, b) else (.success, finish b)

/-- Ask for an answer in the scope of the step. -/
def inputRequest (b : WizardBoard) : PatternStatus × WizardBoard := ask slug (b.enterStep slug)

/-- Take an answer: it is asked for again unless it is accepted. -/
def inputHandle (b : WizardBoard) : PatternStatus × WizardBoard :=
  if a.raises then raiseOut b
  else if !a.valid then ask slug b
  else
    succeed (fun b => { (b.leaveStep slug).clearPrompt with jumpTo := a.jump <|> b.jumpTo })
      (persist env a a.results b)

/-- Take the answer to a summary: no goes back to the step before. -/
def summaryHandle (stepIndex : ℕ) (value : Value) (b : WizardBoard) : PatternStatus × WizardBoard :=
  if !a.valid then ask slug b
  else if isNegative env.text value then
    (.running, { b.clearPrompt with backtrackTo := some (.index (stepIndex - 1)) })
  else if !isAffirmative env.text value then ask slug b
  else (.success, (b.leaveStep slug).clearPrompt)

/-- Take the answer to a commit: yes runs the handler. -/
def commitHandle (value : Value) (b : WizardBoard) : PatternStatus × WizardBoard :=
  if !a.valid then ask slug b
  else if !isAffirmative env.text value then ask slug b
  else
    let b := b.mergeCompositional.afterWork a
    if a.raises then raiseOut b
    else if a.effect = .success then
      (.success, ({ b with committed := true }.leaveStep slug).clearPrompt)
    else (.failure, { b with committed := false })

/-- Run a transform, in the scope of the step if it has one. -/
def transformTick (inScope : Bool) (b : WizardBoard) : PatternStatus × WizardBoard :=
  let leave (b : WizardBoard) : WizardBoard := if inScope then b.leaveStep slug else b
  let b := ((if inScope then b.enterStep slug else b).prompt slug false).afterWork a
  if a.raises then raiseOut b
  else if a.effect = .success then
    succeed (fun b => (leave b).clearPrompt) (persist env a a.results b)
  else (.failure, leave (b.prompt slug false))

/-- Finish a resource step with what the resource has returned. -/
def resourceFinish (b : WizardBoard) : PatternStatus × WizardBoard :=
  succeed (fun b => (b.leaveStep slug).clearPrompt) (persist env a a.results b)

/-- Invoke a resource, unless a nested job is waited for or has delivered. -/
def resourceTick (b : WizardBoard) : PatternStatus × WizardBoard :=
  match a.park with
  | .held => (.waitingForInput, b.prompt slug false)
  | .delivered => resourceFinish env a slug b
  | .absent =>
    let b := (((b.enterStep slug).prompt slug false).promoteBindingKeys).afterWork a
    if a.raises then raiseOut b
    else
      match a.effect with
      | .success => resourceFinish env a slug b
      | .waitingForInput => (.waitingForInput, b.prompt slug false)
      | .failure | .running =>
        if a.recovers then
          (.success, { (((b.publish a.results).leaveStep slug).clearPrompt.setAnswers a.results) with
            jumpTo := a.jump <|> b.jumpTo })
        else (.failure, (b.prompt slug false).leaveStep slug)

/-- Run a workload; a failure is reported with an argument too many, which raises. -/
def workloadTick (b : WizardBoard) : PatternStatus × WizardBoard :=
  let b := (((b.enterStep slug).prompt slug false).promoteAnswers).afterWork a
  if a.raises then raiseOut b
  else
    match a.effect with
    | .running => (.running, b)
    | .success => (.success, (b.clearPrompt.setAnswers a.results).leaveStep slug)
    | .failure | .waitingForInput => raiseOut b

/-- The tick of the condition of a branch. -/
def conditionTick (b : WizardBoard) : PatternStatus × WizardBoard :=
  if a.raises then raiseOut b else (if a.holds then .success else .failure, b)

/-- The tick of a phase. -/
def phaseTick (stepIndex : ℕ) : PhaseKind → WizardBoard → PatternStatus × WizardBoard
  | .input | .introduction =>
    interactiveTick slug (fun _ => inputHandle env a slug) (inputRequest slug)
  | .summary => interactiveTick slug (summaryHandle env a slug stepIndex) (ask slug)
  | .commit => interactiveTick slug (commitHandle env a slug) (inputRequest slug)
  | .resource => resourceTick env a slug
  | .workload => workloadTick a slug
  | .collection config => collectionTick env a ⟨config, slug⟩
  | .transform inScope => transformTick env a slug inScope

end Phases

/-- What the environment answers in the ticks of the leaves. -/
abbrev LeafAnswers (ε : Type) := WizardLeaf → ℕ → LeafAnswer ε

/-- The tick of a leaf. -/
def tickLeaf {ε : Type} (env : WizardEnv ε) (answers : LeafAnswers ε) (leaf : WizardLeaf)
    (b : WizardBoard) : PatternStatus × WizardBoard :=
  let a := answers leaf b.clock
  match leaf with
  | .condition _ => conditionTick a (b.tickedAt leaf)
  | .phase slug stepIndex kind => phaseTick env a slug stepIndex kind (b.tickedAt leaf)

end PalmEngine.Wizard
