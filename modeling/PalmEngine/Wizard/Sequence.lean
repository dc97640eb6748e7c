import PalmEngine.Lib.Runs
import PalmEngine.Wizard.Prompts

/-!
# The sequence of a wizard

The steps of a wizard are ticked one after the other until one pauses. A queued backtrack is applied
when a tick begins: all steps are reset, and the wizard goes on with the step that it goes back to. A
step that succeeds may have queued a jump. The sequence starts again after it has failed.

Inputs and backtracks come between the ticks in any order. A tick that raises is the last one.
-/

namespace PalmEngine.Wizard

open PalmEngine.Lib PalmEngine.Context PalmEngine.BehaviorTree

namespace WizardBoard

/-- The blackboard at the start of a wizard. -/
def initial (publicKeys : Dict String Value) (scopes : List String) (context : Option Bool) :
    WizardBoard :=
  { publicKeys, scopes, context }

/-- Go on to the next visit of a step. -/
def beginVisit (b : WizardBoard) : WizardBoard := { b with visit := b.visit + 1 }

/-- Take a queued jump. -/
def takeJump (b : WizardBoard) : WizardBoard := { b with jumpTo := none }

/-- Take a queued backtrack. -/
def takeBacktrack (b : WizardBoard) : WizardBoard := { b with backtrackTo := none }

/-- Finish the wizard. -/
def complete (b : WizardBoard) : WizardBoard := { b.clearPrompt with completed := true }

/-- Bind the context engine to this state. -/
def bindState (b : WizardBoard) : WizardBoard := { b with context := b.context.map fun _ => true }

end WizardBoard

/-- Where the sequence of a wizard stands, and what the trees of its steps hold. -/
structure WizardPosition (c : WizardConfig) where
  index : ℕ
  held : (i : Fin c.count) → (c.stepTree i).Held

/-- What a tick returns, with the position and the blackboard after it. -/
structure WizardTick (c : WizardConfig) where
  status : PatternStatus
  position : WizardPosition c
  board : WizardBoard

section Sequence

variable {ε : Type} (env : WizardEnv ε) (answers : LeafAnswers ε) (c : WizardConfig)

/-- The position of a sequence that is reset to a step. -/
def WizardPosition.reset (index : ℕ) : WizardPosition c := ⟨index, fun i => (c.stepTree i).reset⟩

/-- The index of the step that a backtrack goes to, if it may. -/
def resolveBacktrackTarget : BacktrackTarget → Option ℕ
  | .index i => (c.iterTreeSteps[i]?).bind fun step =>
      if c.canBacktrackTo step.slug then some i else none
  | .slug slug => if c.canBacktrackTo slug then c.indexOf slug else none

/-- The step to which a queued backtrack goes. -/
def appliedBacktrack (b : WizardBoard) : Option ℕ := b.backtrackTo.bind (resolveBacktrackTarget c)

/-- Apply a queued backtrack. -/
def applyBacktrack (p : WizardPosition c) (b : WizardBoard) : WizardPosition c × WizardBoard :=
  match appliedBacktrack c b with
  | none => (p, b.takeBacktrack)
  | some index => (.reset c index, b.takeBacktrack.clearPrompt.beginVisit)

/-- The index after a jump; a jump to no step of the sequence goes on with the next step. -/
def jumpIndex (index : ℕ) : Option String → ℕ
  | none => index + 1
  | some target =>
    if target = "__end__" then c.count else (c.indexOf target).getD (index + 1)

/-- Tick the steps from the current one on, at most so many, until one pauses or fails. -/
def sequenceLoop : ℕ → WizardPosition c → WizardBoard → Option (WizardTick c)
  | 0, _, _ => none
  | rounds + 1, p, b =>
    if h : p.index < c.count then
      ((c.stepTree ⟨p.index, h⟩).tick (tickLeaf env answers) 0 (p.held ⟨p.index, h⟩) b).bind
        fun out =>
          let held := Function.update p.held ⟨p.index, h⟩ out.held
          if isYieldingStatus out.status then some ⟨out.status, ⟨p.index, held⟩, out.state⟩
          else if out.status = .failure then some ⟨.failure, ⟨0, held⟩, out.state.beginVisit⟩
          else sequenceLoop rounds ⟨jumpIndex c p.index out.state.jumpTo, held⟩
            out.state.beginVisit.takeJump
    else some ⟨.success, ⟨0, p.held⟩, b⟩

/-- The tick of the sequence. -/
def sequenceTick (rounds : ℕ) (p : WizardPosition c) (b : WizardBoard) : Option (WizardTick c) :=
  let applied := applyBacktrack c p b
  sequenceLoop env answers c rounds applied.1 applied.2

/-- The tick of the wizard: it is completed once the sequence has succeeded, and with a commit step
only if it is committed. -/
def guardTick (rounds : ℕ) (p : WizardPosition c) (b : WizardBoard) : Option (WizardTick c) :=
  if b.completed then some ⟨.success, p, b⟩
  else
    (sequenceTick env answers c rounds p b.mergeCompositional).map fun out =>
      if out.status ≠ .success then out
      else if c.includeCommit ∧ out.board.committed = false then { out with status := .failure }
      else { out with board := out.board.complete }

end Sequence

/-- A wizard between two calls, with what the tick before has returned. -/
structure WizardPattern (c : WizardConfig) where
  position : WizardPosition c
  board : WizardBoard
  status : Option PatternStatus

/-- The calls of a wizard; a tick has its answers and ends within so many steps. -/
inductive WizardCall (ε : Type) where
  | provideInput (value : Value)
  | requestBacktrack (slug : String)
  | tick (answers : LeafAnswers ε) (rounds : ℕ)

namespace WizardPattern

variable {ε : Type} (env : WizardEnv ε) {c : WizardConfig}

/-- A new wizard. -/
def start (c : WizardConfig) (publicKeys : Dict String Value) (scopes : List String)
    (context : Option Bool) : WizardPattern c :=
  ⟨.reset c 0, .initial publicKeys scopes context, none⟩

/-- Queue a backtrack; it is refused unless it goes to a step that is not protected. -/
def requestBacktrack (slug : String) (b : WizardBoard) : WizardBoard :=
  if c.canBacktrackTo slug ∧ (c.indexOf slug).isSome then
    { b with backtrackTo := some (.slug slug) }
  else b

/-- The effect of a call. -/
def step (w : WizardPattern c) : WizardCall ε → Option (WizardPattern c)
  | .provideInput value =>
    if w.board.interrupted.isSome then none
    else some { w with board := w.board.provideInput value }
  | .requestBacktrack slug =>
    if w.board.interrupted.isSome then none
    else some { w with board := requestBacktrack (c := c) slug w.board }
  | .tick answers rounds =>
    if w.board.interrupted.isSome then none
    else (guardTick env answers c rounds w.position w.board.bindState).map fun out =>
      ⟨out.position, out.board, some out.status⟩

end WizardPattern

section Plain

/-- Operations on texts that are compared as they are. -/
def plainText : TextOps := ⟨id, id, fun _ => none⟩

/-- An environment without a schema in which fields take any value. -/
def plainEnv : WizardEnv Unit :=
  { hasSchema := false, text := plainText, label := fun _ index _ => toString index
    prepareStepInput := fun _ _ value => some value, validateStepInput := fun _ _ _ => true }

/-- Every answer is accepted, and all work succeeds. -/
def plainAnswers : LeafAnswers Unit := fun _ _ => { seen := () }

/-- A wizard with one input step and a summary. -/
def inputAndSummary : WizardConfig where
  steps := [.phase "a" .input false]
  includeSummary := true
  steps_ne_nil := List.cons_ne_nil _ _
  nodup_slugs := by decide

end Plain

section Rules

variable {ε : Type} {env : WizardEnv ε} {answers : LeafAnswers ε} {c : WizardConfig}
  {between : WizardBoard → Prop} {paused : WizardLeaf → WizardBoard → Prop}

/-- The sequence stands at a leaf that has paused. -/
def WizardPosition.Stands (paused : WizardLeaf → WizardBoard → Prop) (p : WizardPosition c)
    (b : WizardBoard) : Prop :=
  ∃ h : p.index < c.count, (c.stepTree ⟨p.index, h⟩).PausedLeaf paused (p.held ⟨p.index, h⟩) b

/-- What holds where a leaf has paused may be weakened or changed with the board. -/
theorem WizardPosition.Stands.imp {paused' : WizardLeaf → WizardBoard → Prop}
    {p : WizardPosition c} {b b' : WizardBoard} (h : p.Stands paused b)
    (himp : ∀ leaf, paused leaf b → paused' leaf b') : p.Stands paused' b' := by
  obtain ⟨hlt, leaf, hcurrent, hpaused⟩ := h
  exact ⟨hlt, leaf, hcurrent, himp leaf hpaused⟩

/-- What the leaves of a wizard keep between them and where they pause. -/
def LeavesKeep (env : WizardEnv ε) (answers : LeafAnswers ε) (c : WizardConfig)
    (between : WizardBoard → Prop) (paused : WizardLeaf → WizardBoard → Prop) : Prop :=
  ∀ leaf ∈ c.leaves, ∀ b, between b ∨ paused leaf b →
    Leads (tickLeaf env answers leaf b).1 (paused leaf (tickLeaf env answers leaf b).2)
      (between (tickLeaf env answers leaf b).2)

/-- What the leaves keep is kept together with not being completed. -/
theorem LeavesKeep.and_not_completed (h : LeavesKeep env answers c between paused) :
    LeavesKeep env answers c (fun b => between b ∧ b.completed = false)
      (fun leaf b => paused leaf b ∧ b.completed = false) := by
  intro leaf hleaf b hb
  have hcompleted : b.completed = false := hb.elim And.right And.right
  have hout := h leaf hleaf b (hb.imp And.left And.left)
  have hkept := (tickLeaf_visit_completed env answers leaf b).2.trans hcompleted
  unfold Leads at hout ⊢
  split
  · next hyields => exact ⟨by rwa [if_pos hyields] at hout, hkept⟩
  · next hyields => exact ⟨by rwa [if_neg hyields] at hout, hkept⟩

/-- What the sequence itself does to the blackboard keeps a fact between the steps, and one where a
leaf has paused. -/
structure MovesKeep (between : WizardBoard → Prop) (paused : WizardLeaf → WizardBoard → Prop) :
    Prop where
  beginVisit : ∀ b, between b → between b.beginVisit
  takeJump : ∀ b, between b → between b.takeJump
  takeBacktrack : ∀ b, between b → between b.takeBacktrack
  complete : ∀ b, between b → between b.complete
  merge : ∀ b, between b → between b.mergeCompositional
  pausedTakeBacktrack : ∀ leaf b, paused leaf b → paused leaf b.takeBacktrack
  pausedMerge : ∀ leaf b, paused leaf b → paused leaf b.mergeCompositional

/-- The loop over the steps keeps what their leaves keep. -/
theorem sequenceLoop_leads (hleaves : LeavesKeep env answers c between paused)
    (hvisit : ∀ b, between b → between b.beginVisit)
    (hjump : ∀ b, between b → between b.takeJump) (rounds : ℕ) :
    ∀ (p : WizardPosition c) (b : WizardBoard) (out : WizardTick c),
      between b ∨ p.Stands paused b → sequenceLoop env answers c rounds p b = some out →
      Leads out.status (out.position.Stands paused out.board) (between out.board) := by
  induction rounds with
  | zero =>
    intro p b out _ hloop
    cases hloop
  | succ rounds ih =>
    intro p b out hb hloop
    rw [sequenceLoop] at hloop
    split at hloop
    · next hlt =>
      obtain ⟨mid, hmid, hrest⟩ := Option.bind_eq_some_iff.mp hloop
      have hstart : between b ∨
          (c.stepTree ⟨p.index, hlt⟩).PausedLeaf paused (p.held ⟨p.index, hlt⟩) b :=
        hb.imp_right fun hstands => hstands.2
      have hmidLeads := Node.tick_leads (tickLeaf env answers) 0
        (fun leaf b hleaf hb => hleaves leaf hleaf b hb) _
        (c.sequential_stepTree ⟨p.index, hlt⟩) _ b mid hstart hmid
      simp only at hrest
      split at hrest
      · next hyields =>
        obtain rfl := Option.some.inj hrest
        simp only [Leads, hyields, if_true]
        refine ⟨hlt, ?_⟩
        simpa using hmidLeads.paused hyields
      · next hyields =>
        have hbetween := hmidLeads.between (by simpa using hyields)
        split at hrest
        · obtain rfl := Option.some.inj hrest
          exact hvisit _ hbetween
        · exact ih _ _ out (.inl (hjump _ (hvisit _ hbetween))) hrest
    · next hlt =>
      have hbetween : between b := by
        rcases hb with hb | ⟨hlt', -⟩
        · exact hb
        · exact absurd hlt' hlt
      obtain rfl := Option.some.inj hloop
      exact hbetween

/-- The tick of a wizard keeps what its leaves and moves keep, if a backtrack that it applies leads
between the steps. -/
theorem guardTick_leads (hleaves : LeavesKeep env answers c between paused)
    (hmoves : MovesKeep between paused) {rounds : ℕ} {p : WizardPosition c} {b : WizardBoard}
    {out : WizardTick c} (hstart : between b ∨ p.Stands paused b)
    (hcompleted : b.completed = true → between b)
    (hbacktrack : ∀ index, appliedBacktrack c b = some index →
      between b.mergeCompositional.takeBacktrack.clearPrompt.beginVisit)
    (hguard : guardTick env answers c rounds p b = some out) :
    Leads out.status
      (out.position.Stands (fun leaf b => paused leaf b ∧ b.completed = false) out.board)
      (between out.board) := by
  unfold guardTick at hguard
  split at hguard
  · next hdone =>
    obtain rfl := Option.some.inj hguard
    exact hcompleted hdone
  · next hdone =>
    have hdone : b.completed = false := by simpa using hdone
    obtain ⟨mid, hmid, rfl⟩ := Option.map_eq_some_iff.mp hguard
    have happlied : (between (applyBacktrack c p b.mergeCompositional).2 ∧
          (applyBacktrack c p b.mergeCompositional).2.completed = false) ∨
        (applyBacktrack c p b.mergeCompositional).1.Stands
          (fun leaf b => paused leaf b ∧ b.completed = false)
          (applyBacktrack c p b.mergeCompositional).2 := by
      have hsame : appliedBacktrack c b.mergeCompositional = appliedBacktrack c b := rfl
      unfold applyBacktrack
      rw [hsame]
      split
      · refine hstart.imp (fun hb => ?_) fun hstands => hstands.imp fun leaf hpaused => ?_
        · exact ⟨hmoves.takeBacktrack _ (hmoves.merge b hb), hdone⟩
        · exact ⟨hmoves.pausedTakeBacktrack leaf _ (hmoves.pausedMerge leaf b hpaused), hdone⟩
      · next index happlied => exact .inl ⟨hbacktrack index happlied, hdone⟩
    have hmidLeads := sequenceLoop_leads hleaves.and_not_completed
      (fun b hb => ⟨hmoves.beginVisit b hb.1, hb.2⟩) (fun b hb => ⟨hmoves.takeJump b hb.1, hb.2⟩)
      rounds _ _ mid happlied hmid
    split
    · unfold Leads at hmidLeads ⊢
      split
      · next hyields => rwa [if_pos hyields] at hmidLeads
      · next hyields => rw [if_neg hyields] at hmidLeads; exact hmidLeads.1
    · next hsuccess =>
      have hsuccess : mid.status = .success := by simpa using hsuccess
      have hbetween : between mid.board := (hmidLeads.between (by rw [hsuccess]; rfl)).1
      split
      · exact hbetween
      · have hends : isYieldingStatus mid.status = false := by rw [hsuccess]; rfl
        simpa [Leads, hends] using hmoves.complete _ hbetween

end Rules

end PalmEngine.Wizard
