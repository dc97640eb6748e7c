import PalmEngine.Wizard.Sequence

/-!
# Fresh inputs

A step consumes an input for its latest prompt, which was active when the input was provided, in the
visit in which that prompt was published, if no tick that finds an input applies a backtrack or comes
after one that has failed. Inputs are parked by the slug of a step, and a backtrack leaves them; so
an input for a step that the wizard then goes back from is consumed by the next visit of that step.
-/

namespace PalmEngine.Wizard

open PalmEngine.Lib PalmEngine.Context PalmEngine.BehaviorTree

/-- A consumed input was provided for the latest prompt of the step that consumed it, in the same
visit. -/
def Consumption.Fresh (e : Consumption) : Prop :=
  e.mark.slug = e.slug ∧ e.mark.visit = e.visit ∧ e.latest = some e.mark

instance (e : Consumption) : Decidable e.Fresh := inferInstanceAs (Decidable (_ ∧ _))

namespace WizardBoard

/-- All inputs were fresh when they were consumed. -/
def FreshInputs (b : WizardBoard) : Prop := ∀ e ∈ b.consumed, e.Fresh

instance (b : WizardBoard) : Decidable b.FreshInputs :=
  inferInstanceAs (Decidable (∀ e ∈ b.consumed, e.Fresh))

/-- No input is parked. -/
def NoInputs (b : WizardBoard) : Prop := ∀ slug, b.inputs.get? slug = none

/-- An input is parked for the latest prompt of a leaf only. -/
def ParkedFor (leaf : WizardLeaf) (b : WizardBoard) : Prop :=
  ∀ slug parked, b.inputs.get? slug = some parked →
    leaf.interactive = true ∧ slug = leaf.slug ∧ parked.mark.slug = leaf.slug ∧
      parked.mark.visit = b.visit ∧ b.latest.get? leaf.slug = some parked.mark

/-- Between two steps no input is parked. -/
structure Rested (b : WizardBoard) : Prop where
  fresh : b.FreshInputs
  noInputs : b.NoInputs

/-- Where a leaf has paused inputs are for it, and more of them are if the tick was not
interrupted. -/
structure PausedFor (leaf : WizardLeaf) (b : WizardBoard) : Prop where
  fresh : b.FreshInputs
  parked : b.ParkedFor leaf
  asks : b.interrupted = none → b.Asks leaf.slug
  silent : leaf.interactive = false → b.interrupted = none → b.Silent

/-- Consuming the input for a leaf leaves no input, and it was fresh. -/
theorem rested_takenBy {leaf : WizardLeaf} {b : WizardBoard} (hfresh : b.FreshInputs)
    (hparked : b.ParkedFor leaf) : (b.takenBy leaf).Rested := by
  unfold takenBy
  split
  · unfold taken
    cases hslug : b.inputs.get? leaf.slug with
    | none =>
      refine ⟨hfresh, fun slug => ?_⟩
      cases hother : b.inputs.get? slug with
      | none => exact hother
      | some parked =>
        obtain ⟨-, rfl, -⟩ := hparked slug parked hother
        simp [hslug] at hother
    | some parked =>
      obtain ⟨-, -, hmark, hvisit, hlatest⟩ := hparked leaf.slug parked hslug
      constructor
      · intro e he
        rcases List.mem_append.mp he with he | he
        · exact hfresh e he
        · obtain rfl := List.mem_singleton.mp he
          exact ⟨hmark, hvisit, hlatest⟩
      · intro slug
        show (b.inputs.erase leaf.slug).get? slug = none
        rw [Dict.get?_erase]
        split
        · rfl
        · next hne =>
          cases hother : b.inputs.get? slug with
          | none => rfl
          | some other => exact absurd (hparked slug other hother).2.1 hne
  · next hnot =>
    refine ⟨hfresh, fun slug => ?_⟩
    cases hother : b.inputs.get? slug with
    | none => rfl
    | some parked => exact absurd (hparked slug parked hother).1 hnot

/-- An input that is provided where a leaf has paused is for it. -/
theorem PausedFor.provideInput {leaf : WizardLeaf} {b : WizardBoard} (h : b.PausedFor leaf)
    (hinterrupted : b.interrupted = none) (value : Value) :
    (b.provideInput value).PausedFor leaf := by
  unfold WizardBoard.provideInput
  split
  · next mark hactive =>
    obtain ⟨hslug, hvisit, hlatest⟩ := h.asks hinterrupted mark hactive
    have hinteractive : leaf.interactive = true := by
      by_contra hnot
      exact h.silent (by simpa using hnot) hinterrupted mark hactive
    refine ⟨h.fresh, fun slug parked hparked => ?_, h.asks, h.silent⟩
    by_cases hsame : slug = mark.slug
    · subst hsame
      obtain rfl : (⟨value, mark⟩ : ParkedInput) = parked := by simpa using hparked
      exact ⟨hinteractive, hslug, hslug, hvisit, hlatest⟩
    · exact h.parked slug parked ((Dict.get?_set_ne _ _ hsame).symm.trans hparked)
  · exact h

end WizardBoard

open WizardBoard

section Leaves

variable {ε : Type} (env : WizardEnv ε) (answers : LeafAnswers ε) (c : WizardConfig)

/-- The leaves of a wizard consume fresh inputs. -/
theorem leavesKeep_rested :
    LeavesKeep env answers c Rested (fun leaf b => b.PausedFor leaf) := by
  intro leaf _ b hb
  have hfresh : b.FreshInputs := hb.elim Rested.fresh PausedFor.fresh
  have hparked : b.ParkedFor leaf := by
    rcases hb with hb | hb
    · intro slug parked hparked
      simp [hb.noInputs slug] at hparked
    · exact hb.parked
  have htaken : ((b.tickedAt leaf).takenBy leaf).Rested := rested_takenBy hfresh hparked
  have hsettles := settles_tickLeaf env answers leaf b
  have hrested : (tickLeaf env answers leaf b).2.Rested := by
    constructor
    · unfold FreshInputs
      rw [hsettles.keeps.consumed]
      exact htaken.fresh
    · unfold NoInputs
      rw [hsettles.keeps.inputs]
      exact htaken.noInputs
  unfold Leads
  split
  · next hyields =>
    refine ⟨hrested.fresh, fun slug parked hparked => ?_, hsettles.asks hyields,
      fun hnot => hsettles.silent hnot hyields⟩
    simp [hrested.noInputs slug] at hparked
  · exact hrested

/-- The moves of the sequence leave inputs where they are. -/
theorem movesKeep_rested : MovesKeep Rested (fun leaf b => b.PausedFor leaf) where
  beginVisit := fun _ hb => ⟨hb.fresh, hb.noInputs⟩
  takeJump := fun _ hb => ⟨hb.fresh, hb.noInputs⟩
  takeBacktrack := fun _ hb => ⟨hb.fresh, hb.noInputs⟩
  complete := fun _ hb => ⟨hb.fresh, hb.noInputs⟩
  merge := fun _ hb => ⟨hb.fresh, hb.noInputs⟩
  pausedTakeBacktrack := fun _ _ hb => ⟨hb.fresh, hb.parked, hb.asks, hb.silent⟩
  pausedMerge := fun _ _ hb => ⟨hb.fresh, hb.parked, hb.asks, hb.silent⟩

end Leaves

namespace WizardPattern

variable {ε : Type} {env : WizardEnv ε} {c : WizardConfig}

/-- Whether the tick before has paused. -/
def pausedBefore (w : WizardPattern c) : Bool := w.status.any isYieldingStatus

/-- A tick that finds an input applies no backtrack and comes after one that has paused. -/
def UndisturbedInput (w : WizardPattern c) : WizardCall ε → WizardPattern c → Prop
  | .tick _ _, _ => w.board.inputs.entries ≠ [] →
      w.pausedBefore = true ∧ appliedBacktrack c w.board = none
  | _, _ => True

instance (w : WizardPattern c) (call : WizardCall ε) (next : WizardPattern c) :
    Decidable (UndisturbedInput w call next) := by
  cases call <;> unfold UndisturbedInput <;> infer_instance

/-- The invariant: inputs were fresh, and where the wizard has paused they are for the leaf that it
goes on with. -/
structure InputsInvariant (w : WizardPattern c) : Prop where
  fresh : w.board.FreshInputs
  stands : w.pausedBefore = true →
    w.position.Stands (fun leaf b => b.PausedFor leaf ∧ b.completed = false) w.board

/-- A tick keeps the invariant. -/
theorem InputsInvariant.tick {answers : LeafAnswers ε} {rounds : ℕ} {w : WizardPattern c}
    {out : WizardTick c} (h : w.InputsInvariant)
    (hok : w.board.inputs.entries ≠ [] →
      w.pausedBefore = true ∧ appliedBacktrack c w.board = none)
    (hguard : guardTick env answers c rounds w.position w.board.bindState = some out) :
    (⟨out.position, out.board, some out.status⟩ : WizardPattern c).InputsInvariant := by
  have hnone : w.board.inputs.entries = [] → w.board.bindState.Rested := by
    intro hempty
    refine ⟨h.fresh, fun slug => ?_⟩
    show w.board.inputs.get? slug = none
    simp [Dict.get?, hempty]
  have hleads : Leads out.status
      (out.position.Stands (fun leaf b => b.PausedFor leaf ∧ b.completed = false) out.board)
      out.board.Rested := by
    refine guardTick_leads (leavesKeep_rested env answers c) movesKeep_rested ?_ ?_ ?_ hguard
    · by_cases hempty : w.board.inputs.entries = []
      · exact .inl (hnone hempty)
      · refine .inr ((h.stands (hok hempty).1).imp fun leaf hpaused => ?_)
        exact ⟨hpaused.1.fresh, hpaused.1.parked, hpaused.1.asks, hpaused.1.silent⟩
    · intro hcompleted
      by_cases hempty : w.board.inputs.entries = []
      · exact hnone hempty
      · obtain ⟨-, leaf, -, -, hnot⟩ := h.stands (hok hempty).1
        exact absurd (hcompleted.symm.trans hnot) Bool.noConfusion
    · intro index happlied
      by_cases hempty : w.board.inputs.entries = []
      · exact ⟨(hnone hempty).fresh, (hnone hempty).noInputs⟩
      · have hnot : appliedBacktrack c w.board = some index := happlied
        rw [(hok hempty).2] at hnot
        cases hnot
  constructor
  · by_cases hyields : isYieldingStatus out.status = true
    · obtain ⟨-, leaf, -, hpaused, -⟩ := hleads.paused hyields
      exact hpaused.fresh
    · exact (hleads.between (by simpa using hyields)).fresh
  · intro hyields
    exact hleads.paused hyields

/-- A call keeps the invariant. -/
theorem InputsInvariant.step {w w' : WizardPattern c} {call : WizardCall ε} (h : w.InputsInvariant)
    (hstep : w.step env call = some w') (hok : UndisturbedInput w call w') :
    w'.InputsInvariant := by
  have hnone : ¬ w.board.interrupted.isSome → w.board.interrupted = none := by simp
  cases call with
  | provideInput value =>
    simp only [WizardPattern.step] at hstep
    split at hstep
    · cases hstep
    · next hinterrupted =>
      obtain rfl := Option.some.inj hstep
      constructor
      · show (w.board.provideInput value).FreshInputs
        unfold WizardBoard.provideInput
        split <;> exact h.fresh
      · intro hyields
        refine (h.stands hyields).imp fun leaf hpaused => ?_
        refine ⟨hpaused.1.provideInput (hnone hinterrupted) value, ?_⟩
        unfold WizardBoard.provideInput
        split <;> exact hpaused.2
  | requestBacktrack slug =>
    simp only [WizardPattern.step] at hstep
    split at hstep
    · cases hstep
    · obtain rfl := Option.some.inj hstep
      unfold WizardPattern.requestBacktrack
      split
      · refine ⟨h.fresh, fun hyields => (h.stands hyields).imp fun leaf hpaused => ?_⟩
        exact ⟨⟨hpaused.1.fresh, hpaused.1.parked, hpaused.1.asks, hpaused.1.silent⟩, hpaused.2⟩
      · exact h
  | tick answers rounds =>
    simp only [WizardPattern.step] at hstep
    split at hstep
    · cases hstep
    · obtain ⟨out, hguard, rfl⟩ := Option.map_eq_some_iff.mp hstep
      exact h.tick hok hguard

/-- In every run of inputs, backtracks and ticks of a wizard in which no tick that finds an input
applies a backtrack or comes after one that has not paused, every input was provided for the latest
prompt of the step that consumed it, in the same visit of that step. -/
theorem freshInputs_run {publicKeys : Dict String Value} {scopes : List String}
    {context : Option Bool} {calls : List (WizardCall ε)} {w : WizardPattern c}
    (hok : AllSteps (step env) UndisturbedInput (start c publicKeys scopes context) calls)
    (hrun : runSteps (step env) (start c publicKeys scopes context) calls = some w) :
    w.board.FreshInputs := by
  have hstart : (start c publicKeys scopes context).InputsInvariant := by
    refine ⟨fun e he => ?_, fun hyields => ?_⟩
    · exact absurd he List.not_mem_nil
    · cases hyields
  exact (invariant_of_allSteps (fun _ _ _ h hstep hok => InputsInvariant.step h hstep hok)
    hstart hok hrun).fresh

/-- The calls up to the summary of a wizard with one input step. -/
def toSummary : List (WizardCall Unit) :=
  [.tick plainAnswers 3, .provideInput (.str "x"), .tick plainAnswers 3]

/-- A wizard that is taken back before its summary is answered. -/
theorem freshInputs_run_backtrack : ∃ w : WizardPattern inputAndSummary,
    runSteps (step plainEnv) (start inputAndSummary .empty [] none)
      (toSummary ++ [.requestBacktrack "a", .tick plainAnswers 3, .provideInput (.str "y"),
        .tick plainAnswers 3, .provideInput (.str "yes"), .tick plainAnswers 3]) = some w ∧
      w.board.FreshInputs := by
  have hsome : (runSteps (step plainEnv) (start inputAndSummary .empty [] none)
      (toSummary ++ [.requestBacktrack "a", .tick plainAnswers 3, .provideInput (.str "y"),
        .tick plainAnswers 3, .provideInput (.str "yes"), .tick plainAnswers 3])).isSome = true := by
    decide +kernel
  obtain ⟨w, hrun⟩ := Option.isSome_iff_exists.mp hsome
  refine ⟨w, hrun, freshInputs_run ?_ hrun⟩
  decide +kernel

/-- A summary is answered, and then the wizard is taken back before the next tick; the summary of the
next visit takes the old answer. -/
theorem freshInputs_run_fails : ¬ ∀ (env : WizardEnv Unit) (c : WizardConfig)
    (publicKeys : Dict String Value) (scopes : List String) (context : Option Bool)
    (calls : List (WizardCall Unit)) (w : WizardPattern c),
    runSteps (step env) (start c publicKeys scopes context) calls = some w →
      w.board.FreshInputs := by
  intro h
  have hends : (runSteps (step plainEnv) (start inputAndSummary .empty [] none)
      (toSummary ++ [.provideInput (.str "yes"), .requestBacktrack "a", .tick plainAnswers 3,
        .provideInput (.str "y"), .tick plainAnswers 3])).any
      (fun w => !decide w.board.FreshInputs) = true := by decide +kernel
  obtain ⟨w, hrun, hbad⟩ := (Option.any_eq_true _ _).mp hends
  have hfresh := h _ _ _ _ _ _ w hrun
  simp [hfresh] at hbad

end WizardPattern

end PalmEngine.Wizard
