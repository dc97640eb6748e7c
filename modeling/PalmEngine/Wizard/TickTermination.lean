import PalmEngine.Lib.Concatenation
import PalmEngine.Wizard.Automatic
import PalmEngine.Wizard.ScopeBinding

/-!
# The end of a tick

A tick goes from step to step until one pauses or fails. A step that takes an input uses it up, and
no inputs come within a tick; so a tick does not end only if from some point on no step takes an
input, and then the steps lead to each other by themselves. A resource that goes on at its own step
or at an earlier one when it fails can lead so forever.
-/

namespace PalmEngine.Wizard

open PalmEngine.Lib PalmEngine.Context PalmEngine.BehaviorTree

variable {ε : Type} {env : WizardEnv ε} {answers : LeafAnswers ε} {c : WizardConfig}
  {failures : String → ResourceFailure}

section Positions

/-- Only the step at which the sequence stands is in the middle of a run. -/
structure WizardPosition.InOrder (p : WizardPosition c) : Prop where
  ready : ∀ i, (c.stepTree i).Ready (p.held i)
  rested : ∀ i : Fin c.count, i.val ≠ p.index → (c.stepTree i).Rested (p.held i)

/-- A sequence all of whose steps are at rest is in order. -/
theorem WizardPosition.InOrder.of_rested {p : WizardPosition c}
    (h : ∀ i, (c.stepTree i).Rested (p.held i)) : p.InOrder :=
  ⟨fun i => (h i).ready, fun i _ => h i⟩

/-- A sequence that is reset is in order. -/
theorem WizardPosition.InOrder.of_reset (index : ℕ) : (WizardPosition.reset c index).InOrder :=
  .of_rested fun i => (c.stepTree i).rested_reset

/-- A sequence all of whose steps are at rest is reset. -/
theorem WizardPosition.eq_reset {p : WizardPosition c}
    (h : ∀ i, (c.stepTree i).Rested (p.held i)) : p = .reset c p.index := by
  obtain ⟨index, held⟩ := p
  have hheld : held = fun i => (c.stepTree i).reset := by
    funext i
    exact (h i).eq_reset (c.sequential_stepTree i).parallelFree
  rw [hheld]
  rfl

/-- The tick of the current step. -/
def tickCurrent (env : WizardEnv ε) (answers : LeafAnswers ε) (p : WizardPosition c)
    (hlt : p.index < c.count) (b : WizardBoard) :
    Option (Ticked (c.stepTree ⟨p.index, hlt⟩).Held WizardBoard) :=
  (c.stepTree ⟨p.index, hlt⟩).tick (tickLeaf env answers) 0 (p.held ⟨p.index, hlt⟩) b

/-- After the current step has been ticked it is ready, and at rest unless it has paused. -/
theorem WizardPosition.InOrder.update {p : WizardPosition c} (h : p.InOrder)
    (hlt : p.index < c.count) {b : WizardBoard} {out}
    (htick : tickCurrent env answers p hlt b = some out) :
    WizardPosition.InOrder ⟨p.index, Function.update p.held ⟨p.index, hlt⟩ out.held⟩ ∧
      (isYieldingStatus out.status = false → ∀ i,
        (c.stepTree i).Rested (Function.update p.held ⟨p.index, hlt⟩ out.held i)) := by
  obtain ⟨hready, hrested⟩ := Node.tick_settles (tickLeaf env answers) 0 _ _ b out (h.ready _) htick
  have hothers : ∀ i : Fin c.count, i.val ≠ p.index →
      (c.stepTree i).Rested (Function.update p.held ⟨p.index, hlt⟩ out.held i) := by
    intro i hi
    rw [Function.update_of_ne (fun heq => hi (congrArg Fin.val heq))]
    exact h.rested i hi
  refine ⟨⟨fun i => ?_, hothers⟩, fun hends i => ?_⟩
  · by_cases hi : i = ⟨p.index, hlt⟩
    · subst hi
      simpa using hready
    · simpa [Function.update_of_ne hi] using h.ready i
  · by_cases hi : i = ⟨p.index, hlt⟩
    · subst hi
      simpa using hrested hends
    · exact hothers i fun heq => hi (Fin.ext heq)

/-- The loop over the steps keeps the sequence in order. -/
theorem sequenceLoop_inOrder (rounds : ℕ) : ∀ (p : WizardPosition c) (b : WizardBoard)
    (out : WizardTick c), p.InOrder → sequenceLoop env answers c rounds p b = some out →
      out.position.InOrder := by
  induction rounds with
  | zero =>
    intro p b out _ hloop
    cases hloop
  | succ rounds ih =>
    intro p b out h hloop
    rw [sequenceLoop] at hloop
    split at hloop
    · next hlt =>
      obtain ⟨mid, hmid, hrest⟩ := Option.bind_eq_some_iff.mp hloop
      obtain ⟨horder, hrested⟩ := h.update hlt hmid
      simp only at hrest
      split at hrest
      · obtain rfl := Option.some.inj hrest
        exact horder
      · next hyields =>
        have hall := hrested (by simpa using hyields)
        split at hrest
        · obtain rfl := Option.some.inj hrest
          exact .of_rested hall
        · exact ih _ _ out (.of_rested hall) hrest
    · next hge =>
      obtain rfl := Option.some.inj hloop
      exact .of_rested fun i => h.rested i (by omega)

/-- The tick of a wizard keeps its sequence in order. -/
theorem guardTick_inOrder {rounds : ℕ} {p : WizardPosition c} {b : WizardBoard} {out : WizardTick c}
    (h : p.InOrder) (hguard : guardTick env answers c rounds p b = some out) :
    out.position.InOrder := by
  unfold guardTick at hguard
  split at hguard
  · obtain rfl := Option.some.inj hguard
    exact h
  · obtain ⟨mid, hmid, rfl⟩ := Option.map_eq_some_iff.mp hguard
    have happlied : (applyBacktrack c p b.mergeCompositional).1.InOrder := by
      unfold applyBacktrack
      split
      · exact h
      · exact .of_reset _
    have horder := sequenceLoop_inOrder rounds _ _ mid happlied hmid
    split
    · exact horder
    · split <;> exact horder

/-- The calls of a wizard keep its sequence in order. -/
theorem WizardPattern.step_inOrder (w : WizardPattern c) (call : WizardCall ε) (w' : WizardPattern c)
    (h : w.position.InOrder) (hstep : w.step env call = some w') : w'.position.InOrder := by
  cases call with
  | provideInput value | requestBacktrack slug =>
    simp only [WizardPattern.step] at hstep
    split at hstep
    · cases hstep
    · obtain rfl := Option.some.inj hstep
      exact h
  | tick answers rounds =>
    simp only [WizardPattern.step] at hstep
    split at hstep
    · cases hstep
    · obtain ⟨out, hout, rfl⟩ := Option.map_eq_some_iff.mp hstep
      exact guardTick_inOrder h hout

end Positions

section Returns

/-- Steps that do not lead back to themselves lead nowhere forever. -/
theorem wellFounded_leadsTo (h : NoAutomaticCycle failures c) :
    WellFounded fun i' i => LeadsTo failures c i i' := by
  let later (i' i : Fin c.count) : Prop := Relation.TransGen (LeadsTo failures c) i i'
  have : IsTrans (Fin c.count) later := ⟨fun _ _ _ h₁ h₂ => h₂.trans h₁⟩
  have : Std.Irrefl later := ⟨fun i hi => h i hi⟩
  have hfinite : WellFounded later := Finite.wellFounded_of_trans_of_irrefl later
  have hbeyond : ∀ i, c.count ≤ i → Acc (fun i' i => LeadsTo failures c i i') i := fun i hi =>
    ⟨i, fun _ ⟨hlt, _⟩ => absurd hlt (Nat.not_lt.mpr hi)⟩
  have hwithin : ∀ i : Fin c.count, Acc (fun i' i => LeadsTo failures c i i') i := by
    intro i
    induction i using hfinite.induction with
    | _ i ih =>
      refine ⟨_, fun i' hleads => ?_⟩
      by_cases hlt : i' < c.count
      · exact ih ⟨i', hlt⟩ (.single hleads)
      · exact hbeyond i' (Nat.not_lt.mp hlt)
  refine ⟨fun i => ?_⟩
  by_cases hlt : i < c.count
  · exact hwithin ⟨i, hlt⟩
  · exact hbeyond i (Nat.not_lt.mp hlt)

/-- The tick of the current step returns. -/
theorem tickCurrent_returns (env : WizardEnv ε) (answers : LeafAnswers ε) (p : WizardPosition c)
    (hlt : p.index < c.count) (b : WizardBoard) : ∃ out, tickCurrent env answers p hlt b = some out :=
  Node.tick_returns (tickLeaf env answers) 0 _ (c.sequential_stepTree _) _ _

/-- The loop returns with the current step, or goes on at another one with all steps reset. -/
theorem sequenceLoop_goesOn (env : WizardEnv ε) (answers : LeafAnswers ε) {p : WizardPosition c}
    (horder : p.InOrder) (b : WizardBoard) :
    (∃ out, sequenceLoop env answers c 1 p b = some out) ∨
      ∃ (hlt : p.index < c.count) (out : Ticked (c.stepTree ⟨p.index, hlt⟩).Held WizardBoard),
        tickCurrent env answers p hlt b = some out ∧ isYieldingStatus out.status = false ∧
          out.status ≠ .failure ∧ ∀ rounds, sequenceLoop env answers c (rounds + 1) p b =
            sequenceLoop env answers c rounds (.reset c (jumpIndex c p.index out.state.jumpTo))
              out.state.beginVisit.takeJump := by
  by_cases hlt : p.index < c.count
  · obtain ⟨out, hout⟩ := tickCurrent_returns env answers p hlt b
    have hloop : ∀ rounds, sequenceLoop env answers c (rounds + 1) p b =
        if isYieldingStatus out.status then
          some ⟨out.status, ⟨p.index, Function.update p.held ⟨p.index, hlt⟩ out.held⟩, out.state⟩
        else if out.status = .failure then
          some ⟨.failure, ⟨0, Function.update p.held ⟨p.index, hlt⟩ out.held⟩, out.state.beginVisit⟩
        else sequenceLoop env answers c rounds
          ⟨jumpIndex c p.index out.state.jumpTo, Function.update p.held ⟨p.index, hlt⟩ out.held⟩
          out.state.beginVisit.takeJump := by
      intro rounds
      unfold tickCurrent at hout
      rw [sequenceLoop, dif_pos hlt, hout, Option.bind_some]
    by_cases hyields : isYieldingStatus out.status = true
    · exact .inl ⟨_, by rw [hloop 0, if_pos hyields]⟩
    · have hends : isYieldingStatus out.status = false := by simpa using hyields
      by_cases hfailure : out.status = .failure
      · exact .inl ⟨_, by rw [hloop 0, if_neg hyields, if_pos hfailure]⟩
      · refine .inr ⟨hlt, out, hout, hends, hfailure, fun rounds => ?_⟩
        rw [hloop rounds, if_neg hyields, if_neg hfailure]
        exact congrArg (fun p => sequenceLoop env answers c rounds p _)
          (WizardPosition.eq_reset ((horder.update hlt hout).2 hends))
  · exact .inl ⟨_, by rw [sequenceLoop, dif_neg hlt]⟩

/-- Without an automatic cycle the loop returns from a reset sequence: each further step uses up an
input, or is one to which the step before leads by itself. -/
theorem sequenceLoop_returns (env : WizardEnv ε) (hcycle : NoAutomaticCycle failures c)
    (hfollows : Follows failures answers) (inputs : ℕ) : ∀ (index : ℕ) (b : WizardBoard),
      b.inputs.entries.length = inputs → b.jumpTo = none →
        ∃ rounds out, sequenceLoop env answers c rounds (.reset c index) b = some out := by
  induction inputs using Nat.strong_induction_on with
  | _ inputs ihInputs =>
    intro index
    induction index using (wellFounded_leadsTo hcycle).induction with
    | _ index ihIndex =>
      intro b hinputs hjump
      rcases sequenceLoop_goesOn env answers (.of_reset index) b with hreturns | hgoes
      · exact ⟨1, hreturns⟩
      · obtain ⟨hlt, out, hout, hends, hfailure, hloop⟩ := hgoes
        have hspends := Node.tick_spends 0
          (fun leaf s _ => tickLeaf_spends env hfollows leaf s) _
          (c.sequential_stepTree ⟨index, hlt⟩) b out hout
        obtain ⟨rounds, last, hlast⟩ : ∃ rounds last, sequenceLoop env answers c rounds
            (.reset c (jumpIndex c index out.state.jumpTo)) out.state.beginVisit.takeJump =
              some last := by
          rcases hspends.size_le.lt_or_eq with hless | hsame
          · exact ihInputs _ (hinputs ▸ hless) _ _ rfl rfl
          · have hleads : LeadsTo failures c index (jumpIndex c index out.state.jumpTo) := by
              refine ⟨hlt, out.state.jumpTo, ?_, rfl⟩
              have hsuccess : out.status = .success := by
                cases hstatus : out.status with
                | success => rfl
                | failure => exact absurd hstatus hfailure
                | running | waitingForInput => simp [hstatus, isYieldingStatus] at hends
              simpa only [hjump, hsuccess] using hspends.ends hends hsame
            exact ihIndex _ hleads _ (hsame.trans hinputs) rfl
        exact ⟨rounds + 1, last, (hloop rounds).trans hlast⟩

/-- Without an automatic cycle the loop returns from a sequence that is in order. -/
theorem sequenceLoop_returns_of_inOrder (env : WizardEnv ε) (hcycle : NoAutomaticCycle failures c)
    (hfollows : Follows failures answers) {p : WizardPosition c} (h : p.InOrder) (b : WizardBoard) :
    ∃ rounds out, sequenceLoop env answers c rounds p b = some out := by
  rcases sequenceLoop_goesOn env answers h b with hreturns | ⟨_, out, _, _, _, hloop⟩
  · exact ⟨1, hreturns⟩
  · obtain ⟨rounds, last, hlast⟩ := sequenceLoop_returns env hcycle hfollows _
      (jumpIndex c p.index out.state.jumpTo) out.state.beginVisit.takeJump rfl rfl
    exact ⟨rounds + 1, last, (hloop rounds).trans hlast⟩

/-- Without an automatic cycle the tick of a wizard returns. -/
theorem guardTick_returns (env : WizardEnv ε) (hcycle : NoAutomaticCycle failures c)
    (hfollows : Follows failures answers) {p : WizardPosition c} (h : p.InOrder) (b : WizardBoard) :
    ∃ rounds out, guardTick env answers c rounds p b = some out := by
  unfold guardTick
  split
  · exact ⟨0, _, rfl⟩
  · have happlied : (applyBacktrack c p b.mergeCompositional).1.InOrder := by
      unfold applyBacktrack
      split
      · exact h
      · exact .of_reset _
    obtain ⟨rounds, out, hout⟩ :=
      sequenceLoop_returns_of_inOrder env hcycle hfollows happlied _
    exact ⟨rounds, _, Option.map_eq_some_iff.mpr ⟨out, hout, rfl⟩⟩

/-- A tick that returns has not hung in a loop over the scopes. -/
theorem guardTick_bound (hfollows : Follows failures answers) {rounds : ℕ} {p : WizardPosition c}
    {b : WizardBoard} {out : WizardTick c} (hbound : b.Bound)
    (hguard : guardTick env answers c rounds p b = some out) : out.board.Bound := by
  have hleaves : LeavesKeep env answers c WizardBoard.Bound fun _ b => b.Bound := by
    intro leaf _ b hb
    have hout := bound_tickLeaf env hfollows.binds leaf (hb.elim id id)
    unfold Leads
    split <;> exact hout
  have hmoves : MovesKeep WizardBoard.Bound fun _ b => b.Bound :=
    { beginVisit := fun _ h => ⟨h.reaches, h.returns⟩
      takeJump := fun _ h => ⟨h.reaches, h.returns⟩
      takeBacktrack := fun _ h => ⟨h.reaches, h.returns⟩
      complete := fun _ h => ⟨h.reaches, h.returns⟩
      merge := fun _ h => ⟨h.reaches, h.returns⟩
      pausedTakeBacktrack := fun _ _ h => ⟨h.reaches, h.returns⟩
      pausedMerge := fun _ _ h => ⟨h.reaches, h.returns⟩ }
  have hleads := guardTick_leads hleaves hmoves (.inl hbound) (fun _ => hbound)
    (fun _ _ => ⟨hbound.reaches, hbound.returns⟩) hguard
  unfold Leads at hleads
  split at hleads
  · obtain ⟨_, _, _, hpaused⟩ := hleads
    exact hpaused.1
  · exact hleads

end Returns

section Forever

variable {path : ℕ → ℕ}

/-- The tree of a step begins with a leaf. -/
theorem busy_stepTree (i : Fin c.count) : (c.stepTree i).Busy := by
  unfold WizardConfig.stepTree
  cases c.iterTreeSteps.get i with
  | phase slug kind refusesBacktrack => trivial
  | branch slug refusesBacktrack n thenSteps m elseSteps =>
    exact ⟨Nat.zero_lt_two, Nat.zero_lt_succ n, trivial⟩

/-- A script leads a step to another one to which it may lead by itself. -/
theorem exists_entries_of_leadsTo {i i' : ℕ} (h : LeadsTo failures c i i') :
    ∃ entries : List Bool, entries ≠ [] ∧ ∀ (script : ℕ → Bool) (b : WizardBoard),
      b.interrupted = none → b.jumpTo = none →
        (∀ m (hm : m < entries.length), script (b.clock + m) = entries[m]) →
          ∃ b', b'.interrupted = none ∧ b'.jumpTo = none ∧ b'.clock = b.clock + entries.length ∧
            ∀ rounds, sequenceLoop plainEnv (scriptedAnswers failures script) c (rounds + 1)
              (.reset c i) b =
                sequenceLoop plainEnv (scriptedAnswers failures script) c rounds (.reset c i') b' := by
  obtain ⟨hlt, j, hends, rfl⟩ := h
  have hled : Led WizardBoard.clock (fun b => b.interrupted = none) WizardBoard.jumpTo
      (fun script => (c.stepTree ⟨i, hlt⟩).tick
        (tickLeaf plainEnv (scriptedAnswers failures script)) 0 (c.stepTree ⟨i, hlt⟩).reset)
      (c.stepTree ⟨i, hlt⟩).reset (c.stepTree ⟨i, hlt⟩).Busy none .success j := by
    refine Node.tick_plays 0 (fun leaf j status j' _ hleaf => ?_) _
      (c.sequential_stepTree ⟨i, hlt⟩) none .success j hends
    obtain ⟨hends, good, hgood⟩ := tickLeaf_plays hleaf
    refine ⟨hends, good, fun script b hcalm hjump hscript => ?_⟩
    obtain ⟨hstatus, hcalm', hjump', hclock'⟩ := hgood script b hcalm hjump hscript
    exact ⟨_, Prod.ext hstatus rfl, hcalm', hjump', hclock'⟩
  obtain ⟨entries, hbusy, hplays⟩ := hled.plays
  refine ⟨entries, hbusy (busy_stepTree _), fun script b hcalm hjump hscript => ?_⟩
  obtain ⟨b', htick, hcalm', hjump', hclock'⟩ := hplays script b hcalm hjump hscript
  refine ⟨b'.beginVisit.takeJump, hcalm', rfl, hclock', fun rounds => ?_⟩
  have hlt' : (WizardPosition.reset c i).index < c.count := hlt
  rw [sequenceLoop, dif_pos hlt']
  simp only [WizardPosition.reset] at htick ⊢
  rw [htick, Option.bind_some]
  simp [isYieldingStatus, hjump']

/-- Along a path of steps that lead to each other by themselves the loop does not return. -/
theorem sequenceLoop_eq_none (hpath : ∀ k, LeadsTo failures c (path k) (path (k + 1))) :
    ∃ answers : LeafAnswers Unit, Follows failures answers ∧ ∀ rounds (b : WizardBoard),
      b.interrupted = none → b.jumpTo = none → b.clock = 0 →
        sequenceLoop plainEnv answers c rounds (.reset c (path 0)) b = none := by
  choose entries hne hentries using fun k => exists_entries_of_leadsTo (hpath k)
  have hnever : ∀ rounds k (b : WizardBoard), b.interrupted = none → b.jumpTo = none →
      b.clock = startOf entries k → sequenceLoop plainEnv
        (scriptedAnswers failures (concatenated entries)) c rounds (.reset c (path k)) b = none := by
    intro rounds
    induction rounds with
    | zero => exact fun _ _ _ _ _ => rfl
    | succ rounds ih =>
      intro k b hcalm hjump hclock
      obtain ⟨b', hcalm', hjump', hclock', hloop⟩ :=
        hentries k (concatenated entries) b hcalm hjump fun m hm => by
          rw [hclock, concatenated_startOf_add hne k m hm]
      rw [hloop rounds]
      exact ih (k + 1) b' hcalm' hjump' (by rw [hclock', hclock, startOf])
  exact ⟨_, follows_scriptedAnswers failures _, fun rounds => hnever rounds 0⟩

/-- A step that leads back to itself starts a path that does not end. -/
theorem exists_path (h : ¬ NoAutomaticCycle failures c) :
    ∃ path : ℕ → ℕ, ∀ k, LeadsTo failures c (path k) (path (k + 1)) := by
  unfold NoAutomaticCycle at h
  push Not at h
  obtain ⟨i, hi⟩ := h
  have hnot : ¬ WellFounded fun i' i => LeadsTo failures c i i' := by
    intro hwf
    have hswap : Relation.TransGen (fun i' i => LeadsTo failures c i i') i i :=
      Relation.transGen_swap.mpr hi
    exact hwf.transGen.irrefl.irrefl i hswap
  rw [wellFounded_iff_isEmpty_descending_chain, not_isEmpty_iff] at hnot
  obtain ⟨path, hpath⟩ := hnot
  exact ⟨path, hpath⟩

end Forever

/-- Every tick of a wizard that starts, or is restored, at one of its steps returns, whatever calls
came before and whatever its resources, workloads, transforms and conditions do. -/
def TicksReturn (failures : String → ResourceFailure) (c : WizardConfig) : Prop :=
  ∀ (ε : Type) (env : WizardEnv ε) (index : ℕ) (b : WizardBoard) (calls : List (WizardCall ε))
    (w : WizardPattern c) (answers : LeafAnswers ε), index < c.count →
    runSteps (WizardPattern.step env) ⟨.reset c index, b, none⟩ calls = some w →
    w.board.interrupted = none → Follows failures answers →
      ∃ rounds out, guardTick env answers c rounds w.position w.board.bindState = some out ∧
        out.board.interrupted ≠ some .hangs

/-- Where steps lead to each other by themselves forever, a tick does not return. -/
theorem not_ticksReturn {path : ℕ → ℕ} (hpath : ∀ k, LeadsTo failures c (path k) (path (k + 1))) :
    ¬ TicksReturn failures c := by
  intro hreturns
  obtain ⟨answers, hfollows, hnever⟩ := sequenceLoop_eq_none hpath
  obtain ⟨hlt, -⟩ := hpath 0
  obtain ⟨rounds, out, hout, -⟩ :=
    hreturns Unit plainEnv (path 0) {} [] _ answers hlt rfl rfl hfollows
  obtain ⟨mid, hmid, -⟩ := Option.map_eq_some_iff.mp hout
  cases (hnever rounds _ rfl rfl rfl).symm.trans hmid

/-- Every tick returns if and only if no step of the wizard leads back to itself without an
input. -/
theorem ticksReturn_iff (failures : String → ResourceFailure) (c : WizardConfig) :
    TicksReturn failures c ↔ NoAutomaticCycle failures c := by
  constructor
  · intro hreturns
    by_contra hcycle
    obtain ⟨path, hpath⟩ := exists_path hcycle
    exact not_ticksReturn hpath hreturns
  · intro hcycle ε env index b calls w answers _ hrun hcalm hfollows
    have hstart : WizardPosition.InOrder (WizardPosition.reset c index) := .of_reset index
    have horder : w.position.InOrder :=
      @invariant_of_run _ _ _ (fun w : WizardPattern c => w.position.InOrder)
        WizardPattern.step_inOrder _ _ _ hstart hrun
    obtain ⟨rounds, out, hout⟩ := guardTick_returns env hcycle hfollows horder w.board.bindState
    have hbound : w.board.bindState.Bound := by
      refine ⟨?_, fun hhangs => ?_⟩
      · unfold WizardBoard.bindState WizardBoard.reaches
        cases w.board.context <;> rfl
      · cases hcalm.symm.trans hhangs
    exact ⟨rounds, out, hout, (guardTick_bound hfollows hbound hout).returns⟩

/-- A wizard whose only step fetches a resource. -/
def fetchOnly : WizardConfig where
  steps := [.phase "fetch" .resource false]
  steps_ne_nil := List.cons_ne_nil _ _
  nodup_slugs := by decide

/-- A resource that goes on at its own step when it fails is fetched forever. -/
theorem ticksReturn_fails :
    ¬ ∀ (failures : String → ResourceFailure) (c : WizardConfig), TicksReturn failures c := by
  intro h
  have hleads : LeadsTo (fun _ => .branch (some "fetch")) fetchOnly 0 0 := by
    refine ⟨Nat.zero_lt_one, some "fetch", ?_, rfl⟩
    have hrecovery : (ResourceFailure.branch (some "fetch")).recovery = some (some "fetch") := by
      simp [ResourceFailure.recovery]
    exact @LeafEnds.resourceRecovers (fun _ => .branch (some "fetch")) "fetch" 0 none _ hrecovery
  exact not_ticksReturn (fun _ => hleads) (h _ fetchOnly)

end PalmEngine.Wizard
