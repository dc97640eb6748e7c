import PalmEngine.BehaviorTree.Ends
import PalmEngine.Wizard.Sequence

/-!
# Steps that need no input

What a failed resource does is configured with its step: it blocks the wizard, it is skipped, or the
wizard goes on at another step. A leaf that finds no input may end all the same unless it is
interactive: a condition either way, a resource or a workload with success, a transform either way,
and a failed resource as configured. A step leads to another one by itself if it may succeed so.
-/

namespace PalmEngine.Wizard

open PalmEngine.Lib PalmEngine.Context PalmEngine.BehaviorTree

/-- What a failed resource does: `on_resource_failure` with `on_resource_failure_branch`. -/
inductive ResourceFailure where
  | block
  | skip
  | branch (target : Option String)
  deriving DecidableEq, Repr

/-- How a failed resource is passed over, if it is: the step to go to, if there is one. A branch
without a target is not passed over. -/
def ResourceFailure.recovery : ResourceFailure → Option (Option String)
  | block => none
  | skip => some none
  | branch target => (target.filter (· ≠ "")).map some

section Config

variable (failures : String → ResourceFailure)

/-- Resources fail as configured, and no work leaves the context engine bound to another state. -/
structure Follows {ε : Type} (answers : LeafAnswers ε) : Prop where
  recovers : ∀ slug i t,
    (answers (.phase slug i .resource) t).recovers = (failures slug).recovery.isSome
  jump : ∀ slug i t target, (failures slug).recovery = some target →
    (answers (.phase slug i .resource) t).jump = target
  binds : ∀ leaf t, (answers leaf t).rebinds = false

/-- How a leaf may end that finds no input, with the jump queued before and after. -/
inductive LeafEnds : WizardLeaf → Option String → PatternStatus → Option String → Prop where
  | holds {slug : String} {j : Option String} : LeafEnds (.condition slug) j .success j
  | fails {slug : String} {j : Option String} : LeafEnds (.condition slug) j .failure j
  | works {slug : String} {i : ℕ} {kind : PhaseKind} {j : Option String}
      (h : kind.interactive = false) : LeafEnds (.phase slug i kind) j .success j
  | transformFails {slug : String} {i : ℕ} {inScope : Bool} {j : Option String} :
      LeafEnds (.phase slug i (.transform inScope)) j .failure j
  | resourceFails {slug : String} {i : ℕ} {j : Option String}
      (h : (failures slug).recovery = none) : LeafEnds (.phase slug i .resource) j .failure j
  | resourceRecovers {slug : String} {i : ℕ} {j target : Option String}
      (h : (failures slug).recovery = some target) :
      LeafEnds (.phase slug i .resource) j .success (target <|> j)

/-- A step of the sequence may succeed without an input and go on at an index. -/
def LeadsTo (c : WizardConfig) (i i' : ℕ) : Prop :=
  ∃ (h : i < c.count) (j : Option String),
    (c.stepTree ⟨i, h⟩).Ends (LeafEnds failures) none .success j ∧ i' = jumpIndex c i j

/-- No step leads back to itself without an input. -/
def NoAutomaticCycle (c : WizardConfig) : Prop :=
  ∀ i, ¬ Relation.TransGen (LeadsTo failures c) i i

end Config

section Course

variable {ε : Type} (env : WizardEnv ε) (a : LeafAnswer ε) (b : WizardBoard) (slug : String)

/-- Leaving a scope leaves the queued jump. -/
@[simp] theorem jumpTo_leaveStep : (b.leaveStep slug).jumpTo = b.jumpTo := by
  unfold WizardBoard.leaveStep
  split <;> rfl

/-- Leaving a scope takes no time. -/
@[simp] theorem clock_leaveStep : (b.leaveStep slug).clock = b.clock := by
  unfold WizardBoard.leaveStep
  split <;> rfl

/-- Leaving a scope does not interrupt. -/
@[simp] theorem interrupted_leaveStep : (b.leaveStep slug).interrupted = b.interrupted := by
  unfold WizardBoard.leaveStep
  split <;> rfl

/-- What the work of a step leaves behind is no jump. -/
@[simp] theorem jumpTo_afterWork : (b.afterWork a).jumpTo = b.jumpTo := by
  unfold WizardBoard.afterWork
  simp only
  split <;> rfl

/-- The work of a step takes the time of its leaf. -/
@[simp] theorem clock_afterWork : (b.afterWork a).clock = b.clock := by
  unfold WizardBoard.afterWork
  simp only
  split <;> rfl

/-- The work of a step does not interrupt by itself. -/
@[simp] theorem interrupted_afterWork : (b.afterWork a).interrupted = b.interrupted := by
  unfold WizardBoard.afterWork
  simp only
  split <;> rfl

/-- Storing answers queues no jump. -/
@[simp] theorem jumpTo_persist (entries : List (String × Value)) :
    (persist env a entries b).jumpTo = b.jumpTo := by
  unfold persist
  simp only
  split
  · split <;> rfl
  · rfl

/-- Without a schema storing answers just stores them. -/
theorem persist_of_noSchema (h : env.hasSchema = false) (entries : List (String × Value)) :
    persist env a entries b = b.setAnswers entries := by
  simp [persist, h]

end Course

section Sound

variable {ε : Type} {env : WizardEnv ε} {answers : LeafAnswers ε} {failures : String → ResourceFailure}
  {b b₁ : WizardBoard} {slug : String}

/-- A success that is not interrupted queues no jump unless what comes after it does. -/
theorem succeed_ends {finish : WizardBoard → WizardBoard}
    (hfinish : ∀ b, (finish b).jumpTo = b.jumpTo)
    (hends : isYieldingStatus (succeed finish b₁).1 = false) :
    (succeed finish b₁).1 = .success ∧ (succeed finish b₁).2.jumpTo = b₁.jumpTo := by
  unfold succeed at hends ⊢
  split at hends
  · cases hends
  · next h =>
    rw [if_neg h]
    exact ⟨rfl, hfinish b₁⟩

/-- A resource step that ends. -/
theorem resourceTick_ends (a : LeafAnswer ε) (i : ℕ)
    (hrecovers : a.recovers = (failures slug).recovery.isSome)
    (hjump : ∀ target, (failures slug).recovery = some target → a.jump = target)
    (hends : isYieldingStatus (resourceTick env a slug b).1 = false) :
    LeafEnds failures (.phase slug i .resource) b.jumpTo (resourceTick env a slug b).1
      (resourceTick env a slug b).2.jumpTo := by
  have hfinish : ∀ b₁ : WizardBoard, b₁.jumpTo = b.jumpTo →
      isYieldingStatus (resourceFinish env a slug b₁).1 = false →
      LeafEnds failures (.phase slug i .resource) b.jumpTo (resourceFinish env a slug b₁).1
        (resourceFinish env a slug b₁).2.jumpTo := by
    intro b₁ hb₁ hends
    obtain ⟨hsuccess, hsame⟩ := succeed_ends (fun b => by simp [WizardBoard.clearPrompt]) hends
    rw [resourceFinish, hsuccess, hsame, jumpTo_persist, hb₁]
    exact .works rfl
  have hsame : (((b.enterStep slug).prompt slug false).promoteBindingKeys.afterWork a).jumpTo =
      b.jumpTo := jumpTo_afterWork a _
  unfold resourceTick at hends ⊢
  cases hpark : a.park with
  | held => simp [hpark, isYieldingStatus] at hends
  | delivered =>
    simp only [hpark] at hends ⊢
    exact hfinish b rfl hends
  | absent =>
    simp only [hpark] at hends ⊢
    cases hraises : a.raises with
    | true => simp [hraises, raiseOut, isYieldingStatus] at hends
    | false =>
      simp only [hraises, Bool.false_eq_true, if_false] at hends ⊢
      cases heffect : a.effect with
      | success =>
        simp only [heffect] at hends ⊢
        exact hfinish _ hsame hends
      | waitingForInput => simp [heffect, isYieldingStatus] at hends
      | failure | running =>
        cases hrecovery : (failures slug).recovery with
        | none =>
          have hnot : a.recovers = false := by rw [hrecovers, hrecovery, Option.isSome_none]
          simp only [hnot, Bool.false_eq_true, if_false, jumpTo_leaveStep]
          exact hsame ▸ .resourceFails hrecovery
        | some target =>
          have hyes : a.recovers = true := by rw [hrecovers, hrecovery, Option.isSome_some]
          simp only [hyes, if_true, hjump target hrecovery, hsame]
          exact .resourceRecovers hrecovery

/-- A transform step that ends. -/
theorem transformTick_ends (a : LeafAnswer ε) (i : ℕ) (inScope : Bool)
    (hends : isYieldingStatus (transformTick env a slug inScope b).1 = false) :
    LeafEnds failures (.phase slug i (.transform inScope)) b.jumpTo
      (transformTick env a slug inScope b).1 (transformTick env a slug inScope b).2.jumpTo := by
  have hleave : ∀ b₁ : WizardBoard,
      (if inScope then b₁.leaveStep slug else b₁).jumpTo = b₁.jumpTo := by
    intro b₁
    split
    · exact jumpTo_leaveStep b₁ slug
    · rfl
  have hsame : (((if inScope then b.enterStep slug else b).prompt slug false).afterWork a).jumpTo =
      b.jumpTo := by
    rw [jumpTo_afterWork]
    cases inScope <;> rfl
  unfold transformTick at hends ⊢
  simp only at hends ⊢
  cases hraises : a.raises with
  | true => simp [hraises, raiseOut, isYieldingStatus] at hends
  | false =>
    simp only [hraises, Bool.false_eq_true, if_false] at hends ⊢
    split at hends
    · next hsuccess =>
      have hfinish : ∀ b₁ : WizardBoard,
          (if inScope then b₁.leaveStep slug else b₁).clearPrompt.jumpTo = b₁.jumpTo := hleave
      obtain ⟨hstatus, hjump⟩ := succeed_ends hfinish hends
      rw [if_pos hsuccess, hstatus, hjump, jumpTo_persist, hsame]
      exact .works rfl
    · next hfailure =>
      rw [if_neg hfailure]
      simp only [hleave, WizardBoard.prompt]
      exact hsame ▸ .transformFails

/-- A workload step that ends. -/
theorem workloadTick_ends (a : LeafAnswer ε) (i : ℕ)
    (hends : isYieldingStatus (workloadTick a slug b).1 = false) :
    LeafEnds failures (.phase slug i .workload) b.jumpTo (workloadTick a slug b).1
      (workloadTick a slug b).2.jumpTo := by
  have hsame : (((b.enterStep slug).prompt slug false).promoteAnswers.afterWork a).jumpTo =
      b.jumpTo := jumpTo_afterWork a _
  unfold workloadTick at hends ⊢
  simp only at hends ⊢
  cases hraises : a.raises with
  | true => simp [hraises, raiseOut, isYieldingStatus] at hends
  | false =>
    simp only [hraises, Bool.false_eq_true, if_false] at hends ⊢
    cases heffect : a.effect with
    | success =>
      simp only [jumpTo_leaveStep, WizardBoard.setAnswers, WizardBoard.clearPrompt, hsame]
      exact .works rfl
    | running => simp [heffect, isYieldingStatus] at hends
    | failure | waitingForInput => simp [heffect, raiseOut, isYieldingStatus] at hends

/-- A condition that is evaluated. -/
theorem conditionTick_ends (a : LeafAnswer ε)
    (hends : isYieldingStatus (conditionTick a b).1 = false) :
    LeafEnds failures (.condition slug) b.jumpTo (conditionTick a b).1
      (conditionTick a b).2.jumpTo := by
  unfold conditionTick at hends ⊢
  cases hraises : a.raises with
  | true => simp [hraises, raiseOut, isYieldingStatus] at hends
  | false =>
    cases hholds : a.holds with
    | true => exact .holds
    | false => exact .fails

/-- A phase of a collection that asks waits, is interrupted or goes back to the menu. -/
theorem phaseRequest_waits (env : WizardEnv ε) (a : LeafAnswer ε) (c : CollectionStep)
    (b : WizardBoard) (phase : CollectionPhase) :
    (phaseRequest env a c b phase).1 = .waitingForInput ∨
      (phaseRequest env a c b phase).1 = .running ∧
        ((phaseRequest env a c b phase).2.interrupted ≠ none ∨
          (phaseRequest env a c b phase).2.collectionPhase = .menu) := by
  have hstore : ∀ items, (storeItems env a c items b).1 = .running ∧
      ((storeItems env a c items b).2.interrupted ≠ none ∨
        (storeItems env a c items b).2.collectionPhase = .menu) := by
    intro items
    unfold storeItems
    simp only
    split
    · next h => exact ⟨rfl, .inl (Option.isSome_iff_ne_none.mp h)⟩
    · split
      · next h => exact ⟨rfl, .inl (Option.isSome_iff_ne_none.mp h)⟩
      · exact ⟨rfl, .inr rfl⟩
  cases phase with
  | menu => exact .inl rfl
  | selectItem =>
    simp only [phaseRequest, selectRequest]
    split
    · exact .inr ⟨rfl, .inr rfl⟩
    · exact .inl rfl
  | field =>
    simp only [phaseRequest, fieldRequest]
    split
    · refine .inr ?_
      unfold commitItem
      split
      · exact hstore _
      · simp only
        split
        · exact hstore _
        · exact ⟨rfl, .inl (Option.some_ne_none _)⟩
    · exact .inl rfl
  | removeConfirm =>
    simp only [phaseRequest, removeRequest]
    split
    · exact .inr ⟨rfl, .inr rfl⟩
    · split
      · exact .inl rfl
      · exact .inr ⟨rfl, .inl (Option.some_ne_none _)⟩

/-- Without an input an interactive leaf asks. -/
theorem interactiveTick_of_none {handle : Value → WizardBoard → PatternStatus × WizardBoard}
    {request : WizardBoard → PatternStatus × WizardBoard} (h : b.inputs.get? slug = none) :
    interactiveTick slug handle request b = request b := by
  rw [interactiveTick, h]

/-- A collection without an input waits or is interrupted. -/
theorem collectionLoop_yields (a : LeafAnswer ε) (c : CollectionStep) (rounds : ℕ)
    (h : b.inputs.get? c.slug = none) :
    isYieldingStatus (collectionLoop env a c (rounds + 2) b).1 = true := by
  rw [collectionLoop]
  simp only [interactiveTick_of_none h]
  have hwaits := phaseRequest_waits env a c b b.collectionPhase
  split
  · next hgoes =>
    obtain ⟨hrunning, hnone, hphase⟩ := hgoes
    have hmenu : (phaseRequest env a c b b.collectionPhase).2.collectionPhase = .menu := by
      rcases hwaits with hwaits | ⟨-, hinterrupted | hmenu⟩
      · rw [hrunning] at hwaits
        cases hwaits
      · exact absurd hnone hinterrupted
      · exact hmenu
    have hinputs : (phaseRequest env a c b b.collectionPhase).2.inputs.get? c.slug = none := by
      rw [(phaseSettles_request env a c b b.collectionPhase).keeps.inputs]
      exact h
    rw [collectionLoop]
    simp only [hmenu, interactiveTick_of_none hinputs]
    rfl
  · rcases hwaits with hwaits | ⟨hrunning, -⟩
    · exact isYieldingStatus_iff.mpr (.inr hwaits)
    · exact isYieldingStatus_iff.mpr (.inl hrunning)

/-- An interactive leaf without an input pauses. -/
theorem tickLeaf_yields (leaf : WizardLeaf) (hinteractive : leaf.interactive = true)
    (h : b.inputs.get? leaf.slug = none) :
    isYieldingStatus (tickLeaf env answers leaf b).1 = true := by
  cases leaf with
  | condition slug => cases hinteractive
  | phase slug i kind =>
    have hnone : (b.tickedAt (.phase slug i kind)).inputs.get? slug = none := h
    cases kind with
    | input | introduction | summary | commit =>
      simp only [tickLeaf, phaseTick, interactiveTick_of_none hnone]
      rfl
    | resource | workload | transform _ => cases hinteractive
    | collection config => exact collectionLoop_yields _ ⟨config, slug⟩ 14 hnone

/-- A leaf consumes an input, pauses, or ends as it may without one. -/
theorem tickLeaf_spends (env : WizardEnv ε) (h : Follows failures answers) (leaf : WizardLeaf)
    (b : WizardBoard) :
    Spends WizardBoard.jumpTo (fun b => b.inputs.entries.length) (LeafEnds failures leaf) b
      (tickLeaf env answers leaf b).1 (tickLeaf env answers leaf b).2 := by
  have hinputs := (settles_tickLeaf env answers leaf b).keeps.inputs
  by_cases hspent : leaf.interactive = true ∧ (b.inputs.get? leaf.slug).isSome
  · obtain ⟨hinteractive, hsome⟩ := hspent
    obtain ⟨parked, hparked⟩ := Option.isSome_iff_exists.mp hsome
    have htaken : ((b.tickedAt leaf).takenBy leaf).inputs = b.inputs.erase leaf.slug := by
      simp [WizardBoard.takenBy, WizardBoard.taken, WizardBoard.tickedAt, hinteractive, hparked,
        WizardBoard.consume]
    have hless : (tickLeaf env answers leaf b).2.inputs.entries.length <
        b.inputs.entries.length := by
      rw [hinputs, htaken]
      exact Dict.length_entries_erase_lt ((Dict.get?_eq_some_iff _ _ _).mp hparked)
    exact ⟨hless.le, fun _ hsize => absurd hsize hless.ne⟩
  · have htaken : (b.tickedAt leaf).takenBy leaf = b.tickedAt leaf := by
      unfold WizardBoard.takenBy
      split
      · next hinteractive =>
        have hnone : b.inputs.get? leaf.slug = none := by simpa [hinteractive] using hspent
        exact WizardBoard.taken_of_none hnone
      · rfl
    rw [htaken] at hinputs
    refine ⟨(congrArg (fun d : Dict String ParkedInput => d.entries.length) hinputs).le,
      fun hends _ => ?_⟩
    cases leaf with
    | condition slug => exact conditionTick_ends _ hends
    | phase slug i kind =>
      cases kind with
      | resource =>
        exact resourceTick_ends _ i (h.recovers slug i b.clock) (h.jump slug i b.clock) hends
      | workload => exact workloadTick_ends _ i hends
      | transform inScope => exact transformTick_ends _ i inScope hends
      | input | introduction | summary | commit | collection _ =>
        have hnone : b.inputs.get? slug = none := by
          simpa [WizardLeaf.interactive, PhaseKind.interactive, WizardLeaf.slug] using hspent
        rw [tickLeaf_yields (.phase slug i _) rfl hnone] at hends
        cases hends

end Sound

section Complete

variable (failures : String → ResourceFailure)

/-- How a leaf passes over a failure, if it does. -/
def recoveryOf : WizardLeaf → Option (Option String)
  | .phase slug _ .resource => (failures slug).recovery
  | _ => none

/-- The answers by a script: at each point of the clock all goes well or not. -/
def scriptedAnswers (script : ℕ → Bool) : LeafAnswers Unit := fun leaf t =>
  { seen := (), holds := script t, effect := if script t then .success else .failure
    recovers := (recoveryOf failures leaf).isSome, jump := (recoveryOf failures leaf).join }

/-- Scripted resources fail as configured. -/
theorem follows_scriptedAnswers (script : ℕ → Bool) :
    Follows failures (scriptedAnswers failures script) where
  recovers _ _ _ := rfl
  jump slug i t target h := by simp [scriptedAnswers, recoveryOf, h]
  binds _ _ := rfl

/-- A leaf ends as told, with its jump queued, when the clock has gone on by one. -/
structure Played (b : WizardBoard) (status : PatternStatus) (j' : Option String)
    (out : PatternStatus × WizardBoard) : Prop where
  status : out.1 = status
  interrupted : out.2.interrupted = none
  jumpTo : out.2.jumpTo = j'
  clock : out.2.clock = b.clock + 1

variable {failures} {script : ℕ → Bool} {b : WizardBoard}

/-- A condition is as the script has it. -/
theorem played_condition (hcalm : b.interrupted = none) (slug : String) :
    Played b (if script b.clock then .success else .failure) b.jumpTo
      (tickLeaf plainEnv (scriptedAnswers failures script) (.condition slug) b) := by
  cases hscript : script b.clock <;> constructor <;>
  simp [tickLeaf, conditionTick, scriptedAnswers, hscript, hcalm, WizardBoard.tickedAt]

/-- A resource step whose resource works succeeds. -/
theorem played_resource (hcalm : b.interrupted = none) (slug : String) (i : ℕ)
    (hgood : script b.clock = true) :
    Played b .success b.jumpTo
      (tickLeaf plainEnv (scriptedAnswers failures script) (.phase slug i .resource) b) := by
  constructor <;>
  simp [tickLeaf, phaseTick, resourceTick, resourceFinish, succeed, persist_of_noSchema, plainEnv,
    scriptedAnswers, hgood, hcalm, WizardBoard.tickedAt, WizardBoard.enterStep, WizardBoard.prompt,
    WizardBoard.promoteBindingKeys, WizardBoard.setAnswers, WizardBoard.clearPrompt]

/-- A resource step whose resource fails goes on or fails as configured. -/
theorem played_resource_of_failure (hcalm : b.interrupted = none) (slug : String) (i : ℕ)
    (hbad : script b.clock = false) :
    Played b (if (failures slug).recovery.isSome then .success else .failure)
      ((failures slug).recovery.join <|> b.jumpTo)
      (tickLeaf plainEnv (scriptedAnswers failures script) (.phase slug i .resource) b) := by
  cases hrecovery : (failures slug).recovery <;> constructor <;>
  simp [tickLeaf, phaseTick, resourceTick, scriptedAnswers, recoveryOf, hrecovery, hbad, hcalm,
    WizardBoard.tickedAt, WizardBoard.enterStep, WizardBoard.prompt, WizardBoard.clearPrompt,
    WizardBoard.promoteBindingKeys, WizardBoard.setAnswers, WizardBoard.publish]

/-- A workload step whose workload works succeeds. -/
theorem played_workload (hcalm : b.interrupted = none) (slug : String) (i : ℕ)
    (hgood : script b.clock = true) :
    Played b .success b.jumpTo
      (tickLeaf plainEnv (scriptedAnswers failures script) (.phase slug i .workload) b) := by
  constructor <;>
  simp [tickLeaf, phaseTick, workloadTick, scriptedAnswers, hgood, hcalm, WizardBoard.tickedAt,
    WizardBoard.enterStep, WizardBoard.prompt, WizardBoard.promoteAnswers, WizardBoard.setAnswers,
    WizardBoard.clearPrompt]

/-- A transform step ends as the script has it. -/
theorem played_transform (hcalm : b.interrupted = none) (slug : String) (i : ℕ) (inScope : Bool) :
    Played b (if script b.clock then .success else .failure) b.jumpTo
      (tickLeaf plainEnv (scriptedAnswers failures script) (.phase slug i (.transform inScope))
        b) := by
  cases hscript : script b.clock <;> cases inScope <;> constructor <;>
  simp [tickLeaf, phaseTick, transformTick, succeed, persist_of_noSchema, plainEnv, scriptedAnswers,
    hscript, hcalm, WizardBoard.tickedAt, WizardBoard.enterStep, WizardBoard.prompt,
    WizardBoard.setAnswers, WizardBoard.clearPrompt]

/-- A leaf is led to every end it may have without an input. -/
theorem tickLeaf_plays {leaf : WizardLeaf} {j j' : Option String} {status : PatternStatus}
    (h : LeafEnds failures leaf j status j') :
    isYieldingStatus status = false ∧ ∃ good : Bool, ∀ (script : ℕ → Bool) (b : WizardBoard),
      b.interrupted = none → b.jumpTo = j → script b.clock = good →
        Played b status j' (tickLeaf plainEnv (scriptedAnswers failures script) leaf b) := by
  cases h with
  | @holds slug =>
    refine ⟨rfl, true, fun script b hcalm hjump hgood => ?_⟩
    simpa [hgood, hjump] using @played_condition failures script b hcalm slug
  | @fails slug =>
    refine ⟨rfl, false, fun script b hcalm hjump hbad => ?_⟩
    simpa [hbad, hjump] using @played_condition failures script b hcalm slug
  | @works slug i kind _ hkind =>
    refine ⟨rfl, true, fun script b hcalm hjump hgood => ?_⟩
    cases kind with
    | resource => exact hjump ▸ played_resource hcalm slug i hgood
    | workload => exact hjump ▸ played_workload hcalm slug i hgood
    | transform inScope =>
      simpa [hgood, hjump] using @played_transform failures script b hcalm slug i inScope
    | input | introduction | summary | commit | collection _ => cases hkind
  | @transformFails slug i inScope =>
    refine ⟨rfl, false, fun script b hcalm hjump hbad => ?_⟩
    simpa [hbad, hjump] using @played_transform failures script b hcalm slug i inScope
  | @resourceFails slug i _ hrecovery =>
    refine ⟨rfl, false, fun script b hcalm hjump hbad => ?_⟩
    simpa [hrecovery, hjump] using
      @played_resource_of_failure failures script b hcalm slug i hbad
  | @resourceRecovers slug i _ target hrecovery =>
    refine ⟨rfl, false, fun script b hcalm hjump hbad => ?_⟩
    simpa [hrecovery, hjump] using
      @played_resource_of_failure failures script b hcalm slug i hbad

end Complete

end PalmEngine.Wizard
