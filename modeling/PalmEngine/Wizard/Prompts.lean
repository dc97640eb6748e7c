import PalmEngine.Wizard.Phases

/-!
# The prompts of the phases

What the tick of a leaf does to the prompts and the parked inputs. An interactive phase consumes the
input that is parked under its slug and no other one, and a leaf that pauses has published the prompt
of its step, or one that takes no input, or none. The visits and the completion are not changed.
-/

namespace PalmEngine.Wizard

open PalmEngine.Lib PalmEngine.Context PalmEngine.BehaviorTree

namespace WizardBoard

/-- Two boards with the same inputs and visits, and of which both or none are completed. -/
structure KeepsInputs (b b' : WizardBoard) : Prop where
  inputs : b'.inputs = b.inputs
  consumed : b'.consumed = b.consumed
  visit : b'.visit = b.visit
  completed : b'.completed = b.completed

/-- A board has the same inputs as itself. -/
theorem KeepsInputs.refl (b : WizardBoard) : b.KeepsInputs b := ⟨rfl, rfl, rfl, rfl⟩

/-- Keeping the inputs is transitive. -/
theorem KeepsInputs.trans {b₁ b₂ b₃ : WizardBoard} (h : b₁.KeepsInputs b₂)
    (h' : b₂.KeepsInputs b₃) : b₁.KeepsInputs b₃ where
  inputs := h'.inputs.trans h.inputs
  consumed := h'.consumed.trans h.consumed
  visit := h'.visit.trans h.visit
  completed := h'.completed.trans h.completed

section Keeps

variable {b b₁ : WizardBoard} (h : b.KeepsInputs b₁)
include h

/-- Leaving a scope keeps the inputs. -/
theorem KeepsInputs.leaveStep (slug : String) : b.KeepsInputs (b₁.leaveStep slug) := by
  refine h.trans ?_
  unfold WizardBoard.leaveStep
  split <;> exact ⟨rfl, rfl, rfl, rfl⟩

/-- Entering a scope that may be among the scopes keeps the inputs. -/
theorem KeepsInputs.ensureScope (name : String) : b.KeepsInputs (b₁.ensureScope name) := by
  refine h.trans ?_
  unfold WizardBoard.ensureScope
  split <;> exact ⟨rfl, rfl, rfl, rfl⟩

/-- Publishing a prompt keeps the inputs. -/
theorem KeepsInputs.prompt (slug : String) (takesInput : Bool) :
    b.KeepsInputs (b₁.prompt slug takesInput) := h.trans ⟨rfl, rfl, rfl, rfl⟩

/-- Clearing the active prompt keeps the inputs. -/
theorem KeepsInputs.clearPrompt : b.KeepsInputs b₁.clearPrompt := h.trans ⟨rfl, rfl, rfl, rfl⟩

/-- Storing answers in the step keeps the inputs. -/
theorem KeepsInputs.setAnswers (entries : List (String × Value)) :
    b.KeepsInputs (b₁.setAnswers entries) := h.trans ⟨rfl, rfl, rfl, rfl⟩

/-- Storing values under public keys keeps the inputs. -/
theorem KeepsInputs.publish (entries : List (String × Value)) :
    b.KeepsInputs (b₁.publish entries) := h.trans ⟨rfl, rfl, rfl, rfl⟩

variable {ε : Type} (env : WizardEnv ε) (a : LeafAnswer ε) (c : CollectionStep)

/-- Storing answers keeps the inputs. -/
theorem KeepsInputs.persist (entries : List (String × Value)) :
    b.KeepsInputs (Wizard.persist env a entries b₁) := by
  refine h.trans ?_
  unfold Wizard.persist
  simp only
  split
  · split <;> exact ⟨rfl, rfl, rfl, rfl⟩
  · exact ⟨rfl, rfl, rfl, rfl⟩

/-- What the work of a step leaves behind keeps the inputs. -/
theorem KeepsInputs.afterWork : b.KeepsInputs (b₁.afterWork a) := by
  refine h.trans ?_
  unfold WizardBoard.afterWork
  simp only
  split <;> exact ⟨rfl, rfl, rfl, rfl⟩

/-- Beginning with an item keeps the inputs. -/
theorem KeepsInputs.beginItemSession (editIndex : Option ℕ) :
    b.KeepsInputs (Wizard.beginItemSession c editIndex b₁) := by
  have hbegin : ∀ (session : CollectionSession) (name : String),
      b.KeepsInputs (({ b₁ with session }.ensureScope c.slug).ensureScope name) := by
    intro session name
    have hsession : b.KeepsInputs { b₁ with session } := h.trans ⟨rfl, rfl, rfl, rfl⟩
    exact (hsession.ensureScope c.slug).ensureScope name
  unfold Wizard.beginItemSession
  cases editIndex with
  | none => exact hbegin _ _
  | some i =>
    simp only
    cases (b₁.collectionItems c.collectionKey)[i]? with
    | none => exact h.trans ⟨rfl, rfl, rfl, rfl⟩
    | some item => exact hbegin _ _

/-- Leaving the scopes of an item keeps the inputs. -/
theorem KeepsInputs.leaveItemScope : b.KeepsInputs (Wizard.leaveItemScope c b₁) := by
  refine h.trans ?_
  unfold Wizard.leaveItemScope
  simp only
  split
  · exact .refl b₁
  · split <;> exact ⟨rfl, rfl, rfl, rfl⟩

/-- Storing the value of a field keeps the inputs. -/
theorem KeepsInputs.storeField (field : CollectionFieldConfig) (value : Value) :
    b.KeepsInputs (Wizard.storeField c field value b₁) :=
  (h.leaveStep _).trans ⟨rfl, rfl, rfl, rfl⟩

end Keeps

variable (b : WizardBoard)

/-- The prompt that takes inputs, if there is one, is the latest one of a step in this visit. -/
def Asks (b : WizardBoard) (slug : String) : Prop :=
  ∀ mark, b.activePrompt = some ⟨mark, true⟩ →
    mark.slug = slug ∧ mark.visit = b.visit ∧ b.latest.get? slug = some mark

/-- A prompt that takes inputs is the latest one of its step. -/
theorem asks_prompt (slug : String) : (b.prompt slug true).Asks slug := by
  intro mark hmark
  obtain rfl : (⟨slug, b.visit, b.prompts⟩ : PromptMark) = mark := by
    simpa [WizardBoard.prompt] using hmark
  exact ⟨rfl, rfl, by simp [WizardBoard.prompt]⟩

/-- No prompt takes inputs. -/
def Silent (b : WizardBoard) : Prop := ∀ mark, b.activePrompt ≠ some ⟨mark, true⟩

/-- A prompt without inputs takes none. -/
theorem silent_prompt (slug : String) : (b.prompt slug false).Silent := fun mark hmark => by
  simp [prompt] at hmark

end WizardBoard

open WizardBoard

/-- What a phase returns that consumes nothing more: if it pauses then a prompt that takes inputs is
its own, and there is none unless the phase is interactive. -/
structure Settles (slug : String) (interactive : Bool) (b : WizardBoard)
    (out : PatternStatus × WizardBoard) : Prop where
  keeps : b.KeepsInputs out.2
  asks : isYieldingStatus out.1 = true → out.2.interrupted = none → out.2.Asks slug
  silent : interactive = false → isYieldingStatus out.1 = true → out.2.interrupted = none →
    out.2.Silent

section Outcomes

variable {slug : String} {interactive : Bool} {b b₁ : WizardBoard} {status : PatternStatus}

/-- A phase that ends. -/
theorem settles_of_ends (hends : isYieldingStatus status = false) (hkeeps : b.KeepsInputs b₁) :
    Settles slug interactive b (status, b₁) where
  keeps := hkeeps
  asks := fun hyields => by simp [hends] at hyields
  silent := fun _ hyields => by simp [hends] at hyields

/-- A phase that is interrupted. -/
theorem settles_of_interrupted (hkeeps : b.KeepsInputs b₁) (hinterrupted : b₁.interrupted ≠ none) :
    Settles slug interactive b (status, b₁) where
  keeps := hkeeps
  asks := fun _ hnone => absurd hnone hinterrupted
  silent := fun _ _ hnone => absurd hnone hinterrupted

/-- A phase that raises. -/
theorem settles_raiseOut (hkeeps : b.KeepsInputs b₁) :
    Settles slug interactive b (raiseOut b₁) :=
  settles_of_interrupted (hkeeps.trans ⟨rfl, rfl, rfl, rfl⟩) (Option.some_ne_none _)

/-- A phase that asks for an input. -/
theorem settles_ask (hkeeps : b.KeepsInputs b₁) : Settles slug true b (ask slug b₁) where
  keeps := hkeeps.trans ⟨rfl, rfl, rfl, rfl⟩
  asks := fun _ _ => b₁.asks_prompt slug
  silent := fun h => by cases h

/-- A phase that pauses with no prompt that takes inputs. -/
theorem settles_of_silent (hkeeps : b.KeepsInputs b₁) (hsilent : b₁.Silent) :
    Settles slug interactive b (status, b₁) where
  keeps := hkeeps
  asks := fun _ _ mark hmark => absurd hmark (hsilent mark)
  silent := fun _ _ _ => hsilent

/-- A phase that succeeds unless what it stores is refused. -/
theorem settles_succeed {finish : WizardBoard → WizardBoard} (hkeeps : b.KeepsInputs b₁)
    (hfinish : ∀ b : WizardBoard, b.KeepsInputs (finish b)) :
    Settles slug interactive b (succeed finish b₁) := by
  unfold succeed
  split
  · next h => exact settles_of_interrupted hkeeps (Option.isSome_iff_ne_none.mp h)
  · exact settles_of_ends rfl (hkeeps.trans (hfinish b₁))

end Outcomes

section Phases

variable {ε : Type} (env : WizardEnv ε) (a : LeafAnswer ε) (slug : String) (b : WizardBoard)

/-- An input step asks. -/
theorem settles_inputRequest : Settles slug true b (inputRequest slug b) :=
  settles_ask ⟨rfl, rfl, rfl, rfl⟩

/-- An input step takes an answer. -/
theorem settles_inputHandle : Settles slug true b (inputHandle env a slug b) := by
  unfold inputHandle
  split
  · exact settles_raiseOut (.refl b)
  · split
    · exact settles_ask (.refl b)
    · refine settles_succeed ((KeepsInputs.refl b).persist env a _) fun b => ?_
      exact ((KeepsInputs.refl b).leaveStep slug).trans ⟨rfl, rfl, rfl, rfl⟩

/-- A summary takes an answer. -/
theorem settles_summaryHandle (stepIndex : ℕ) (value : Value) :
    Settles slug true b (summaryHandle env a slug stepIndex value b) := by
  unfold summaryHandle
  split
  · exact settles_ask (.refl b)
  · split
    · exact settles_of_silent ⟨rfl, rfl, rfl, rfl⟩ fun mark hmark => by
        simp [WizardBoard.clearPrompt] at hmark
    · split
      · exact settles_ask (.refl b)
      · exact settles_of_ends rfl ((KeepsInputs.refl b).leaveStep slug).clearPrompt

/-- A commit takes an answer. -/
theorem settles_commitHandle (value : Value) :
    Settles slug true b (commitHandle env a slug value b) := by
  have hmerge : b.KeepsInputs b.mergeCompositional := ⟨rfl, rfl, rfl, rfl⟩
  have hcommitted : ∀ committed : Bool,
      b.KeepsInputs { b.mergeCompositional.afterWork a with committed } := fun committed =>
    (hmerge.afterWork a).trans ⟨rfl, rfl, rfl, rfl⟩
  unfold commitHandle
  split
  · exact settles_ask (.refl b)
  · split
    · exact settles_ask (.refl b)
    · simp only
      split
      · exact settles_raiseOut (hmerge.afterWork a)
      · split
        · exact settles_of_ends rfl ((hcommitted true).leaveStep slug).clearPrompt
        · exact settles_of_ends rfl (hcommitted false)

/-- A transform runs. -/
theorem settles_transformTick (inScope : Bool) :
    Settles slug false b (transformTick env a slug inScope b) := by
  have henter : b.KeepsInputs (if inScope then b.enterStep slug else b) := by
    split <;> exact ⟨rfl, rfl, rfl, rfl⟩
  have hleave : ∀ b₁, b.KeepsInputs b₁ →
      b.KeepsInputs (if inScope then b₁.leaveStep slug else b₁) := by
    intro b₁ h
    split
    · exact h.leaveStep slug
    · exact h
  have hwork := (henter.prompt slug false).afterWork a
  unfold transformTick
  simp only
  split
  · exact settles_raiseOut hwork
  · split
    · refine settles_succeed (hwork.persist env a _) fun b => ?_
      refine KeepsInputs.clearPrompt ?_
      split
      · exact (KeepsInputs.refl b).leaveStep slug
      · exact .refl b
    · exact settles_of_ends rfl (hleave _ (hwork.prompt slug false))

/-- A resource step finishes. -/
theorem settles_resourceFinish {b₁ : WizardBoard} (hkeeps : b.KeepsInputs b₁) :
    Settles slug false b (resourceFinish env a slug b₁) :=
  settles_succeed (hkeeps.persist env a _) fun b =>
    ((KeepsInputs.refl b).leaveStep slug).clearPrompt

/-- A resource step runs. -/
theorem settles_resourceTick : Settles slug false b (resourceTick env a slug b) := by
  have hbegin : b.KeepsInputs ((b.enterStep slug).prompt slug false).promoteBindingKeys :=
    ⟨rfl, rfl, rfl, rfl⟩
  have hwork := hbegin.afterWork a
  unfold resourceTick
  split
  · exact settles_of_silent ((KeepsInputs.refl b).prompt slug false) (b.silent_prompt slug)
  · exact settles_resourceFinish env a slug b (.refl b)
  · simp only
    split
    · exact settles_raiseOut hwork
    · split
      · exact settles_resourceFinish env a slug b hwork
      · exact settles_of_silent (hwork.prompt slug false) (silent_prompt _ slug)
      all_goals
        split
        · exact settles_of_ends rfl
            (((hwork.publish a.results).leaveStep slug).clearPrompt.trans ⟨rfl, rfl, rfl, rfl⟩)
        · exact settles_of_ends rfl ((hwork.prompt slug false).leaveStep slug)

/-- The prompt of a step is kept by what its work leaves behind. -/
theorem WizardBoard.silent_afterWork (h : b.Silent) : (b.afterWork a).Silent := by
  unfold afterWork
  simp only
  split <;> exact h

/-- A workload step runs. -/
theorem settles_workloadTick : Settles slug false b (workloadTick a slug b) := by
  have hbegin : b.KeepsInputs ((b.enterStep slug).prompt slug false).promoteAnswers :=
    ⟨rfl, rfl, rfl, rfl⟩
  have hwork := hbegin.afterWork a
  unfold workloadTick
  simp only
  split
  · exact settles_raiseOut hwork
  · split
    · exact settles_of_silent hwork (silent_afterWork a _ (silent_prompt (b.enterStep slug) slug))
    · exact settles_of_ends rfl ((hwork.clearPrompt.setAnswers a.results).leaveStep slug)
    all_goals exact settles_raiseOut hwork

/-- The condition of a branch is evaluated. -/
theorem settles_conditionTick : Settles slug false b (conditionTick a b) := by
  unfold conditionTick
  split
  · exact settles_raiseOut (.refl b)
  · refine settles_of_ends ?_ (.refl b)
    cases a.holds <;> rfl

end Phases

/-- What a phase of a collection returns that consumes nothing more: it asks for an input of the
step, or goes over to another phase if it runs on. -/
structure PhaseSettles (slug : String) (phase : CollectionPhase) (b : WizardBoard)
    (out : PatternStatus × WizardBoard) : Prop where
  keeps : b.KeepsInputs out.2
  goesOn : out.1 = .running → out.2.interrupted = none → out.2.collectionPhase ≠ phase
  asks : out.1 = .waitingForInput → out.2.Asks slug

section Collection

variable {ε : Type} (env : WizardEnv ε) (a : LeafAnswer ε) (c : CollectionStep) {b b₁ : WizardBoard}
  {phase : CollectionPhase}

/-- A phase that asks for an input. -/
theorem phaseSettles_ask (hkeeps : b.KeepsInputs b₁) :
    PhaseSettles c.slug phase b (ask c.slug b₁) where
  keeps := hkeeps.prompt c.slug true
  goesOn := fun hrunning => by cases hrunning
  asks := fun _ => b₁.asks_prompt c.slug

/-- A phase that is interrupted. -/
theorem phaseSettles_interrupted (hkeeps : b.KeepsInputs b₁) (hinterrupted : b₁.interrupted ≠ none) :
    PhaseSettles c.slug phase b (.running, b₁) where
  keeps := hkeeps
  goesOn := fun _ hnone => absurd hnone hinterrupted
  asks := fun hwaiting => by cases hwaiting

/-- A phase that goes over to another one. -/
theorem phaseSettles_setPhase (hkeeps : b.KeepsInputs b₁) {next : CollectionPhase}
    (hnext : next ≠ phase) : PhaseSettles c.slug phase b (.running, b₁.setPhase next) where
  keeps := hkeeps.trans ⟨rfl, rfl, rfl, rfl⟩
  goesOn := fun _ _ => hnext
  asks := fun hwaiting => by cases hwaiting

/-- Storing items goes over to the menu. -/
theorem phaseSettles_storeItems (hphase : phase ≠ .menu) (hkeeps : b.KeepsInputs b₁)
    (items : List Item) : PhaseSettles c.slug phase b (storeItems env a c items b₁) := by
  have hitems : b.KeepsInputs (setCollectionItems env a c items b₁) := hkeeps.persist env a _
  have hleft := hitems.leaveItemScope c
  have hclear : b.KeepsInputs
      (leaveItemScope c (setCollectionItems env a c items b₁)).clearSession :=
    hleft.trans ⟨rfl, rfl, rfl, rfl⟩
  unfold storeItems
  simp only
  split
  · next h => exact phaseSettles_interrupted c hitems (Option.isSome_iff_ne_none.mp h)
  · split
    · next h => exact phaseSettles_interrupted c hleft (Option.isSome_iff_ne_none.mp h)
    · exact phaseSettles_setPhase c hclear hphase.symm

/-- Storing an item goes over to the menu. -/
theorem phaseSettles_commitItem (hphase : phase ≠ .menu) (hkeeps : b.KeepsInputs b₁) :
    PhaseSettles c.slug phase b (commitItem env a c b₁) := by
  unfold commitItem
  cases b₁.session.editIndex with
  | none => exact phaseSettles_storeItems env a c hphase hkeeps _
  | some i =>
    simp only
    split
    · exact phaseSettles_storeItems env a c hphase hkeeps _
    · exact phaseSettles_interrupted c (hkeeps.trans ⟨rfl, rfl, rfl, rfl⟩) (Option.some_ne_none _)

/-- Asking for a field. -/
theorem phaseSettles_fieldRequest (hphase : phase ≠ .menu) (hkeeps : b.KeepsInputs b₁) :
    PhaseSettles c.slug phase b (fieldRequest env a c b₁) := by
  unfold fieldRequest
  split
  · exact phaseSettles_commitItem env a c hphase hkeeps
  · next field _ =>
    have hscopes := (hkeeps.ensureScope c.slug).ensureScope
      (WizardBoard.itemScopeName (b₁.itemIndex c.collectionKey))
    exact phaseSettles_ask c (hscopes.trans ⟨rfl, rfl, rfl, rfl⟩)

/-- A phase asks. -/
theorem phaseSettles_request (b : WizardBoard) (phase : CollectionPhase) :
    PhaseSettles c.slug phase b (phaseRequest env a c b phase) := by
  cases phase with
  | menu => exact phaseSettles_ask c ((KeepsInputs.refl b).ensureScope c.slug)
  | field => exact phaseSettles_fieldRequest env a c CollectionPhase.noConfusion (.refl b)
  | selectItem =>
    simp only [phaseRequest, selectRequest]
    split
    · exact phaseSettles_setPhase c (.refl b) CollectionPhase.noConfusion
    · exact phaseSettles_ask c (.refl b)
  | removeConfirm =>
    simp only [phaseRequest, removeRequest]
    split
    · exact phaseSettles_setPhase c (.refl b) CollectionPhase.noConfusion
    · split
      · exact phaseSettles_ask c (.refl b)
      · exact phaseSettles_interrupted c ⟨rfl, rfl, rfl, rfl⟩ (Option.some_ne_none _)

/-- Finishing a collection. -/
theorem phaseSettles_finishCollection (items : List Item) (b : WizardBoard) :
    PhaseSettles c.slug phase b (finishCollection env a c items b) := by
  have hitems : b.KeepsInputs (setCollectionItems env a c items b) :=
    (KeepsInputs.refl b).persist env a _
  unfold finishCollection
  split
  · exact phaseSettles_ask c (.refl b)
  · split
    · exact phaseSettles_ask c (.refl b)
    · simp only
      split
      · next h => exact phaseSettles_interrupted c hitems (Option.isSome_iff_ne_none.mp h)
      · refine ⟨?_, fun hrunning => (by cases hrunning), fun hwaiting => (by cases hwaiting)⟩
        have hclear : b.KeepsInputs (setCollectionItems env a c items b).clearSession :=
          hitems.trans ⟨rfl, rfl, rfl, rfl⟩
        exact (hclear.leaveStep c.slug).clearPrompt

/-- A phase takes an input. -/
theorem phaseSettles_handle (value : Value) (b : WizardBoard) (phase : CollectionPhase) :
    PhaseSettles c.slug phase b (phaseHandle env a c value b phase) := by
  have hselect : ∀ action, b.KeepsInputs (b.setSelectAction action) := fun _ =>
    ⟨rfl, rfl, rfl, rfl⟩
  cases phase with
  | menu =>
    simp only [phaseHandle, menuHandle]
    split
    · exact phaseSettles_ask c (.refl b)
    · exact phaseSettles_setPhase c ((KeepsInputs.refl b).beginItemSession c none)
        CollectionPhase.noConfusion
    · exact phaseSettles_finishCollection env a c _ b
    all_goals exact phaseSettles_setPhase c (hselect _) CollectionPhase.noConfusion
  | field =>
    simp only [phaseHandle, fieldHandle]
    split
    · exact phaseSettles_commitItem env a c CollectionPhase.noConfusion (.refl b)
    · split
      · exact phaseSettles_ask c (.refl b)
      · exact phaseSettles_fieldRequest env a c CollectionPhase.noConfusion
          ((KeepsInputs.refl b).storeField c _ _)
  | selectItem =>
    simp only [phaseHandle, selectHandle]
    split
    · exact phaseSettles_setPhase c (hselect none) CollectionPhase.noConfusion
    · split
      · exact phaseSettles_ask c (.refl b)
      · split
        · exact ⟨⟨rfl, rfl, rfl, rfl⟩, fun _ _ => CollectionPhase.noConfusion,
            fun hwaiting => by cases hwaiting⟩
        · exact phaseSettles_setPhase c ((hselect none).beginItemSession c _)
            CollectionPhase.noConfusion
  | removeConfirm =>
    have hclear : ∀ b₁, b.KeepsInputs b₁ → b.KeepsInputs b₁.clearSession := fun b₁ h =>
      h.trans ⟨rfl, rfl, rfl, rfl⟩
    have hfinish : ∀ b₁, b.KeepsInputs b₁ → PhaseSettles c.slug .removeConfirm b
        (if b₁.interrupted.isSome then (.running, b₁)
        else (.running, b₁.clearSession.setPhase .menu)) := by
      intro b₁ hkeeps
      split
      · next h => exact phaseSettles_interrupted c hkeeps (Option.isSome_iff_ne_none.mp h)
      · exact phaseSettles_setPhase c (hclear b₁ hkeeps) CollectionPhase.noConfusion
    simp only [phaseHandle, removeHandle]
    split
    · exact phaseSettles_setPhase c (hclear b (.refl b)) CollectionPhase.noConfusion
    · split
      · exact phaseSettles_ask c (.refl b)
      · split
        · exact phaseSettles_setPhase c (.refl b) CollectionPhase.noConfusion
        · refine hfinish _ ?_
          split
          · exact (KeepsInputs.refl b).persist env a _
          · exact .refl b

end Collection

section Leaves

/-- The board once the input that is parked for a step is consumed. -/
def WizardBoard.taken (b : WizardBoard) (slug : String) : WizardBoard :=
  (b.inputs.get? slug).elim b (b.consume slug)

/-- No input is parked for the step any more. -/
theorem WizardBoard.get?_inputs_taken (b : WizardBoard) (slug : String) :
    (b.taken slug).inputs.get? slug = none := by
  unfold taken
  cases h : b.inputs.get? slug with
  | none => exact h
  | some parked => simp [consume, Dict.get?_erase]

/-- Without an input nothing is consumed. -/
theorem WizardBoard.taken_of_none {b : WizardBoard} {slug : String}
    (h : b.inputs.get? slug = none) : b.taken slug = b := by
  simp [taken, h]

variable {ε : Type} (env : WizardEnv ε) (a : LeafAnswer ε)

/-- What a handler and a request ensure is ensured by an interactive leaf, once an input that is
parked is consumed. -/
theorem interactiveTick_ensures {slug : String}
    {handle : Value → WizardBoard → PatternStatus × WizardBoard}
    {request : WizardBoard → PatternStatus × WizardBoard} {b : WizardBoard}
    {P : WizardBoard → PatternStatus × WizardBoard → Prop}
    (hhandle : ∀ value b, P b (handle value b)) (hrequest : ∀ b, P b (request b)) :
    P (b.taken slug) (interactiveTick slug handle request b) := by
  unfold interactiveTick taken
  cases b.inputs.get? slug with
  | none => exact hrequest b
  | some parked => exact hhandle parked.value (b.consume slug parked)

/-- What comes before and keeps the inputs may be left out. -/
theorem Settles.of_keeps {slug : String} {interactive : Bool} {b b₁ : WizardBoard}
    {out : PatternStatus × WizardBoard} (h : Settles slug interactive b₁ out)
    (hkeeps : b.KeepsInputs b₁) : Settles slug interactive b out :=
  ⟨hkeeps.trans h.keeps, h.asks, h.silent⟩

/-- The loop over the phases of a collection, with at least one round for an input. -/
theorem settles_collectionLoop (c : CollectionStep) (rounds : ℕ) :
    ∀ b : WizardBoard, (rounds = 0 → b.inputs.get? c.slug = none) →
      Settles c.slug true (b.taken c.slug) (collectionLoop env a c rounds b) := by
  induction rounds with
  | zero =>
    intro b hnone
    rw [b.taken_of_none (hnone rfl)]
    exact settles_of_ends rfl (.refl b)
  | succ rounds ih =>
    intro b _
    have hphase : PhaseSettles c.slug b.collectionPhase (b.taken c.slug)
        (interactiveTick c.slug (fun value b' => phaseHandle env a c value b' b.collectionPhase)
          (fun b' => phaseRequest env a c b' b.collectionPhase) b) :=
      interactiveTick_ensures (fun value b' => phaseSettles_handle env a c value b' _)
        fun b' => phaseSettles_request env a c b' _
    rw [collectionLoop]
    split
    · have hnone := hphase.keeps.inputs ▸ b.get?_inputs_taken c.slug
      have hrest := ih _ fun _ => hnone
      rw [WizardBoard.taken_of_none hnone] at hrest
      exact hrest.of_keeps hphase.keeps
    · next hstops =>
      refine ⟨hphase.keeps, fun hyields hnone => ?_, fun h => by cases h⟩
      rcases isYieldingStatus_iff.mp hyields with hrunning | hwaiting
      · exact absurd ⟨hrunning, hnone, hphase.goesOn hrunning hnone⟩ hstops
      · exact hphase.asks hwaiting

/-- Whether a phase takes inputs. -/
def PhaseKind.interactive : PhaseKind → Bool
  | resource | workload | transform _ => false
  | _ => true

/-- Whether a leaf takes inputs. -/
def WizardLeaf.interactive : WizardLeaf → Bool
  | condition _ => false
  | phase _ _ kind => kind.interactive

/-- The board of a leaf once an input that is parked for it is consumed. -/
def WizardBoard.takenBy (b : WizardBoard) (leaf : WizardLeaf) : WizardBoard :=
  if leaf.interactive then b.taken leaf.slug else b

/-- The tick of a leaf consumes the input that is parked for it and no other one, and if it pauses
then a prompt that takes inputs is its own. -/
theorem settles_tickLeaf (answers : LeafAnswers ε) (leaf : WizardLeaf) (b : WizardBoard) :
    Settles leaf.slug leaf.interactive ((b.tickedAt leaf).takenBy leaf)
      (tickLeaf env answers leaf b) := by
  cases leaf with
  | condition slug => exact settles_conditionTick _ slug _
  | phase slug stepIndex kind =>
    cases kind with
    | input | introduction =>
      exact interactiveTick_ensures (fun _ b' => settles_inputHandle env _ slug b')
        (settles_inputRequest slug)
    | summary =>
      exact interactiveTick_ensures
        (fun value b' => settles_summaryHandle env _ slug b' stepIndex value)
        fun b' => settles_ask (.refl b')
    | commit =>
      exact interactiveTick_ensures (fun value b' => settles_commitHandle env _ slug b' value)
        (settles_inputRequest slug)
    | resource => exact settles_resourceTick env _ slug _
    | workload => exact settles_workloadTick _ slug _
    | collection config =>
      exact settles_collectionLoop env _ ⟨config, slug⟩ 16 _ fun h => by cases h
    | transform inScope => exact settles_transformTick env _ slug _ inScope

/-- The tick of a leaf keeps the visit and does not complete the wizard. -/
theorem tickLeaf_visit_completed (answers : LeafAnswers ε) (leaf : WizardLeaf) (b : WizardBoard) :
    (tickLeaf env answers leaf b).2.visit = b.visit ∧
      (tickLeaf env answers leaf b).2.completed = b.completed := by
  have hkeeps := (settles_tickLeaf env answers leaf b).keeps
  have htaken : ((b.tickedAt leaf).takenBy leaf).visit = b.visit ∧
      ((b.tickedAt leaf).takenBy leaf).completed = b.completed := by
    unfold takenBy taken
    split
    · cases (b.tickedAt leaf).inputs.get? leaf.slug <;> exact ⟨rfl, rfl⟩
    · exact ⟨rfl, rfl⟩
  exact ⟨hkeeps.visit.trans htaken.1, hkeeps.completed.trans htaken.2⟩

end Leaves

end PalmEngine.Wizard
