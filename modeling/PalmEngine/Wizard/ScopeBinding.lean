import PalmEngine.Wizard.Sequence

/-!
# The binding of the context engine

The scopes of an item are left in a loop, which does not end where the operations on scopes reach
another state. They reach this one as long as no work leaves the context engine bound elsewhere.
-/

namespace PalmEngine.Wizard

open PalmEngine.Lib PalmEngine.Context PalmEngine.BehaviorTree

/-- The operations on scopes reach this state, and no loop hangs. -/
structure WizardBoard.Bound (b : WizardBoard) : Prop where
  reaches : b.reaches = true
  returns : b.interrupted ≠ some .hangs

namespace WizardBoard.Bound

variable {b : WizardBoard} (h : b.Bound)
include h

/-- Entering a scope binds the context engine. -/
theorem enterStep (slug : String) : (b.enterStep slug).Bound := by
  refine ⟨?_, h.returns⟩
  unfold WizardBoard.enterStep WizardBoard.reaches
  cases b.context <;> rfl

/-- Leaving a scope leaves the binding. -/
theorem leaveStep (slug : String) : (b.leaveStep slug).Bound := by
  unfold WizardBoard.leaveStep
  split
  · exact ⟨h.reaches, h.returns⟩
  · exact h

/-- Entering a scope that may be there leaves the binding. -/
theorem ensureScope (name : String) : (b.ensureScope name).Bound := by
  unfold WizardBoard.ensureScope
  split
  · exact h
  · exact h.enterStep name

/-- An exception is no loop. -/
theorem interrupt {i : Interruption} (hi : i ≠ .hangs) : (b.interrupt i).Bound :=
  ⟨h.reaches, fun heq => hi (Option.some.inj heq)⟩

variable {ε : Type} (env : WizardEnv ε) (a : LeafAnswer ε) (c : CollectionStep)

/-- Stored answers leave the binding. -/
theorem persist (entries : List (String × Value)) : (Wizard.persist env a entries b).Bound := by
  have hset : (b.setAnswers entries).Bound := ⟨h.reaches, h.returns⟩
  unfold Wizard.persist
  simp only
  split
  · split
    · exact hset.interrupt Interruption.noConfusion
    · exact ⟨h.reaches, h.returns⟩
  · exact hset

/-- Work that does not bind the engine elsewhere leaves the binding. -/
theorem afterWork (hbinds : a.rebinds = false) : (b.afterWork a).Bound := by
  unfold WizardBoard.afterWork
  rw [hbinds]
  exact ⟨h.reaches, h.returns⟩

/-- Beginning with an item leaves the binding. -/
theorem beginItemSession (editIndex : Option ℕ) : (Wizard.beginItemSession c editIndex b).Bound := by
  have hbegin : ∀ (session : CollectionSession) (name : String),
      (({ b with session }.ensureScope c.slug).ensureScope name).Bound := by
    intro session name
    have hsession : WizardBoard.Bound { b with session } := ⟨h.reaches, h.returns⟩
    exact (hsession.ensureScope c.slug).ensureScope name
  unfold Wizard.beginItemSession
  cases editIndex with
  | none => exact hbegin _ _
  | some i =>
    simp only
    cases (b.collectionItems c.collectionKey)[i]? with
    | none => exact h.interrupt Interruption.noConfusion
    | some item => exact hbegin _ _

/-- The scopes of an item are left, since the operations reach the state. -/
theorem leaveItemScope : (Wizard.leaveItemScope c b).Bound := by
  unfold Wizard.leaveItemScope
  simp only [h.reaches, if_true]
  split
  · exact h
  · exact ⟨h.reaches, h.returns⟩

/-- Storing the value of a field leaves the binding. -/
theorem storeField (field : CollectionFieldConfig) (value : Value) :
    (Wizard.storeField c field value b).Bound :=
  ⟨(h.leaveStep _).reaches, (h.leaveStep _).returns⟩

end WizardBoard.Bound

section Collection

variable {ε : Type} (env : WizardEnv ε) (a : LeafAnswer ε) (c : CollectionStep) {b : WizardBoard}

/-- Storing items leaves the binding. -/
theorem bound_storeItems (h : b.Bound) (items : List Item) : (storeItems env a c items b).2.Bound := by
  have hitems : (setCollectionItems env a c items b).Bound := h.persist env a _
  unfold storeItems
  simp only
  split
  · exact hitems
  · split
    · exact hitems.leaveItemScope c
    · exact ⟨(hitems.leaveItemScope c).reaches, (hitems.leaveItemScope c).returns⟩

/-- Storing an item leaves the binding. -/
theorem bound_commitItem (h : b.Bound) : (commitItem env a c b).2.Bound := by
  unfold commitItem
  cases b.session.editIndex with
  | none => exact bound_storeItems env a c h _
  | some i =>
    simp only
    split
    · exact bound_storeItems env a c h _
    · exact h.interrupt Interruption.noConfusion

/-- Asking for an input leaves the binding. -/
theorem bound_ask (h : b.Bound) (slug : String) : (ask slug b).2.Bound := ⟨h.reaches, h.returns⟩

/-- Asking for a field leaves the binding. -/
theorem bound_fieldRequest (h : b.Bound) : (fieldRequest env a c b).2.Bound := by
  unfold fieldRequest
  split
  · exact bound_commitItem env a c h
  · exact bound_ask ((((h.ensureScope _).ensureScope _)).enterStep _) _

/-- A phase of a collection asks. -/
theorem bound_phaseRequest (h : b.Bound) (phase : CollectionPhase) :
    (phaseRequest env a c b phase).2.Bound := by
  cases phase with
  | menu => exact bound_ask (h.ensureScope c.slug) _
  | field => exact bound_fieldRequest env a c h
  | selectItem =>
    simp only [phaseRequest, selectRequest]
    split
    · exact ⟨h.reaches, h.returns⟩
    · exact bound_ask h _
  | removeConfirm =>
    simp only [phaseRequest, removeRequest]
    split
    · exact ⟨h.reaches, h.returns⟩
    · split
      · exact bound_ask h _
      · exact h.interrupt Interruption.noConfusion

/-- Finishing a collection leaves the binding. -/
theorem bound_finishCollection (h : b.Bound) (items : List Item) :
    (finishCollection env a c items b).2.Bound := by
  have hitems : (setCollectionItems env a c items b).Bound := h.persist env a _
  have hclear : (setCollectionItems env a c items b).clearSession.Bound :=
    ⟨hitems.reaches, hitems.returns⟩
  unfold finishCollection
  split
  · exact bound_ask h _
  · split
    · exact bound_ask h _
    · simp only
      split
      · exact hitems
      · exact ⟨(hclear.leaveStep c.slug).reaches, (hclear.leaveStep c.slug).returns⟩

/-- A phase of a collection takes an input. -/
theorem bound_phaseHandle (h : b.Bound) (value : Value) (phase : CollectionPhase) :
    (phaseHandle env a c value b phase).2.Bound := by
  have hselect : ∀ action, (b.setSelectAction action).Bound := fun _ => ⟨h.reaches, h.returns⟩
  have hphase : ∀ (b₁ : WizardBoard) (next : CollectionPhase), b₁.Bound → (b₁.setPhase next).Bound :=
    fun _ _ h₁ => ⟨h₁.reaches, h₁.returns⟩
  cases phase with
  | menu =>
    simp only [phaseHandle, menuHandle]
    split
    · exact bound_ask h _
    · exact hphase _ _ (h.beginItemSession c none)
    · exact bound_finishCollection env a c h _
    all_goals exact hphase _ _ (hselect _)
  | field =>
    simp only [phaseHandle, fieldHandle]
    split
    · exact bound_commitItem env a c h
    · split
      · exact bound_ask h _
      · exact bound_fieldRequest env a c (h.storeField c _ _)
  | selectItem =>
    simp only [phaseHandle, selectHandle]
    split
    · exact hphase _ _ (hselect none)
    · split
      · exact bound_ask h _
      · split
        · exact ⟨h.reaches, h.returns⟩
        · exact hphase _ _ ((hselect none).beginItemSession c _)
  | removeConfirm =>
    have hfinish : ∀ b₁ : WizardBoard, b₁.Bound →
        (if b₁.interrupted.isSome then (PatternStatus.running, b₁)
        else (.running, b₁.clearSession.setPhase .menu)).2.Bound := by
      intro b₁ h₁
      split
      · exact h₁
      · exact ⟨h₁.reaches, h₁.returns⟩
    simp only [phaseHandle, removeHandle]
    split
    · exact ⟨h.reaches, h.returns⟩
    · split
      · exact bound_ask h _
      · split
        · exact hphase _ _ h
        · refine hfinish _ ?_
          split
          · exact h.persist env a _
          · exact h

/-- An interactive leaf keeps what its handler and its request keep. -/
theorem bound_interactiveTick {slug : String}
    {handle : Value → WizardBoard → PatternStatus × WizardBoard}
    {request : WizardBoard → PatternStatus × WizardBoard} (h : b.Bound)
    (hhandle : ∀ value b, b.Bound → (handle value b).2.Bound)
    (hrequest : ∀ b, b.Bound → (request b).2.Bound) :
    (interactiveTick slug handle request b).2.Bound := by
  unfold interactiveTick
  cases hparked : b.inputs.get? slug with
  | none => exact hrequest b h
  | some parked => exact hhandle parked.value _ ⟨h.reaches, h.returns⟩

/-- The loop over the phases of a collection leaves the binding. -/
theorem bound_collectionLoop (rounds : ℕ) :
    ∀ b : WizardBoard, b.Bound → (collectionLoop env a c rounds b).2.Bound := by
  induction rounds with
  | zero => exact fun _ h => h
  | succ rounds ih =>
    intro b h
    have hphase : (interactiveTick c.slug
        (fun value b' => phaseHandle env a c value b' b.collectionPhase)
        (fun b' => phaseRequest env a c b' b.collectionPhase) b).2.Bound :=
      bound_interactiveTick h (fun value b' h' => bound_phaseHandle env a c h' value _)
        fun b' h' => bound_phaseRequest env a c h' _
    rw [collectionLoop]
    split
    · exact ih _ hphase
    · exact hphase

end Collection

section Leaves

variable {ε : Type} (env : WizardEnv ε) (a : LeafAnswer ε) (slug : String) {b : WizardBoard}

/-- A step that raises is bound as before. -/
theorem bound_raiseOut (h : b.Bound) : (raiseOut b).2.Bound := h.interrupt Interruption.noConfusion

/-- A success leaves the binding if what comes after it does. -/
theorem bound_succeed {finish : WizardBoard → WizardBoard} (h : b.Bound)
    (hfinish : ∀ b, b.Bound → (finish b).Bound) : (succeed finish b).2.Bound := by
  unfold succeed
  split
  · exact h
  · exact hfinish b h

/-- An input step takes an answer. -/
theorem bound_inputHandle (h : b.Bound) : (inputHandle env a slug b).2.Bound := by
  unfold inputHandle
  split
  · exact bound_raiseOut h
  · split
    · exact bound_ask h slug
    · exact bound_succeed (h.persist env a _) fun b h =>
        ⟨(h.leaveStep slug).reaches, (h.leaveStep slug).returns⟩

/-- A summary takes an answer. -/
theorem bound_summaryHandle (h : b.Bound) (stepIndex : ℕ) (value : Value) :
    (summaryHandle env a slug stepIndex value b).2.Bound := by
  unfold summaryHandle
  split
  · exact bound_ask h slug
  · split
    · exact ⟨h.reaches, h.returns⟩
    · split
      · exact bound_ask h slug
      · exact ⟨(h.leaveStep slug).reaches, (h.leaveStep slug).returns⟩

variable (hbinds : a.rebinds = false)
include hbinds

/-- A commit takes an answer. -/
theorem bound_commitHandle (h : b.Bound) (value : Value) :
    (commitHandle env a slug value b).2.Bound := by
  have hmerge : b.mergeCompositional.Bound := ⟨h.reaches, h.returns⟩
  have hwork := hmerge.afterWork a hbinds
  have hcommitted : ∀ committed : Bool,
      WizardBoard.Bound { b.mergeCompositional.afterWork a with committed } := fun _ =>
    ⟨hwork.reaches, hwork.returns⟩
  unfold commitHandle
  split
  · exact bound_ask h slug
  · split
    · exact bound_ask h slug
    · simp only
      split
      · exact bound_raiseOut hwork
      · split
        · have hleft := (hcommitted true).leaveStep slug
          exact ⟨hleft.reaches, hleft.returns⟩
        · exact hcommitted false

/-- A transform runs. -/
theorem bound_transformTick (h : b.Bound) (inScope : Bool) :
    (transformTick env a slug inScope b).2.Bound := by
  have henter : (if inScope then b.enterStep slug else b).Bound := by
    split
    · exact h.enterStep slug
    · exact h
  have hleave : ∀ b₁ : WizardBoard, b₁.Bound → (if inScope then b₁.leaveStep slug else b₁).Bound := by
    intro b₁ h₁
    split
    · exact h₁.leaveStep slug
    · exact h₁
  have hprompt : ((if inScope then b.enterStep slug else b).prompt slug false).Bound :=
    ⟨henter.reaches, henter.returns⟩
  have hwork := hprompt.afterWork a hbinds
  unfold transformTick
  simp only
  split
  · exact bound_raiseOut hwork
  · split
    · exact bound_succeed (hwork.persist env a _) fun b h => ⟨(hleave b h).reaches, (hleave b h).returns⟩
    · exact hleave _ ⟨hwork.reaches, hwork.returns⟩

omit hbinds in
/-- A resource step finishes. -/
theorem bound_resourceFinish (h : b.Bound) : (resourceFinish env a slug b).2.Bound :=
  bound_succeed (h.persist env a _) fun _ h =>
    ⟨(h.leaveStep slug).reaches, (h.leaveStep slug).returns⟩

/-- A resource step runs. -/
theorem bound_resourceTick (h : b.Bound) : (resourceTick env a slug b).2.Bound := by
  have hbegin : ((b.enterStep slug).prompt slug false).promoteBindingKeys.Bound :=
    ⟨(h.enterStep slug).reaches, h.returns⟩
  have hwork := hbegin.afterWork a hbinds
  unfold resourceTick
  split
  · exact ⟨h.reaches, h.returns⟩
  · exact bound_resourceFinish env a slug h
  · simp only
    split
    · exact bound_raiseOut hwork
    · split
      · exact bound_resourceFinish env a slug hwork
      · exact ⟨hwork.reaches, hwork.returns⟩
      all_goals
        have hpublished : (WizardBoard.publish (WizardBoard.afterWork a
            ((b.enterStep slug).prompt slug false).promoteBindingKeys) a.results).Bound :=
          ⟨hwork.reaches, hwork.returns⟩
        have hprompt : ((WizardBoard.afterWork a
            ((b.enterStep slug).prompt slug false).promoteBindingKeys).prompt slug false).Bound :=
          ⟨hwork.reaches, hwork.returns⟩
        split
        · exact ⟨(hpublished.leaveStep slug).reaches, (hpublished.leaveStep slug).returns⟩
        · exact hprompt.leaveStep slug

/-- A workload step runs. -/
theorem bound_workloadTick (h : b.Bound) : (workloadTick a slug b).2.Bound := by
  have hbegin : ((b.enterStep slug).prompt slug false).promoteAnswers.Bound :=
    ⟨(h.enterStep slug).reaches, h.returns⟩
  have hwork := hbegin.afterWork a hbinds
  have hdone : ((WizardBoard.afterWork a ((b.enterStep slug).prompt slug
      false).promoteAnswers).clearPrompt.setAnswers a.results).Bound := ⟨hwork.reaches, hwork.returns⟩
  unfold workloadTick
  simp only
  split
  · exact bound_raiseOut hwork
  · split
    · exact hwork
    · exact hdone.leaveStep slug
    all_goals exact bound_raiseOut hwork

end Leaves

/-- The tick of a leaf leaves the binding if no work binds the engine elsewhere. -/
theorem bound_tickLeaf {ε : Type} (env : WizardEnv ε) {answers : LeafAnswers ε}
    (hbinds : ∀ leaf t, (answers leaf t).rebinds = false) (leaf : WizardLeaf) {b : WizardBoard}
    (h : b.Bound) : (tickLeaf env answers leaf b).2.Bound := by
  have hticked : (b.tickedAt leaf).Bound := ⟨h.reaches, h.returns⟩
  cases leaf with
  | condition slug =>
    simp only [tickLeaf, conditionTick]
    split
    · exact bound_raiseOut hticked
    · exact hticked
  | phase slug i kind =>
    have hbound := hbinds (.phase slug i kind) b.clock
    cases kind with
    | input | introduction =>
      exact bound_interactiveTick hticked (fun _ b h => bound_inputHandle env _ slug h)
        fun b h => bound_ask (h.enterStep slug) slug
    | summary =>
      exact bound_interactiveTick hticked (fun value b h => bound_summaryHandle env _ slug h i value)
        fun b h => bound_ask h slug
    | commit =>
      exact bound_interactiveTick hticked
        (fun value b h => bound_commitHandle env _ slug hbound h value)
        fun b h => bound_ask (h.enterStep slug) slug
    | resource => exact bound_resourceTick env _ slug hbound hticked
    | workload => exact bound_workloadTick _ slug hbound hticked
    | collection config => exact bound_collectionLoop env _ ⟨config, slug⟩ 16 _ hticked
    | transform inScope => exact bound_transformTick env _ slug hbound hticked inScope

end PalmEngine.Wizard
