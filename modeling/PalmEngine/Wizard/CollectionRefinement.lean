import PalmEngine.Wizard.CollectionEditor

/-!
# A wizard with one collection step is an editor

The blackboard takes over public values as answers when a tick begins, so the items of a wizard are
those that the next tick finds. Each call of the wizard is a step of the editor or leaves it as it is,
and so is every run of calls.
-/

namespace PalmEngine.Wizard

open PalmEngine.Lib PalmEngine.Context PalmEngine.BehaviorTree

section Merge

/-- Copying a value to a key that is unset or holds the missing value. -/
def fillEntry (d : Dict String Value) (e : String × Value) : Dict String Value :=
  if e.2.isNull ∨ (d.get? e.1).any (!·.isNull) then d else d.set e.1 e.2

/-- Filling in values leaves a key that has a value, or for which there is none. -/
theorem get?_foldl_fillEntry (key : String) (entries : List (String × Value))
    (d : Dict String Value)
    (h : ∀ e ∈ entries, e.1 = key → e.2.isNull ∨ (d.get? key).any (!·.isNull)) :
    (entries.foldl fillEntry d).get? key = d.get? key := by
  induction entries generalizing d with
  | nil => rfl
  | cons e rest ih =>
    have hhead : (fillEntry d e).get? key = d.get? key := by
      unfold fillEntry
      split
      · rfl
      · next hfills =>
        refine Dict.get?_set_ne d e.2 fun hkey => hfills ?_
        rw [← hkey]
        exact h e List.mem_cons_self hkey.symm
    rw [List.foldl_cons, ih _ fun e' he' hkey => ?_, hhead]
    rw [hhead]
    exact h e' (List.mem_cons_of_mem e he') hkey

/-- After values are filled in, each that is not the missing one is there or was not needed. -/
theorem any_foldl_fillEntry (entries : List (String × Value)) (d : Dict String Value)
    {e : String × Value} (he : e ∈ entries) :
    e.2.isNull ∨ ((entries.foldl fillEntry d).get? e.1).any (!·.isNull) := by
  induction entries generalizing d with
  | nil => cases he
  | cons first rest ih =>
    rcases List.mem_cons.mp he with rfl | hrest
    · by_cases hnull : e.2.isNull = true
      · exact Or.inl hnull
      · have hfilled : ((fillEntry d e).get? e.1).any (!·.isNull) = true := by
          unfold fillEntry
          split
          · next h => exact h.resolve_left hnull
          · rw [Dict.get?_set_self]
            simpa using hnull
        refine Or.inr ?_
        rw [List.foldl_cons, get?_foldl_fillEntry e.1 rest _ fun _ _ _ => Or.inr hfilled]
        exact hfilled
    · exact ih _ hrest

namespace WizardBoard

variable {key : String} {b : WizardBoard}

/-- Once public values are taken over, a key is settled. -/
theorem settled_mergeCompositional (key : String) (b : WizardBoard) :
    b.mergeCompositional.Settled key := by
  by_cases hpublic : ∃ v, b.publicKeys.get? key = some v ∧ ¬v.isNull = true
  · obtain ⟨v, hv, hnull⟩ := hpublic
    have hmem : (key, v) ∈ b.publicKeys.entries := (Dict.get?_eq_some_iff _ _ _).mp hv
    exact Or.inl ((any_foldl_fillEntry _ b.answers hmem).resolve_left hnull)
  · refine Or.inr fun v hv => ?_
    by_contra hnull
    exact hpublic ⟨v, hv, hnull⟩

/-- Taking over public values leaves a settled key. -/
theorem Settled.collectionItems (h : b.Settled key) :
    b.mergeCompositional.collectionItems key = b.collectionItems key := by
  have hkey : b.mergeCompositional.answers.get? key = b.answers.get? key := by
    refine get?_foldl_fillEntry key b.publicKeys.entries b.answers fun e he hkey => ?_
    refine h.symm.imp (fun hpublic => hpublic e.2 ?_) id
    exact (Dict.get?_eq_some_iff _ _ _).mpr (hkey ▸ he)
  rw [WizardBoard.collectionItems, hkey, ← WizardBoard.collectionItems]

end WizardBoard

end Merge

section Wizard

variable {ε : Type} (env : WizardEnv ε) (c : CollectionStep)

/-- A wizard with one collection step. -/
def collectionWizard (refusesBacktrack allowBacktrack : Bool) (introductionSlug : Option String) :
    WizardConfig where
  steps := [.phase c.slug (.collection c.toCollectionConfig) refusesBacktrack]
  allowBacktrack
  introductionSlug
  steps_ne_nil := List.cons_ne_nil _ _
  nodup_slugs := by exact List.nodup_singleton c.slug

/-- The leaf of the step. -/
def collectionLeaf : WizardLeaf := .phase c.slug 0 (.collection c.toCollectionConfig)

/-- A call that asks for a backtrack. -/
def WizardCall.isBacktrack : WizardCall ε → Bool
  | .requestBacktrack _ => true
  | _ => false

variable {c} {refuses allows : Bool} {intro : Option String}

/-- The items of a wizard, as the next tick finds them. -/
def storedItems (w : WizardPattern (collectionWizard c refuses allows intro)) : List Item :=
  w.board.mergeCompositional.collectionItems c.collectionKey

/-- The input that a call consumes, with what the environment answers in the tick. -/
def consumedInput (w : WizardPattern (collectionWizard c refuses allows intro)) :
    WizardCall ε → Option (LeafAnswer ε × Value)
  | .tick answers _ =>
    if w.board.completed then none
    else (w.board.inputs.get? c.slug).map fun parked =>
      (answers (collectionLeaf c) w.board.clock, parked.value)
  | _ => none

/-- The inputs that a run of calls consumes. -/
def consumedInputs (w : WizardPattern (collectionWizard c refuses allows intro)) :
    List (WizardCall ε) → List (LeafAnswer ε × Value)
  | [] => []
  | call :: rest =>
    (consumedInput w call).toList ++ (w.step env call).elim [] fun w' => consumedInputs w' rest

/-- The editor after inputs. -/
def ItemEditor.takeAll (c : CollectionStep) (e : ItemEditor)
    (inputs : List (LeafAnswer ε × Value)) : ItemEditor :=
  inputs.foldl (fun e input => e.take env input.1 c input.2) e

/-- A wizard is at what an editor is at: the items are the same, also after an interruption, and
before one the session says what the user is at. If the wizard has succeeded there are enough
items. -/
structure IsAt (w : WizardPattern (collectionWizard c refuses allows intro)) (e : ItemEditor) :
    Prop where
  index : w.position.index = 0
  items : storedItems w = e.items
  mode : w.board.interrupted = none → e.mode.Shown w.board.session
  fits : e.Fits c
  jumpTo : w.board.jumpTo = none
  backtrackTo : w.board.backtrackTo = none
  completed : w.board.completed = true → c.minItems ≤ e.items.length
  enough : w.status = some .success → c.minItems ≤ e.items.length

variable {env} {e : ItemEditor} {w w' : WizardPattern (collectionWizard c refuses allows intro)}

/-- A call that consumes no input and leaves the keys of the step leaves the wizard at what it is
at. -/
theorem IsAt.provideInput (h : IsAt w e) (value : Value) :
    IsAt { w with board := w.board.provideInput value } e := by
  have hkept : ∀ b : WizardBoard, b = w.board.provideInput value →
      b.answers = w.board.answers ∧ b.publicKeys = w.board.publicKeys ∧
        b.session = w.board.session ∧ b.interrupted = w.board.interrupted ∧
        b.jumpTo = w.board.jumpTo ∧ b.backtrackTo = w.board.backtrackTo ∧
        b.completed = w.board.completed := by
    rintro b rfl
    unfold WizardBoard.provideInput
    split <;> exact ⟨rfl, rfl, rfl, rfl, rfl, rfl, rfl⟩
  obtain ⟨hanswers, hpublic, hsession, hinterrupted, hjump, hback, hcompleted⟩ := hkept _ rfl
  have hitems : storedItems { w with board := w.board.provideInput value } = storedItems w := by
    simp only [storedItems, WizardBoard.collectionItems, WizardBoard.mergeCompositional, hanswers,
      hpublic]
  exact
    { index := h.index
      items := hitems.trans h.items
      mode := fun hnone => by rw [hsession]; exact h.mode (hinterrupted ▸ hnone)
      fits := h.fits
      jumpTo := hjump.trans h.jumpTo
      backtrackTo := hback.trans h.backtrackTo
      completed := fun hdone => h.completed (hcompleted ▸ hdone)
      enough := h.enough }

/-- The board on which the leaf is ticked. -/
def tickedBoard (c : CollectionStep) (b : WizardBoard) : WizardBoard :=
  (b.bindState.mergeCompositional.takeBacktrack).tickedAt (collectionLeaf c)

/-- What the loop over the steps makes of the tick of the only leaf. -/
theorem sequenceLoop_leaf {answers : LeafAnswers ε} {rounds : ℕ} {b : WizardBoard}
    {held : (i : Fin (collectionWizard c refuses allows intro).count) →
      ((collectionWizard c refuses allows intro).stepTree i).Held}
    {out : WizardTick (collectionWizard c refuses allows intro)}
    (hjump : (tickLeaf env answers (collectionLeaf c) b).2.jumpTo = none)
    (hloop : sequenceLoop env answers (collectionWizard c refuses allows intro) rounds ⟨0, held⟩ b =
      some out) :
    out.position.index = 0 ∧ out.status = (tickLeaf env answers (collectionLeaf c) b).1 ∧
      (tickLeaf env answers (collectionLeaf c) b).2.Untouched out.board ∧
      out.board.completed = (tickLeaf env answers (collectionLeaf c) b).2.completed := by
  cases rounds with
  | zero => cases hloop
  | succ rounds =>
    have hlt : 0 < (collectionWizard c refuses allows intro).count := Nat.one_pos
    have htick : ((collectionWizard c refuses allows intro).stepTree ⟨0, hlt⟩).tick
        (tickLeaf env answers) 0 (held ⟨0, hlt⟩) b =
          some ⟨(tickLeaf env answers (collectionLeaf c) b).1, held ⟨0, hlt⟩,
            (tickLeaf env answers (collectionLeaf c) b).2⟩ := rfl
    rw [sequenceLoop, dif_pos hlt, htick, Option.bind_some] at hloop
    simp only at hloop
    split at hloop
    · obtain rfl := Option.some.inj hloop
      exact ⟨rfl, rfl, .refl _, rfl⟩
    · next hyields =>
      split at hloop
      · next hfailure =>
        obtain rfl := Option.some.inj hloop
        exact ⟨rfl, hfailure.symm, ⟨rfl, rfl, rfl, rfl, rfl, rfl⟩, rfl⟩
      · next hfailure =>
        have hsuccess : (tickLeaf env answers (collectionLeaf c) b).1 = .success := by
          cases hstatus : (tickLeaf env answers (collectionLeaf c) b).1 with
          | success => rfl
          | failure => exact absurd hstatus hfailure
          | running | waitingForInput => exact absurd (by rw [hstatus]; rfl) hyields
        cases rounds with
        | zero => cases hloop
        | succ rounds =>
          rw [hjump] at hloop
          rw [sequenceLoop, dif_neg (by exact Nat.lt_irrefl 1)] at hloop
          obtain rfl := Option.some.inj hloop
          exact ⟨rfl, hsuccess.symm, ⟨rfl, rfl, rfl, rfl, hjump.symm, rfl⟩, rfl⟩

/-- What the tick of the wizard makes of the tick of its leaf. -/
theorem step_tick {answers : LeafAnswers ε} {rounds : ℕ} (hindex : w.position.index = 0)
    (hback : w.board.backtrackTo = none) (hcompleted : w.board.completed = false)
    (hjump : (collectionTick env (answers (collectionLeaf c) w.board.clock) c
      (tickedBoard c w.board)).2.jumpTo = none)
    (hstep : w.step env (.tick answers rounds) = some w') :
    let out := collectionTick env (answers (collectionLeaf c) w.board.clock) c
      (tickedBoard c w.board)
    w'.position.index = 0 ∧ w'.status = some out.1 ∧ out.2.Untouched w'.board ∧
      (w'.board.completed = true → out.1 = .success) := by
  obtain ⟨⟨index, held⟩, board, status⟩ := w
  obtain rfl : index = 0 := hindex
  simp only at hback hcompleted hjump
  simp only [WizardPattern.step] at hstep
  split at hstep
  · cases hstep
  · obtain ⟨tick, htick, rfl⟩ := Option.map_eq_some_iff.mp hstep
    rw [guardTick, if_neg (by rw [WizardBoard.bindState, hcompleted]; exact Bool.false_ne_true)] at htick
    obtain ⟨mid, hmid, rfl⟩ := Option.map_eq_some_iff.mp htick
    have happlied : applyBacktrack (collectionWizard c refuses allows intro) ⟨0, held⟩
        board.bindState.mergeCompositional =
        (⟨0, held⟩, board.bindState.mergeCompositional.takeBacktrack) := by
      have hnone : appliedBacktrack (collectionWizard c refuses allows intro)
          board.bindState.mergeCompositional = none := by
        simp only [appliedBacktrack, WizardBoard.mergeCompositional, WizardBoard.bindState, hback,
          Option.bind_none]
      rw [applyBacktrack, hnone]
    rw [sequenceTick, happlied] at hmid
    obtain ⟨hposition, hstatus, huntouched, hdone⟩ := sequenceLoop_leaf hjump hmid
    have hkept := (tickLeaf_visit_completed env answers (collectionLeaf c)
      board.bindState.mergeCompositional.takeBacktrack).2
    have hnot : mid.board.completed = false := hdone.trans (hkept.trans hcompleted)
    split
    · refine ⟨hposition, congrArg some hstatus, huntouched, fun hcompleted => ?_⟩
      rw [hnot] at hcompleted
      cases hcompleted
    · next hsuccess =>
      have hsuccess : mid.status = .success := not_not.mp hsuccess
      rw [if_neg fun h => by cases h.1]
      exact ⟨hposition, congrArg some hstatus,
        huntouched.trans ⟨rfl, rfl, rfl, rfl, rfl, rfl⟩, fun _ => hstatus.symm.trans hsuccess⟩

/-- The board of the leaf is at what the wizard is at. -/
theorem IsAt.shows (h : IsAt w e) (hnone : w.board.interrupted = none) :
    (tickedBoard c w.board).Shows c e where
  items := h.items
  mode := h.mode hnone
  fits := h.fits

/-- A wizard whose board is that of a leaf that has been ticked is at what the leaf is at. -/
theorem isAt_of_untouched {b : WizardBoard} {status : PatternStatus}
    (hindex : w'.position.index = 0) (hstatus : w'.status = some status)
    (huntouched : b.Untouched w'.board) (hitems : b.collectionItems c.collectionKey = e.items)
    (hsettled : b.Settled c.collectionKey) (hmode : b.interrupted = none → e.mode.Shown b.session)
    (hfits : e.Fits c) (hjump : b.jumpTo = none) (hback : b.backtrackTo = none)
    (hcompleted : w'.board.completed = true → status = .success)
    (henough : status = .success → c.minItems ≤ e.items.length) : IsAt w' e where
  index := hindex
  items := by
    rw [storedItems, (huntouched.settled hsettled).collectionItems, huntouched.collectionItems]
    exact hitems
  mode := fun hnone => by
    rw [huntouched.session]
    exact hmode (huntouched.interrupted ▸ hnone)
  fits := hfits
  jumpTo := huntouched.jumpTo.trans hjump
  backtrackTo := huntouched.backtrackTo.trans hback
  completed := fun hdone => henough (hcompleted hdone)
  enough := fun hsuccess => henough (Option.some.inj (hstatus.symm.trans hsuccess))

/-- A tick takes the input that it consumes as the editor does. -/
theorem IsAt.tick (hfields : c.itemFields ≠ []) (h : IsAt w e) {answers : LeafAnswers ε}
    {rounds : ℕ} (hstep : w.step env (.tick answers rounds) = some w') :
    IsAt w' (e.takeAll env c (consumedInput w (.tick answers rounds)).toList) := by
  have hnone : w.board.interrupted = none := by
    cases hinterrupted : w.board.interrupted with
    | none => rfl
    | some i =>
      simp only [WizardPattern.step, hinterrupted, Option.isSome_some, if_true] at hstep
      cases hstep
  cases hcompleted : w.board.completed with
  | true =>
    have hsame : w' = ⟨w.position, w.board.bindState, some .success⟩ := by
      simp only [WizardPattern.step, hnone, Option.isSome_none, Bool.false_eq_true, if_false,
        guardTick] at hstep
      rw [if_pos (by exact hcompleted)] at hstep
      exact (Option.some.inj hstep).symm
    rw [consumedInput, if_pos hcompleted, hsame]
    exact
      { index := h.index, items := h.items, mode := h.mode, fits := h.fits, jumpTo := h.jumpTo
        backtrackTo := h.backtrackTo, completed := h.completed
        enough := fun _ => h.completed hcompleted }
  | false =>
    have hshows := h.shows hnone
    have hsettled : (tickedBoard c w.board).Settled c.collectionKey :=
      WizardBoard.settled_mergeCompositional c.collectionKey w.board.bindState
    rw [consumedInput, if_neg (by rw [hcompleted]; exact Bool.false_ne_true)]
    cases hinput : w.board.inputs.get? c.slug with
    | none =>
      have hasks := collectionLoop_asks env (answers (collectionLeaf c) w.board.clock) hshows hinput 15
      obtain ⟨hindex, hstatus, huntouched, hdone⟩ := step_tick h.index h.backtrackTo hcompleted
        (hasks.2.jumpTo.trans h.jumpTo) hstep
      have hwaits : (collectionTick env (answers (collectionLeaf c) w.board.clock) c
          (tickedBoard c w.board)).1 = .success → c.minItems ≤ e.items.length := by
        rw [collectionTick, hasks.1]
        exact fun hsuccess => by cases hsuccess
      exact isAt_of_untouched hindex hstatus huntouched
        ((hasks.2.collectionItems _).trans hshows.items) (hasks.2.settled hsettled)
        (fun _ => hasks.2.session ▸ hshows.mode) h.fits (hasks.2.jumpTo.trans h.jumpTo)
        hasks.2.backtrackTo hdone hwaits
    | some parked =>
      have hreacts := collectionTick_reacts env (answers (collectionLeaf c) w.board.clock) hfields
        hshows hinput
      obtain ⟨hindex, hstatus, huntouched, hdone⟩ := step_tick h.index h.backtrackTo hcompleted
        (hreacts.jumpTo.trans h.jumpTo) hstep
      exact isAt_of_untouched hindex hstatus huntouched hreacts.items (hreacts.settled hsettled)
        hreacts.mode (h.fits.take hfields parked.value) (hreacts.jumpTo.trans h.jumpTo)
        (hreacts.backtrackTo) hdone hreacts.enough

/-- Every call takes the input that it consumes as the editor does. -/
theorem IsAt.step (hfields : c.itemFields ≠ []) (h : IsAt w e) {call : WizardCall ε}
    (hcall : call.isBacktrack = false) (hstep : w.step env call = some w') :
    IsAt w' (e.takeAll env c (consumedInput w call).toList) := by
  cases call with
  | provideInput value =>
    simp only [WizardPattern.step] at hstep
    split at hstep
    · cases hstep
    · obtain rfl := Option.some.inj hstep
      exact h.provideInput value
  | requestBacktrack slug => cases hcall
  | tick answers rounds => exact h.tick hfields hstep

/-- A run of calls takes the inputs that it consumes as the editor does. -/
theorem IsAt.run (hfields : c.itemFields ≠ []) {calls : List (WizardCall ε)}
    (hcalls : ∀ call ∈ calls, call.isBacktrack = false) (h : IsAt w e)
    (hrun : runSteps (WizardPattern.step env) w calls = some w') :
    IsAt w' (e.takeAll env c (consumedInputs env w calls)) := by
  induction calls generalizing w e with
  | nil => exact Option.some.inj hrun ▸ h
  | cons call rest ih =>
    obtain ⟨mid, hmid, hrest⟩ := runSteps_cons hrun
    rw [consumedInputs, hmid, Option.elim_some, ItemEditor.takeAll, List.foldl_append]
    exact ih (fun call' hcall' => hcalls call' (List.mem_cons_of_mem _ hcall'))
      (h.step hfields (hcalls call List.mem_cons_self) hmid) hrest

/-- A new wizard is at the menu, with the items that it finds. -/
theorem isAt_start (publicKeys : Dict String Value) (scopes : List String) (context : Option Bool) :
    IsAt (WizardPattern.start (collectionWizard c refuses allows intro) publicKeys scopes context)
      ⟨storedItems (WizardPattern.start (collectionWizard c refuses allows intro) publicKeys scopes
        context), .menu⟩ where
  index := rfl
  items := rfl
  mode := fun _ => .menu rfl
  fits := trivial
  jumpTo := rfl
  backtrackTo := rfl
  completed := fun h => by cases h
  enough := fun h => by cases h

/-- The items of a wizard with one collection step are those of an editor that takes the inputs which
the wizard consumes, after any run of inputs and ticks; and it succeeds with enough items only. -/
theorem storedItems_run (env : WizardEnv ε) (c : CollectionStep) (refuses allows : Bool)
    (intro : Option String) (hfields : c.itemFields ≠ []) (publicKeys : Dict String Value)
    (scopes : List String) (context : Option Bool) (calls : List (WizardCall ε))
    (hcalls : ∀ call ∈ calls, call.isBacktrack = false)
    (w : WizardPattern (collectionWizard c refuses allows intro))
    (hrun : runSteps (WizardPattern.step env) (.start _ publicKeys scopes context) calls = some w) :
    let start : WizardPattern (collectionWizard c refuses allows intro) :=
      .start _ publicKeys scopes context
    storedItems w = (ItemEditor.takeAll env c ⟨storedItems start, .menu⟩
        (consumedInputs env start calls)).items ∧
      (w.status = some .success → c.minItems ≤ (storedItems w).length) := by
  have hat := (isAt_start publicKeys scopes context).run hfields hcalls hrun
  exact ⟨hat.items, fun hsuccess => hat.items ▸ hat.enough hsuccess⟩

end Wizard

section Fixed

/-- A collection of names. -/
def names : CollectionStep where
  collectionKey := "names"
  itemFields := [{ slug := "name" }]
  minItems := 0
  slug := "people"

/-- A name is entered for the collection of names. -/
def enterName : List (WizardCall Unit) :=
  [.tick plainAnswers 2, .provideInput (.int 1), .tick plainAnswers 2, .provideInput (.str "ada"),
    .tick plainAnswers 2]

/-- The name is in the collection. -/
theorem storedItems_run_names : ∃ w, runSteps (WizardPattern.step plainEnv)
    (.start (collectionWizard names false true none) .empty [] none) enterName = some w ∧
      storedItems w = [[("name", .str "ada")]] := by
  refine ⟨_, rfl, ?_⟩
  exact (storedItems_run plainEnv names false true none (List.cons_ne_nil _ _) .empty [] none
    enterName (by decide) _ rfl).1

end Fixed

end PalmEngine.Wizard
