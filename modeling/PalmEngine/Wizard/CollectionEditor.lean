import PalmEngine.Wizard.Automatic
import PalmEngine.Wizard.Validation

/-!
# A collection as an editor of a list

What a collection step is for: a list of items that is changed by adding an item, by replacing one at
a place that was chosen, and by removing one. An editor has the list and what its user is at. It takes
one input at a time; most inputs only change what the user is at, and the ones that complete an
addition, an edit or a removal change the list by it.

A wizard with one collection step is such an editor: whatever inputs it is given between its ticks,
its items are those of the editor that takes the inputs that it consumes.
-/

namespace PalmEngine.Wizard

open PalmEngine.Lib PalmEngine.Context PalmEngine.BehaviorTree

/-- A change of a list. -/
inductive ListEdit (α : Type) where
  | append (x : α)
  | replace (i : ℕ) (x : α)
  | remove (i : ℕ)

/-- Change a list. -/
def ListEdit.apply {α : Type} (items : List α) : ListEdit α → List α
  | append x => items ++ [x]
  | replace i x => items.set i x
  | remove i => items.eraseIdx i

/-- What the user of an editor is at: the menu, the selection of an item, the fields of a new item or
of the one at an index, of which so many are done, or the removal of the one at an index. -/
inductive EditorMode where
  | menu
  | selecting (action : SelectAction)
  | entering (target : Option ℕ) (draft : Item) (done : ℕ)
  | confirming (index : ℕ)

/-- A list of items with what the user is at. -/
structure ItemEditor where
  items : List Item
  mode : EditorMode := .menu

section Editor

variable {ε : Type} (env : WizardEnv ε) (a : LeafAnswer ε) (c : CollectionStep)

/-- The action of the menu that an input stands for. -/
def menuAction (items : List Item) (value : Value) : Option MenuAction :=
  let choices := menuChoices c items
  (resolveChoiceValue env.text value (choices.map Prod.fst)).bind fun choice =>
    (choices.find? fun e => e.1 = choice).map Prod.snd

namespace ItemEditor

variable (e : ItemEditor)

/-- What an input leads to, and the change of the list that it completes. -/
def react (value : Value) : EditorMode × Option (ListEdit Item) :=
  match e.mode with
  | .menu =>
    match menuAction env c e.items value with
    | some .add => (.entering none [] 0, none)
    | some .editSelect => (.selecting .edit, none)
    | some .removeSelect => (.selecting .remove, none)
    | some .done | none => (.menu, none)
  | .selecting action =>
    if isCancelInput env.text value then (.menu, none)
    else
      match resolveItemIndex env.text value (e.items.mapIdx (env.label c)) with
      | none => (.selecting action, none)
      | some i =>
        if action = .remove then (.confirming i, none)
        else (.entering (some i) (e.items[i]?.getD []) 0, none)
  | .entering target draft done =>
    match (c.itemFields[done]?).bind fun field =>
        (acceptedValue env a field value).map fun v => draftWith field.slug v draft with
    | none => (.entering target draft done, none)
    | some draft =>
      if done + 1 < c.itemFields.length then (.entering target draft (done + 1), none)
      else (.menu, some (target.elim (.append draft) fun i => .replace i draft))
  | .confirming i =>
    if refusesRemoval value then (.menu, none)
    else if isAffirmative env.text value then (.menu, some (.remove i))
    else (.confirming i, none)

/-- Take an input. -/
def take (value : Value) : ItemEditor where
  items := (e.react env a c value).2.elim e.items fun edit => edit.apply e.items
  mode := (e.react env a c value).1

/-- What the user is at fits the list: what is selected from has items, the fields of an item are not
yet all done, and an index is one of the list. -/
def Fits : Prop :=
  match e.mode with
  | .menu => True
  | .selecting _ => e.items ≠ []
  | .entering target _ done => (∀ i ∈ target, i < e.items.length) ∧ done < c.itemFields.length
  | .confirming i => i < e.items.length

end ItemEditor

end Editor

section Shows

variable (c : CollectionStep)

/-- What the user is at is what the keys of a session say. -/
inductive EditorMode.Shown (s : CollectionSession) : EditorMode → Prop
  | menu (h : s.phase.getD .menu = .menu) : Shown s .menu
  | selecting (h : s.phase = some .selectItem) :
      Shown s (.selecting (if s.selectAction = some .remove then .remove else .edit))
  | entering (h : s.phase = some .field) :
      Shown s (.entering s.editIndex s.draft (s.fieldIndex.getD 0))
  | confirming (i : ℕ) (h : s.phase = some .removeConfirm) (hi : s.removeIndex = some i) :
      Shown s (.confirming i)

/-- A board is at what an editor is at. -/
structure WizardBoard.Shows (b : WizardBoard) (e : ItemEditor) : Prop where
  items : b.collectionItems c.collectionKey = e.items
  mode : e.mode.Shown b.session
  fits : e.Fits c

/-- Two boards that differ in their scopes, their prompts and their history only. -/
structure WizardBoard.Untouched (b b' : WizardBoard) : Prop where
  answers : b'.answers = b.answers
  publicKeys : b'.publicKeys = b.publicKeys
  session : b'.session = b.session
  interrupted : b'.interrupted = b.interrupted
  jumpTo : b'.jumpTo = b.jumpTo
  backtrackTo : b'.backtrackTo = b.backtrackTo

/-- The answer under a key is there, or there is no public value that would be taken for it. -/
def WizardBoard.Settled (key : String) (b : WizardBoard) : Prop :=
  (b.answers.get? key).any (!·.isNull) ∨ ∀ v, b.publicKeys.get? key = some v → v.isNull

/-- What a phase makes of an input: the board is at what an editor is at, unless the tick is
interrupted after the items are stored. -/
structure Reacts (b : WizardBoard) (e : ItemEditor) (out : PatternStatus × WizardBoard) : Prop where
  items : out.2.collectionItems c.collectionKey = e.items
  mode : out.2.interrupted = none → e.mode.Shown out.2.session
  enough : out.1 = .success → c.minItems ≤ e.items.length
  settled : b.Settled c.collectionKey → out.2.Settled c.collectionKey
  jumpTo : out.2.jumpTo = b.jumpTo
  backtrackTo : out.2.backtrackTo = b.backtrackTo

end Shows

namespace WizardBoard

variable {b b₁ b₂ : WizardBoard}

/-- A board is not touched by nothing. -/
theorem Untouched.refl (b : WizardBoard) : b.Untouched b := ⟨rfl, rfl, rfl, rfl, rfl, rfl⟩

/-- Not touching a board is transitive. -/
theorem Untouched.trans (h : b.Untouched b₁) (h' : b₁.Untouched b₂) : b.Untouched b₂ where
  answers := h'.answers.trans h.answers
  publicKeys := h'.publicKeys.trans h.publicKeys
  session := h'.session.trans h.session
  interrupted := h'.interrupted.trans h.interrupted
  jumpTo := h'.jumpTo.trans h.jumpTo
  backtrackTo := h'.backtrackTo.trans h.backtrackTo

/-- Leaving a scope does not touch the board. -/
theorem untouched_leaveStep (b : WizardBoard) (slug : String) : b.Untouched (b.leaveStep slug) := by
  unfold leaveStep
  split <;> exact ⟨rfl, rfl, rfl, rfl, rfl, rfl⟩

/-- Entering a scope that may be among the scopes does not touch the board. -/
theorem untouched_ensureScope (b : WizardBoard) (name : String) :
    b.Untouched (b.ensureScope name) := by
  unfold ensureScope
  split <;> exact ⟨rfl, rfl, rfl, rfl, rfl, rfl⟩

/-- A board that is not touched has the same items. -/
theorem Untouched.collectionItems (h : b.Untouched b₁) (key : String) :
    b₁.collectionItems key = b.collectionItems key := by
  rw [WizardBoard.collectionItems, h.answers, WizardBoard.collectionItems]

/-- A board that is not touched is as settled. -/
theorem Untouched.settled (h : b.Untouched b₁) {key : String} (hsettled : b.Settled key) :
    b₁.Settled key := by
  rw [Settled, h.answers, h.publicKeys]
  exact hsettled

end WizardBoard

section Stores

variable {ε : Type} {env : WizardEnv ε} {a : LeafAnswer ε} {c : CollectionStep} {b : WizardBoard}

/-- What an input completes is a list of dictionaries again. -/
theorem filterMap_asDict (items : List Item) : (items.map Value.dict).filterMap Value.asDict = items := by
  rw [List.filterMap_map]
  exact List.filterMap_some

/-- What storing items leaves behind, also if the schema of the flow refuses them afterwards. -/
theorem stored (env : WizardEnv ε) (a : LeafAnswer ε) (c : CollectionStep) (b : WizardBoard)
    (items : List Item) :
    let stored := setCollectionItems env a c items b
    stored.collectionItems c.collectionKey = items ∧ stored.Settled c.collectionKey ∧
      stored.session = b.session ∧ stored.jumpTo = b.jumpTo ∧ stored.backtrackTo = b.backtrackTo := by
  have hitems : (b.answers.set c.collectionKey (.list (items.map .dict))).get? c.collectionKey =
      some (.list (items.map .dict)) := Dict.get?_set_self _ _ _
  have hkept : ∀ b' : WizardBoard,
      b'.answers = b.answers.set c.collectionKey (.list (items.map .dict)) →
      b'.collectionItems c.collectionKey = items ∧ b'.Settled c.collectionKey := by
    intro b' hanswers
    constructor
    · rw [WizardBoard.collectionItems, hanswers, hitems]
      exact filterMap_asDict items
    · refine Or.inl ?_
      rw [hanswers, hitems]
      rfl
  intro stored
  have hstored : stored.answers = b.answers.set c.collectionKey (.list (items.map .dict)) ∧
      stored.session = b.session ∧ stored.jumpTo = b.jumpTo ∧ stored.backtrackTo = b.backtrackTo := by
    simp only [stored, setCollectionItems, persist]
    split
    · split <;> exact ⟨rfl, rfl, rfl, rfl⟩
    · exact ⟨rfl, rfl, rfl, rfl⟩
  exact ⟨(hkept stored hstored.1).1, (hkept stored hstored.1).2, hstored.2⟩

/-- Leaving the scopes of an item may hang, but touches nothing else. -/
theorem leaveItemScope_untouched (b : WizardBoard) :
    let left := leaveItemScope c b
    left.answers = b.answers ∧ left.publicKeys = b.publicKeys ∧ left.session = b.session ∧
      left.jumpTo = b.jumpTo ∧ left.backtrackTo = b.backtrackTo := by
  simp only [leaveItemScope]
  split
  · exact ⟨rfl, rfl, rfl, rfl, rfl⟩
  · split <;> exact ⟨rfl, rfl, rfl, rfl, rfl⟩

/-- Storing items goes back to the menu. -/
theorem reacts_storeItems (items : List Item) :
    Reacts c b ⟨items, .menu⟩ (storeItems env a c items b) := by
  obtain ⟨hitems, hsettled, hsession, hjump, hback⟩ := stored env a c b items
  obtain ⟨hanswers, hpublic, hsame, hjump', hback'⟩ := leaveItemScope_untouched (c := c)
    (setCollectionItems env a c items b)
  have hleft : (leaveItemScope c (setCollectionItems env a c items b)).collectionItems
      c.collectionKey = items := by
    rw [WizardBoard.collectionItems, hanswers, ← WizardBoard.collectionItems, hitems]
  have hleftSettled : (leaveItemScope c (setCollectionItems env a c items b)).Settled
      c.collectionKey := by
    rw [WizardBoard.Settled, hanswers, hpublic]
    exact hsettled
  unfold storeItems
  simp only
  split
  · next h =>
    exact ⟨hitems, fun hnone => absurd hnone (Option.isSome_iff_ne_none.mp h),
      fun h => (by cases h), fun _ => hsettled, hjump, hback⟩
  · split
    · next h =>
      exact ⟨hleft, fun hnone => absurd hnone (Option.isSome_iff_ne_none.mp h),
        fun h => (by cases h), fun _ => hleftSettled, hjump'.trans hjump, hback'.trans hback⟩
    · exact ⟨hleft, fun _ => .menu rfl, fun h => (by cases h), fun _ => hleftSettled,
        hjump'.trans hjump, hback'.trans hback⟩

/-- Storing the draft appends it, or replaces the item at the chosen index. -/
theorem reacts_commitItem (env : WizardEnv ε) (a : LeafAnswer ε) (c : CollectionStep)
    (b : WizardBoard) (hindex : ∀ i ∈ b.session.editIndex,
    i < (b.collectionItems c.collectionKey).length) :
    Reacts c b ⟨(b.session.editIndex.elim (ListEdit.append b.session.draft) fun i =>
      .replace i b.session.draft).apply (b.collectionItems c.collectionKey), .menu⟩
      (commitItem env a c b) := by
  unfold commitItem
  cases hedit : b.session.editIndex with
  | none => exact reacts_storeItems _
  | some i =>
    simp only
    rw [if_pos (hindex i hedit)]
    exact reacts_storeItems _

/-- Finishing a collection leaves the items as they are, and succeeds with enough of them only. -/
theorem reacts_finishCollection (hphase : b.session.phase.getD .menu = .menu) :
    Reacts c b ⟨b.collectionItems c.collectionKey, .menu⟩
      (finishCollection env a c (b.collectionItems c.collectionKey) b) := by
  have hask : Reacts c b ⟨b.collectionItems c.collectionKey, .menu⟩ (ask c.slug b) :=
    ⟨rfl, fun _ => .menu hphase, fun h => (by cases h), id, rfl, rfl⟩
  unfold finishCollection
  split
  · exact hask
  · next henough =>
    split
    · exact hask
    · obtain ⟨hitems, hsettled, -, hjump, hback⟩ := stored env a c b
        (b.collectionItems c.collectionKey)
      simp only
      split
      · next h =>
        exact ⟨hitems, fun hnone => absurd hnone (Option.isSome_iff_ne_none.mp h),
          fun h => (by cases h), fun _ => hsettled, hjump, hback⟩
      · have hleft := WizardBoard.untouched_leaveStep
          (setCollectionItems env a c (b.collectionItems c.collectionKey) b).clearSession c.slug
        have hmenu := congrArg (fun s : CollectionSession => s.phase.getD .menu) hleft.session
        exact ⟨(hleft.collectionItems _).trans hitems, fun _ => .menu hmenu,
          fun _ => Nat.le_of_not_lt henough, fun _ => hleft.settled hsettled,
          hleft.jumpTo.trans hjump, hleft.backtrackTo.trans hback⟩

end Stores

section Reactions

variable {ε : Type} {env : WizardEnv ε} {a : LeafAnswer ε} {c : CollectionStep} {b : WizardBoard}
  {e : ItemEditor}

/-- A board of which only the session is changed, and that is not touched then, reacts so if its
session is at what the editor is at. -/
theorem reacts_of_untouched (session : CollectionSession) {b₁ : WizardBoard}
    (h : { b with session }.Untouched b₁) {status : PatternStatus} (hstatus : status ≠ .success)
    (hitems : b.collectionItems c.collectionKey = e.items) (hmode : e.mode.Shown session) :
    Reacts c b e (status, b₁) where
  items := (h.collectionItems _).trans hitems
  mode := fun _ => h.session ▸ hmode
  enough := fun hsuccess => absurd hsuccess hstatus
  settled := fun hsettled => h.settled hsettled
  jumpTo := h.jumpTo
  backtrackTo := h.backtrackTo

/-- A phase that asks again leaves the editor at what it is at. -/
theorem reacts_ask (hitems : b.collectionItems c.collectionKey = e.items)
    (hmode : e.mode.Shown b.session) : Reacts c b e (ask c.slug b) := by
  have hprompt : { b with session := b.session }.Untouched (b.prompt c.slug true) :=
    ⟨rfl, rfl, rfl, rfl, rfl, rfl⟩
  exact reacts_of_untouched b.session hprompt PatternStatus.noConfusion hitems hmode

/-- The session of an item that is begun. -/
def begunSession (s : CollectionSession) (target : Option ℕ) (draft : Item) : CollectionSession :=
  { s with editIndex := target, draft, fieldIndex := some 0, phase := some .field }

/-- Beginning with an item, the user is at its fields. -/
theorem reacts_beginItemSession (target : Option ℕ) (draft : Item)
    (hdraft : match target with
      | none => draft = []
      | some i => (b.collectionItems c.collectionKey)[i]? = some draft) :
    Reacts c b ⟨b.collectionItems c.collectionKey, .entering target draft 0⟩
      (.running, (beginItemSession c target b).setPhase .field) := by
  have hscopes : ∀ name : String, { b with session := begunSession b.session target draft }.Untouched
      ((({ b with session := { b.session with
        editIndex := target, draft, fieldIndex := some 0 } }.ensureScope c.slug).ensureScope
          name).setPhase .field) := by
    intro name
    have hscoped := (WizardBoard.untouched_ensureScope { b with session := { b.session with
      editIndex := target, draft, fieldIndex := some 0 } } c.slug).trans
      (WizardBoard.untouched_ensureScope _ name)
    exact ⟨hscoped.answers, hscoped.publicKeys,
      congrArg (fun s : CollectionSession => { s with phase := some .field }) hscoped.session,
      hscoped.interrupted, hscoped.jumpTo, hscoped.backtrackTo⟩
  have hshown : (EditorMode.entering target draft 0).Shown (begunSession b.session target draft) :=
    .entering rfl
  cases target with
  | none =>
    obtain rfl := hdraft
    exact reacts_of_untouched _ (hscopes _) PatternStatus.noConfusion rfl hshown
  | some i =>
    simp only at hdraft
    have hbegin : beginItemSession c (some i) b =
        (({ b with session := { b.session with
          editIndex := some i, draft, fieldIndex := some 0 } }.ensureScope c.slug).ensureScope
            (WizardBoard.itemScopeName i)) := by
      simp only [beginItemSession, hdraft, Option.elim_some]
    rw [hbegin]
    exact reacts_of_untouched _ (hscopes _) PatternStatus.noConfusion rfl hshown

/-- The menu takes an input. -/
theorem reacts_menuHandle (hmenu : b.session.phase.getD .menu = .menu) (value : Value) :
    Reacts c b (ItemEditor.take env a c ⟨b.collectionItems c.collectionKey, .menu⟩ value)
      (menuHandle env a c value b) := by
  have htake : ∀ action, menuAction env c (b.collectionItems c.collectionKey) value = action →
      ItemEditor.react env a c ⟨b.collectionItems c.collectionKey, .menu⟩ value =
        match action with
        | some .add => (.entering none [] 0, none)
        | some .editSelect => (.selecting .edit, none)
        | some .removeSelect => (.selecting .remove, none)
        | some .done | none => (.menu, none) := fun action h => by rw [← h]; rfl
  unfold menuHandle ItemEditor.take
  simp only
  split
  · next hnone =>
    rw [htake none hnone]
    exact reacts_ask rfl (.menu hmenu)
  · next hadd =>
    rw [htake _ hadd]
    exact reacts_beginItemSession none [] rfl
  · next hdone =>
    rw [htake _ hdone]
    exact reacts_finishCollection hmenu
  · next hedit =>
    rw [htake _ hedit]
    exact reacts_of_untouched { b.session with
      selectAction := some .edit, phase := some .selectItem }
      ⟨rfl, rfl, rfl, rfl, rfl, rfl⟩ PatternStatus.noConfusion rfl (.selecting rfl)
  · next hremove =>
    rw [htake _ hremove]
    exact reacts_of_untouched { b.session with
      selectAction := some .remove, phase := some .selectItem }
      ⟨rfl, rfl, rfl, rfl, rfl, rfl⟩ PatternStatus.noConfusion rfl (.selecting rfl)

/-- The index that an input stands for is one of an item. -/
theorem lt_of_resolveItemIndex {text : TextOps} {value : Value} {labels : List String} {i : ℕ}
    (h : resolveItemIndex text value labels = some i) : i < labels.length := by
  have hindexed : ∀ {p : String × ℕ → Bool},
      ((only? (labels.zipIdx.filter p)).map Prod.snd = some i ∨
        (labels.zipIdx.find? p).map Prod.snd = some i) → i < labels.length := by
    intro p hfound
    have hmem : ∃ label, (label, i) ∈ labels.zipIdx := by
      rcases hfound with honly | hfind
      · obtain ⟨found, hfound, rfl⟩ := Option.map_eq_some_iff.mp honly
        exact ⟨found.1, List.mem_of_mem_filter (mem_of_only? hfound)⟩
      · obtain ⟨found, hfound, rfl⟩ := Option.map_eq_some_iff.mp hfind
        exact ⟨found.1, List.mem_of_find?_eq_some hfound⟩
    obtain ⟨label, hmem⟩ := hmem
    exact List.snd_lt_of_mem_zipIdx hmem
  unfold resolveItemIndex at h
  simp only at h
  split at h
  · split at h
    · next hrange =>
      obtain rfl := Option.some.inj h
      omega
    · cases h
  · split at h
    · cases h
    · split at h
      · split at h
        · next hrange =>
          obtain rfl := Option.some.inj h
          omega
        · cases h
      · simp only [Option.orElse_eq_orElse, Option.orElse_eq_or] at h
        rcases Option.or_eq_some_iff.mp h with hfind | ⟨-, h⟩
        · exact hindexed (.inr hfind)
        · rcases Option.or_eq_some_iff.mp h with hlowered | ⟨-, hpartial⟩
          · exact hindexed (.inl hlowered)
          · obtain ⟨found, hfound, hi⟩ := Option.map_eq_some_iff.mp hpartial
            simp only [Option.orElse_eq_orElse, Option.orElse_eq_or] at hfound
            rcases Option.or_eq_some_iff.mp hfound with honly | ⟨-, honly⟩
            · exact hindexed (.inl (by rw [honly, Option.map_some, hi]))
            · exact hindexed (.inl (by rw [honly, Option.map_some, hi]))
  · cases h

/-- A reaction of a board of which only the session was changed before. -/
theorem Reacts.of_untouched (session : CollectionSession) {b₁ : WizardBoard}
    (h : { b with session }.Untouched b₁) {out : PatternStatus × WizardBoard}
    (hreacts : Reacts c b₁ e out) : Reacts c b e out where
  items := hreacts.items
  mode := hreacts.mode
  enough := hreacts.enough
  settled := fun hsettled => hreacts.settled (h.settled hsettled)
  jumpTo := hreacts.jumpTo.trans h.jumpTo
  backtrackTo := hreacts.backtrackTo.trans h.backtrackTo

/-- As long as not all fields are done, the next one is asked for. -/
theorem fieldRequest_asks (env : WizardEnv ε) (a : LeafAnswer ε) (c : CollectionStep)
    (b : WizardBoard) (h : b.collectionFieldIndex < c.itemFields.length) :
    (fieldRequest env a c b).1 = .waitingForInput ∧ b.Untouched (fieldRequest env a c b).2 := by
  unfold fieldRequest
  rw [List.getElem?_eq_getElem h]
  have hscopes := (WizardBoard.untouched_ensureScope b c.slug).trans
    (WizardBoard.untouched_ensureScope _
      (WizardBoard.itemScopeName (b.itemIndex c.collectionKey)))
  exact ⟨rfl, hscopes.trans ⟨rfl, rfl, rfl, rfl, rfl, rfl⟩⟩

/-- The session after the value of a field has been stored. -/
def filledSession (s : CollectionSession) (slug : String) (value : Value) (done : ℕ) :
    CollectionSession :=
  { s with draft := draftWith slug value s.draft, fieldIndex := some (done + 1) }

/-- Storing the value of a field changes the session only. -/
theorem untouched_storeField (b : WizardBoard) (field : CollectionFieldConfig) (value : Value) :
    { b with session := filledSession b.session field.slug value b.collectionFieldIndex }.Untouched
      (storeField c field value b) := by
  have hleft := WizardBoard.untouched_leaveStep b
    (WizardBoard.fieldScopeName (b.itemIndex c.collectionKey) field.slug)
  refine ⟨hleft.answers, hleft.publicKeys, ?_, hleft.interrupted, hleft.jumpTo, hleft.backtrackTo⟩
  simp only [storeField, filledSession, draftWith, WizardBoard.collectionFieldIndex, hleft.session]

/-- The fields of an item take an input. -/
theorem reacts_fieldHandle (hphase : b.session.phase = some .field)
    (hfits : ItemEditor.Fits c ⟨b.collectionItems c.collectionKey,
      .entering b.session.editIndex b.session.draft b.collectionFieldIndex⟩) (value : Value) :
    Reacts c b (ItemEditor.take env a c ⟨b.collectionItems c.collectionKey,
      .entering b.session.editIndex b.session.draft b.collectionFieldIndex⟩ value)
      (fieldHandle env a c value b) := by
  obtain ⟨hindex, hdone⟩ := hfits
  have hfield := List.getElem?_eq_getElem hdone
  unfold fieldHandle ItemEditor.take ItemEditor.react
  simp only [hfield, Option.bind_some]
  cases haccepted : acceptedValue env a c.itemFields[b.collectionFieldIndex] value with
  | none => exact reacts_ask rfl (.entering hphase)
  | some v =>
    simp only [Option.map_some]
    have hstored := untouched_storeField (c := c) b c.itemFields[b.collectionFieldIndex] v
    have hsession := hstored.session
    have hnext : (storeField c c.itemFields[b.collectionFieldIndex] v b).collectionFieldIndex =
        b.collectionFieldIndex + 1 := by
      rw [WizardBoard.collectionFieldIndex, hsession]
      rfl
    by_cases hlast : b.collectionFieldIndex + 1 < c.itemFields.length
    · rw [if_pos hlast]
      obtain ⟨hwaits, hasked⟩ := fieldRequest_asks env a c
        (storeField c c.itemFields[b.collectionFieldIndex] v b) (hnext.symm ▸ hlast)
      have hstatus : (fieldRequest env a c
          (storeField c c.itemFields[b.collectionFieldIndex] v b)).1 ≠ .success := by
        rw [hwaits]
        exact PatternStatus.noConfusion
      exact reacts_of_untouched _ (hstored.trans hasked) hstatus rfl (.entering hphase)
    · rw [if_neg hlast]
      have hcommit : fieldRequest env a c (storeField c c.itemFields[b.collectionFieldIndex] v b) =
          commitItem env a c (storeField c c.itemFields[b.collectionFieldIndex] v b) := by
        unfold fieldRequest
        rw [hnext, List.getElem?_eq_none (Nat.le_of_not_lt hlast)]
      have hitems := hstored.collectionItems c.collectionKey
      have hout := reacts_commitItem env a c
        (storeField c c.itemFields[b.collectionFieldIndex] v b)
        (by rw [hsession, hitems]; exact hindex)
      rw [hcommit]
      rw [hsession, hitems] at hout
      exact hout.of_untouched _ hstored

/-- The selection takes an input. -/
theorem reacts_selectHandle (hphase : b.session.phase = some .selectItem) (value : Value) :
    Reacts c b (ItemEditor.take env a c ⟨b.collectionItems c.collectionKey,
      .selecting (if b.session.selectAction = some .remove then .remove else .edit)⟩ value)
      (selectHandle env c value b) := by
  unfold selectHandle ItemEditor.take ItemEditor.react
  simp only
  split
  · exact reacts_of_untouched { b.session with selectAction := none, phase := some .menu }
      ⟨rfl, rfl, rfl, rfl, rfl, rfl⟩ PatternStatus.noConfusion rfl (.menu rfl)
  · cases hindex : resolveItemIndex env.text value
        ((b.collectionItems c.collectionKey).mapIdx (env.label c)) with
    | none => exact reacts_ask rfl (.selecting hphase)
    | some i =>
      have hlt : i < (b.collectionItems c.collectionKey).length := by
        simpa using lt_of_resolveItemIndex hindex
      simp only
      by_cases hremove : b.session.selectAction = some .remove
      · simp only [if_pos hremove]
        exact reacts_of_untouched { b.session with
          selectAction := none, removeIndex := some i, phase := some .removeConfirm }
          ⟨rfl, rfl, rfl, rfl, rfl, rfl⟩ PatternStatus.noConfusion rfl (.confirming i rfl rfl)
      · simp only [if_neg hremove, reduceCtorEq, if_false]
        have hitem := List.getElem?_eq_getElem hlt
        have hbegin := reacts_beginItemSession (b := b.setSelectAction none) (c := c) (some i)
          (b.collectionItems c.collectionKey)[i] hitem
        rw [hitem, Option.getD_some]
        exact hbegin.of_untouched { b.session with selectAction := none }
          ⟨rfl, rfl, rfl, rfl, rfl, rfl⟩

/-- The confirmation of a removal takes an input. -/
theorem reacts_removeHandle {i : ℕ} (hphase : b.session.phase = some .removeConfirm)
    (hindex : b.session.removeIndex = some i)
    (hlt : i < (b.collectionItems c.collectionKey).length) (value : Value) :
    Reacts c b (ItemEditor.take env a c ⟨b.collectionItems c.collectionKey, .confirming i⟩ value)
      (removeHandle env a c value b) := by
  have hmenu : Reacts c b ⟨b.collectionItems c.collectionKey, .menu⟩
      (.running, b.clearSession.setPhase .menu) :=
    reacts_of_untouched { ({} : CollectionSession) with phase := some .menu }
      ⟨rfl, rfl, rfl, rfl, rfl, rfl⟩ PatternStatus.noConfusion rfl (.menu rfl)
  unfold removeHandle ItemEditor.take ItemEditor.react
  simp only
  split
  · exact hmenu
  · by_cases hyes : isAffirmative env.text value = true
    · simp only [hyes, Bool.not_true, Bool.false_eq_true, if_false, if_true, hindex, if_pos hlt]
      obtain ⟨hitems, hsettled, -, hjump, hback⟩ := stored env a c b
        ((b.collectionItems c.collectionKey).eraseIdx i)
      split
      · next h =>
        exact ⟨hitems, fun hnone => absurd hnone (Option.isSome_iff_ne_none.mp h),
          fun h => (by cases h), fun _ => hsettled, hjump, hback⟩
      · exact ⟨hitems, fun _ => .menu rfl, fun h => (by cases h), fun _ => hsettled, hjump, hback⟩
    · simp only [Bool.not_eq_true] at hyes
      simp only [hyes, Bool.not_false, if_true, Bool.false_eq_true, if_false]
      exact reacts_ask rfl (.confirming i hphase hindex)

/-- A phase takes an input as the editor does. -/
theorem reacts_phaseHandle (env : WizardEnv ε) (a : LeafAnswer ε) (h : b.Shows c e)
    (value : Value) :
    Reacts c b (e.take env a c value) (phaseHandle env a c value b b.collectionPhase) := by
  obtain ⟨items, mode⟩ := e
  obtain ⟨hitems, hmode, hfits⟩ := h
  simp only at hitems hmode
  subst hitems
  rw [WizardBoard.collectionPhase]
  cases hmode with
  | menu hphase =>
    rw [hphase]
    exact reacts_menuHandle hphase value
  | selecting hphase =>
    rw [hphase]
    exact reacts_selectHandle hphase value
  | entering hphase =>
    rw [hphase]
    exact reacts_fieldHandle hphase hfits value
  | confirming i hphase hindex =>
    rw [hphase]
    exact reacts_removeHandle hphase hindex hfits value

end Reactions

section Tick

variable {ε : Type} {env : WizardEnv ε} {a : LeafAnswer ε} {c : CollectionStep} {b : WizardBoard}
  {e : ItemEditor}

/-- The menu offers the selection of an item only if there is one. -/
theorem ne_nil_of_menuAction {items : List Item} {value : Value} {action : MenuAction}
    (h : menuAction env c items value = some action)
    (hselects : action = .editSelect ∨ action = .removeSelect) : items ≠ [] := by
  rintro rfl
  obtain ⟨choice, -, h⟩ := Option.bind_eq_some_iff.mp h
  obtain ⟨found, hfound, rfl⟩ := Option.map_eq_some_iff.mp h
  have hmem := List.mem_of_find?_eq_some hfound
  simp only [menuChoices, List.isEmpty_nil, if_true, List.append_nil, List.singleton_append,
    List.mem_cons, List.not_mem_nil, or_false] at hmem
  rcases hmem with rfl | rfl
  · rcases hselects with h | h <;> cases h
  · rcases hselects with h | h <;> cases h

/-- What the user is at fits the list again after an input. -/
theorem ItemEditor.Fits.take (hfields : c.itemFields ≠ []) (h : e.Fits c) (value : Value) :
    (e.take env a c value).Fits c := by
  obtain ⟨items, mode⟩ := e
  cases mode with
  | menu =>
    simp only [ItemEditor.take, ItemEditor.react]
    cases haction : menuAction env c items value with
    | none => exact trivial
    | some action =>
      cases action with
      | add => exact ⟨fun i hi => (by cases hi), List.length_pos_iff.mpr hfields⟩
      | editSelect => exact ne_nil_of_menuAction haction (Or.inl rfl)
      | removeSelect => exact ne_nil_of_menuAction haction (Or.inr rfl)
      | done => exact trivial
  | selecting action =>
    simp only [ItemEditor.take, ItemEditor.react]
    split
    · exact trivial
    · split
      · exact h
      · next i hindex =>
        have hlt : i < items.length := by simpa using lt_of_resolveItemIndex hindex
        split
        · exact hlt
        · refine ⟨fun j hj => ?_, List.length_pos_iff.mpr hfields⟩
          rw [← Option.some.inj hj]
          exact hlt
  | entering target draft done =>
    simp only [ItemEditor.take, ItemEditor.react]
    split
    · exact h
    · split
      · next hnext => exact ⟨h.1, hnext⟩
      · exact trivial
  | confirming i =>
    simp only [ItemEditor.take, ItemEditor.react]
    split
    · exact trivial
    · split
      · exact trivial
      · exact h

/-- Without an input a phase asks for one. -/
theorem phaseRequest_asks (env : WizardEnv ε) (a : LeafAnswer ε) (h : b.Shows c e) :
    (phaseRequest env a c b b.collectionPhase).1 = .waitingForInput ∧
      b.Untouched (phaseRequest env a c b b.collectionPhase).2 := by
  obtain ⟨items, mode⟩ := e
  obtain ⟨hitems, hmode, hfits⟩ := h
  simp only at hitems hmode
  subst hitems
  rw [WizardBoard.collectionPhase]
  cases hmode with
  | menu hphase =>
    rw [hphase]
    exact ⟨rfl, (WizardBoard.untouched_ensureScope b c.slug).trans
      ⟨rfl, rfl, rfl, rfl, rfl, rfl⟩⟩
  | selecting hphase =>
    have hitems : (b.collectionItems c.collectionKey).isEmpty = false :=
      List.isEmpty_eq_false_iff.mpr hfits
    rw [hphase]
    simp only [Option.getD_some, phaseRequest, selectRequest, hitems, Bool.false_eq_true, if_false]
    exact ⟨rfl, rfl, rfl, rfl, rfl, rfl, rfl⟩
  | entering hphase =>
    rw [hphase]
    exact fieldRequest_asks env a c b hfits.2
  | confirming i hphase hindex =>
    have hlt : i < (b.collectionItems c.collectionKey).length := hfits
    rw [hphase]
    simp only [Option.getD_some, phaseRequest, removeRequest, hindex, if_pos hlt]
    exact ⟨rfl, rfl, rfl, rfl, rfl, rfl, rfl⟩

/-- Without an input the step asks for one. -/
theorem collectionLoop_asks (env : WizardEnv ε) (a : LeafAnswer ε) (h : b.Shows c e) (hinput : b.inputs.get? c.slug = none) (rounds : ℕ) :
    (collectionLoop env a c (rounds + 1) b).1 = .waitingForInput ∧
      b.Untouched (collectionLoop env a c (rounds + 1) b).2 := by
  have hasks := phaseRequest_asks env a h
  rw [collectionLoop]
  simp only [interactiveTick_of_none hinput]
  rw [if_neg fun hgoes => by rw [hasks.1] at hgoes; cases hgoes.1]
  exact hasks

/-- The step takes an input as the editor does. -/
theorem collectionTick_reacts (env : WizardEnv ε) (a : LeafAnswer ε) (hfields : c.itemFields ≠ [])
    (h : b.Shows c e) {parked : ParkedInput} (hinput : b.inputs.get? c.slug = some parked) :
    Reacts c b (e.take env a c parked.value) (collectionTick env a c b) := by
  have hconsumed : b.Untouched (b.consume c.slug parked) := ⟨rfl, rfl, rfl, rfl, rfl, rfl⟩
  have hshows : (b.consume c.slug parked).Shows c e := ⟨h.items, h.mode, h.fits⟩
  have hreacts := reacts_phaseHandle env a hshows parked.value
  have hkeeps := (phaseSettles_handle env a c parked.value (b.consume c.slug parked)
    (b.consume c.slug parked).collectionPhase).keeps
  have hround : interactiveTick c.slug (fun value b' => phaseHandle env a c value b' b.collectionPhase)
      (fun b' => phaseRequest env a c b' b.collectionPhase) b =
      phaseHandle env a c parked.value (b.consume c.slug parked)
        (b.consume c.slug parked).collectionPhase := by
    rw [interactiveTick, hinput]
    rfl
  rw [collectionTick, collectionLoop]
  simp only [hround]
  generalize hout : phaseHandle env a c parked.value (b.consume c.slug parked)
    (b.consume c.slug parked).collectionPhase = out at hreacts hkeeps
  split
  · next hgoes =>
    have hnext : out.2.Shows c (e.take env a c parked.value) :=
      ⟨hreacts.items, hreacts.mode hgoes.2.1, h.fits.take hfields parked.value⟩
    have hnone : out.2.inputs.get? c.slug = none := by
      rw [hkeeps.inputs]
      exact (Dict.get?_erase _ _ _).trans (if_pos rfl)
    obtain ⟨hwaits, hasked⟩ := collectionLoop_asks env a hnext hnone 14
    have hstatus : (collectionLoop env a c 15 out.2).1 ≠ .success := by
      rw [hwaits]
      exact PatternStatus.noConfusion
    exact
      { items := (hasked.collectionItems _).trans hreacts.items
        mode := fun _ => hasked.session ▸ hnext.mode
        enough := fun hsuccess => absurd hsuccess hstatus
        settled := fun hsettled => hasked.settled (hreacts.settled (hconsumed.settled hsettled))
        jumpTo := hasked.jumpTo.trans hreacts.jumpTo
        backtrackTo := hasked.backtrackTo.trans hreacts.backtrackTo }
  · exact hreacts.of_untouched b.session hconsumed

end Tick

end PalmEngine.Wizard
