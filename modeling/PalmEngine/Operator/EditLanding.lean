import PalmEngine.Operator.EditFeeding
import PalmEngine.Wizard.PreparedInput

/-!
# Where the values of an edit land

Nothing is committed after a field has rejected its own value, as there are too few values left, but a
later value that is taken by that field is in the draft under its slug. If no value is rejected then
the item is committed, with what each field makes of its value. That is the item updated by the given
fields unless a field reads its value as another one, a given name is not the slug of a field, or a
value that was not given is not the one of the item.
-/

namespace PalmEngine.Operator

open PalmEngine.Lib PalmEngine.Context PalmEngine.Wizard PalmEngine.Wizard.FieldCollection

/-- The label of the edit and the number of an item are texts without blanks at the ends, and the
number is read as such. -/
structure ReadsIndex (ops : InputOps) (itemIndex : ℤ) : Prop where
  strip_label : ops.text.strip editMenuLabel = editMenuLabel
  strip_number : ops.text.strip (toString (itemIndex + 1)) = toString (itemIndex + 1)
  lower_number : ops.text.lower (toString (itemIndex + 1)) = toString (itemIndex + 1)
  digits_number : ops.text.digits (toString (itemIndex + 1)) = some (itemIndex + 1).toNat
  misread_number : ops.misread (toString (itemIndex + 1)) = false

namespace EditedCollection

section Landing

variable (ops : InputOps) (C : EditedCollection)
  (items : List Item) (itemIndex : ℤ) (fields : Item) (wizardView : WizardView)

/-- An edit lands: values are stored by their own fields only, and the addressed item is updated by
the fields, or the drive fails with the items as they are. -/
structure EditLands : Prop where
  own : C.StoredByOwn ops (C.drive ops items itemIndex fields wizardView).fed
  items :
    let run := C.drive ops items itemIndex fields wizardView
    (∃ old new, 0 ≤ itemIndex ∧ items[itemIndex.toNat]? = some old ∧
      run.session.editor.items = items.set itemIndex.toNat new ∧
        ∀ key, valueOf? key new = valueOf? key (updateItem old fields)) ∨
      (C.Fails ops run ∧ run.session.editor.items = items)

/-- The last field of a slug. -/
structure IsLast (key : String) (position : ℕ) : Prop where
  slug : C.slugs[position]? = some key
  last : ∀ later, position < later → C.slugs[later]? ≠ some key

/-- What the fields make of their own values is what an item holds, and it has nothing else that the
old one does not have. -/
structure Holds (merged old new : Item) : Prop where
  fields : ∀ key position, C.IsLast key position → ∀ v,
    C.offered ops merged position position = .takes v → storedValue v = valueOf? key new
  others : ∀ key, key ∉ C.slugs → valueOf? key old = valueOf? key new

/-- When an edit of an item fits its fields: all fields take their own values, and hold then what the
updated item holds; or the first one that does not ends the drive, or rejects its own value and does
not take one of a later field either. -/
inductive EditFits (merged old new : Item) : Prop
  | updates (htake : C.TakeOwn ops merged C.fields.length) (hholds : C.Holds ops merged old new)
  | stops (position : ℕ) (hposition : position < C.fields.length)
      (htake : C.TakeOwn ops merged position)
      (hstops : C.offered ops merged position position = .stops)
  | refuses (position : ℕ) (hposition : position < C.fields.length)
      (htake : C.TakeOwn ops merged position)
      (hrefuses : C.offered ops merged position position = .refuses)
      (hlater : ∀ later v, position < later → later < C.fields.length →
        (∀ between, position < between → between < later →
          C.offered ops merged position between = .refuses) →
        C.offered ops merged position later ≠ .takes v)

/-- After the label of the edit neither the number nor a value is taken. -/
structure EditIgnored : Prop where
  outside : C.askedField (C.provideInput ops { editor := { items } } (.str editMenuLabel)).editor =
    none
  number :
    let e := (C.provideInput ops { editor := { items } } (.str editMenuLabel)).editor
    (C.provideInput ops { editor := e } (.str (toString (itemIndex + 1)))).editor = e
  values :
    let e := (C.provideInput ops { editor := { items } } (.str editMenuLabel)).editor
    ∀ slug ∈ C.slugs, ∀ raw value,
      C.rawValue (wizardView.mergeEditFields itemIndex fields) slug = some raw →
        coerceCollectionFieldInput ops raw (C.patternOf e) = some value →
          (C.provideInput ops { editor := e } value).editor = e

end Landing

section Drafts

variable {ops : InputOps} {C : EditedCollection} {merged old new : Item} {position : ℕ}

/-- What is in the draft under a key once the fields before a position have taken their own values: what
the last field of this slug makes of its value, or what the old item has if no field has this slug. -/
theorem valueOf?_filledDraft (old : Item) (hposition : position ≤ C.fields.length)
    (htake : C.TakeOwn ops merged position) (key : String) :
    (∀ last v, last < position → C.slugs[last]? = some key →
      (∀ later, last < later → later < position → C.slugs[later]? ≠ some key) →
        C.offered ops merged last last = .takes v →
          valueOf? key (filledDraft ops C merged old position) = storedValue v) ∧
      ((∀ k < position, C.slugs[k]? ≠ some key) →
        valueOf? key (filledDraft ops C merged old position) = valueOf? key old) := by
  induction position with
  | zero => exact ⟨fun last v hlast => absurd hlast (Nat.not_lt_zero last), fun _ => rfl⟩
  | succ position ih =>
    obtain ⟨hlast, hothers⟩ := ih (by omega) fun k hk => htake k (by omega)
    obtain ⟨field, -, hslug, -⟩ := exists_own C position (by omega)
    obtain ⟨w, hw⟩ := htake position (by omega)
    have hdraft : filledDraft ops C merged old (position + 1) =
        draftWith field.slug w (filledDraft ops C merged old position) := by
      rw [filledDraft, hslug, hw]
    rw [hdraft, valueOf?_draftWith]
    constructor
    · intro last v hlt hkey hlater hv
      rcases Nat.lt_succ_iff_lt_or_eq.mp hlt with hbefore | rfl
      · have hne : key ≠ field.slug := by
          rintro rfl
          exact hlater position hbefore (by omega) hslug
        rw [if_neg hne]
        exact hlast last v hbefore hkey (fun later h h' => hlater later h (by omega)) hv
      · obtain rfl := Option.some.inj (hslug.symm.trans hkey)
        obtain rfl := Offer.takes.inj (hw.symm.trans hv)
        exact if_pos rfl
    · intro hnone
      have hne : key ≠ field.slug := by
        rintro rfl
        exact hnone position (by omega) hslug
      rw [if_neg hne]
      exact hothers fun k hk => hnone k (by omega)

/-- A slug has a last field. -/
theorem exists_isLast {key : String} (hkey : key ∈ C.slugs) :
    ∃ position, C.IsLast key position := by
  obtain ⟨k, hk⟩ := List.mem_iff_getElem?.mp hkey
  have hlt : k < C.slugs.length := (List.getElem?_eq_some_iff.mp hk).1
  refine ⟨Nat.findGreatest (fun k => C.slugs[k]? = some key) C.slugs.length, ⟨?_, ?_⟩⟩
  · exact Nat.findGreatest_spec (P := fun k => C.slugs[k]? = some key) hlt.le hk
  · intro later hlater hsome
    have hbound : later ≤ C.slugs.length := (List.getElem?_eq_some_iff.mp hsome).1.le
    exact Nat.findGreatest_is_greatest hlater hbound hsome

/-- Once all fields have taken their own values, the draft is an item exactly if they hold what it
holds. -/
theorem filledDraft_iff_holds (htake : C.TakeOwn ops merged C.fields.length) :
    (∀ key, valueOf? key (filledDraft ops C merged old C.fields.length) = valueOf? key new) ↔
      C.Holds ops merged old new := by
  have hlength : C.slugs.length = C.fields.length := List.length_map _
  have hdraft := valueOf?_filledDraft old le_rfl htake
  have hlast : ∀ {key position}, C.IsLast key position → ∀ v,
      C.offered ops merged position position = .takes v →
        valueOf? key (filledDraft ops C merged old C.fields.length) = storedValue v := by
    intro key position hlast v hv
    have hlt := (List.getElem?_eq_some_iff.mp hlast.slug).1
    exact (hdraft key).1 position v (by omega) hlast.slug (fun later h _ => hlast.last later h) hv
  have hothers : ∀ {key}, key ∉ C.slugs →
      valueOf? key (filledDraft ops C merged old C.fields.length) = valueOf? key old := by
    intro key hkey
    exact (hdraft key).2 fun k _ hk => hkey (List.mem_of_getElem? hk)
  constructor
  · intro h
    exact ⟨fun key position hposition v hv => (hlast hposition v hv).symm.trans (h key),
      fun key hkey => (hothers hkey).symm.trans (h key)⟩
  · intro h key
    by_cases hkey : key ∈ C.slugs
    · obtain ⟨position, hposition⟩ := exists_isLast hkey
      have hlt := (List.getElem?_eq_some_iff.mp hposition.slug).1
      obtain ⟨v, hv⟩ := htake position (by omega)
      exact (hlast hposition v hv).trans (h.fields key position hposition v hv)
    · exact (hothers hkey).trans (h.others key hkey)

end Drafts

section Start

variable {ops : InputOps} {C : EditedCollection} {items : List Item} {itemIndex : ℤ}

/-- A collection has slugs of fields. -/
theorem slugs_ne_nil (C : EditedCollection) : C.slugs ≠ [] := fun hnil =>
  C.fields_ne_nil (List.map_eq_nil_iff.mp hnil)

/-- Every view shows the slugs of the fields. -/
theorem collectionFieldSlugs_viewOf (C : EditedCollection) (s : EditSession) :
    (C.viewOf s).collectionFieldSlugs = C.slugs := by
  rw [WizardView.collectionFieldSlugs, viewOf]
  simp only [List.map_map]
  refine List.filter_eq_self.mpr fun slug hslug => ?_
  obtain ⟨field, hfield, rfl⟩ := List.mem_map.mp hslug
  exact decide_eq_true (C.named field hfield)

/-- The number of an item is not one of the texts that cancel. -/
theorem isCancelInput_number (hreads : ReadsIndex ops itemIndex) (hindex : 0 ≤ itemIndex) :
    isCancelInput ops.text (.str (toString (itemIndex + 1))) = false := by
  obtain ⟨n, hn⟩ := Int.eq_ofNat_of_zero_le (show 0 ≤ itemIndex + 1 by omega)
  have hdigits : ∀ c ∈ (toString (itemIndex + 1)).toList, c.isDigit := by
    intro c hc
    rw [hn] at hc
    change c ∈ n.repr.toList at hc
    rw [Nat.toList_repr] at hc
    exact Nat.isDigit_of_mem_toDigits (by decide) (by decide) hc
  rw [isCancelInput, hreads.strip_number, hreads.lower_number, decide_eq_false_iff_not]
  intro hmem
  simp only [List.mem_cons, List.not_mem_nil, or_false] at hmem
  rcases hmem with h | h | h | h <;> simp [h] at hdigits

/-- From the menu the label of the edit and the number of an item lead to the fields of the item. -/
theorem drive_addressed (hreads : ReadsIndex ops itemIndex) (hindex : 0 ≤ itemIndex) {old : Item}
    (hold : items[itemIndex.toNat]? = some old) (fields : Item) (wizardView : WizardView) :
    C.drive ops items itemIndex fields wizardView =
      feedFields ops (C.session ops) (wizardView.mergeEditFields itemIndex fields) 0
        (sessionAt ops C items itemIndex.toNat (wizardView.mergeEditFields itemIndex fields) old 0)
        C.slugs := by
  have hlt : itemIndex.toNat < items.length := (List.getElem?_eq_some_iff.mp hold).1
  have hitems : items.isEmpty = false := by
    cases items with
    | nil => cases hlt
    | cons item rest => rfl
  have hfields : 0 < C.fields.length := List.length_pos_iff.mpr C.fields_ne_nil
  have hmenu : C.provideInput ops { editor := { items } } (.str editMenuLabel) =
      { editor := ⟨items, .selecting .edit⟩ } := by
    have hchoice : editMenuLabel ∈ (menuChoices C.step items).map Prod.fst := by
      simp [menuChoices, hitems, editMenuLabel]
    have hresolve : resolveChoiceValue ops.text (.str editMenuLabel)
        ((menuChoices C.step items).map Prod.fst) = some editMenuLabel := by
      simp only [resolveChoiceValue, hreads.strip_label, if_pos hchoice]
      rfl
    have haction : menuAction (C.env ops.toValidationOps) C.step items (.str editMenuLabel) = some .editSelect := by
      rw [menuAction]
      simp only [env, hresolve, Option.bind_some]
      simp [menuChoices, hitems, editMenuLabel]
    have hraises : C.raises ops.toValidationOps { items } (.str editMenuLabel) = false := by
      rw [raises]
      simp only
      obtain ⟨first, rest, hchoices⟩ := List.exists_cons_of_ne_nil (List.ne_nil_of_mem hchoice)
      rw [hchoices] at hchoice ⊢
      simp only [resolveChoice, hreads.strip_label, if_pos hchoice]
      rfl
    rw [provideInput, if_neg Bool.false_ne_true, hraises, if_neg Bool.false_ne_true]
    simp only [ItemEditor.take, ItemEditor.react, haction, Option.elim_none]
  have hselect : C.provideInput ops { editor := ⟨items, .selecting .edit⟩ }
      (.str (toString (itemIndex + 1))) = asking items (some itemIndex.toNat) old 0 := by
    have hcancel := isCancelInput_number hreads hindex
    have hraises : C.raises ops.toValidationOps ⟨items, .selecting .edit⟩ (.str (toString (itemIndex + 1))) =
        false := by
      simp only [raises, hcancel, Value.asStr, Option.any_some, hreads.strip_number,
        hreads.misread_number, Bool.and_false]
    have hresolve : resolveItemIndex ops.text (.str (toString (itemIndex + 1)))
        (items.mapIdx ((C.env ops.toValidationOps).label C.step)) = some itemIndex.toNat := by
      have hne : toString (itemIndex + 1) ≠ "" := by
        obtain ⟨n, hn⟩ := Int.eq_ofNat_of_zero_le (show 0 ≤ itemIndex + 1 by omega)
        rw [hn]
        exact Nat.repr_ne_empty
      simp only [resolveItemIndex, hreads.strip_number, if_neg hne, hreads.digits_number,
        List.length_mapIdx]
      rw [if_pos (by omega)]
      congr 1
      omega
    rw [provideInput, if_neg Bool.false_ne_true, hraises, if_neg Bool.false_ne_true]
    simp only [ItemEditor.take, ItemEditor.react]
    simp only [env] at hresolve ⊢
    simp only [hcancel, Bool.false_eq_true, if_false, hresolve, reduceCtorEq, hold,
      Option.getD_some, Option.elim_none]
    rfl
  have hat : sessionAt ops C items itemIndex.toNat (wizardView.mergeEditFields itemIndex fields) old
      0 = asking items (some itemIndex.toNat) old 0 := if_pos hfields
  rw [drive, driveCollectionEdit, hat]
  simp only [session, hmenu, hselect, collectionFieldSlugs_viewOf, if_neg C.slugs_ne_nil]

end Start

section Claims

variable {ops : InputOps} {C : EditedCollection} {items : List Item} {itemIndex : ℤ} {fields : Item}
  {wizardView : WizardView}

/-- A drive that fails and stores values by their own fields only lands. -/
theorem editLands_of_fails {run : EditRun EditSession}
    (hrun : C.drive ops items itemIndex fields wizardView = run) (hown : C.StoredByOwn ops run.fed)
    (hfails : C.Fails ops run) (hitems : run.session.editor.items = items) :
    C.EditLands ops items itemIndex fields wizardView where
  own := hrun ▸ hown
  items := Or.inr (by rw [hrun]; exact ⟨hfails, hitems⟩)

/-- The menu leaves the items as they are. -/
theorem items_provideInput_menu (ops : InputOps) (C : EditedCollection) (items : List Item)
    (value : Value) : (C.provideInput ops { editor := { items } } value).editor.items = items := by
  rw [provideInput, if_neg Bool.false_ne_true]
  split
  · rfl
  · simp only [ItemEditor.take, ItemEditor.react]
    cases menuAction (C.env ops.toValidationOps) C.step items value with
    | none => rfl
    | some action => cases action <;> rfl

/-- An edit of which the wizard ignores everything after the label lands. -/
theorem editLands_of_ignored (h : C.EditIgnored ops items itemIndex fields wizardView) :
    C.EditLands ops items itemIndex fields wizardView := by
  obtain ⟨houtside, hnumber, hvalues⟩ := h
  have hitems := items_provideInput_menu ops C items (.str editMenuLabel)
  generalize hfirst : C.provideInput ops { editor := { items } } (.str editMenuLabel) = first at *
  have hkeeps : ∀ s : EditSession, s.editor = first.editor → ∀ value,
      (C.provideInput ops { editor := first.editor } value).editor = first.editor →
        (C.provideInput ops s value).editor = first.editor := by
    rintro ⟨e, failed⟩ rfl value hvalue
    cases failed with
    | true => rw [provideInput, if_pos rfl]
    | false => exact hvalue
  have hsecond := hkeeps first rfl _ hnumber
  have hdrive : C.drive ops items itemIndex fields wizardView =
      feedFields ops (C.session ops) (wizardView.mergeEditFields itemIndex fields) 0
        (C.provideInput ops first (.str (toString (itemIndex + 1)))) C.slugs := by
    rw [drive, driveCollectionEdit]
    simp only [session, hfirst, collectionFieldSlugs_viewOf, if_neg C.slugs_ne_nil]
  generalize C.provideInput ops first (.str (toString (itemIndex + 1))) = second at *
  have hnone : ∀ s : EditSession, s.editor = first.editor → ∀ value,
      C.storedBy ops s value = none := by
    intro s hs value
    rw [storedBy, hs, houtside, Option.bind_none, ite_self]
  obtain ⟨hsession, hfed⟩ := feedFields_idle (Q := fun s => s.editor = first.editor)
    (wizardView.mergeEditFields itemIndex fields) C.slugs hnone
    (fun s hs slug hslug raw value hraw hvalue =>
      hkeeps s hs value (hvalues slug hslug raw value hraw (hs ▸ hvalue))) hsecond 0
  refine editLands_of_fails hdrive (fun f hf position hposition => ?_) ?_
    ((congrArg ItemEditor.items hsession).trans hitems)
  · rw [hfed f hf] at hposition
    cases hposition
  · obtain ⟨slug, rest, hslugs⟩ := List.exists_cons_of_ne_nil C.slugs_ne_nil
    rw [hslugs, feedFields_cons]
    cases C.rawValue (wizardView.mergeEditFields itemIndex fields) slug with
    | none => exact Or.inl rfl
    | some raw =>
      simp only
      cases coerceCollectionFieldInput ops raw (C.patternOf second.editor) with
      | none => exact Or.inl rfl
      | some value => exact Or.inr (Or.inr ⟨_, List.mem_cons_self, hnone second hsecond value⟩)

/-- Which values of an edit land, if the first field that does not take its own value is known. -/
theorem editLands_iff_of_refuses {merged old : Item} {i position : ℕ}
    (hdrive : C.drive ops items itemIndex fields wizardView =
      feedFields ops (C.session ops) merged 0 (sessionAt ops C items i merged old 0) C.slugs)
    (hposition : position < C.fields.length) (htake : C.TakeOwn ops merged position)
    (hrefuses : C.offered ops merged position position = .refuses) :
    C.EditLands ops items itemIndex fields wizardView ↔
      ¬TakesLater ops C merged position (position + 1) := by
  obtain ⟨merged', fed, hraw, hstored, hrun⟩ :=
    feedFields_aligned items i old hposition.le htake
  obtain ⟨field, hfield, hslug, hdrop⟩ := exists_own C position hposition
  have hoffer : C.offer ops merged' field field.slug = .refuses := by
    rw [offer_congr (hraw field.slug), ← hrefuses, offered, hfield, hslug]
  obtain ⟨value, hnone, hfilled, htail⟩ := feedFields_refuses items (some i)
    (filledDraft ops C merged old position) position (C.slugs.drop (position + 1)) hfield hoffer
  obtain ⟨htaken, hkept⟩ := feedFields_stuck items (some i) (filledDraft ops C merged old position)
    (fun key => (hfilled key).trans (hraw key)) (Nat.lt_succ_self position)
    (d := C.fields.length - (position + 1)) (by omega)
  have hat : sessionAt ops C items i merged old position =
      asking items (some i) (filledDraft ops C merged old position) position := if_pos hposition
  rw [hat, hdrop, htail] at hrun
  have hdrive := hdrive.trans hrun
  constructor
  · intro hlands hlater
    have hown := hlands.own
    rw [hdrive] at hown
    exact htaken hlater fun f hf =>
      hown f (List.mem_append_right _ (List.mem_append_right _ hf))
  · intro hlater
    obtain ⟨hown, heditor⟩ := hkept hlater
    let rejected : FedValue EditSession :=
      ⟨asking items (some i) (filledDraft ops C merged old position) position, position, value⟩
    refine editLands_of_fails hdrive (fun f hf => ?_) (Or.inr (Or.inr ⟨rejected, ?_, hnone⟩))
      (congrArg ItemEditor.items heditor)
    · rcases List.mem_append.mp hf with hf | hf
      · intro k hk
        rw [hstored f hf] at hk
        exact (Option.some.inj hk).symm
      · rcases List.mem_cons.mp hf with rfl | hf
        · intro k hk
          rw [hnone] at hk
          cases hk
        · exact hown f hf
    · exact List.mem_append_right _ List.mem_cons_self

/-- If the first field that does not take its own value ends the drive then the edit lands. -/
theorem editLands_of_stops {merged old : Item} {i position : ℕ}
    (hdrive : C.drive ops items itemIndex fields wizardView =
      feedFields ops (C.session ops) merged 0 (sessionAt ops C items i merged old 0) C.slugs)
    (hposition : position < C.fields.length) (htake : C.TakeOwn ops merged position)
    (hstops : C.offered ops merged position position = .stops) :
    C.EditLands ops items itemIndex fields wizardView := by
  obtain ⟨merged', fed, hraw, hstored, hrun⟩ :=
    feedFields_aligned items i old hposition.le htake
  obtain ⟨field, hfield, hslug, hdrop⟩ := exists_own C position hposition
  have hoffer : C.offer ops merged' field field.slug = .stops := by
    rw [offer_congr (hraw field.slug), ← hstops, offered, hfield, hslug]
  obtain ⟨heditor, hfails, hnone⟩ := feedFields_stops items (some i)
    (filledDraft ops C merged old position) position (C.slugs.drop (position + 1)) hfield hoffer
  have hat : sessionAt ops C items i merged old position =
      asking items (some i) (filledDraft ops C merged old position) position := if_pos hposition
  rw [hat, hdrop] at hrun
  refine editLands_of_fails (hdrive.trans hrun) (fun f hf k hk => ?_) ?_
    (congrArg ItemEditor.items heditor)
  · rcases List.mem_append.mp hf with hf | hf
    · rw [hstored f hf] at hk
      exact (Option.some.inj hk).symm
    · rw [hnone f hf] at hk
      cases hk
  · refine hfails.imp id (Or.imp id ?_)
    rintro ⟨f, hf, hf'⟩
    exact ⟨f, List.mem_append_right _ hf, hf'⟩

/-- If all fields take their own values then the edit lands exactly if they hold what the updated item
holds. -/
theorem editLands_iff_of_takeOwn {merged old : Item}
    (hold : items[itemIndex.toNat]? = some old) (hindex : 0 ≤ itemIndex)
    (hdrive : C.drive ops items itemIndex fields wizardView =
      feedFields ops (C.session ops) merged 0
        (sessionAt ops C items itemIndex.toNat merged old 0) C.slugs)
    (htake : C.TakeOwn ops merged C.fields.length) :
    C.EditLands ops items itemIndex fields wizardView ↔
      C.Holds ops merged old (updateItem old fields) := by
  have hlt : itemIndex.toNat < items.length := (List.getElem?_eq_some_iff.mp hold).1
  obtain ⟨merged', fed, -, hstored, hrun⟩ :=
    feedFields_aligned items itemIndex.toNat old le_rfl htake
  have hdrop : C.slugs.drop C.fields.length = [] := by
    rw [List.drop_eq_nil_iff, slugs, List.length_map]
  have hat : sessionAt ops C items itemIndex.toNat merged old C.fields.length =
      { editor := ⟨items.set itemIndex.toNat (filledDraft ops C merged old C.fields.length),
        .menu⟩ } := if_neg (lt_irrefl _)
  rw [hat, hdrop, feedFields] at hrun
  have hdrive := hdrive.trans hrun
  rw [← filledDraft_iff_holds htake]
  constructor
  · intro hlands
    obtain ⟨-, hitems⟩ := hlands
    rw [hdrive] at hitems
    rcases hitems with ⟨old', new, -, hold', hset, hnew⟩ | ⟨hfails, -⟩
    · obtain rfl := Option.some.inj (hold.symm.trans hold')
      have hsame : filledDraft ops C merged old C.fields.length = new := by
        have hget := congrArg (·[itemIndex.toNat]?) hset
        simp only [EditRun.after, List.getElem?_set_self hlt] at hget
        exact Option.some.inj hget
      exact fun key => hsame ▸ hnew key
    · rcases hfails with herror | hfailed | ⟨f, hf, hnone⟩
      · cases herror
      · cases hfailed
      · rw [EditRun.after, List.append_nil] at hf
        rw [hstored f hf] at hnone
        cases hnone
  · intro hholds
    refine ⟨?_, ?_⟩
    · rw [hdrive]
      intro f hf k hk
      rw [EditRun.after, List.append_nil] at hf
      rw [hstored f hf] at hk
      exact (Option.some.inj hk).symm
    · rw [hdrive]
      exact Or.inl ⟨old, _, hindex, hold, rfl, hholds⟩

/-- An edit of an item lands exactly if it fits the fields; and it lands if the wizard ignores
everything after the label. -/
theorem editLands_iff (ops : InputOps) (C : EditedCollection) (items : List Item) (itemIndex : ℤ)
    (fields : Item) (wizardView : WizardView) :
    (∀ old, 0 ≤ itemIndex → items[itemIndex.toNat]? = some old → ReadsIndex ops itemIndex →
      (C.EditLands ops items itemIndex fields wizardView ↔
        C.EditFits ops (wizardView.mergeEditFields itemIndex fields) old
          (updateItem old fields))) ∧
      (C.EditIgnored ops items itemIndex fields wizardView →
        C.EditLands ops items itemIndex fields wizardView) := by
  refine ⟨fun old hindex hold hreads => ?_, editLands_of_ignored⟩
  have hdrive := drive_addressed (C := C) hreads hindex hold fields wizardView
  generalize wizardView.mergeEditFields itemIndex fields = merged at hdrive
  have hclash : ∀ {position out}, C.TakeOwn ops merged position → ∀ earlier < position,
      C.offered ops merged earlier earlier = out → (∀ v, out ≠ .takes v) → False := by
    rintro position _ htake earlier hearlier rfl hnot
    obtain ⟨v, hv⟩ := htake earlier hearlier
    exact hnot v hv
  by_cases hall : C.TakeOwn ops merged C.fields.length
  · rw [editLands_iff_of_takeOwn hold hindex hdrive hall]
    constructor
    · exact .updates hall
    · rintro (⟨-, hholds⟩ | ⟨position, hposition, -, hstops⟩ |
        ⟨position, hposition, -, hrefuses, -⟩)
      · exact hholds
      · exact (hclash hall position hposition hstops fun v h => by cases h).elim
      · exact (hclash hall position hposition hrefuses fun v h => by cases h).elim
  · have hexists : ∃ k, k < C.fields.length ∧ ¬∃ v, C.offered ops merged k k = .takes v := by
      rw [TakeOwn] at hall
      simpa only [not_forall, exists_prop] using hall
    classical
    obtain ⟨hposition, hnot⟩ := Nat.find_spec hexists
    have hbefore : C.TakeOwn ops merged (Nat.find hexists) := fun k hk => by
      by_contra hnone
      exact Nat.find_min hexists hk ⟨hk.trans hposition, hnone⟩
    generalize Nat.find hexists = position at hposition hnot hbefore
    cases hoffered : C.offered ops merged position position with
    | takes v => exact absurd ⟨v, hoffered⟩ hnot
    | stops =>
      exact ⟨fun _ => .stops position hposition hbefore hoffered,
        fun _ => editLands_of_stops hdrive hposition hbefore hoffered⟩
    | refuses =>
      rw [editLands_iff_of_refuses hdrive hposition hbefore hoffered]
      constructor
      · intro hlater
        refine .refuses position hposition hbefore hoffered fun later v hlt hbound hbetween hv => ?_
        exact hlater ⟨later, v, hlt, hbound, hbetween, hv⟩
      · rintro (⟨htake, -⟩ | ⟨other, -, htake, hstops⟩ | ⟨other, -, htake, hrefuses, hlater⟩)
        · exact (hall htake).elim
        · rcases lt_trichotomy other position with hlt | rfl | hlt
          · exact (hclash hbefore other hlt hstops fun v h => by cases h).elim
          · rw [hoffered] at hstops
            cases hstops
          · exact (hclash htake position hlt hoffered fun v h => by cases h).elim
        · rcases lt_trichotomy other position with hlt | rfl | hlt
          · exact (hclash hbefore other hlt hrefuses fun v h => by cases h).elim
          · rintro ⟨later, v, hle, hbound, hbetween, hv⟩
            exact hlater later v hle hbound hbetween hv
          · exact (hclash htake position hlt hoffered fun v h => by cases h).elim

end Claims

section Fixed

/-- Operations that read the digits one and two and no JSON. -/
def plainInputOps : InputOps := { digitOps with loads := fun _ => none }

/-- A collection of titles with notes. -/
def todos : EditedCollection where
  slug := "todos"
  collectionKey := "todos"
  fields := [{ slug := "title" }, { slug := "note", required := false }]
  fields_ne_nil := List.cons_ne_nil _ _
  named := by decide

/-- An item of the collection. -/
def tea : Item := [("title", .str "tea"), ("note", .str "green")]

/-- The view of a wizard with this item. -/
def teaView : WizardView where
  answers := [("todos", .list [.dict tea])]

/-- The note of an item is changed. -/
theorem editLands_iff_todos : todos.EditLands plainInputOps [tea] 0 [("note", .str "black")]
    teaView := by
  have hreads : ReadsIndex plainInputOps 0 := ⟨rfl, rfl, rfl, by decide, rfl⟩
  refine ((editLands_iff plainInputOps todos [tea] 0 [("note", .str "black")] teaView).1 tea le_rfl
    rfl hreads).mpr ?_
  have htitle : todos.offered plainInputOps
      (teaView.mergeEditFields 0 [("note", .str "black")]) 0 0 = .takes (.str "tea") := rfl
  have hnote : todos.offered plainInputOps
      (teaView.mergeEditFields 0 [("note", .str "black")]) 1 1 = .takes (.str "black") := rfl
  have htwo : ∀ k < todos.fields.length, k = 0 ∨ k = 1 := by decide
  refine .updates (fun k hk => ?_) ⟨fun key position hlast v hv => ?_, fun key hkey => ?_⟩
  · rcases htwo k hk with rfl | rfl
    · exact ⟨_, htitle⟩
    · exact ⟨_, hnote⟩
  · have hlt : position < todos.fields.length := (List.getElem?_eq_some_iff.mp hlast.slug).1
    rcases htwo position hlt with rfl | rfl
    · obtain rfl := Option.some.inj hlast.slug
      obtain rfl := Offer.takes.inj (htitle.symm.trans hv)
      rfl
    · obtain rfl := Option.some.inj hlast.slug
      obtain rfl := Offer.takes.inj (hnote.symm.trans hv)
      rfl
  · have hne : key ≠ "note" := by
      rintro rfl
      exact hkey (by decide)
    exact (valueOf?_setEntry_ne (.str "black") tea hne).symm

/-- The empty title is rejected, and the note is stored as the title. -/
theorem editLands_fails : ¬∀ (C : EditedCollection) (items : List Item) (itemIndex : ℤ)
    (fields : Item) (wizardView : WizardView),
    C.EditLands plainInputOps items itemIndex fields wizardView := by
  intro h
  have hown := (h todos [tea] 0 [("title", .str ""), ("note", .str "black")] teaView).own
  have hfed : (todos.drive plainInputOps [tea] 0 [("title", .str ""), ("note", .str "black")]
      teaView).fed.map (fun f => (f.position, todos.storedBy plainInputOps f.before f.value)) =
        [(0, none), (1, some 0)] := rfl
  have hmem : (1, some 0) ∈ (todos.drive plainInputOps [tea] 0
      [("title", .str ""), ("note", .str "black")] teaView).fed.map
        (fun f => (f.position, todos.storedBy plainInputOps f.before f.value)) := by
    rw [hfed]
    decide
  obtain ⟨f, hf, heq⟩ := List.mem_map.mp hmem
  have hposition : 0 = f.position := hown f hf 0 (congrArg Prod.snd heq)
  have hone : f.position = 1 := congrArg Prod.fst heq
  omega

end Fixed

end EditedCollection

end PalmEngine.Operator
