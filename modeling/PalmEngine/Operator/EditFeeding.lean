import PalmEngine.Operator.CollectionEdit

/-!
# Values that are given to the fields of an item

The driver gives the values of the fields by their positions, and the wizard stays at a field whose
value it rejects. So a rejection shifts the values that follow: each is then offered to the field that
has rejected its own value. As long as the fields take their own values, these are put into the draft.
-/

namespace PalmEngine.Operator

open PalmEngine.Lib PalmEngine.Context PalmEngine.Wizard PalmEngine.Wizard.FieldCollection

/-- What becomes of a value that is offered to a field: the drive or the job ends, the field rejects
it, or takes it. -/
inductive Offer where
  | stops
  | refuses
  | takes (v : Value)

/-- A run that goes on after values were given. -/
def EditRun.after {σ : Type} (fed : List (FedValue σ)) (run : EditRun σ) : EditRun σ :=
  { run with fed := fed ++ run.fed }

/-- What is left under the slug of a field that takes a value. -/
def storedValue (v : Value) : Option Value := if v.isNull then none else some v

namespace EditedCollection

section Offered

variable (ops : InputOps) (C : EditedCollection)

/-- The slugs of the fields. -/
def slugs : List String := C.fields.map FieldSpec.slug

/-- Whether a field may be left out. -/
def isOptional (slug : String) : Bool :=
  (C.fields.find? fun field => field.slug = slug).any (!·.required)

/-- The value that the driver has for a field: the given one or the one that is shown, or the empty
text if the field may be left out. -/
def rawValue (merged : Item) (slug : String) : Option Value :=
  valueOf? slug merged <|> if C.isOptional slug then some (.str "") else none

/-- What becomes of the value for a slug when a field is asked for. -/
def offer (merged : Item) (field : FieldSpec) (slug : String) : Offer :=
  match (C.rawValue merged slug).bind fun raw =>
      coerceCollectionFieldInput ops raw (C.fieldPattern field) with
  | none => .stops
  | some value =>
    match C.answerOf ops.toValidationOps field value with
    | .ok v => .takes v
    | .error (.raised _) => .stops
    | .error (.rejected _) => .refuses

/-- What becomes of the value for the field at one position when the one at another is asked for. -/
def offered (merged : Item) (asked position : ℕ) : Offer :=
  match C.fields[asked]?, C.slugs[position]? with
  | some field, some slug => C.offer ops merged field slug
  | _, _ => .stops

/-- Each value that was stored was stored by the field it is for. -/
def StoredByOwn (fed : List (FedValue EditSession)) : Prop :=
  ∀ f ∈ fed, ∀ position ∈ C.storedBy ops f.before f.value, position = f.position

/-- A drive fails: it raises, the job fails, or a value is not stored. -/
def Fails (run : EditRun EditSession) : Prop :=
  run.error.isSome = true ∨ run.session.failed = true ∨
    ∃ f ∈ run.fed, C.storedBy ops f.before f.value = none

/-- The fields before a position take their own values. -/
def TakeOwn (merged : Item) (position : ℕ) : Prop :=
  ∀ k < position, ∃ v, C.offered ops merged k k = .takes v

end Offered

section Fields

variable {ops : InputOps} {C : EditedCollection} {field : FieldSpec} {value : Value}

/-- What is left under a slug when the value of a field is put into a draft. -/
theorem valueOf?_draftWith (key slug : String) (v : Value) (draft : Item) :
    valueOf? key (draftWith slug v draft) =
      if key = slug then storedValue v else valueOf? key draft := by
  unfold draftWith storedValue
  by_cases hkey : key = slug
  · subst hkey
    rw [if_pos rfl]
    split
    · rw [valueOf?, List.find?_filter]
      refine Option.map_eq_none_iff.mpr (List.find?_eq_none.mpr fun e _ => ?_)
      simp
    · exact valueOf?_setEntry_self key v draft
  · rw [if_neg hkey]
    split
    · rw [valueOf?, List.find?_filter, valueOf?]
      refine congrArg _ (congrArg (draft.find? ·) (funext fun e => ?_))
      by_cases he : e.1 = key
      · simp [he, hkey]
      · simp [he]
    · exact valueOf?_setEntry_ne v draft hkey

/-- What the session takes is what the collection step of a wizard does with a parked input, unless
the step raises. -/
theorem provideInput_reacts (ops : InputOps) {s : EditSession} (hlive : s.failed = false)
    {b : WizardBoard} (hshows : b.Shows C.step s.editor) {parked : ParkedInput}
    (hinput : b.inputs.get? C.slug = some parked)
    (hraises : C.raises ops.toValidationOps s.editor parked.value = false) :
    Reacts C.step b (C.provideInput ops s parked.value).editor
      (collectionTick (C.env ops.toValidationOps) { seen := (C.askedField s.editor).map Prod.snd } C.step b) := by
  have hfields : C.step.itemFields ≠ [] := fun hnil =>
    C.fields_ne_nil (List.map_eq_nil_iff.mp hnil)
  rw [provideInput, hlive, if_neg Bool.false_ne_true, hraises, if_neg Bool.false_ne_true]
  exact collectionTick_reacts _ _ hfields hshows hinput

end Fields

section Feeding

/-- A session that asks for the field at a position. -/
def asking (items : List Item) (target : Option ℕ) (draft : Item) (position : ℕ) : EditSession where
  editor := ⟨items, .entering target draft position⟩

/-- The session after the field at a position has been put into the draft. -/
def answered (C : EditedCollection) (items : List Item) (target : Option ℕ) (draft : Item)
    (position : ℕ) : EditSession :=
  if position + 1 < C.fields.length then asking items target draft (position + 1)
  else { editor := ⟨(target.elim (ListEdit.append draft) fun i => .replace i draft).apply items,
    .menu⟩ }

variable {ops : InputOps} {C : EditedCollection} {items : List Item} {target : Option ℕ}
  {draft merged merged' : Item} {position : ℕ} {field : FieldSpec} {value : Value}

/-- The field that a session asks for. -/
theorem askedField_asking (items : List Item) (target : Option ℕ) (draft : Item)
    (hfield : C.fields[position]? = some field) :
    C.askedField (asking items target draft position).editor = some (position, field) := by
  rw [askedField, asking]
  simp only [hfield, Option.map_some]

/-- The pattern of the prompt that a session shows is the one of the field. -/
theorem patternOf_asking (hfield : C.fields[position]? = some field) :
    C.patternOf (asking items target draft position).editor = C.fieldPattern field := by
  have hasked := askedField_asking items target draft hfield
  simp only [asking] at hasked
  simp only [patternOf, asking, hasked, Option.elim_some]

/-- A session that asks for a field stores what the field makes of an input. -/
theorem storedBy_asking (ops : InputOps) (items : List Item) (target : Option ℕ) (draft : Item)
    (value : Value) (hfield : C.fields[position]? = some field) :
    C.storedBy ops (asking items target draft position) value =
      (C.answerOf ops.toValidationOps field value).toOption.map fun _ => position := by
  rw [storedBy, askedField_asking items target draft hfield]
  rfl

/-- A session that asks for a field takes an input as the field does. -/
theorem provideInput_asking (hfield : C.fields[position]? = some field) :
    C.provideInput ops (asking items target draft position) value =
      match C.answerOf ops.toValidationOps field value with
      | .ok v => answered C items target (draftWith field.slug v draft) position
      | .error (.raised _) => { asking items target draft position with failed := true }
      | .error (.rejected _) => asking items target draft position := by
  have hasked := askedField_asking items target draft hfield
  have hraises : C.raises ops.toValidationOps (asking items target draft position).editor value =
      isRaised (C.answerOf ops.toValidationOps field value) := by
    rw [raises]
    simp only [asking] at hasked ⊢
    rw [hasked]
    rfl
  have hconfig : C.step.itemFields[position]? =
      some { slug := field.slug, required := field.required } := by
    rw [step, List.getElem?_map, hfield, Option.map_some]
  have haccepted := acceptedValue_env ops.toValidationOps C.toFieldCollection field value
  have hlength : C.step.itemFields.length = C.fields.length := List.length_map _
  rw [provideInput, if_neg (by exact Bool.false_ne_true), hraises, hasked]
  cases hanswer : C.answerOf ops.toValidationOps field value with
  | error refusal =>
    rw [hanswer] at haccepted
    cases refusal with
    | raised fault => rfl
    | rejected errors =>
      simp only [isRaised, Bool.false_eq_true, if_false, Option.map_some, ItemEditor.take,
        ItemEditor.react, asking, hconfig, Option.bind_some, haccepted, Except.toOption,
        Option.map_none, Option.elim_none]
  | ok v =>
    rw [hanswer] at haccepted
    simp only [isRaised, Bool.false_eq_true, if_false, Option.map_some, ItemEditor.take,
      ItemEditor.react, asking, hconfig, Option.bind_some, haccepted, Except.toOption, hlength,
      answered]
    split
    · rfl
    · rfl

/-- What is merged once a field has a value. -/
def filled (merged : Item) (slug : String) : Item :=
  if (valueOf? slug merged).isSome then merged else setEntry slug (.str "") merged

/-- Filling in the value of a field leaves what the driver has for the fields. -/
theorem rawValue_filled {slug : String} {raw : Value} (h : C.rawValue merged slug = some raw)
    (key : String) : C.rawValue (filled merged slug) key = C.rawValue merged key := by
  unfold filled
  split
  · rfl
  · next hnone =>
    have hnone : valueOf? slug merged = none := Option.not_isSome_iff_eq_none.mp hnone
    by_cases hkey : key = slug
    · subst hkey
      rw [rawValue, hnone] at h
      rw [rawValue, rawValue, valueOf?_setEntry_self, hnone]
      by_cases hoptional : C.isOptional key = true
      · rw [if_pos hoptional]
        rfl
      · rw [if_neg hoptional] at h
        cases h
    · rw [rawValue, rawValue, valueOf?_setEntry_ne _ _ hkey]

/-- Whether a field may be left out is what the view says. -/
theorem fieldIsOptional_viewOf (s : EditSession) (slug : String) :
    (C.viewOf s).fieldIsOptional slug = C.isOptional slug := by
  rw [WizardView.fieldIsOptional, isOptional, viewOf]
  simp only [List.find?_map, Option.any_map]
  rfl

/-- One value is given to a session, if there is one and it is read. -/
theorem feedFields_cons (merged : Item) (position : ℕ) (s : EditSession) (slug : String)
    (slugs : List String) :
    feedFields ops (C.session ops) merged position s (slug :: slugs) =
      match C.rawValue merged slug with
      | none => { session := s, error := some (.missingValue slug) }
      | some raw =>
        match coerceCollectionFieldInput ops raw (C.patternOf s.editor) with
        | none => { session := s, error := some .notANumber }
        | some value =>
          let run := feedFields ops (C.session ops) (filled merged slug) (position + 1)
            (C.provideInput ops s value) slugs
          { run with fed := ⟨s, position, value⟩ :: run.fed } := by
  have hoptional : ((C.session ops).view s).fieldIsOptional slug = C.isOptional slug :=
    fieldIsOptional_viewOf s slug
  rw [feedFields, rawValue, filled, hoptional]
  cases hvalue : valueOf? slug merged with
  | some raw => rfl
  | none =>
    simp only [Option.isSome_none, Bool.false_eq_true, if_false]
    cases C.isOptional slug <;> rfl

/-- As long as a session is in states in which nothing is stored and from which the values lead to
such states, nothing is stored. -/
theorem feedFields_idle {Q : EditSession → Prop} (merged : Item) (slugs : List String)
    (hnone : ∀ s, Q s → ∀ value, C.storedBy ops s value = none)
    (hkeeps : ∀ s, Q s → ∀ slug ∈ slugs, ∀ raw value, C.rawValue merged slug = some raw →
      coerceCollectionFieldInput ops raw (C.patternOf s.editor) = some value →
        Q (C.provideInput ops s value)) {s : EditSession} (hs : Q s) (position : ℕ) :
    let run := feedFields ops (C.session ops) merged position s slugs
    Q run.session ∧ ∀ f ∈ run.fed, C.storedBy ops f.before f.value = none := by
  induction slugs generalizing merged s position with
  | nil => exact ⟨hs, fun f hf => (by cases hf)⟩
  | cons slug rest ih =>
    intro run
    have hrun : run = _ := feedFields_cons merged position s slug rest
    cases hraw : C.rawValue merged slug with
    | none =>
      rw [hrun, hraw]
      exact ⟨hs, fun f hf => (by cases hf)⟩
    | some raw =>
      rw [hraw] at hrun
      simp only at hrun
      cases hvalue : coerceCollectionFieldInput ops raw (C.patternOf s.editor) with
      | none =>
        rw [hrun, hvalue]
        exact ⟨hs, fun f hf => (by cases hf)⟩
      | some value =>
        rw [hvalue] at hrun
        have hnext := hkeeps s hs slug List.mem_cons_self raw value hraw hvalue
        have hrest : ∀ s, Q s → ∀ key ∈ rest, ∀ raw value,
            C.rawValue (filled merged slug) key = some raw →
              coerceCollectionFieldInput ops raw (C.patternOf s.editor) = some value →
                Q (C.provideInput ops s value) := fun s hs key hkey raw value hr =>
          hkeeps s hs key (List.mem_cons_of_mem _ hkey) raw value (rawValue_filled hraw key ▸ hr)
        obtain ⟨hsession, hfed⟩ := ih (filled merged slug) hrest hnext (position + 1)
        rw [hrun]
        refine ⟨hsession, fun f hf => ?_⟩
        rcases List.mem_cons.mp hf with rfl | hf
        · exact hnone s hs value
        · exact hfed f hf

end Feeding

section Offers

variable {ops : InputOps} {C : EditedCollection} {items : List Item} {target : Option ℕ}
  {draft merged merged' : Item} {asked position : ℕ} {field : FieldSpec} {slug : String}
  {slugs : List String}

/-- What becomes of a value depends on what the driver has for the slug. -/
theorem offer_congr (h : C.rawValue merged' slug = C.rawValue merged slug) :
    C.offer ops merged' field slug = C.offer ops merged field slug := by
  rw [offer, h, offer]

/-- A value that is rejected or taken is given to the session, and the field answers to it. -/
theorem exists_answer (ops : InputOps) (field : FieldSpec)
    (hoffer : C.offer ops merged field slug ≠ .stops) : ∃ raw value,
    C.rawValue merged slug = some raw ∧
      coerceCollectionFieldInput ops raw (C.fieldPattern field) = some value ∧
        C.offer ops merged field slug = match C.answerOf ops.toValidationOps field value with
          | .ok v => .takes v
          | .error (.raised _) => .stops
          | .error (.rejected _) => .refuses := by
  cases hraw : C.rawValue merged slug with
  | none => exact absurd (by rw [offer, hraw, Option.bind_none]) hoffer
  | some raw =>
    cases hvalue : coerceCollectionFieldInput ops raw (C.fieldPattern field) with
    | none => exact absurd (by rw [offer, hraw, Option.bind_some, hvalue]) hoffer
    | some value =>
      refine ⟨raw, value, rfl, hvalue, ?_⟩
      rw [offer, hraw, Option.bind_some, hvalue]

/-- A value that is given to a session that asks for a field. -/
theorem feedFields_asking (hfield : C.fields[asked]? = some field) {raw value : Value}
    (hraw : C.rawValue merged slug = some raw)
    (hvalue : coerceCollectionFieldInput ops raw (C.fieldPattern field) = some value) :
    feedFields ops (C.session ops) merged position (asking items target draft asked)
        (slug :: slugs) =
      EditRun.after [⟨asking items target draft asked, position, value⟩]
        (feedFields ops (C.session ops) (filled merged slug) (position + 1)
          (C.provideInput ops (asking items target draft asked) value) slugs) := by
  rw [feedFields_cons, hraw]
  simp only [patternOf_asking hfield, hvalue]
  rfl

/-- A job that has failed takes nothing. -/
theorem feedFields_failed (ops : InputOps) (C : EditedCollection) (merged : Item)
    (slugs : List String) (position : ℕ) {s : EditSession} (hfailed : s.failed = true) :
    let run := feedFields ops (C.session ops) merged position s slugs
    run.session = s ∧ ∀ f ∈ run.fed, C.storedBy ops f.before f.value = none := by
  refine feedFields_idle (Q := fun s' => s' = s) merged slugs ?_ ?_ rfl position
  · rintro _ rfl value
    rw [storedBy, if_pos hfailed]
  · rintro _ rfl key - raw value - -
    rw [provideInput, if_pos hfailed]

/-- A value that ends the drive or the job leaves the editor, and nothing is stored. -/
theorem feedFields_stops (items : List Item) (target : Option ℕ) (draft : Item) (position : ℕ)
    (slugs : List String) (hfield : C.fields[asked]? = some field)
    (hoffer : C.offer ops merged field slug = .stops) :
    let run := feedFields ops (C.session ops) merged position (asking items target draft asked)
      (slug :: slugs)
    run.session.editor = (asking items target draft asked).editor ∧ C.Fails ops run ∧
      ∀ f ∈ run.fed, C.storedBy ops f.before f.value = none := by
  intro run
  have hrun : run = _ :=
    feedFields_cons merged position (asking items target draft asked) slug slugs
  rw [patternOf_asking hfield] at hrun
  rw [offer] at hoffer
  cases hraw : C.rawValue merged slug with
  | none =>
    rw [hraw] at hrun
    rw [hrun]
    exact ⟨rfl, Or.inl rfl, fun f hf => (by cases hf)⟩
  | some raw =>
    rw [hraw] at hrun hoffer
    simp only [Option.bind_some] at hrun hoffer
    cases hvalue : coerceCollectionFieldInput ops raw (C.fieldPattern field) with
    | none =>
      rw [hvalue] at hrun
      rw [hrun]
      exact ⟨rfl, Or.inl rfl, fun f hf => (by cases hf)⟩
    | some value =>
      rw [hvalue] at hrun hoffer
      simp only [provideInput_asking hfield] at hrun hoffer
      have hstored := storedBy_asking ops items target draft value hfield
      cases hanswer : C.answerOf ops.toValidationOps field value with
      | ok v =>
        rw [hanswer] at hoffer
        cases hoffer
      | error refusal =>
        rw [hanswer] at hrun hoffer hstored
        cases refusal with
        | rejected errors => cases hoffer
        | raised fault =>
          simp only at hrun
          obtain ⟨hsession, hfed⟩ := feedFields_failed ops C (filled merged slug) slugs (position + 1)
            (s := { asking items target draft asked with failed := true }) rfl
          have heditor := congrArg EditSession.editor hsession
          have hfailed := congrArg EditSession.failed hsession
          rw [hrun]
          refine ⟨heditor, Or.inr (Or.inl hfailed), fun f hf => ?_⟩
          rcases List.mem_cons.mp hf with rfl | hf
          · exact hstored
          · exact hfed f hf

/-- A value that is rejected leaves the session. -/
theorem feedFields_refuses (items : List Item) (target : Option ℕ) (draft : Item) (position : ℕ)
    (slugs : List String) (hfield : C.fields[asked]? = some field)
    (hoffer : C.offer ops merged field slug = .refuses) : ∃ value,
    C.storedBy ops (asking items target draft asked) value = none ∧
      (∀ key, C.rawValue (filled merged slug) key = C.rawValue merged key) ∧
        feedFields ops (C.session ops) merged position (asking items target draft asked)
            (slug :: slugs) =
          EditRun.after [⟨asking items target draft asked, position, value⟩]
            (feedFields ops (C.session ops) (filled merged slug) (position + 1)
              (asking items target draft asked) slugs) := by
  obtain ⟨raw, value, hraw, hvalue, hanswer⟩ :=
    exists_answer ops field (by rw [hoffer]; exact Offer.noConfusion)
  rw [hoffer] at hanswer
  refine ⟨value, ?_, rawValue_filled hraw, ?_⟩
  · rw [storedBy_asking ops items target draft value hfield]
    revert hanswer
    cases C.answerOf ops.toValidationOps field value with
    | ok v => exact fun h => by cases h
    | error refusal => exact fun _ => rfl
  · rw [feedFields_asking hfield hraw hvalue, provideInput_asking hfield]
    revert hanswer
    cases C.answerOf ops.toValidationOps field value with
    | ok v => exact fun h => by cases h
    | error refusal =>
      cases refusal with
      | raised fault => exact fun h => by cases h
      | rejected errors => exact fun _ => rfl

/-- A value that is taken is put into the draft. -/
theorem feedFields_takes (items : List Item) (target : Option ℕ) (draft : Item) (position : ℕ)
    (slugs : List String) (hfield : C.fields[asked]? = some field) {v : Value}
    (hoffer : C.offer ops merged field slug = .takes v) : ∃ value,
    C.storedBy ops (asking items target draft asked) value = some asked ∧
      (∀ key, C.rawValue (filled merged slug) key = C.rawValue merged key) ∧
        feedFields ops (C.session ops) merged position (asking items target draft asked)
            (slug :: slugs) =
          EditRun.after [⟨asking items target draft asked, position, value⟩]
            (feedFields ops (C.session ops) (filled merged slug) (position + 1)
              (answered C items target (draftWith field.slug v draft) asked) slugs) := by
  obtain ⟨raw, value, hraw, hvalue, hanswer⟩ :=
    exists_answer ops field (by rw [hoffer]; exact Offer.noConfusion)
  rw [hoffer] at hanswer
  have hok : C.answerOf ops.toValidationOps field value = .ok v := by
    revert hanswer
    cases C.answerOf ops.toValidationOps field value with
    | ok w => exact fun h => congrArg Except.ok (Offer.takes.inj h).symm
    | error refusal => cases refusal <;> exact fun h => by cases h
  refine ⟨value, ?_, rawValue_filled hraw, ?_⟩
  · rw [storedBy_asking ops items target draft value hfield, hok]
    rfl
  · rw [feedFields_asking hfield hraw hvalue, provideInput_asking hfield, hok]

end Offers

section Runs

variable {ops : InputOps} {C : EditedCollection} {items : List Item} {target : Option ℕ}
  {draft merged merged' : Item} {asked position : ℕ}

/-- The field at a position and the slugs from there on. -/
theorem exists_own (C : EditedCollection) (position : ℕ) (h : position < C.fields.length) :
    ∃ own, C.fields[position]? = some own ∧ C.slugs[position]? = some own.slug ∧
      C.slugs.drop position = own.slug :: C.slugs.drop (position + 1) := by
  have hlength : position < C.slugs.length := by rwa [slugs, List.length_map]
  refine ⟨C.fields[position], List.getElem?_eq_getElem h, ?_, ?_⟩
  · rw [slugs, List.getElem?_map, List.getElem?_eq_getElem h, Option.map_some]
  · rw [List.drop_eq_getElem_cons hlength]
    simp only [slugs, List.getElem_map]

/-- From a position on, the field that is asked for takes the value of another one, and rejects those
before it. -/
def TakesLater (ops : InputOps) (C : EditedCollection) (merged : Item) (asked position : ℕ) : Prop :=
  ∃ later v, position ≤ later ∧ later < C.fields.length ∧
    (∀ between, position ≤ between → between < later →
      C.offered ops merged asked between = .refuses) ∧ C.offered ops merged asked later = .takes v

/-- If the value at a position is rejected then a later one is taken from there on as from the next
position on. -/
theorem takesLater_succ_iff (hrefuses : C.offered ops merged asked position = .refuses) :
    TakesLater ops C merged asked position ↔ TakesLater ops C merged asked (position + 1) := by
  constructor
  · rintro ⟨later, v, hle, hlt, hbetween, htakes⟩
    have hne : position ≠ later := by
      rintro rfl
      rw [hrefuses] at htakes
      cases htakes
    exact ⟨later, v, by omega, hlt, fun between h => hbetween between (by omega), htakes⟩
  · rintro ⟨later, v, hle, hlt, hbetween, htakes⟩
    refine ⟨later, v, by omega, hlt, fun between h hbefore => ?_, htakes⟩
    rcases h.eq_or_lt with rfl | h
    · exact hrefuses
    · exact hbetween between h hbefore

/-- A field that has rejected its own value is given the values of the later ones. It takes one of them
exactly if a value is stored by a field it is not for; else the editor stays as it is. -/
theorem feedFields_stuck (items : List Item) (target : Option ℕ) (draft : Item)
    (hraw : ∀ key, C.rawValue merged' key = C.rawValue merged key)
    (hasked : asked < position) {d : ℕ} (hd : position + d = C.fields.length) :
    let run := feedFields ops (C.session ops) merged' position (asking items target draft asked)
      (C.slugs.drop position)
    (TakesLater ops C merged asked position → ¬C.StoredByOwn ops run.fed) ∧
      (¬TakesLater ops C merged asked position → C.StoredByOwn ops run.fed ∧
        run.session.editor = (asking items target draft asked).editor) := by
  induction d generalizing position merged' with
  | zero =>
    intro run
    have hnone : C.slugs.drop position = [] := by
      rw [List.drop_eq_nil_iff, slugs, List.length_map]
      omega
    have hrun : run = { session := asking items target draft asked } := by
      simp only [run, hnone]
      rfl
    rw [hrun]
    refine ⟨?_, fun _ => ⟨fun f hf => (by cases hf), rfl⟩⟩
    rintro ⟨later, v, hle, hlt, -, -⟩
    omega
  | succ d ih =>
    intro run
    obtain ⟨field, hfield, -, -⟩ := exists_own C asked (by omega)
    obtain ⟨own, -, hslug, hdrop⟩ := exists_own C position (by omega)
    have hrun : run = feedFields ops (C.session ops) merged' position
        (asking items target draft asked) (own.slug :: C.slugs.drop (position + 1)) := by
      simp only [run, hdrop]
    have hoffered : C.offered ops merged asked position = C.offer ops merged' field own.slug := by
      rw [offered, hfield, hslug, offer_congr (hraw own.slug)]
    cases hoffer : C.offer ops merged' field own.slug with
    | stops =>
      obtain ⟨heditor, -, hnone⟩ := feedFields_stops items target draft position
        (C.slugs.drop (position + 1)) hfield hoffer
      have hnot : ¬TakesLater ops C merged asked position := by
        rintro ⟨later, v, hle, -, hbetween, htakes⟩
        rcases hle.eq_or_lt with rfl | hlt
        · rw [hoffered, hoffer] at htakes
          cases htakes
        · have := hbetween position le_rfl hlt
          rw [hoffered, hoffer] at this
          cases this
      rw [hrun]
      refine ⟨fun h => absurd h hnot, fun _ => ⟨fun f hf i hi => ?_, heditor⟩⟩
      rw [hnone f hf] at hi
      cases hi
    | refuses =>
      obtain ⟨value, hnone, hfilled, htail⟩ := feedFields_refuses items target draft position
        (C.slugs.drop (position + 1)) hfield hoffer
      obtain ⟨htaken, hkept⟩ := @ih (filled merged' own.slug) (position + 1)
        (fun key => (hfilled key).trans (hraw key)) (by omega) (by omega)
      rw [hrun, htail, takesLater_succ_iff (hoffered.trans hoffer)]
      refine ⟨fun hlater hown => htaken hlater fun f hf => hown f (List.mem_cons_of_mem _ hf),
        fun hlater => ⟨fun f hf => ?_, (hkept hlater).2⟩⟩
      rcases List.mem_cons.mp hf with rfl | hf
      · intro i hi
        rw [hnone] at hi
        cases hi
      · exact (hkept hlater).1 f hf
    | takes v =>
      obtain ⟨value, hstored, -, htail⟩ := feedFields_takes items target draft position
        (C.slugs.drop (position + 1)) hfield hoffer
      rw [hrun, htail]
      constructor
      · intro _ hown
        exact absurd (hown _ List.mem_cons_self asked hstored) (by exact hasked.ne)
      · intro hnot
        refine absurd ⟨position, v, le_rfl, by omega, fun between h hbefore => ?_, ?_⟩ hnot
        · omega
        · exact hoffered.trans hoffer

/-- The draft after the fields before a position have taken their own values. -/
def filledDraft (ops : InputOps) (C : EditedCollection) (merged old : Item) : ℕ → Item
  | 0 => old
  | position + 1 =>
    match C.slugs[position]?, C.offered ops merged position position with
    | some slug, .takes v => draftWith slug v (filledDraft ops C merged old position)
    | _, _ => filledDraft ops C merged old position

/-- The session after the fields before a position have taken their own values. -/
def sessionAt (ops : InputOps) (C : EditedCollection) (items : List Item) (i : ℕ) (merged old : Item)
    (position : ℕ) : EditSession :=
  if position < C.fields.length then
    asking items (some i) (filledDraft ops C merged old position) position
  else { editor := ⟨items.set i (filledDraft ops C merged old position), .menu⟩ }

/-- As long as the fields take their own values, these are in the draft. -/
theorem feedFields_aligned (items : List Item) (i : ℕ) (old : Item) (hposition : position ≤ C.fields.length)
    (htake : C.TakeOwn ops merged position) : ∃ merged' fed,
    (∀ key, C.rawValue merged' key = C.rawValue merged key) ∧
      (∀ f ∈ fed, C.storedBy ops f.before f.value = some f.position) ∧
        feedFields ops (C.session ops) merged 0 (sessionAt ops C items i merged old 0) C.slugs =
          EditRun.after fed (feedFields ops (C.session ops) merged' position
            (sessionAt ops C items i merged old position) (C.slugs.drop position)) := by
  induction position with
  | zero => exact ⟨merged, [], fun _ => rfl, fun f hf => (by cases hf), rfl⟩
  | succ position ih =>
    obtain ⟨merged', fed, hraw, hstored, hrun⟩ := ih (by omega) fun k hk => htake k (by omega)
    obtain ⟨field, hfield, hslug, hdrop⟩ := exists_own C position (by omega)
    obtain ⟨v, hv⟩ := htake position (by omega)
    have hoffer : C.offer ops merged' field field.slug = .takes v := by
      rw [offer_congr (hraw field.slug), ← hv, offered, hfield, hslug]
    obtain ⟨value, hown, hfilled, htail⟩ := feedFields_takes items (some i)
      (filledDraft ops C merged old position) position (C.slugs.drop (position + 1)) hfield hoffer
    have hnext : answered C items (some i)
        (draftWith field.slug v (filledDraft ops C merged old position)) position =
          sessionAt ops C items i merged old (position + 1) := by
      rw [sessionAt, filledDraft, hslug, hv]
      rfl
    let asked : EditSession := asking items (some i) (filledDraft ops C merged old position) position
    refine ⟨filled merged' field.slug, fed ++ [⟨asked, position, value⟩],
      fun key => (hfilled key).trans (hraw key), fun f hf => ?_, ?_⟩
    · rcases List.mem_append.mp hf with hf | hf
      · exact hstored f hf
      · rw [List.mem_singleton.mp hf]
        exact hown
    · have hat : sessionAt ops C items i merged old position = asked := if_pos (by omega)
      rw [hrun, hat, hdrop, htail, hnext]
      simp only [EditRun.after, List.append_assoc, asked]

end Runs

end EditedCollection

end PalmEngine.Operator
