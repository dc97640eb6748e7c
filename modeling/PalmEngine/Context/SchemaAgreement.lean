import PalmEngine.Context.Schema
import PalmEngine.Lib.Fallible

/-!
# Where the two validators agree

By both validators the names that are required have to be there and the properties have to be
accepted. Only the validation of a value checks the root itself, its type and the values it
allows, takes the required names as they are, and leaves properties alone whose document is none;
only the validation of a state does so for a root without a type, and asks for required names
whatever the type of the root.
-/

namespace PalmEngine.Context

open PalmEngine.Lib

namespace Operators

variable (ops : Operators)

/-- A value has no errors by a document. -/
def Accepts (value : Value) (spec : List (String × Value)) : Prop :=
  ∀ path, ops.validateValue value spec path = .ok []

/-- A key is a text that names an entry. -/
def IsPresent (entries : List (String × Value)) (key : Value) : Prop :=
  ∃ name, key = .str name ∧ (valueOf? name entries).isSome

variable {ops} {value : Value} {spec : List (String × Value)} {path : String}

/-- Of a key that is no text none of the entries is found. -/
theorem not_isPresent {entries : List (String × Value)} {key : Value} (h : key.asStr = none) :
    ¬IsPresent entries key := by
  rintro ⟨name, rfl, -⟩
  cases h

/-- No key is missing if all of them are texts that name entries. -/
theorem missingKeys_eq_nil_iff {entries : List (String × Value)} {keys : List Value} :
    ops.missingKeys entries path keys = .ok [] ↔ ∀ key ∈ keys, IsPresent entries key := by
  induction keys with
  | nil => simp [missingKeys]
  | cons key rest ih =>
    rw [List.forall_mem_cons, ← ih, missingKeys]
    cases hkey : key.asStr with
    | none =>
      refine ⟨fun h => ?_, fun h => absurd h.1 (not_isPresent hkey)⟩
      split at h
      · obtain ⟨missing, -, hcons⟩ := except_bind_eq_ok_iff.mp h
        cases except_pure_eq_ok_iff.mp hcons
      · cases h
    | some name =>
      obtain rfl : key = .str name := by
        cases key <;> cases hkey
        rfl
      have hpresent : IsPresent entries (.str name) ↔ (valueOf? name entries).isSome := by
        constructor
        · rintro ⟨name', hname, h⟩
          cases hname
          exact h
        · exact fun h => ⟨name, rfl, h⟩
      have hhash : ops.canHash (.str name) = true := rfl
      rw [hpresent, if_pos hhash]
      cases hvalue : valueOf? name entries with
      | none =>
        refine ⟨fun h => ?_, fun h => by cases h.1⟩
        obtain ⟨missing, -, hcons⟩ := except_bind_eq_ok_iff.mp h
        simp only [Option.bind_some, hvalue] at hcons
        cases except_pure_eq_ok_iff.mp hcons
      | some found =>
        constructor
        · intro h
          obtain ⟨missing, hmissing, hcons⟩ := except_bind_eq_ok_iff.mp h
          simp only [Option.bind_some, hvalue] at hcons
          obtain rfl := except_pure_eq_ok_iff.mp hcons
          exact ⟨rfl, hmissing⟩
        · rintro ⟨-, hmissing⟩
          exact except_bind_eq_ok_iff.mpr ⟨[], hmissing, by simp [hvalue, except_pure_eq_ok_iff]⟩

/-- What the properties and the required keys of a document ask of a value inside a dictionary, and
its items of the values inside a list. -/
structure InsideAccepted (ops : Operators) (value : Value) (spec : List (String × Value))
    (path : String) : Prop where
  object : expectedName spec = some "object" → ∀ entries, value = .dict entries →
    ∀ properties, propertiesOf spec = some properties →
      (∀ key ∈ requiredOf spec, IsPresent entries key) ∧
        ∀ e ∈ entries, ∀ nested, valueOf? e.1 properties = some (.dict nested) →
          ops.validateValue e.2 nested (path ++ "." ++ e.1) = .ok []
  array : expectedName spec = some "array" → ∀ items, value = .list items →
    ∀ nested, valueOf? "items" spec = some (.dict nested) → ∀ item ∈ items.zipIdx,
      ops.validateValue item.1 nested (path ++ "[" ++ toString item.2 ++ "]") = .ok []

/-- The errors of the values inside a value. -/
def insideErrors (ops : Operators) (value : Value) (spec : List (String × Value))
    (path : String) : Except SchemaFault (List SchemaError) :=
  match expectedName spec, value with
  | some "object", .dict entries =>
    match propertiesOf spec with
    | none => pure []
    | some properties => do
      let missing ← ops.missingKeys entries path (requiredOf spec)
      let nested ← entries.mapM fun e =>
        match valueOf? e.1 properties with
        | some (.dict nested) => ops.validateValue e.2 nested (path ++ "." ++ e.1)
        | _ => pure []
      pure (missing ++ nested.flatten)
  | some "array", .list items =>
    match valueOf? "items" spec with
    | some (.dict nested) => do
      let inside ← items.zipIdx.mapM fun item =>
        ops.validateValue item.1 nested (path ++ "[" ++ toString item.2 ++ "]")
      pure inside.flatten
    | _ => pure []
  | _, _ => pure []

/-- The errors of a value are its own and those of what is inside it. -/
theorem validateValue_eq : ops.validateValue value spec path =
    ops.admitsType value spec >>= fun
    | false => pure [.invalid path (.wrongType ((expectedType spec).getD .null))]
    | true => do
      let problems ← ops.localProblems value spec
      let inside ← insideErrors ops value spec path
      return problems.map (.invalid path) ++ inside := by
  rw [validateValue.eq_def]
  congr 1
  funext admits
  cases admits with
  | false => rfl
  | true =>
    simp only
    congr 1
    funext problems
    congr 1
    unfold insideErrors
    split
    · next entries hname =>
      simp -failIfUnchanged only [hname]
      split
      · next h => simp -failIfUnchanged only [h]
      · next properties h =>
        simp -failIfUnchanged only [h]
        congr 1
        funext missing
        congr 2
        funext e
        split
        · next nested hn => simp only [hn]
        · next hn =>
          split
          · next nested hn' => exact absurd hn' (hn nested)
          · rfl
    · next items hname =>
      simp -failIfUnchanged only [hname]
      split
      · next nested hi => simp only [hi]
      · next hi =>
        split
        · next nested hi' => exact absurd hi' (hi nested)
        · rfl
    · next hobject harray =>
      first
      | rfl
      | split
        · next entries hname => exact absurd rfl (hobject entries hname)
        · next items hname => exact absurd rfl (harray items hname)
        · rfl

/-- Nothing inside a value has errors if its keys are there and its parts have none. -/
theorem insideErrors_eq_nil_iff :
    insideErrors ops value spec path = .ok [] ↔ InsideAccepted ops value spec path := by
  unfold insideErrors
  split
  · next entries hname =>
    have hinside : InsideAccepted ops (.dict entries) spec path ↔
        ∀ properties, propertiesOf spec = some properties →
          (∀ key ∈ requiredOf spec, IsPresent entries key) ∧
            ∀ e ∈ entries, ∀ nested, valueOf? e.1 properties = some (.dict nested) →
              ops.validateValue e.2 nested (path ++ "." ++ e.1) = .ok [] := by
      refine ⟨fun h => h.object hname entries rfl, fun h => ⟨fun _ es hes => ?_, fun _ _ hl => ?_⟩⟩
      · cases hes
        exact h
      · cases hl
    rw [hinside]
    split
    · next hnone =>
      refine ⟨fun _ properties h => ?_, fun _ => rfl⟩
      cases hnone.symm.trans h
    · next properties hsome =>
      have hnested : (∃ r, (entries.mapM fun e =>
          match valueOf? e.1 properties with
          | some (.dict nested) => ops.validateValue e.2 nested (path ++ "." ++ e.1)
          | _ => pure []) = .ok r ∧ r.flatten = []) ↔
          ∀ e ∈ entries, ∀ nested, valueOf? e.1 properties = some (.dict nested) →
            ops.validateValue e.2 nested (path ++ "." ++ e.1) = .ok [] := by
        rw [except_mapM_flatten_nil_iff]
        refine forall₂_congr fun e _ => ?_
        split
        · next nested hn => exact ⟨fun h _ hn' => (by cases hn.symm.trans hn'; exact h), fun h => h _ hn⟩
        · next hn => exact ⟨fun _ nested hn' => absurd hn' (hn nested), fun _ => rfl⟩
      constructor
      · intro h properties' hsome'
        obtain rfl := Option.some.inj (hsome.symm.trans hsome')
        obtain ⟨missing, hmissing, h⟩ := except_bind_eq_ok_iff.mp h
        obtain ⟨r, hr, hcons⟩ := except_bind_eq_ok_iff.mp h
        obtain ⟨rfl, hflat⟩ := List.append_eq_nil_iff.mp (except_pure_eq_ok_iff.mp hcons)
        exact ⟨missingKeys_eq_nil_iff.mp hmissing, hnested.mp ⟨r, hr, hflat⟩⟩
      · intro h
        obtain ⟨hkeys, hparts⟩ := h properties hsome
        obtain ⟨r, hr, hflat⟩ := hnested.mpr hparts
        refine except_bind_eq_ok_iff.mpr ⟨[], missingKeys_eq_nil_iff.mpr hkeys, ?_⟩
        exact except_bind_eq_ok_iff.mpr ⟨r, hr, by simp [hflat, except_pure_eq_ok_iff]⟩
  · next items hname =>
    have hinside : InsideAccepted ops (.list items) spec path ↔
        ∀ nested, valueOf? "items" spec = some (.dict nested) → ∀ item ∈ items.zipIdx,
          ops.validateValue item.1 nested (path ++ "[" ++ toString item.2 ++ "]") = .ok [] := by
      refine ⟨fun h => h.array hname items rfl, fun h => ⟨fun _ _ he => ?_, fun _ its hits => ?_⟩⟩
      · cases he
      · cases hits
        exact h
    rw [hinside]
    split
    · next nested hsome =>
      constructor
      · intro h nested' hsome'
        cases hsome.symm.trans hsome'
        obtain ⟨r, hr, hcons⟩ := except_bind_eq_ok_iff.mp h
        exact except_mapM_flatten_nil_iff.mp ⟨r, hr, except_pure_eq_ok_iff.mp hcons⟩
      · intro h
        obtain ⟨r, hr, hflat⟩ := except_mapM_flatten_nil_iff.mpr (h nested hsome)
        exact except_bind_eq_ok_iff.mpr ⟨r, hr, by simp [hflat, except_pure_eq_ok_iff]⟩
    · next hnone => exact ⟨fun _ nested h => absurd h (hnone nested), fun _ => rfl⟩
  · next hobject harray =>
    refine ⟨fun _ => ⟨fun hname entries he => ?_, fun hname items hi => ?_⟩, fun _ => rfl⟩
    · exact absurd he (hobject entries hname)
    · exact absurd hi (harray items hname)

/-- A value has no errors if its type is right, nothing is wrong with it, and what is inside has
none. -/
theorem validateValue_eq_nil_iff :
    ops.validateValue value spec path = .ok [] ↔
      ops.admitsType value spec = .ok true ∧ ops.localProblems value spec = .ok [] ∧
        InsideAccepted ops value spec path := by
  rw [validateValue_eq, except_bind_eq_ok_iff, ← insideErrors_eq_nil_iff]
  constructor
  · rintro ⟨admits, hadmits, h⟩
    cases admits with
    | false => cases except_pure_eq_ok_iff.mp h
    | true =>
      obtain ⟨problems, hproblems, h⟩ := except_bind_eq_ok_iff.mp h
      obtain ⟨inside, hinside, h⟩ := except_bind_eq_ok_iff.mp h
      obtain ⟨hnil, rfl⟩ := List.append_eq_nil_iff.mp (except_pure_eq_ok_iff.mp h)
      obtain rfl := List.map_eq_nil_iff.mp hnil
      exact ⟨hadmits, hproblems, hinside⟩
  · rintro ⟨hadmits, hproblems, hinside⟩
    refine ⟨true, hadmits, except_bind_eq_ok_iff.mpr ⟨[], hproblems, ?_⟩⟩
    exact except_bind_eq_ok_iff.mpr ⟨[], hinside, rfl⟩

/-- Whether a value has errors does not depend on where it is. -/
theorem accepts_iff : ops.Accepts value spec ↔ ops.validateValue value spec path = .ok [] := by
  refine ⟨fun h => h path, fun h path' => ?_⟩
  induction hsize : sizeOf spec using Nat.strong_induction_on generalizing value spec path path' with
  | _ n ih =>
    obtain ⟨hadmits, hproblems, hinside⟩ := validateValue_eq_nil_iff.mp h
    refine validateValue_eq_nil_iff.mpr ⟨hadmits, hproblems, ?_, ?_⟩
    · intro hname entries hentries properties hproperties
      obtain ⟨hkeys, hparts⟩ := hinside.object hname entries hentries properties hproperties
      refine ⟨hkeys, fun e he nested hn => ?_⟩
      exact ih _ (hsize ▸ sizeOf_property hproperties hn) (hparts e he nested hn) _ rfl
    · intro hname items hitems nested hn item hitem
      exact ih _ (hsize ▸ sizeOf_items hn) (hinside.array hname items hitems nested hn item hitem) _ rfl

end Operators

/-- A mapping that is validated as a state: a dictionary, or a value of another type, which is then
no float. -/
structure StateMapping (ops : Operators) where
  entries : List (String × Value)
  value : Value
  isMapping : value = .dict entries ∨ ∃ n, value = .other n ∧ ops.isFloat n = false

namespace StateMapping

variable {ops : Operators} (m : StateMapping ops) (definition : List (String × Value))

/-- All required names are there, a name that is no text as the text it is shown as. -/
def NamesPresent : Prop :=
  ∀ key ∈ requiredOf definition, (valueOf? (textOf ops.shown key) m.entries).isSome

/-- Each property of the mapping that has an entry in the given ones is accepted by the document
there. -/
def PropertiesMet (properties : List (String × Value)) : Prop :=
  ∀ e ∈ m.entries, ∀ spec, valueOf? e.1 properties = some spec →
    ∃ nested, spec = .dict nested ∧ ops.Accepts e.2 nested

/-- The root admits the mapping as a value: by its type, and by the values it allows if it lists
any. -/
def RootAdmits : Prop :=
  ops.admitsType m.value definition = .ok true ∧ ops.enumProblems m.value definition = []

/-- The root is an object with a dictionary of properties, or with none. -/
def IsObject (properties : List (String × Value)) : Prop :=
  expectedName definition = some "object" ∧ propertiesOf definition = some properties

/-- The names are there and the properties are accepted, although the root does not admit the
mapping or, for an object, a required name is no text. -/
def RefusedByRootOnly : Prop :=
  m.NamesPresent definition ∧ m.PropertiesMet (rootProperties definition) ∧
    (¬m.RootAdmits definition ∨
      ∃ properties, IsObject definition properties ∧ ∃ key ∈ requiredOf definition, key.asStr = none)

/-- The root admits the mapping, although a name is missing or a property is not accepted that
only a state is asked for: for an object a property whose document is none, and otherwise any. -/
def RefusedByPartsOnly : Prop :=
  m.RootAdmits definition ∧
    ((∃ properties, IsObject definition properties ∧
        (∀ key ∈ requiredOf definition, Operators.IsPresent m.entries key) ∧
        (∀ e ∈ m.entries, ∀ nested, valueOf? e.1 properties = some (.dict nested) →
          ops.Accepts e.2 nested) ∧
        ∃ e ∈ m.entries, ∃ spec, valueOf? e.1 properties = some spec ∧ spec.asDict = none) ∨
      (∀ properties, ¬IsObject definition properties) ∧
        ¬(m.NamesPresent definition ∧ m.PropertiesMet (rootProperties definition)))

variable {m definition}

/-- A type given by its name is checked by that name. -/
theorem admitsType_of_name {value : Value} {name : String}
    (h : expectedName definition = some name) :
    ops.admitsType value definition = .ok (ops.checkType value name) := by
  obtain ⟨expected, hexpected, hname⟩ := Option.bind_eq_some_iff.mp h
  obtain rfl : expected = .str name := by
    cases expected <;> cases hname
    rfl
  rw [Operators.admitsType, hexpected]
  rfl

/-- A mapping is no number, text or list, so that nothing else can be wrong with it. -/
theorem localProblems_eq (h : ops.admitsType m.value definition = .ok true) :
    ops.localProblems m.value definition = .ok (ops.enumProblems m.value definition) := by
  have hnumber : ∀ name, expectedName definition = some name → name ≠ "integer" ∧ name ≠ "number" := by
    intro name hname
    have hcheck := Except.ok.inj ((admitsType_of_name hname).symm.trans h)
    constructor
    · rintro rfl
      rcases m.isMapping with hvalue | ⟨n, hvalue, hfloat⟩ <;> rw [hvalue] at hcheck <;> cases hcheck
    · rintro rfl
      rcases m.isMapping with hvalue | ⟨n, hvalue, hfloat⟩
      · rw [hvalue] at hcheck
        cases hcheck
      · rw [hvalue] at hcheck
        cases hfloat.symm.trans hcheck
  unfold Operators.localProblems
  split
  · next hname => exact absurd rfl (hnumber _ hname).1
  · next hname => exact absurd rfl (hnumber _ hname).2
  · next hvalue => rcases m.isMapping with hm | ⟨n, hm, -⟩ <;> cases hm.symm.trans hvalue
  · next hvalue => rcases m.isMapping with hm | ⟨n, hm, -⟩ <;> cases hm.symm.trans hvalue
  · simp [bind, Except.bind, pure, Except.pure]

/-- An object admits only a dictionary. -/
theorem value_eq_dict (h : ops.admitsType m.value definition = .ok true)
    (hname : expectedName definition = some "object") : m.value = .dict m.entries := by
  have hcheck := Except.ok.inj ((admitsType_of_name hname).symm.trans h)
  rcases m.isMapping with hvalue | ⟨n, hvalue, -⟩
  · exact hvalue
  · rw [hvalue] at hcheck
    cases hcheck

/-- The errors of an entry of a state by the specification of its property. -/
private def entryErrors (ops : Operators) (properties : List (String × Value))
    (e : String × Value) : Except SchemaFault (List SchemaError) :=
  match valueOf? e.1 properties with
  | none => pure []
  | some (.dict spec) => ops.validateValue e.2 spec e.1
  | some _ => .error .notMapping

/-- What the validation of a state asks for. -/
theorem validateState_eq_nil_iff : ops.validateState definition m.entries = .ok [] ↔
    m.NamesPresent definition ∧ m.PropertiesMet (rootProperties definition) := by
  have hmissing : (((requiredOf definition).map (textOf ops.shown)).filter
      fun key => (valueOf? key m.entries).isNone) = [] ↔ m.NamesPresent definition := by
    rw [List.filter_eq_nil_iff]
    constructor
    · intro h key hkey
      have hname := h _ (List.mem_map_of_mem hkey)
      rwa [Bool.not_eq_true, Option.isNone_eq_false_iff] at hname
    · intro h name hname
      obtain ⟨key, hkey, rfl⟩ := List.mem_map.mp hname
      rw [Bool.not_eq_true, Option.isNone_eq_false_iff]
      exact h key hkey
  have hnested : (∃ r, m.entries.mapM (entryErrors ops (rootProperties definition)) = .ok r ∧
      r.flatten = []) ↔ m.PropertiesMet (rootProperties definition) := by
    rw [except_mapM_flatten_nil_iff]
    refine forall₂_congr fun e _ => ?_
    unfold entryErrors
    split
    · next hnone => exact ⟨fun _ spec h => (by cases hnone.symm.trans h), fun _ => rfl⟩
    · next spec hsome =>
      constructor
      · intro h spec' h'
        cases hsome.symm.trans h'
        exact ⟨spec, rfl, Operators.accepts_iff.mpr h⟩
      · intro h
        obtain ⟨nested, hspec, haccepts⟩ := h _ hsome
        cases hspec
        exact haccepts _
    · next spec hother hsome =>
      refine ⟨fun h => (by cases h), fun h => ?_⟩
      obtain ⟨nested, rfl, -⟩ := h _ hsome
      exact absurd rfl (hother nested)
  rw [Operators.validateState, ← hmissing, ← hnested]
  constructor
  · intro h
    obtain ⟨r, hr, hcons⟩ := except_bind_eq_ok_iff.mp h
    obtain ⟨hnil, hflat⟩ := List.append_eq_nil_iff.mp (except_pure_eq_ok_iff.mp hcons)
    exact ⟨List.map_eq_nil_iff.mp hnil, r, hr, hflat⟩
  · rintro ⟨hnil, r, hr, hflat⟩
    exact except_bind_eq_ok_iff.mpr ⟨r, hr, by simp [hnil, hflat, except_pure_eq_ok_iff]⟩

/-- What the validation of a value asks of a mapping. -/
theorem validateValue_eq_nil_iff (path : String) :
    ops.validateValue m.value definition path = .ok [] ↔
      m.RootAdmits definition ∧ ∀ properties, IsObject definition properties →
        (∀ key ∈ requiredOf definition, Operators.IsPresent m.entries key) ∧
          ∀ e ∈ m.entries, ∀ nested, valueOf? e.1 properties = some (.dict nested) →
            ops.Accepts e.2 nested := by
  rw [Operators.validateValue_eq_nil_iff]
  constructor
  · rintro ⟨hadmits, hlocal, hinside⟩
    refine ⟨⟨hadmits, Except.ok.inj ((localProblems_eq hadmits).symm.trans hlocal)⟩, ?_⟩
    rintro properties ⟨hname, hproperties⟩
    obtain ⟨hkeys, hparts⟩ := hinside.object hname _ (value_eq_dict hadmits hname) _ hproperties
    exact ⟨hkeys, fun e he nested hn => Operators.accepts_iff.mpr (hparts e he nested hn)⟩
  · rintro ⟨⟨hadmits, henum⟩, hobject⟩
    refine ⟨hadmits, by rw [localProblems_eq hadmits, henum], ?_, ?_⟩
    · intro hname entries hentries properties hproperties
      cases (value_eq_dict hadmits hname).symm.trans hentries
      obtain ⟨hkeys, hparts⟩ := hobject properties ⟨hname, hproperties⟩
      exact ⟨hkeys, fun e he nested hn => hparts e he nested hn _⟩
    · intro _ items hitems
      rcases m.isMapping with hm | ⟨n, hm, -⟩ <;> cases hm.symm.trans hitems

/-- The properties of an object are those by which a state is validated. -/
theorem IsObject.rootProperties {properties : List (String × Value)}
    (h : IsObject definition properties) : rootProperties definition = properties := by
  obtain ⟨hname, hproperties⟩ := h
  obtain ⟨expected, hexpected, htext⟩ := Option.bind_eq_some_iff.mp hname
  obtain rfl : expected = .str "object" := by
    cases expected <;> cases htext
    rfl
  have htype : valueOf? "type" definition = some (.str "object") :=
    (Option.filter_eq_some_iff.mp hexpected).1
  unfold propertiesOf at hproperties
  simp only [Context.rootProperties, htype]
  split at hproperties
  · next hnone =>
    cases hproperties
    rw [hnone]
    rfl
  · next value hsome =>
    rw [hsome, Option.bind_some, hproperties]
    rfl

/-- Keys that are there as they are are there as texts. -/
theorem namesPresent_of_isPresent
    (h : ∀ key ∈ requiredOf definition, Operators.IsPresent m.entries key) :
    m.NamesPresent definition := by
  intro key hkey
  obtain ⟨name, rfl, hname⟩ := h key hkey
  exact hname

/-- A mapping that only the validation of a state accepts. -/
theorem refusedByRootOnly_iff (path : String) : m.RefusedByRootOnly definition ↔
    ops.validateState definition m.entries = .ok [] ∧
      ¬ops.validateValue m.value definition path = .ok [] := by
  rw [validateState_eq_nil_iff, validateValue_eq_nil_iff]
  constructor
  · rintro ⟨hnames, hmet, hroot⟩
    refine ⟨⟨hnames, hmet⟩, ?_⟩
    rintro ⟨hadmits, hobject⟩
    rcases hroot with hroot | ⟨properties, hproperties, key, hkey, htext⟩
    · exact hroot hadmits
    · exact Operators.not_isPresent htext ((hobject properties hproperties).1 key hkey)
  · rintro ⟨⟨hnames, hmet⟩, hvalue⟩
    refine ⟨hnames, hmet, ?_⟩
    by_contra hnot
    push Not at hnot
    obtain ⟨hroot, hkeys⟩ := hnot
    refine hvalue ⟨hroot, fun properties hproperties => ⟨fun key hkey => ?_, ?_⟩⟩
    · cases htext : key.asStr with
      | none => exact absurd htext (hkeys properties hproperties key hkey)
      | some name =>
        obtain rfl : key = .str name := by
          cases key <;> cases htext
          rfl
        exact ⟨name, rfl, hnames _ hkey⟩
    · intro e he nested hn
      rw [hproperties.rootProperties] at hmet
      obtain ⟨nested', heq, haccepts⟩ := hmet e he _ hn
      cases heq
      exact haccepts

/-- A mapping that only the validation of a value accepts. -/
theorem refusedByPartsOnly_iff (path : String) : m.RefusedByPartsOnly definition ↔
    ops.validateValue m.value definition path = .ok [] ∧
      ¬ops.validateState definition m.entries = .ok [] := by
  rw [validateState_eq_nil_iff, validateValue_eq_nil_iff]
  constructor
  · rintro ⟨hroot, ⟨properties, hproperties, hkeys, hparts, e, he, spec, hspec, hother⟩ | hstate⟩
    · refine ⟨⟨hroot, fun properties' h' => ?_⟩, fun hstate => ?_⟩
      · obtain rfl := Option.some.inj (hproperties.2.symm.trans h'.2)
        exact ⟨hkeys, hparts⟩
      · have hmet := hstate.2
        rw [hproperties.rootProperties] at hmet
        obtain ⟨nested, rfl, -⟩ := hmet e he spec hspec
        cases hother
    · exact ⟨⟨hroot, fun properties h => absurd h (hstate.1 properties)⟩, hstate.2⟩
  · rintro ⟨⟨hroot, hobject⟩, hstate⟩
    refine ⟨hroot, ?_⟩
    by_cases hproperties : ∃ properties, IsObject definition properties
    · obtain ⟨properties, hproperties⟩ := hproperties
      obtain ⟨hkeys, hparts⟩ := hobject properties hproperties
      refine .inl ⟨properties, hproperties, hkeys, hparts, ?_⟩
      by_contra hnot
      push Not at hnot
      refine hstate ⟨namesPresent_of_isPresent hkeys, ?_⟩
      rw [hproperties.rootProperties]
      intro e he spec hspec
      cases hdict : spec.asDict with
      | none => exact absurd hdict (hnot e he spec hspec)
      | some nested =>
        obtain rfl : spec = .dict nested := by
          cases spec <;> cases hdict
          rfl
        exact ⟨nested, rfl, hparts e he nested hspec⟩
    · exact .inr ⟨fun properties h => hproperties ⟨properties, h⟩, hstate⟩

/-- The two validators agree on a mapping exactly unless the root alone refuses it, or its names and
properties do that only a state is asked for. -/
theorem validators_agree_iff (definition : List (String × Value)) (m : StateMapping ops)
    (path : String) :
    (ops.validateState definition m.entries = .ok [] ↔
        ops.validateValue m.value definition path = .ok []) ↔
      ¬m.RefusedByRootOnly definition ∧ ¬m.RefusedByPartsOnly definition := by
  rw [refusedByRootOnly_iff path, refusedByPartsOnly_iff path]
  tauto

/-- Operators that compare nothing. -/
def plainOperators : Operators where
  equal _ _ := false
  less _ _ := .error .notComparable
  isFloat _ := false
  isHashable _ := true
  shown _ := ""

/-- A document without a type that requires a key: a state without the key has an error, but the
same dictionary as a value has none. -/
theorem validators_agree_fails : ¬ ∀ (ops : Operators) (definition : List (String × Value))
    (m : StateMapping ops), (ops.validateState definition m.entries = .ok [] ↔
      ops.validateValue m.value definition "value" = .ok []) := by
  intro h
  have hagree := h plainOperators [("required", .list [.str "name"])] ⟨[], .dict [], .inl rfl⟩
  have hvalue : plainOperators.validateValue (.dict []) [("required", .list [.str "name"])] "value" =
      .ok [] := by
    rw [Operators.validateValue_eq]
    rfl
  have hstate := hagree.mpr hvalue
  cases hstate

end StateMapping

end PalmEngine.Context
