import PalmEngine.Lib.Dict

/-!
# Values of a scripting language

Records are stored as dictionaries of untyped values. An encoder makes such a dictionary of the
fields of a record; a decoder asks its values for truth, text and number, makes dictionaries and
lists of them, and fails where the language raises. The values are any type with these operations.
-/

namespace PalmEngine.Lib

namespace Dict

variable {K V : Type*} [DecidableEq K]

/-- The value of a key after one was set. -/
theorem get?_set (d : Dict K V) (k i : K) (v : V) :
    (d.set k v).get? i = if i = k then some v else d.get? i := by
  split
  · next h => rw [h, get?_set_self]
  · next h => exact d.get?_set_ne v h

/-- Set all entries of another dictionary. -/
def update (d e : Dict K V) : Dict K V := e.entries.foldl (fun d entry => d.set entry.1 entry.2) d

/-- Entries with new and distinct keys go to the end. -/
theorem entries_foldl_set {entries : List (K × V)} {d : Dict K V}
    (hnodup : (entries.map Prod.fst).Nodup) (hnew : ∀ e ∈ entries, e.1 ∉ d.keys) :
    (entries.foldl (fun d entry => d.set entry.1 entry.2) d).entries = d.entries ++ entries := by
  induction entries generalizing d with
  | nil => simp
  | cons e rest ih =>
    rw [List.map_cons, List.nodup_cons] at hnodup
    have hset := entries_set_of_not_mem (hnew e List.mem_cons_self) e.2
    rw [List.foldl_cons, ih hnodup.2, hset, List.append_assoc, List.singleton_append]
    intro e' he' hmem
    rw [mem_keys_set] at hmem
    rcases hmem with heq | hmem
    · exact hnodup.1 (heq ▸ List.mem_map_of_mem he')
    · exact hnew e' (List.mem_cons_of_mem e he') hmem

/-- A dictionary with other keys goes to the end. -/
theorem entries_update {d e : Dict K V} (h : ∀ k ∈ e.keys, k ∉ d.keys) :
    (d.update e).entries = d.entries ++ e.entries :=
  entries_foldl_set e.nodup fun _ he => h _ (List.mem_map_of_mem he)

/-- Setting all entries of a dictionary makes a copy of it. -/
theorem update_empty (e : Dict K V) : (empty.update e) = e :=
  eq_of_entries (entries_update fun _ _ => List.not_mem_nil)

/-- The values after an update: the other dictionary's come first. -/
theorem get?_update (d e : Dict K V) (k : K) : (d.update e).get? k = (e.get? k).or (d.get? k) := by
  obtain ⟨entries, hnodup⟩ := e
  induction entries generalizing d with
  | nil => rfl
  | cons e rest ih =>
    have hrest := (List.nodup_cons.mp hnodup).2
    have hstep := ih (d.set e.1 e.2) hrest
    rw [update, List.foldl_cons]
    refine hstep.trans ?_
    have hcons : (⟨e :: rest, hnodup⟩ : Dict K V).get? k =
        if e.1 = k then some e.2 else (⟨rest, hrest⟩ : Dict K V).get? k := by
      by_cases hk : e.1 = k <;> simp [get?, hk]
    rw [get?_set, hcons]
    by_cases hk : e.1 = k
    · have hnone : (⟨rest, hrest⟩ : Dict K V).get? k = none := by
        rw [Option.eq_none_iff_forall_ne_some]
        intro v hv
        rw [get?_eq_some_iff] at hv
        exact (List.nodup_cons.mp hnodup).1 (hk ▸ List.mem_map_of_mem hv)
      rw [if_pos hk, if_pos hk.symm, hnone, Option.none_or, Option.some_or]
    · rw [if_neg hk, if_neg (Ne.symm hk)]

/-- The keys after an update. -/
theorem mem_keys_update (d e : Dict K V) (k : K) :
    k ∈ (d.update e).keys ↔ k ∈ d.keys ∨ k ∈ e.keys := by
  simp only [mem_keys_iff, get?_update]
  cases e.get? k <;> simp

/-- Dictionaries with the same keys in the same order and the same values are the same. -/
theorem eq_of_keys {d e : Dict K V} (hkeys : d.keys = e.keys) (hget : ∀ k, d.get? k = e.get? k) :
    d = e := by
  have hentries : ∀ c : Dict K V, c.entries.map (fun e => (e.1, some e.2)) =
      c.keys.map fun k => (k, c.get? k) := by
    intro c
    rw [keys, List.map_map]
    refine List.map_congr_left fun e he => ?_
    exact congrArg (Prod.mk e.1) ((c.get?_eq_some_iff e.1 e.2).mpr he).symm
  refine eq_of_entries (List.map_injective_iff.mpr (fun a b hab => ?_) ((hentries d).trans ?_))
  · obtain ⟨hfst, hsnd⟩ := Prod.mk.inj hab
    exact Prod.ext hfst (Option.some.inj hsnd)
  · rw [hentries e, hkeys]
    exact List.map_congr_left fun k _ => congrArg (Prod.mk k) (hget k)

end Dict

/-- The values of a scripting language and its keys, with what a decoder asks of them. What was made
of a text, a number, a list or a dictionary is so again. -/
structure ScriptValues (K V : Type*) where
  /-- A text as a key. -/
  key : String → K
  /-- The text of a key. -/
  keyText : K → String
  null : V
  text : String → V
  int : ℤ → V
  bool : Bool → V
  list : List V → V
  dict : Dict K V → V
  isNull : V → Bool
  isText : V → Bool
  truthy : V → Bool
  /-- The text that shows a value. -/
  str : V → String
  /-- The integer of a value, unless the language raises. -/
  toInt : V → Option ℤ
  /-- The number with a fraction of a value, unless the language raises. -/
  toFloat : V → Option V
  /-- The members of a value that is iterated, unless the language raises. -/
  iter : V → Option (List V)
  /-- The list that a value is. -/
  asList : V → Option (List V)
  /-- The dictionary that a value is. -/
  asDict : V → Option (Dict K V)
  /-- The dictionary that is made of a value, unless the language raises. -/
  toDict : V → Option (Dict K V)
  keyText_key : ∀ s, keyText (key s) = s
  isNull_null : isNull null = true
  isNull_text : ∀ s, isNull (text s) = false
  isNull_int : ∀ n, isNull (int n) = false
  isNull_dict : ∀ d, isNull (dict d) = false
  isText_list : ∀ l, isText (list l) = false
  truthy_null : truthy null = false
  truthy_text : ∀ s, truthy (text s) = decide (s ≠ "")
  truthy_int : ∀ n, truthy (int n) = decide (n ≠ 0)
  truthy_list : ∀ l, truthy (list l) = !l.isEmpty
  truthy_dict : ∀ d, truthy (dict d) = !d.entries.isEmpty
  str_text : ∀ s, str (text s) = s
  toInt_int : ∀ n, toInt (int n) = some n
  toFloat_toFloat : ∀ v w, toFloat v = some w → toFloat w = some w ∧ isNull w = false
  iter_list : ∀ l, iter (list l) = some l
  asList_null : asList null = none
  asList_list : ∀ l, asList (list l) = some l
  asDict_dict : ∀ d, asDict (dict d) = some d
  toDict_dict : ∀ d, toDict (dict d) = some d

attribute [simp] ScriptValues.keyText_key ScriptValues.isNull_null ScriptValues.isNull_text
  ScriptValues.isNull_int ScriptValues.isNull_dict ScriptValues.isText_list
  ScriptValues.truthy_null ScriptValues.truthy_text ScriptValues.truthy_int
  ScriptValues.truthy_list ScriptValues.truthy_dict ScriptValues.str_text ScriptValues.toInt_int
  ScriptValues.iter_list ScriptValues.asList_null ScriptValues.asList_list
  ScriptValues.asDict_dict ScriptValues.toDict_dict

namespace ScriptValues

variable {K V : Type*} [DecidableEq K] (ops : ScriptValues K V)

omit [DecidableEq K] in
@[simp] theorem key_inj {s t : String} : ops.key s = ops.key t ↔ s = t :=
  (Function.LeftInverse.injective ops.keyText_key).eq_iff

/-- The value of a field, null if it is missing. -/
def field (d : Dict K V) (name : String) : V := (d.get? (ops.key name)).getD ops.null

/-- A dictionary with those of the given fields that are there. -/
def recordSome (fields : List (String × Option V)) : Dict K V :=
  fields.foldl (fun d e => d.setSome (ops.key e.1) e.2) .empty

/-- A dictionary with the given fields. -/
def record (fields : List (String × V)) : Dict K V :=
  ops.recordSome (fields.map (Prod.map id some))

/-- A text, or null for a missing one. -/
def optText (s : Option String) : V := s.elim ops.null ops.text

/-- A dictionary, or null for a missing one. -/
def optDict (d : Option (Dict K V)) : V := d.elim ops.null ops.dict

/-- The text of a value other than null. -/
def strIfPresent (v : V) : Option String := if ops.isNull v then none else some (ops.str v)

/-- The text of a value that counts as true, or another text. -/
def strOr (v : V) (missing : String) : String := if ops.truthy v then ops.str v else missing

/-- The dictionary of a value that counts as true, or the empty one. -/
def dictOrEmpty (v : V) : Option (Dict K V) := if ops.truthy v then ops.toDict v else some .empty

/-- The dictionary of a value that counts as true, none of another one. -/
def dictIfTrue (v : V) : Option (Option (Dict K V)) :=
  if ops.truthy v then (ops.toDict v).map some else some none

/-- The integer of a value that counts as true, or another one. -/
def intOr (v : V) (missing : ℤ) : Option ℤ := if ops.truthy v then ops.toInt v else some missing

/-- The values of a dictionary that is made of fields with distinct names. -/
theorem get?_recordSome {fields : List (String × Option V)} (h : (fields.map Prod.fst).Nodup)
    (name : String) : (ops.recordSome fields).get? (ops.key name) =
      (fields.find? (·.1 = name)).bind Prod.snd := by
  have hfold : ∀ d : Dict K V,
      (fields.foldl (fun d e => d.setSome (ops.key e.1) e.2) d).get? (ops.key name) =
        ((fields.find? (·.1 = name)).bind Prod.snd).or (d.get? (ops.key name)) := by
    induction fields with
    | nil => exact fun d => rfl
    | cons e rest ih =>
      intro d
      rw [List.map_cons, List.nodup_cons] at h
      rw [List.foldl_cons, ih h.2]
      by_cases hname : e.1 = name
      · have hnone : rest.find? (·.1 = name) = none := by
          rw [List.find?_eq_none]
          intro e' he'
          have hne : e'.1 ≠ name := fun heq =>
            h.1 (hname.trans heq.symm ▸ List.mem_map_of_mem he')
          simpa using hne
        rw [hnone, ← hname, Dict.get?_setSome_self]
        simp
      · have hkey : ops.key name ≠ ops.key e.1 := fun heq => hname (ops.key_inj.mp heq).symm
        rw [Dict.get?_setSome_ne _ _ hkey]
        simp [hname]
  exact (hfold .empty).trans (by simp)

/-- The keys of a dictionary that is made of fields are their names. -/
theorem mem_keys_recordSome {fields : List (String × Option V)} {k : K}
    (h : k ∈ (ops.recordSome fields).keys) : ∃ e ∈ fields, k = ops.key e.1 := by
  have hfold : ∀ d : Dict K V,
      k ∈ (fields.foldl (fun d e => d.setSome (ops.key e.1) e.2) d).keys →
        k ∈ d.keys ∨ ∃ e ∈ fields, k = ops.key e.1 := by
    clear h
    induction fields with
    | nil => exact fun d hk => .inl hk
    | cons e rest ih =>
      intro d hk
      rcases ih _ hk with hd | ⟨e', he', heq⟩
      · cases hvalue : e.2 with
        | none => exact .inl (by simpa [hvalue, Dict.setSome] using hd)
        | some v =>
          simp only [hvalue, Dict.setSome, Dict.mem_keys_set] at hd
          rcases hd with heq | hd
          · exact .inr ⟨e, List.mem_cons_self, heq⟩
          · exact .inl hd
      · exact .inr ⟨e', List.mem_cons_of_mem e he', heq⟩
  rcases hfold .empty h with hnil | hfields
  · exact absurd hnil List.not_mem_nil
  · exact hfields

/-- A field of a dictionary that is made of those fields that are there. -/
theorem get?_recordSome_of_mem {fields : List (String × Option V)}
    (h : (fields.map Prod.fst).Nodup) {name : String} {v : Option V} (hmem : (name, v) ∈ fields) :
    (ops.recordSome fields).get? (ops.key name) = v := by
  rw [get?_recordSome _ h]
  cases hfound : fields.find? (·.1 = name) with
  | none =>
    have hnot := List.find?_eq_none.mp hfound (name, v) hmem
    simp at hnot
  | some e =>
    have hname : e.1 = name := by simpa using List.find?_some hfound
    have he : e = (name, v) :=
      List.inj_on_of_nodup_map h (List.mem_of_find?_eq_some hfound) hmem hname
    rw [he, Option.bind_some]

/-- A dictionary that is made of fields has no other ones. -/
theorem field_recordSome_of_not_mem {fields : List (String × Option V)} {name : String}
    (h : name ∉ fields.map Prod.fst) : ops.field (ops.recordSome fields) name = ops.null := by
  have hnone : (ops.recordSome fields).get? (ops.key name) = none := by
    rw [Option.eq_none_iff_forall_ne_some]
    intro v hv
    obtain ⟨e, he, hkey⟩ := ops.mem_keys_recordSome ((Dict.mem_keys_iff _ _).mpr ⟨v, hv⟩)
    exact h (ops.key_inj.mp hkey ▸ List.mem_map_of_mem he)
  simp [field, hnone]

/-- A field of a dictionary that is made of fields with distinct names. -/
theorem get?_record {fields : List (String × V)} (h : (fields.map Prod.fst).Nodup) {name : String}
    {v : V} (hmem : (name, v) ∈ fields) : (ops.record fields).get? (ops.key name) = some v := by
  have hnames : ((fields.map (Prod.map id some)).map Prod.fst).Nodup := by
    rw [List.map_map]
    exact h
  exact ops.get?_recordSome_of_mem hnames (List.mem_map_of_mem hmem)

/-- The keys of a dictionary that is made of fields with distinct names. -/
theorem mem_keys_record {fields : List (String × V)} (h : (fields.map Prod.fst).Nodup) (k : K) :
    k ∈ (ops.record fields).keys ↔ k ∈ (fields.map Prod.fst).map ops.key := by
  constructor
  · intro hk
    obtain ⟨e, he, rfl⟩ := ops.mem_keys_recordSome hk
    obtain ⟨f, hf, rfl⟩ := List.mem_map.mp he
    exact List.mem_map_of_mem (List.mem_map_of_mem hf)
  · intro hk
    obtain ⟨name, hname, rfl⟩ := List.mem_map.mp hk
    obtain ⟨f, hf, rfl⟩ := List.mem_map.mp hname
    exact (Dict.mem_keys_iff _ _).mpr ⟨f.2, ops.get?_record h hf⟩

omit [DecidableEq K] in
@[simp] theorem strIfPresent_null : ops.strIfPresent ops.null = none := by simp [strIfPresent]

omit [DecidableEq K] in
@[simp] theorem strIfPresent_text (s : String) : ops.strIfPresent (ops.text s) = some s := by
  simp [strIfPresent]

omit [DecidableEq K] in
@[simp] theorem strIfPresent_optText (s : Option String) : ops.strIfPresent (ops.optText s) = s := by
  cases s <;> simp [optText]

omit [DecidableEq K] in
@[simp] theorem dictOrEmpty_dict (d : Dict K V) : ops.dictOrEmpty (ops.dict d) = some d := by
  rw [dictOrEmpty, truthy_dict]
  cases h : d.entries with
  | nil =>
    rw [if_neg (by simp)]
    exact congrArg some (Dict.eq_of_entries h).symm
  | cons e rest => simp

omit [DecidableEq K] in
/-- A dictionary that is there comes back unless it is empty. -/
theorem dictIfTrue_optDict (d : Option (Dict K V)) :
    ops.dictIfTrue (ops.optDict d) = some (d.filter fun d => !d.entries.isEmpty) := by
  cases d with
  | none => simp [dictIfTrue, optDict]
  | some d => cases h : d.entries <;> simp [dictIfTrue, optDict, h, Option.filter]

omit [DecidableEq K] in
/-- An integer that falls back to zero is itself. -/
@[simp] theorem intOr_int_zero (n : ℤ) : ops.intOr (ops.int n) 0 = some n := by
  by_cases h : n = 0 <;> simp [intOr, h]

omit [DecidableEq K] in
/-- A text that falls back to the empty one is itself. -/
@[simp] theorem strOr_text_empty (s : String) : ops.strOr (ops.text s) "" = s := by
  by_cases h : s = "" <;> simp [strOr, h]

omit [DecidableEq K] in
/-- A text that is not empty needs no other one. -/
theorem strOr_text {s : String} (h : s ≠ "") (missing : String) :
    ops.strOr (ops.text s) missing = s := by
  simp [strOr, h]

end ScriptValues

end PalmEngine.Lib
