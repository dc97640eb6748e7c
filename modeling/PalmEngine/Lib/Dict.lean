import Mathlib

/-!
# Insertion-ordered dictionaries

A dictionary keeps its entries in the order in which their keys were first set. Setting a
present key replaces its value in place; erasing a key and setting it again moves it to the
end. Distinct keys are part of the type.
-/

namespace PalmEngine.Lib

/-- A dictionary with its entries in insertion order. -/
structure Dict (K V : Type*) where
  entries : List (K × V)
  nodup : (entries.map Prod.fst).Nodup

namespace Dict

variable {K V : Type*}

/-- The dictionary without entries. -/
def empty : Dict K V := ⟨[], List.nodup_nil⟩

/-- The keys in insertion order. -/
def keys (d : Dict K V) : List K := d.entries.map Prod.fst

/-- The values in insertion order of their keys. -/
def values (d : Dict K V) : List V := d.entries.map Prod.snd

variable [DecidableEq K]

/-- The value of a key. -/
def get? (d : Dict K V) (k : K) : Option V := (d.entries.find? (·.1 = k)).map Prod.snd

/-- Replacing the value of one key leaves the keys. -/
private theorem map_fst_replace (entries : List (K × V)) (k : K) (v : V) :
    (entries.map fun e => if e.1 = k then (k, v) else e).map Prod.fst = entries.map Prod.fst := by
  rw [List.map_map]
  refine List.map_congr_left fun e _ => ?_
  by_cases he : e.1 = k <;> simp [he]

/-- Set a key: replace the value of a present one, append a new one. -/
def set (d : Dict K V) (k : K) (v : V) : Dict K V :=
  if h : k ∈ d.keys then
    ⟨d.entries.map fun e => if e.1 = k then (k, v) else e, by rw [map_fst_replace]; exact d.nodup⟩
  else
    ⟨d.entries ++ [(k, v)], by
      rw [List.map_append, List.nodup_append]
      refine ⟨d.nodup, List.nodup_singleton _, ?_⟩
      rintro a ha b hb rfl
      have hak : a = k := List.mem_singleton.mp hb
      exact h (hak ▸ ha)⟩

/-- Set a key unless it is present. -/
def setDefault (d : Dict K V) (k : K) (v : V) : Dict K V :=
  if (d.get? k).isSome then d else d.set k v

/-- Set a key when there is a value for it. -/
def setSome (d : Dict K V) (k : K) : Option V → Dict K V
  | some v => d.set k v
  | none => d

/-- Changing the value of one key leaves the keys. -/
private theorem map_fst_modify (entries : List (K × V)) (k : K) (f : V → V) :
    (entries.map fun e => if e.1 = k then (e.1, f e.2) else e).map Prod.fst =
      entries.map Prod.fst := by
  rw [List.map_map]
  refine List.map_congr_left fun e _ => ?_
  by_cases he : e.1 = k <;> simp [he]

/-- Change the value of a key, if it has one. -/
def modify (d : Dict K V) (k : K) (f : V → V) : Dict K V :=
  ⟨d.entries.map fun e => if e.1 = k then (e.1, f e.2) else e, by
    rw [map_fst_modify]
    exact d.nodup⟩

/-- Remove a key. -/
def erase (d : Dict K V) (k : K) : Dict K V :=
  ⟨d.entries.filter (·.1 ≠ k), d.nodup.sublist (List.filter_sublist.map _)⟩

@[simp] theorem get?_empty (k : K) : (empty : Dict K V).get? k = none := rfl

/-- The entries found are the entries held: a key has at most one value. -/
theorem get?_eq_some_iff (d : Dict K V) (k : K) (v : V) :
    d.get? k = some v ↔ (k, v) ∈ d.entries := by
  constructor
  · intro h
    obtain ⟨e, he, rfl⟩ := Option.map_eq_some_iff.mp h
    have hk : e.1 = k := by simpa using List.find?_some he
    exact hk ▸ List.mem_of_find?_eq_some he
  · intro h
    have hfind : (d.entries.find? (·.1 = k)).isSome := by
      rw [List.find?_isSome]
      exact ⟨(k, v), h, by simp⟩
    obtain ⟨e, he⟩ := Option.isSome_iff_exists.mp hfind
    have hk : e.1 = k := by simpa using List.find?_some he
    have heq : e = (k, v) :=
      List.inj_on_of_nodup_map d.nodup (List.mem_of_find?_eq_some he) h hk
    simp [get?, he, heq]

/-- A key has a value exactly when it is among the keys. -/
theorem mem_keys_iff (d : Dict K V) (k : K) : k ∈ d.keys ↔ ∃ v, d.get? k = some v := by
  simp only [get?_eq_some_iff, keys, List.mem_map]
  exact ⟨fun ⟨e, he, hk⟩ => ⟨e.2, hk ▸ he⟩, fun ⟨v, hv⟩ => ⟨(k, v), hv, rfl⟩⟩

/-- The entries after setting a key: its new value, and every entry of another key. -/
theorem mem_entries_set (d : Dict K V) (k : K) (v : V) (e : K × V) :
    e ∈ (d.set k v).entries ↔ e = (k, v) ∨ (e.1 ≠ k ∧ e ∈ d.entries) := by
  unfold set
  split
  · rename_i hk
    obtain ⟨w, hw, hwk⟩ := List.mem_map.mp hk
    simp only [List.mem_map]
    constructor
    · rintro ⟨e', he', rfl⟩
      by_cases hek : e'.1 = k
      · simp [hek]
      · simp [hek, he']
    · rintro (rfl | ⟨hne, he⟩)
      · exact ⟨w, hw, by simp [hwk]⟩
      · exact ⟨e, he, by simp [hne]⟩
  · rename_i hk
    simp only [List.mem_append, List.mem_singleton]
    constructor
    · rintro (he | rfl)
      · refine .inr ⟨fun hek => hk ?_, he⟩
        exact hek ▸ List.mem_map_of_mem he
      · exact .inl rfl
    · rintro (rfl | ⟨-, he⟩)
      · exact .inr rfl
      · exact .inl he

/-- A key that was set has its new value. -/
@[simp] theorem get?_set_self (d : Dict K V) (k : K) (v : V) : (d.set k v).get? k = some v := by
  rw [get?_eq_some_iff, mem_entries_set]
  exact .inl rfl

/-- Setting a key leaves the values of the others. -/
theorem get?_set_ne (d : Dict K V) {i k : K} (v : V) (h : i ≠ k) :
    (d.set k v).get? i = d.get? i := by
  refine Option.ext fun w => ?_
  rw [get?_eq_some_iff, mem_entries_set, get?_eq_some_iff]
  simp [h]

/-- The keys after setting one. -/
theorem mem_keys_set (d : Dict K V) (k i : K) (v : V) :
    i ∈ (d.set k v).keys ↔ i = k ∨ i ∈ d.keys := by
  by_cases h : i = k
  · simp [h, mem_keys_iff]
  · simp [h, mem_keys_iff, d.get?_set_ne v h]

/-- A key set when there is a value for it leaves the values of the others. -/
theorem get?_setSome_ne (d : Dict K V) {i k : K} (v : Option V) (h : i ≠ k) :
    (d.setSome k v).get? i = d.get? i := by
  cases v with
  | none => rfl
  | some v => exact d.get?_set_ne v h

/-- Changing one value leaves the keys. -/
@[simp] theorem keys_modify (d : Dict K V) (k : K) (f : V → V) : (d.modify k f).keys = d.keys :=
  map_fst_modify d.entries k f

/-- The values after changing one. -/
theorem get?_modify (d : Dict K V) (k i : K) (f : V → V) :
    (d.modify k f).get? i = if i = k then (d.get? i).map f else d.get? i := by
  simp only [get?, modify, List.find?_map, Option.map_map]
  have hkey : ((fun e : K × V => decide (e.1 = i)) ∘ fun e => if e.1 = k then (e.1, f e.2) else e) =
      fun e => decide (e.1 = i) := by
    funext e
    by_cases he : e.1 = k <;> simp [he]
  rw [hkey]
  cases hfind : d.entries.find? (fun e => decide (e.1 = i)) with
  | none => simp
  | some e =>
    have hi : e.1 = i := by simpa using List.find?_some hfind
    by_cases hk : i = k <;> simp [hi, hk]

/-- The values after removing a key. -/
theorem get?_erase (d : Dict K V) (k i : K) :
    (d.erase k).get? i = if i = k then none else d.get? i := by
  refine Option.ext fun v => ?_
  rw [get?_eq_some_iff]
  simp only [erase, List.mem_filter, decide_eq_true_eq]
  by_cases hi : i = k
  · simp [hi]
  · simp [hi, get?_eq_some_iff]

/-- The keys after removing one. -/
theorem mem_keys_erase (d : Dict K V) (k i : K) :
    i ∈ (d.erase k).keys ↔ i ≠ k ∧ i ∈ d.keys := by
  by_cases h : i = k <;> simp [h, mem_keys_iff, get?_erase]

/-- The keys after removing several. -/
theorem keys_foldl_erase (removed : List K) (d : Dict K V) :
    (removed.foldl erase d).keys = d.keys.filter (· ∉ removed) := by
  induction removed generalizing d with
  | nil => simp
  | cons k rest ih =>
    have herase : (d.erase k).keys = d.keys.filter (· ≠ k) := by
      simp only [keys, erase, List.filter_map, Function.comp_def]
    rw [List.foldl_cons, ih, herase, List.filter_filter]
    refine List.filter_congr fun i _ => ?_
    by_cases hi : i = k <;> simp [hi]

/-- The values after removing several keys. -/
theorem get?_foldl_erase (removed : List K) (d : Dict K V) (i : K) :
    (removed.foldl erase d).get? i = if i ∈ removed then none else d.get? i := by
  induction removed generalizing d with
  | nil => simp
  | cons k rest ih =>
    rw [List.foldl_cons, ih, get?_erase]
    by_cases hi : i = k <;> simp [hi]

/-- A key set when there is a value for it has that value, or the one it had. -/
theorem get?_setSome_self (d : Dict K V) (k : K) (v : Option V) :
    (d.setSome k v).get? k = v.or (d.get? k) := by
  cases v with
  | none => rfl
  | some v => exact d.get?_set_self k v

omit [DecidableEq K] in
/-- Dictionaries with the same entries in the same order are the same. -/
theorem eq_of_entries {d d' : Dict K V} (h : d.entries = d'.entries) : d = d' := by
  cases d
  cases d'
  cases h
  rfl

/-- A new key goes to the end. -/
theorem entries_set_of_not_mem {d : Dict K V} {k : K} (h : k ∉ d.keys) (v : V) :
    (d.set k v).entries = d.entries ++ [(k, v)] := by
  rw [set, dif_neg h]

/-- Removing a key that was not there before it was set. -/
theorem erase_set_of_not_mem {d : Dict K V} {k : K} (h : k ∉ d.keys) (v : V) :
    (d.set k v).erase k = d := by
  refine eq_of_entries ?_
  have hkeep : d.entries.filter (fun e => decide (e.1 ≠ k)) = d.entries := by
    rw [List.filter_eq_self]
    intro e he
    have hne : e.1 ≠ k := fun hek => h (hek ▸ List.mem_map_of_mem he)
    simpa using hne
  simp only [erase, entries_set_of_not_mem h, List.filter_append, hkeep]
  simp

/-- Removing a key that is not there. -/
theorem erase_of_not_mem {d : Dict K V} {k : K} (h : k ∉ d.keys) : d.erase k = d := by
  refine eq_of_entries (List.filter_eq_self.mpr fun e he => ?_)
  have hne : e.1 ≠ k := fun hek => h (hek ▸ List.mem_map_of_mem he)
  simpa using hne

/-- Removing a key removes what was set there. -/
theorem erase_set (d : Dict K V) (k : K) (v : V) : (d.set k v).erase k = d.erase k := by
  by_cases h : k ∈ d.keys
  · refine eq_of_entries ?_
    simp only [erase, set, dif_pos h, List.filter_map]
    rw [List.filter_congr (q := fun e => decide (e.1 ≠ k)) fun e _ => by
      by_cases he : e.1 = k <;> simp [he]]
    refine (List.map_congr_left fun e he => ?_).trans (List.map_id _)
    have hne : e.1 ≠ k := by simpa using (List.mem_filter.mp he).2
    simp [hne]
  · rw [erase_set_of_not_mem h, erase_of_not_mem h]

/-- The first value with a property is still the first after another one was removed. -/
theorem find?_values_erase {d : Dict K V} {k : K} {p : V → Bool} {v : V}
    (h : d.values.find? p = some v) (hk : d.get? k ≠ some v) :
    (d.erase k).values.find? p = some v := by
  simp only [values, List.find?_map, erase, List.find?_filter] at h ⊢
  obtain ⟨e, he, rfl⟩ := Option.map_eq_some_iff.mp h
  have hne : e.1 ≠ k := by
    rintro rfl
    exact hk ((d.get?_eq_some_iff _ _).mpr (List.mem_of_find?_eq_some he))
  obtain ⟨hp, before, after, hsplit, hbefore⟩ := List.find?_eq_some_iff_append.mp he
  refine Option.map_eq_some_iff.mpr ⟨e, List.find?_eq_some_iff_append.mpr
    ⟨by simpa [hne] using hp, before, after, hsplit, fun a ha => ?_⟩, rfl⟩
  have hnot := hbefore a ha
  simp_all

/-- There is no value with a property after one was removed if there was none before. -/
theorem find?_values_erase_none {d : Dict K V} {k : K} {p : V → Bool}
    (h : d.values.find? p = none) : (d.erase k).values.find? p = none := by
  rw [List.find?_eq_none] at h ⊢
  intro v hv
  obtain ⟨e, he, rfl⟩ := List.mem_map.mp hv
  exact h _ (List.mem_map_of_mem (List.mem_filter.mp he).1)

/-- A value is that of a key. -/
theorem mem_values_iff (d : Dict K V) (v : V) : v ∈ d.values ↔ ∃ k, d.get? k = some v := by
  simp only [values, List.mem_map, get?_eq_some_iff]
  exact ⟨fun ⟨e, he, hv⟩ => ⟨e.1, hv ▸ he⟩, fun ⟨k, h⟩ => ⟨(k, v), h, rfl⟩⟩

/-- Setting a key to the value that it has changes nothing. -/
theorem set_of_get? {d : Dict K V} {k : K} {v : V} (h : d.get? k = some v) : d.set k v = d := by
  have hmem : (k, v) ∈ d.entries := (d.get?_eq_some_iff k v).mp h
  have hkey : k ∈ d.keys := List.mem_map_of_mem hmem
  refine eq_of_entries ?_
  rw [set, dif_pos hkey]
  refine (List.map_congr_left fun e he => ?_).trans (List.map_id _)
  by_cases hek : e.1 = k
  · rw [if_pos hek]
    exact (List.inj_on_of_nodup_map d.nodup he hmem hek).symm
  · exact if_neg hek

/-- Setting a key makes room for at most one more entry. -/
theorem length_entries_set_le (d : Dict K V) (k : K) (v : V) :
    (d.set k v).entries.length ≤ d.entries.length + 1 := by
  unfold set
  split <;> simp

/-- A removed entry makes a dictionary smaller. -/
theorem length_entries_erase_lt {d : Dict K V} {e : K × V} (h : e ∈ d.entries) :
    (d.erase e.1).entries.length < d.entries.length :=
  List.length_filter_lt_length_iff_exists.mpr ⟨e, h, by simp⟩

/-- Removing a key makes no dictionary larger. -/
theorem length_entries_erase_le (d : Dict K V) (k : K) :
    (d.erase k).entries.length ≤ d.entries.length := List.length_filter_le _ _

end Dict

end PalmEngine.Lib
