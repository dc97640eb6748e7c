import Mathlib

/-!
# Computations that may fail

A computation in steps returns a value when each of its steps does. The rules below take apart what
it means for a sequence, and for a list of computations, to return.
-/

namespace PalmEngine.Lib

universe u v

variable {ε : Type u} {α β : Type v}

/-- A sequence returns what its second part returns for the value of the first. -/
theorem except_bind_eq_ok_iff {x : Except ε α} {f : α → Except ε β} {b : β} :
    x >>= f = .ok b ↔ ∃ a, x = .ok a ∧ f a = .ok b := by
  cases x with
  | error e => exact ⟨fun h => (by cases h), fun ⟨_, h, _⟩ => (by cases h)⟩
  | ok a => exact ⟨fun h => ⟨a, rfl, h⟩, fun ⟨_, ha, h⟩ => (by cases ha; exact h)⟩

/-- A sequence fails in its first part, or in its second one for the value of the first. -/
theorem except_bind_eq_error_iff {x : Except ε α} {f : α → Except ε β} {e : ε} :
    x >>= f = .error e ↔ x = .error e ∨ ∃ a, x = .ok a ∧ f a = .error e := by
  cases x with
  | error e' =>
    refine ⟨fun h => .inl (by cases h; rfl), ?_⟩
    rintro (h | ⟨_, h, _⟩) <;> cases h
    rfl
  | ok a =>
    refine ⟨fun h => .inr ⟨a, rfl, h⟩, ?_⟩
    rintro (h | ⟨_, ha, h⟩)
    · cases h
    · cases ha
      exact h

/-- Returning a value returns that value. -/
theorem except_pure_eq_ok_iff {a b : α} : (pure a : Except ε α) = .ok b ↔ a = b :=
  ⟨fun h => Except.ok.inj h, fun h => congrArg Except.ok h⟩

/-- Computations that return on every member of a list return on the list. -/
theorem option_mapM_map {α β γ : Type} {f : β → Option γ} {g : α → β} {h : α → γ} {l : List α}
    (hf : ∀ a ∈ l, f (g a) = some (h a)) : (l.map g).mapM f = some (l.map h) := by
  induction l with
  | nil => rfl
  | cons a rest ih =>
    have hrest := ih fun b hb => hf b (List.mem_cons_of_mem a hb)
    simp [List.mapM_cons, hf a List.mem_cons_self, hrest]

/-- A list of computations returns lists whose elements all have a property exactly when each of them
returns such a list. -/
theorem except_mapM_flatten_all_iff {f : α → Except ε (List β)} {p : β → Bool} {l : List α} :
    (∃ r, l.mapM f = .ok r ∧ r.flatten.all p = true) ↔
      ∀ a ∈ l, ∃ b, f a = .ok b ∧ b.all p = true := by
  induction l with
  | nil => simp [except_pure_eq_ok_iff]
  | cons a l ih =>
    rw [List.forall_mem_cons, ← ih, List.mapM_cons]
    constructor
    · rintro ⟨r, hr, hall⟩
      obtain ⟨b, hb, hrest⟩ := except_bind_eq_ok_iff.mp hr
      obtain ⟨bs, hbs, hcons⟩ := except_bind_eq_ok_iff.mp hrest
      obtain rfl := except_pure_eq_ok_iff.mp hcons
      rw [List.flatten_cons, List.all_append, Bool.and_eq_true] at hall
      exact ⟨⟨b, hb, hall.1⟩, bs, hbs, hall.2⟩
    · rintro ⟨⟨b, hb, hfirst⟩, bs, hbs, hrest⟩
      refine ⟨b :: bs, ?_, by rw [List.flatten_cons, List.all_append, hfirst, hrest]; rfl⟩
      exact except_bind_eq_ok_iff.mpr ⟨b, hb, except_bind_eq_ok_iff.mpr ⟨bs, hbs, rfl⟩⟩

/-- A list of computations returns lists without any element exactly when each of them returns the
empty list. -/
theorem except_mapM_flatten_nil_iff {f : α → Except ε (List β)} {l : List α} :
    (∃ r, l.mapM f = .ok r ∧ r.flatten = []) ↔ ∀ a ∈ l, f a = .ok [] := by
  have hnil : ∀ b : List β, b.all (fun _ => false) = true ↔ b = [] := by
    intro b
    cases b <;> simp
  simpa [hnil] using except_mapM_flatten_all_iff (f := f) (p := fun _ => false) (l := l)

/-- A list of computations fails as one of them does. -/
theorem exists_of_except_mapM_eq_error {f : α → Except ε β} {l : List α} {e : ε}
    (h : l.mapM f = .error e) : ∃ a ∈ l, f a = .error e := by
  induction l with
  | nil => cases h
  | cons a l ih =>
    rw [List.mapM_cons] at h
    rcases except_bind_eq_error_iff.mp h with ha | ⟨b, -, hrest⟩
    · exact ⟨a, List.mem_cons_self, ha⟩
    · rcases except_bind_eq_error_iff.mp hrest with hl | ⟨bs, -, hpure⟩
      · obtain ⟨a', ha', he⟩ := ih hl
        exact ⟨a', List.mem_cons_of_mem a ha', he⟩
      · cases hpure

end PalmEngine.Lib
