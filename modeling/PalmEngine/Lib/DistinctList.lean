import Mathlib

/-!
# Lists without repetitions

A list of distinct members in the order in which they were added. Adding a member again leaves
it in its place.
-/

namespace PalmEngine.Lib

/-- A list without repetitions. -/
structure DistinctList (α : Type*) where
  items : List α
  nodup : items.Nodup
  deriving DecidableEq

namespace DistinctList

variable {α : Type*}

/-- The list without members. -/
def empty : DistinctList α := ⟨[], List.nodup_nil⟩

instance : Membership α (DistinctList α) := ⟨fun l a => a ∈ l.items⟩

@[simp] theorem mem_items (l : DistinctList α) (a : α) : a ∈ l.items ↔ a ∈ l := Iff.rfl

@[simp] theorem not_mem_empty (a : α) : a ∉ (empty : DistinctList α) := List.not_mem_nil

variable [DecidableEq α]

instance (a : α) (l : DistinctList α) : Decidable (a ∈ l) :=
  inferInstanceAs (Decidable (a ∈ l.items))

/-- Add a member at the end unless it is there. -/
def add (l : DistinctList α) (a : α) : DistinctList α :=
  if h : a ∈ l.items then l
  else ⟨l.items ++ [a], l.nodup.append (List.nodup_singleton a) (by simpa using h)⟩

/-- Remove a member. -/
def remove (l : DistinctList α) (a : α) : DistinctList α := ⟨l.items.erase a, l.nodup.erase a⟩

@[simp] theorem mem_add (l : DistinctList α) (a b : α) : b ∈ l.add a ↔ b = a ∨ b ∈ l := by
  unfold add
  split
  · rename_i h
    exact ⟨.inr, fun hb => hb.elim (fun heq => heq ▸ h) id⟩
  · change b ∈ l.items ++ [a] ↔ _
    simp [or_comm]

@[simp] theorem mem_remove (l : DistinctList α) (a b : α) : b ∈ l.remove a ↔ b ≠ a ∧ b ∈ l :=
  l.nodup.mem_erase_iff

/-- Removing a member keeps the others. -/
theorem items_remove (l : DistinctList α) (a : α) :
    (l.remove a).items = l.items.filter (· != a) := l.nodup.erase_eq_filter a

/-- Removing what is not there changes nothing. -/
theorem remove_of_not_mem {l : DistinctList α} {a : α} (h : a ∉ l) : l.remove a = l := by
  cases l with
  | mk items nodup => simp [remove, List.erase_of_not_mem h]

end DistinctList

/-- A member among the first ones that is kept stays among the first ones. -/
theorem mem_take_filter {α : Type*} {p : α → Bool} {l : List α} {a : α} {n : ℕ}
    (h : a ∈ l.take n) (ha : p a = true) : a ∈ (l.filter p).take n := by
  induction l generalizing n with
  | nil => simp at h
  | cons b l ih =>
    cases n with
    | zero => simp at h
    | succ n =>
      rw [List.take_succ_cons, List.mem_cons] at h
      by_cases hb : p b = true
      · rw [List.filter_cons_of_pos hb, List.take_succ_cons, List.mem_cons]
        exact h.imp_right ih
      · rw [List.filter_cons_of_neg hb]
        rcases h with rfl | h
        · exact absurd ha hb
        · exact (List.take_subset_take_left _ n.le_succ) (ih h)

end PalmEngine.Lib
