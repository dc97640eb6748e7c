import Mathlib
import PalmEngine.Context.State

/-!
# Comparing values

Any two values can be tested for equality: numbers are equal if they have one value, whatever their
types are, and dictionaries if they have the same values under the same keys, in whatever order. An
order exists between numbers, between texts and between lists only; two lists are ordered by their
first members that differ, so these must be ordered in turn. Values of other types are finite
floating point numbers here.
-/

namespace PalmEngine.Context

section Compare

variable (floats : ℕ → ℚ)

/-- The number that a value is. -/
def numberOf : Value → Option ℚ
  | .bool b => some (if b then 1 else 0)
  | .int n => some n
  | .other n => some (floats n)
  | _ => none

mutual

/-- Whether two values are equal. -/
def valuesEqual : Value → Value → Bool
  | .null, .null => true
  | .str s, .str t => s = t
  | .list xs, .list ys => itemsEqual xs ys
  | .dict entries, .dict others => entries.length = others.length && entriesFound entries others
  | v, w => (numberOf floats v).any fun p => (numberOf floats w).any fun q => p = q

/-- Whether two lists have equal members. -/
def itemsEqual : List Value → List Value → Bool
  | [], [] => true
  | x :: xs, y :: ys => valuesEqual x y && itemsEqual xs ys
  | _, _ => false

/-- Whether the entries of one dictionary are found in another. -/
def entriesFound : List (String × Value) → List (String × Value) → Bool
  | [], _ => true
  | (k, v) :: rest, others =>
    (match valueOf? k others with
      | some w => valuesEqual v w
      | none => false) && entriesFound rest others

end

mutual

/-- How two values are ordered, if they are. -/
def orderOf : Value → Value → Option Ordering
  | .str s, .str t => some (compare s t)
  | .list xs, .list ys => itemsOrder xs ys
  | v, w => (numberOf floats v).bind fun p => (numberOf floats w).map fun q => compare p q

/-- How two lists are ordered, if they are. -/
def itemsOrder : List Value → List Value → Option Ordering
  | [], [] => some .eq
  | [], _ :: _ => some .lt
  | _ :: _, [] => some .gt
  | x :: xs, y :: ys => if valuesEqual floats x y then itemsOrder xs ys else orderOf x y

end

/-- Compare two values by their order; values without an order cannot be compared. -/
def compareBy (test : Ordering → Bool) (symbol : String) (v w : Value) : Except String Bool :=
  match orderOf floats v w with
  | some order => .ok (test order)
  | none => .error s!"'{symbol}' not supported between instances of these types"

/-- Whether a value counts as true. -/
def isTrue : Value → Bool := truthy fun n => floats n ≠ 0

/-- Two values have an order: both are numbers, both are texts, or both are lists and the first
members in which they differ have an order. -/
inductive Comparable : Value → Value → Prop where
  | numbers {v w : Value} {p q : ℚ} (hv : numberOf floats v = some p)
    (hw : numberOf floats w = some q) : Comparable v w
  | texts (s t : String) : Comparable (.str s) (.str t)
  | lists {xs ys : List Value} (h : ∀ before before' x y after after',
    xs = before ++ x :: after → ys = before' ++ y :: after' →
    List.Forall₂ (fun a b => valuesEqual floats a b) before before' →
    valuesEqual floats x y = false → Comparable x y) : Comparable (.list xs) (.list ys)

end Compare

section Ordered

variable {floats : ℕ → ℚ}

/-- Two lists with equal first members have an order exactly if they have without these. -/
theorem comparable_cons_iff {x y : Value} {xs ys : List Value} (h : valuesEqual floats x y) :
    Comparable floats (.list (x :: xs)) (.list (y :: ys)) ↔
      Comparable floats (.list xs) (.list ys) := by
  constructor
  · intro hcomp
    cases hcomp with
    | numbers hv _ => cases hv
    | lists hfirst =>
      refine .lists fun before before' a b after after' hxs hys hsame hdiffer => ?_
      exact hfirst (x :: before) (y :: before') a b after after' (by rw [hxs, List.cons_append])
        (by rw [hys, List.cons_append]) (.cons h hsame) hdiffer
  · intro hcomp
    cases hcomp with
    | numbers hv _ => cases hv
    | lists hfirst =>
      refine .lists fun before before' a b after after' hxs hys hsame hdiffer => ?_
      cases hsame with
      | nil =>
        obtain ⟨rfl, -⟩ := List.cons.inj hxs
        obtain ⟨rfl, -⟩ := List.cons.inj hys
        rw [h] at hdiffer
        cases hdiffer
      | cons _ hsame =>
        exact hfirst _ _ a b after after' (List.cons.inj hxs).2 (List.cons.inj hys).2 hsame hdiffer

/-- Two lists with different first members have an order exactly if these have. -/
theorem comparable_cons_iff_of_differ {x y : Value} {xs ys : List Value}
    (h : valuesEqual floats x y = false) :
    Comparable floats (.list (x :: xs)) (.list (y :: ys)) ↔ Comparable floats x y := by
  constructor
  · intro hcomp
    cases hcomp with
    | numbers hv _ => cases hv
    | lists hfirst => exact hfirst [] [] x y xs ys rfl rfl .nil h
  · intro hcomp
    refine .lists fun before before' a b after after' hxs hys hsame _ => ?_
    cases hsame with
    | nil =>
      obtain ⟨rfl, -⟩ := List.cons.inj hxs
      obtain ⟨rfl, -⟩ := List.cons.inj hys
      exact hcomp
    | cons hfirst _ =>
      obtain ⟨rfl, -⟩ := List.cons.inj hxs
      obtain ⟨rfl, -⟩ := List.cons.inj hys
      rw [h] at hfirst
      cases hfirst

/-- A list has an order with one that it begins with, or that begins with it. -/
theorem comparable_nil (xs ys : List Value) (h : xs = [] ∨ ys = []) :
    Comparable floats (.list xs) (.list ys) := by
  refine .lists fun before before' a b after after' hxs hys _ _ => ?_
  rcases h with rfl | rfl
  · exact absurd hxs.symm (by simp)
  · exact absurd hys.symm (by simp)

/-- Of two values that are not both texts or both lists both must be numbers. -/
theorem comparable_iff_numbers {v w : Value} (htexts : ∀ s t, v = .str s → w ≠ .str t)
    (hlists : ∀ xs ys, v = .list xs → w ≠ .list ys) :
    Comparable floats v w ↔ ((numberOf floats v).bind fun p => (numberOf floats w).map fun q =>
      compare p q).isSome := by
  constructor
  · intro h
    cases h with
    | numbers hv hw => rw [hv, hw]; rfl
    | texts s t => exact absurd rfl (htexts s t rfl)
    | lists _ => exact absurd rfl (hlists _ _ rfl)
  · intro h
    cases hv : numberOf floats v with
    | none => rw [hv] at h; cases h
    | some p =>
      cases hw : numberOf floats w with
      | none => rw [hv, hw] at h; cases h
      | some q => exact .numbers hv hw

/-- Two values that are not both lists are ordered exactly if they have an order. -/
theorem orderOf_isSome_iff_of_scalar {v w : Value} (hlists : ∀ xs ys, v = .list xs → w ≠ .list ys) :
    (orderOf floats v w).isSome ↔ Comparable floats v w := by
  by_cases htexts : ∃ s t, v = .str s ∧ w = .str t
  · obtain ⟨s, t, rfl, rfl⟩ := htexts
    exact iff_of_true rfl (.texts s t)
  · have hapart : ∀ s t, v = .str s → w ≠ .str t := fun s t hv hw => htexts ⟨s, t, hv, hw⟩
    rw [comparable_iff_numbers hapart hlists,
      orderOf.eq_3 floats v w (fun s t hv hw => hapart s t hv hw) fun xs ys hv hw => hlists xs ys hv hw]

mutual

/-- Two values are ordered exactly if they have an order. -/
theorem orderOf_isSome_iff : ∀ v w : Value, (orderOf floats v w).isSome ↔ Comparable floats v w
  | .list xs, .list ys => itemsOrder_isSome_iff xs ys
  | .list _, .null | .list _, .bool _ | .list _, .int _ | .list _, .str _ | .list _, .dict _
  | .list _, .other _ => orderOf_isSome_iff_of_scalar fun _ _ _ h => by cases h
  | .null, _ | .bool _, _ | .int _, _ | .str _, _ | .dict _, _ | .other _, _ =>
    orderOf_isSome_iff_of_scalar fun _ _ h => by cases h

/-- Two lists are ordered exactly if they have an order. -/
theorem itemsOrder_isSome_iff : ∀ xs ys : List Value,
    (itemsOrder floats xs ys).isSome ↔ Comparable floats (.list xs) (.list ys)
  | [], [] => iff_of_true rfl (comparable_nil _ _ (.inl rfl))
  | [], _ :: _ => iff_of_true rfl (comparable_nil _ _ (.inl rfl))
  | _ :: _, [] => iff_of_true rfl (comparable_nil _ _ (.inr rfl))
  | x :: xs, y :: ys => by
    rw [itemsOrder]
    cases h : valuesEqual floats x y with
    | true => rw [if_pos rfl, itemsOrder_isSome_iff xs ys, comparable_cons_iff h]
    | false => rw [if_neg Bool.false_ne_true, orderOf_isSome_iff x y, comparable_cons_iff_of_differ h]

end

/-- Two values can be compared by their order exactly if they have one. -/
theorem exists_compareBy_iff (test : Ordering → Bool) (symbol : String) (v w : Value) :
    (∃ b, compareBy floats test symbol v w = .ok b) ↔ Comparable floats v w := by
  rw [← orderOf_isSome_iff, compareBy]
  cases orderOf floats v w with
  | none => exact iff_of_false (fun ⟨_, h⟩ => by cases h) (by simp)
  | some order => exact iff_of_true ⟨_, rfl⟩ rfl

end Ordered

end PalmEngine.Context
