import Mathlib

/-!
# Lists framed by a separator

A list is cut in two at its first separator. What stands before the first separator of a list, and
what stands after its last one, is determined by the list.
-/

namespace PalmEngine.Lib

variable {α : Type*}

section Cut

variable [DecidableEq α]

/-- What stands before and after the first separator, if there is one. -/
def cutAt (sep : α) : List α → Option (List α × List α)
  | [] => none
  | a :: rest => if a = sep then some ([], rest) else (cutAt sep rest).map (Prod.map (a :: ·) id)

/-- Cutting finds the only part before a separator that has none itself. -/
theorem cutAt_eq_some_iff {sep : α} {l front back : List α} :
    cutAt sep l = some (front, back) ↔ l = front ++ sep :: back ∧ sep ∉ front := by
  induction l generalizing front with
  | nil => simp [cutAt]
  | cons a rest ih =>
    by_cases ha : a = sep
    · subst ha
      cases front with
      | nil => simp [cutAt]
      | cons b front => simp +contextual [cutAt]
    · cases front with
      | nil => simp [cutAt, ha]
      | cons b front =>
        rw [cutAt, if_neg ha, Option.map_eq_some_iff]
        constructor
        · rintro ⟨⟨front', back'⟩, hcut, hpair⟩
          cases hpair
          obtain ⟨rfl, hfree⟩ := ih.mp hcut
          simpa [Ne.symm ha] using hfree
        · rintro ⟨hlist, hfree⟩
          obtain ⟨rfl, rfl⟩ := List.cons.inj hlist
          exact ⟨(front, back), ih.mpr ⟨rfl, fun hmem => hfree (List.mem_cons_of_mem a hmem)⟩, rfl⟩

/-- Cutting a framed list gives its parts back. -/
theorem cutAt_append {sep : α} {front : List α} (h : sep ∉ front) (back : List α) :
    cutAt sep (front ++ sep :: back) = some (front, back) :=
  cutAt_eq_some_iff.mpr ⟨rfl, h⟩

end Cut

/-- Two framed lists are the same exactly when their parts are, if the first parts have no
separator. -/
theorem framed_inj {sep : α} {front front' back back' : List α} (h : sep ∉ front)
    (h' : sep ∉ front') :
    front ++ sep :: back = front' ++ sep :: back' ↔ front = front' ∧ back = back' := by
  classical
  constructor
  · intro heq
    have hcut := cutAt_append h back
    rw [heq, cutAt_append h' back'] at hcut
    exact ⟨(congrArg Prod.fst (Option.some.inj hcut)).symm,
      (congrArg Prod.snd (Option.some.inj hcut)).symm⟩
  · rintro ⟨rfl, rfl⟩
    rfl

/-- Two framed lists are the same exactly when their parts are, if the last parts have no
separator. -/
theorem framed_inj_of_last {sep : α} {front front' back back' : List α} (h : sep ∉ back)
    (h' : sep ∉ back') :
    front ++ sep :: back = front' ++ sep :: back' ↔ front = front' ∧ back = back' := by
  have hreversed := @framed_inj _ sep _ _ front.reverse front'.reverse
    (mt List.mem_reverse.mp h) (mt List.mem_reverse.mp h')
  rw [← List.reverse_inj]
  simpa [and_comm] using hreversed

end PalmEngine.Lib
