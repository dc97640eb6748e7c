import Mathlib

/-!
# Stable sorting by a key

Members with one key keep their order when a list is sorted by the keys, the greatest first. So two
lists are sorted alike exactly if for each key the members that have it are the same, in the same
order.
-/

namespace PalmEngine.Lib

variable {α β : Type*} [LinearOrder β]

/-- A list sorted by a key, the greatest first. -/
def sortDescending (key : α → β) (l : List α) : List α :=
  l.insertionSort fun a b => key b ≤ key a

variable {key : α → β}

/-- A sorted list is sorted. -/
theorem pairwise_sortDescending (key : α → β) (l : List α) :
    (sortDescending key l).Pairwise fun a b => key b ≤ key a :=
  have : Std.Total fun a b : α => key b ≤ key a := ⟨fun a b => le_total (key b) (key a)⟩
  have : IsTrans α fun a b => key b ≤ key a := ⟨fun _ _ _ hab hbc => hbc.trans hab⟩
  List.pairwise_insertionSort _ l

/-- Sorting keeps the members. -/
theorem perm_sortDescending (key : α → β) (l : List α) : (sortDescending key l).Perm l :=
  List.perm_insertionSort _ l

/-- The members with one key keep their order. -/
theorem filter_sortDescending (key : α → β) (l : List α) (k : β) :
    (sortDescending key l).filter (key · = k) = l.filter (key · = k) := by
  have : Std.Total fun a b : α => key b ≤ key a := ⟨fun a b => le_total (key b) (key a)⟩
  have : IsTrans α fun a b => key b ≤ key a := ⟨fun _ _ _ hab hbc => hbc.trans hab⟩
  have hequal : (l.filter (key · = k)).Pairwise fun a b => key b ≤ key a := by
    refine List.pairwise_of_forall_mem_list fun a ha b hb => ?_
    simp only [List.mem_filter, decide_eq_true_eq] at ha hb
    exact (hb.2.trans ha.2.symm).le
  have hsublist := (List.sublist_insertionSort hequal List.filter_sublist).filter (key · = k)
  rw [List.filter_filter] at hsublist
  simp only [Bool.and_self] at hsublist
  refine (hsublist.eq_of_length ?_).symm
  exact (((perm_sortDescending key l).filter _).length_eq).symm

/-- Two sorted lists that have the same members for each key are equal. -/
theorem eq_of_filter_eq {l l' : List α} (hl : l.Pairwise fun a b => key b ≤ key a)
    (hl' : l'.Pairwise fun a b => key b ≤ key a)
    (h : ∀ k, l.filter (key · = k) = l'.filter (key · = k)) : l = l' := by
  induction l generalizing l' with
  | nil =>
    cases l' with
    | nil => rfl
    | cons b l' => simpa using h (key b)
  | cons a l ih =>
    have ha : a ∈ l' := by
      have hmem : a ∈ (a :: l).filter (key · = key a) := by simp
      rw [h] at hmem
      exact (List.mem_filter.mp hmem).1
    cases l' with
    | nil => cases ha
    | cons b l' =>
      have hb : b ∈ a :: l := by
        have hmem : b ∈ (b :: l').filter (key · = key b) := by simp
        rw [← h] at hmem
        exact (List.mem_filter.mp hmem).1
      obtain ⟨hfirst, hrest⟩ := List.pairwise_cons.mp hl
      obtain ⟨hfirst', hrest'⟩ := List.pairwise_cons.mp hl'
      have hkey : key a = key b := by
        refine le_antisymm ?_ ?_
        · rcases List.mem_cons.mp ha with rfl | ha
          · exact le_rfl
          · exact hfirst' a ha
        · rcases List.mem_cons.mp hb with rfl | hb
          · exact le_rfl
          · exact hfirst b hb
      obtain rfl : a = b := by
        have hhead := h (key a)
        rw [List.filter_cons_of_pos (by simp), List.filter_cons_of_pos (by simp [hkey])] at hhead
        exact (List.cons.inj hhead).1
      refine congrArg (a :: ·) (ih hrest hrest' fun k => ?_)
      have hk := h k
      rw [List.filter_cons, List.filter_cons] at hk
      split at hk
      · exact (List.cons.inj hk).2
      · exact hk

/-- Two lists are sorted alike exactly if they have the same members for each key. -/
theorem sortDescending_eq_iff {l l' : List α} :
    sortDescending key l = sortDescending key l' ↔
      ∀ k, l.filter (key · = k) = l'.filter (key · = k) := by
  constructor
  · intro h k
    rw [← filter_sortDescending, h, filter_sortDescending]
  · intro h
    refine eq_of_filter_eq (pairwise_sortDescending key l) (pairwise_sortDescending key l') fun k => ?_
    rw [filter_sortDescending, filter_sortDescending, h]

/-- A list that is sorted stays as it is. -/
theorem sortDescending_of_pairwise {l : List α} (hl : l.Pairwise fun a b => key b ≤ key a) :
    sortDescending key l = l :=
  eq_of_filter_eq (pairwise_sortDescending key l) hl (filter_sortDescending key l)

/-- Lists that are sorted alike are sorted alike when some of the members are left out. -/
theorem sortDescending_filter_eq {l l' : List α} (h : sortDescending key l = sortDescending key l')
    (p : α → Bool) : sortDescending key (l.filter p) = sortDescending key (l'.filter p) := by
  rw [sortDescending_eq_iff] at h ⊢
  intro k
  have hcomm : ∀ m : List α, (m.filter p).filter (key · = k) = (m.filter (key · = k)).filter p :=
    fun m => by rw [List.filter_filter, List.filter_filter]; simp only [Bool.and_comm]
  rw [hcomm, hcomm, h k]

end PalmEngine.Lib
