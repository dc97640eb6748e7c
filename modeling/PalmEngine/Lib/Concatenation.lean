import Mathlib

/-!
# Lists one after the other

Infinitely many lists, none of them empty, make up one stream, in which each of them begins where
the one before it ends.
-/

namespace PalmEngine.Lib

variable {α : Type}

/-- Where a list begins. -/
def startOf (parts : ℕ → List α) : ℕ → ℕ
  | 0 => 0
  | k + 1 => startOf parts k + (parts k).length

/-- The stream that the lists make up. -/
def concatenated [Inhabited α] (parts : ℕ → List α) (t : ℕ) : α :=
  let k := Nat.findGreatest (fun k => startOf parts k ≤ t) t
  (parts k).getD (t - startOf parts k) default

variable {parts : ℕ → List α}

/-- No list begins where another one does. -/
theorem startOf_strictMono (h : ∀ k, parts k ≠ []) : StrictMono (startOf parts) := by
  refine strictMono_nat_of_lt_succ fun k => ?_
  have hpos : 0 < (parts k).length := List.length_pos_iff.mpr (h k)
  rw [startOf]
  omega

/-- The stream runs through each list. -/
theorem concatenated_startOf_add [Inhabited α] (h : ∀ k, parts k ≠ []) (k m : ℕ)
    (hm : m < (parts k).length) : concatenated parts (startOf parts k + m) = (parts k)[m] := by
  have hmono := startOf_strictMono h
  have hk : Nat.findGreatest (fun k' => startOf parts k' ≤ startOf parts k + m)
      (startOf parts k + m) = k := by
    refine Nat.findGreatest_eq_iff.mpr ⟨?_, fun _ => Nat.le_add_right _ _, fun n hn _ hle => ?_⟩
    · exact (hmono.id_le k).trans (Nat.le_add_right _ _)
    · have hnext : startOf parts (k + 1) ≤ startOf parts n := hmono.monotone hn
      rw [startOf] at hnext
      omega
  unfold concatenated
  simp only [hk, Nat.add_sub_cancel_left]
  exact List.getD_eq_getElem _ _ hm

end PalmEngine.Lib
