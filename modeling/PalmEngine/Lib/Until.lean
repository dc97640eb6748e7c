import Mathlib

/-!
# Steps until an end

A process is stepped until a step ends it with a result. If every step that does not end it keeps
the result that is predicted and goes down in a well-founded order, and the step that ends it has
the predicted result, then the process ends with that result.
-/

namespace PalmEngine.Lib

variable {σ β : Type*}

/-- Take at most so many steps until one ends. A step may also get nowhere. -/
def untilEnd (step : σ → Option (σ ⊕ β)) : ℕ → σ → Option β
  | 0, _ => none
  | n + 1, s =>
    match step s with
    | none => none
    | some (.inl t) => untilEnd step n t
    | some (.inr b) => some b

/-- More steps have the same end. -/
theorem untilEnd_mono {step : σ → Option (σ ⊕ β)} {n m : ℕ} {s : σ} {b : β} (hnm : n ≤ m)
    (h : untilEnd step n s = some b) : untilEnd step m s = some b := by
  induction n generalizing m s with
  | zero => cases h
  | succ n ih =>
    cases m with
    | zero => exact absurd hnm (Nat.not_succ_le_zero n)
    | succ m =>
      simp only [untilEnd] at h ⊢
      split at h
      · cases h
      · exact ih (Nat.le_of_succ_le_succ hnm) h
      · exact h

/-- A process ends with its predicted result. -/
theorem exists_untilEnd {step : σ → Option (σ ⊕ β)} {inv : σ → Prop} {r : σ → σ → Prop}
    {P : σ → β → Prop} (hwf : WellFounded r)
    (hstep : ∀ s, inv s → (∃ t, step s = some (.inl t) ∧ inv t ∧ r t s ∧ ∀ b, P t b → P s b) ∨
      ∃ b, step s = some (.inr b) ∧ P s b) {s : σ} (hs : inv s) :
    ∃ n b, P s b ∧ untilEnd step n s = some b := by
  induction s using hwf.induction with
  | h s ih =>
    rcases hstep s hs with ⟨t, ht, hinv, hr, hpredicts⟩ | ⟨b, hb, hp⟩
    · obtain ⟨n, b, hp, hend⟩ := ih t hr hinv
      exact ⟨n + 1, b, hpredicts b hp, by simp [untilEnd, ht, hend]⟩
    · exact ⟨1, b, hp, by simp [untilEnd, hb]⟩

end PalmEngine.Lib
