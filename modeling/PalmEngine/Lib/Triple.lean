import Mathlib

/-!
# Contracts of programs that may raise

A program reads and changes a state, and returns a value or raises an error; what it changed
before it raised stays changed. A contract says what holds of the state after either ending. The
rules below put the contract of a program together from those of its parts.
-/

namespace PalmEngine.Lib

variable {ε σ α β : Type}

/-- From every state that satisfies `P` the program returns into a state that satisfies `Q`,
or raises an error into one that satisfies `R`. -/
def Ensures (P : σ → Prop) (m : EStateM ε σ α) (Q : α → σ → Prop) (R : ε → σ → Prop) :
    Prop :=
  ∀ s, P s →
    match m s with
    | .ok a t => Q a t
    | .error e t => R e t

/-- Run a program whatever error it raises. -/
def attempt (m : EStateM ε σ α) : EStateM ε σ Unit := fun s =>
  match m s with
  | .ok _ t | .error _ t => .ok () t

/-- The state that a program leaves. -/
def stateAfter (m : EStateM ε σ α) (s : σ) : σ :=
  match m s with
  | .ok _ t | .error _ t => t

/-- The error that a program raises, if any. -/
def raisedBy (m : EStateM ε σ α) (s : σ) : Option ε :=
  match m s with
  | .ok _ _ => none
  | .error e _ => some e

namespace Ensures

variable {P P' : σ → Prop} {Q Q' : α → σ → Prop} {N : β → σ → Prop}
  {R R' : ε → σ → Prop}

/-- Returning a value changes nothing. -/
theorem pure {a : α} (h : ∀ s, P s → Q a s) :
    Ensures P (Pure.pure a : EStateM ε σ α) Q R := h

/-- Raising an error changes nothing. -/
theorem throw {e : ε} (h : ∀ s, P s → R e s) :
    Ensures P (MonadExcept.throw e : EStateM ε σ α) Q R := h

/-- Reading the state changes nothing. -/
theorem get {Q : σ → σ → Prop} (h : ∀ s, P s → Q s s) :
    Ensures P (MonadState.get : EStateM ε σ σ) Q R := h

/-- Changing the state by a function. -/
theorem update {f : σ → σ} {Q : Unit → σ → Prop} (h : ∀ s, P s → Q () (f s)) :
    Ensures P (modify f : EStateM ε σ PUnit) Q R := h

/-- One program after the other. -/
theorem bind {m : EStateM ε σ α} {f : α → EStateM ε σ β} (hm : Ensures P m Q R)
    (hf : ∀ a, Ensures (Q a) (f a) N R) : Ensures P (m >>= f) N R := by
  intro s hs
  have hms := hm s hs
  change match EStateM.bind m f s with
    | .ok a t => N a t
    | .error e t => R e t
  unfold EStateM.bind
  cases hrun : m s with
  | ok a t =>
    rw [hrun] at hms
    exact hf a t hms
  | error e t =>
    rw [hrun] at hms
    exact hms

/-- A weaker contract. -/
theorem imp {m : EStateM ε σ α} (h : Ensures P m Q R) (hpre : ∀ s, P' s → P s)
    (hpost : ∀ a s, Q a s → Q' a s) (hraised : ∀ e s, R e s → R' e s) :
    Ensures P' m Q' R' := by
  intro s hs
  have hms := h s (hpre s hs)
  cases hrun : m s with
  | ok a t =>
    rw [hrun] at hms
    exact hpost a t hms
  | error e t =>
    rw [hrun] at hms
    exact hraised e t hms

/-- Two contracts of one program join. -/
theorem and {m : EStateM ε σ α} (h : Ensures P m Q R) (h' : Ensures P m Q' R') :
    Ensures P m (fun a s => Q a s ∧ Q' a s) fun e s => R e s ∧ R' e s := by
  intro s hs
  have hms := h s hs
  have hms' := h' s hs
  cases hrun : m s with
  | ok a t =>
    rw [hrun] at hms hms'
    exact ⟨hms, hms'⟩
  | error e t =>
    rw [hrun] at hms hms'
    exact ⟨hms, hms'⟩

/-- A contract that holds from each state by itself. -/
theorem of_state {m : EStateM ε σ α} (h : ∀ s, P s → Ensures (· = s) m Q R) :
    Ensures P m Q R := fun s hs => h s hs s rfl

/-- A fact that the state has no part in. -/
theorem of_fact {p : Prop} {m : EStateM ε σ α} (h : p → Ensures P m Q R) :
    Ensures (fun s => p ∧ P s) m Q R := fun s hs => h hs.1 s hs.2

/-- What every call keeps, the calls for all members of a list keep. -/
theorem mapM {inv : σ → Prop} {f : β → EStateM ε σ α} {l : List β}
    (h : ∀ b ∈ l, Ensures inv (f b) (fun _ => inv) R) :
    Ensures inv (l.mapM f) (fun _ => inv) R := by
  induction l with
  | nil => exact pure fun _ => id
  | cons b l ih =>
    rw [List.mapM_cons]
    refine (h b List.mem_cons_self).bind fun a => ?_
    refine (ih fun b' hb' => h b' (List.mem_cons_of_mem b hb')).bind fun as => ?_
    exact pure fun _ => id

/-- A program whose value is not wanted. -/
theorem discard {m : EStateM ε σ α} {Q : σ → Prop} (h : Ensures P m (fun _ => Q) R) :
    Ensures P (Functor.discard m) (fun _ => Q) R := by
  have heq : Functor.discard m = m >>= fun _ => Pure.pure PUnit.unit := rfl
  rw [heq]
  exact h.bind fun _ => pure fun _ => id

/-- What a program keeps however it ends is kept when its errors are ignored. -/
theorem attempt {m : EStateM ε σ α} {Q : σ → Prop}
    (h : Ensures P m (fun _ => Q) fun _ => Q) :
    Ensures P (attempt m) (fun _ => Q) R := by
  intro s hs
  have hms := h s hs
  simp only [Lib.attempt]
  cases hrun : m s with
  | ok a t =>
    rw [hrun] at hms
    exact hms
  | error e t =>
    rw [hrun] at hms
    exact hms

/-- What holds of a state holds of the one that the program leaves, if it does after either
ending. -/
theorem stateAfter {m : EStateM ε σ α} {Q : σ → Prop} {R : ε → σ → Prop}
    (h : Ensures P m (fun _ => Q) R) (hraised : ∀ e t, R e t → Q t) {s : σ}
    (hs : P s) : Q (stateAfter m s) := by
  have hms := h s hs
  unfold Lib.stateAfter
  cases hrun : m s with
  | ok a t =>
    rw [hrun] at hms
    exact hms
  | error e t =>
    rw [hrun] at hms
    exact hraised e t hms

/-- What holds of every error that may be R holds of the one that is. -/
theorem raisedBy {m : EStateM ε σ α} (h : Ensures P m Q R) {s : σ} {e : ε} (hs : P s)
    (he : raisedBy m s = some e) : ∃ t, R e t := by
  have hms := h s hs
  unfold Lib.raisedBy at he
  cases hrun : m s with
  | ok a t =>
    rw [hrun] at he
    cases he
  | error e' t =>
    rw [hrun] at he hms
    cases he
    exact ⟨t, hms⟩

end Ensures

end PalmEngine.Lib
