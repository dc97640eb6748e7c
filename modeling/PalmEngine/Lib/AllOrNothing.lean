import Mathlib.Logic.Basic

/-!
# Computations that change all or nothing

A computation on a state raises or returns, and the state it leaves is there in both cases. It
changes all or nothing if the state is as it was whenever it raises. This is so for what only reads,
for what reads first and then changes all or nothing, and for what changes all or nothing first and
then does what never raises.
-/

namespace PalmEngine.Lib

variable {ε σ α β : Type}

/-- What a computation returns or raises, and the state it leaves. -/
def outcome (x : ExceptT ε (StateM σ) α) (s : σ) : Except ε α × σ := x.run.run s

/-- A computation leaves the state as it was if it raises, and returns by the condition if not. -/
structure AllOrNothing (x : ExceptT ε (StateM σ) α) (s : σ) (returned : α → σ → Prop) : Prop where
  nothing : ∀ e s', outcome x s = (.error e, s') → s' = s
  all : ∀ a s', outcome x s = (.ok a, s') → returned a s'

/-- A computation returns, by the condition. -/
def Returns (x : ExceptT ε (StateM σ) α) (s : σ) (returned : α → σ → Prop) : Prop :=
  ∃ a s', outcome x s = (.ok a, s') ∧ returned a s'

section outcome

variable {x : ExceptT ε (StateM σ) α} {f : α → ExceptT ε (StateM σ) β} {s s' : σ}

/-- What returns leaves the state as it is. -/
theorem outcome_pure (a : α) (s : σ) :
    outcome (pure a : ExceptT ε (StateM σ) α) s = (.ok a, s) := rfl

/-- What raises leaves the state as it is. -/
theorem outcome_throw (e : ε) (s : σ) :
    outcome (throw e : ExceptT ε (StateM σ) α) s = (.error e, s) := rfl

/-- What is computed without the state leaves it as it is. -/
theorem outcome_lift (y : Except ε α) (s : σ) :
    outcome (liftM y : ExceptT ε (StateM σ) α) s = (y, s) := rfl

/-- Reading the state. -/
theorem outcome_get (s : σ) : outcome (get : ExceptT ε (StateM σ) σ) s = (.ok s, s) := rfl

/-- Replacing the state. -/
theorem outcome_set (s s' : σ) : outcome (set s' : ExceptT ε (StateM σ) PUnit) s = (.ok ⟨⟩, s') := rfl

/-- After a computation that returned comes the next one. -/
theorem outcome_bind_ok {a : α} (h : outcome x s = (.ok a, s')) :
    outcome (x >>= f) s = outcome (f a) s' := by
  unfold outcome at h ⊢
  simp only [ExceptT.run_bind, StateT.run_bind]
  rw [h]
  rfl

/-- After a computation that raised comes nothing. -/
theorem outcome_bind_error {e : ε} (h : outcome x s = (.error e, s')) :
    outcome (x >>= f) s = (.error e, s') := by
  unfold outcome at h ⊢
  simp only [ExceptT.run_bind, StateT.run_bind]
  rw [h]
  rfl

end outcome

variable {x : ExceptT ε (StateM σ) α} {f : α → ExceptT ε (StateM σ) β} {s : σ}
  {returned weaker : α → σ → Prop} {finished : β → σ → Prop}

namespace AllOrNothing

/-- What is returned without a change. -/
theorem pure {a : α} (h : returned a s) :
    AllOrNothing (Pure.pure a : ExceptT ε (StateM σ) α) s returned where
  nothing _ _ h := by cases h
  all b s' hb := by
    cases hb
    exact h

/-- What is raised at once. -/
theorem throw (e : ε) :
    AllOrNothing (MonadExcept.throw e : ExceptT ε (StateM σ) α) s returned where
  nothing e' s' h := by
    cases h
    rfl
  all _ _ h := by cases h

/-- What is computed without the state. -/
theorem lift (y : Except ε α) (h : ∀ a, y = .ok a → returned a s) :
    AllOrNothing (liftM y : ExceptT ε (StateM σ) α) s returned where
  nothing e s' h := by
    cases h
    rfl
  all a s' ha := by
    cases ha
    exact h a rfl

/-- Reading the state. -/
theorem get {read : σ → σ → Prop} (h : read s s) :
    AllOrNothing (MonadState.get : ExceptT ε (StateM σ) σ) s read where
  nothing _ _ h := by cases h
  all _ _ hs := by
    cases hs
    exact h

/-- Replacing the state. -/
theorem set {s' : σ} {replaced : PUnit → σ → Prop} (h : replaced ⟨⟩ s') :
    AllOrNothing (MonadStateOf.set s' : ExceptT ε (StateM σ) PUnit) s replaced where
  nothing _ _ h := by cases h
  all _ _ ht := by
    cases ht
    exact h

/-- What is returned may be said with less. -/
theorem mono (h : AllOrNothing x s returned) (himp : ∀ a s', returned a s' → weaker a s') :
    AllOrNothing x s weaker :=
  ⟨h.nothing, fun a s' ha => himp a s' (h.all a s' ha)⟩

/-- A computation that changes nothing, and then one that changes all or nothing. -/
theorem bind (h : AllOrNothing x s fun a s' => s' = s ∧ AllOrNothing (f a) s finished) :
    AllOrNothing (x >>= f) s finished := by
  rcases hx : outcome x s with ⟨e | a, s'⟩
  · obtain rfl := h.nothing e s' hx
    constructor <;> intro b t ht <;> rw [outcome_bind_error hx] at ht <;> cases ht
    rfl
  · obtain ⟨rfl, hnext⟩ := h.all a s' hx
    exact ⟨fun e t ht => hnext.nothing e t (outcome_bind_ok hx ▸ ht),
      fun b t ht => hnext.all b t (outcome_bind_ok hx ▸ ht)⟩

/-- A computation that changes all or nothing, and then one that never raises. -/
theorem bind_returns (h : AllOrNothing x s fun a s' => Returns (f a) s' finished) :
    AllOrNothing (x >>= f) s finished := by
  rcases hx : outcome x s with ⟨e | a, s'⟩
  · obtain rfl := h.nothing e s' hx
    constructor <;> intro b t ht <;> rw [outcome_bind_error hx] at ht <;> cases ht
    rfl
  · obtain ⟨b, t, hout, hfinished⟩ := h.all a s' hx
    constructor <;> intro b' t' ht <;> rw [outcome_bind_ok hx, hout] at ht <;> cases ht
    exact hfinished

/-- What is returned is passed on by a function. -/
theorem map {g : α → β} (h : AllOrNothing x s fun a s' => finished (g a) s') :
    AllOrNothing (g <$> x) s finished := by
  rw [map_eq_pure_bind]
  exact bind_returns (h.mono fun a s' ha => ⟨g a, s', rfl, ha⟩)

end AllOrNothing

end PalmEngine.Lib
