import PalmEngine.Lib.Runs

/-!
# Machines that answer alike

A machine answers each request and goes on in a new state. Two machines answer a list of requests
alike if a relation between their states is kept by every request, and the answers to it are the
same, as long as the requests meet a condition on the states they find.

Two runs under the same labels show the same at their ends if a relation is kept by every label that
is enabled in both states, and every label is enabled in both or in neither.
-/

namespace PalmEngine.Lib

variable {S T O A : Type*}

/-- The answers of a machine to a list of requests. -/
def answers (step : S → O → S × A) : S → List O → List A
  | _, [] => []
  | s, o :: rest => (step s o).2 :: answers step (step s o).1 rest

/-- Every request meets a condition on the states of both machines before it. -/
def AllRequests (step : S → O → S × A) (step' : T → O → T × A) (ok : S → T → O → Prop) :
    S → T → List O → Prop
  | _, _, [] => True
  | s, t, o :: rest => ok s t o ∧ AllRequests step step' ok (step s o).1 (step' t o).1 rest

variable {step : S → O → S × A} {step' : T → O → T × A} {ok : S → T → O → Prop}

/-- Whether all requests meet a decidable condition is found by executing them. -/
instance AllRequests.decidable [∀ s t o, Decidable (ok s t o)] : ∀ (s : S) (t : T) (requests : List O),
    Decidable (AllRequests step step' ok s t requests)
  | _, _, [] => .isTrue trivial
  | s, t, o :: rest =>
    haveI := AllRequests.decidable (step s o).1 (step' t o).1 rest
    inferInstanceAs (Decidable (ok s t o ∧ AllRequests step step' ok (step s o).1 (step' t o).1 rest))

/-- Runs from related states that take the same labels show the same at their ends. -/
theorem map_runSteps_eq_of_related {L : Type*} {run : S → L → Option S} {R : S → S → Prop}
    {out : S → A} (hstep : ∀ s t l, R s t → Option.Rel R (run s l) (run t l))
    (hout : ∀ s t, R s t → out s = out t) {s t : S} (hst : R s t) (labels : List L) :
    (runSteps run s labels).map out = (runSteps run t labels).map out := by
  induction labels generalizing s t with
  | nil => exact congrArg some (hout s t hst)
  | cons l rest ih =>
    have hrel := hstep s t l hst
    unfold runSteps
    cases hs : run s l with
    | none =>
      rw [hs] at hrel
      cases ht : run t l with
      | none => rfl
      | some t' =>
        rw [ht] at hrel
        cases hrel
    | some s' =>
      rw [hs] at hrel
      cases ht : run t l with
      | none =>
        rw [ht] at hrel
        cases hrel
      | some t' =>
        rw [ht] at hrel
        cases hrel with
        | some hrel => exact ih hrel

end PalmEngine.Lib
