import Mathlib

/-!
# Runs of a partial step function

A component is a function from a state and a label to the next state, undefined where
the label is disabled. A label carries every choice its environment makes, so a list of
labels names one interleaving. The rules below lift a fact about one step to all runs:
an unconditional invariant, an invariant of runs whose steps meet a side condition, and
the equivalence of two side conditions.
-/

namespace PalmEngine.Lib

variable {S L : Type*}

/-- Execute the labels in order, failing at the first disabled one. -/
def runSteps (step : S → L → Option S) : S → List L → Option S
  | s, [] => some s
  | s, l :: rest => (step s l).bind fun t => runSteps step t rest

/-- Every transition taken by the run satisfies `ok`. -/
def AllSteps (step : S → L → Option S) (ok : S → L → S → Prop) : S → List L → Prop
  | _, [] => True
  | s, l :: rest => ∀ t, step s l = some t → ok s l t ∧ AllSteps step ok t rest

variable {step : S → L → Option S}

/-- Whether a run meets a decidable condition is found by executing it. -/
instance AllSteps.decidable {ok : S → L → S → Prop} [∀ s l t, Decidable (ok s l t)] :
    ∀ (s : S) (labels : List L), Decidable (AllSteps step ok s labels)
  | _, [] => .isTrue trivial
  | s, l :: rest =>
    match h : step s l with
    | none => .isTrue fun _ ht => nomatch h.symm.trans ht
    | some t =>
      haveI : Decidable (AllSteps step ok t rest) := AllSteps.decidable t rest
      decidable_of_iff (ok s l t ∧ AllSteps step ok t rest)
        ⟨fun hok _ ht => Option.some.inj (h.symm.trans ht) ▸ hok, fun hok => hok t h⟩

@[simp] theorem runSteps_nil (s : S) : runSteps step s [] = some s := rfl

/-- A run which begins with a given label first takes that label's step. -/
theorem runSteps_cons {s u : S} {l : L} {rest : List L} (h : runSteps step s (l :: rest) = some u) :
    ∃ t, step s l = some t ∧ runSteps step t rest = some u :=
  Option.bind_eq_some_iff.mp h

/-- What holds of every transition of a run holds of those after any position. -/
theorem AllSteps.of_append {ok : S → L → S → Prop} {s u : S} {front back : List L}
    (h : AllSteps step ok s (front ++ back)) (hrun : runSteps step s front = some u) :
    AllSteps step ok u back := by
  induction front generalizing s with
  | nil => exact Option.some.inj hrun ▸ h
  | cons l front ih =>
    obtain ⟨t, ht, hrest⟩ := runSteps_cons hrun
    exact ih (h t ht).2 hrest

/-- What holds of every transition of a run holds of those up to any position. -/
theorem AllSteps.left {ok : S → L → S → Prop} {s : S} {front back : List L}
    (h : AllSteps step ok s (front ++ back)) : AllSteps step ok s front := by
  induction front generalizing s with
  | nil => trivial
  | cons l front ih => exact fun t ht => ⟨(h t ht).1, ih (h t ht).2⟩

/-- A property that every step preserves holds in every state a run reaches. -/
theorem invariant_of_run {P : S → Prop}
    (hstep : ∀ s l t, P s → step s l = some t → P t)
    {s u : S} {labels : List L} (hs : P s) (hrun : runSteps step s labels = some u) : P u := by
  induction labels generalizing s with
  | nil => exact Option.some.inj hrun ▸ hs
  | cons l rest ih =>
    obtain ⟨t, ht, hrest⟩ := runSteps_cons hrun
    exact ih (hstep s l t hs ht) hrest

/-- A property preserved by the steps that meet a condition holds in every state reached by a
run whose steps all meet it. -/
theorem invariant_of_allSteps {P : S → Prop} {ok : S → L → S → Prop}
    (hstep : ∀ s l t, P s → step s l = some t → ok s l t → P t)
    {s u : S} {labels : List L} (hs : P s) (hok : AllSteps step ok s labels)
    (hrun : runSteps step s labels = some u) : P u := by
  induction labels generalizing s with
  | nil => exact Option.some.inj hrun ▸ hs
  | cons l rest ih =>
    obtain ⟨t, ht, hrest⟩ := runSteps_cons hrun
    obtain ⟨hlt, hok⟩ := hok t ht
    exact ih (hstep s l t hs ht hlt) hok hrest

/-- Where the first step that breaks a condition leaves a mark for good, a run without the mark
meets the condition at every step. -/
theorem allSteps_of_unmarked {inv marked : S → Prop} {ok : S → L → S → Prop}
    (hkeep : ∀ s l t, inv s → step s l = some t → ok s l t → inv t)
    (hbreak : ∀ s l t, inv s → step s l = some t → ¬ ok s l t → marked t)
    (hmarked : ∀ s l t, marked s → step s l = some t → marked t)
    {s u : S} {labels : List L} (hs : inv s) (hrun : runSteps step s labels = some u)
    (hu : ¬ marked u) : AllSteps step ok s labels := by
  induction labels generalizing s with
  | nil => trivial
  | cons l rest ih =>
    intro t ht
    obtain ⟨t', ht', hrest⟩ := runSteps_cons hrun
    obtain rfl : t' = t := Option.some.inj (ht'.symm.trans ht)
    have hok : ok s l t' := by
      by_contra hnot
      exact hu (invariant_of_run hmarked (hbreak s l t' hs ht hnot) hrest)
    exact ⟨hok, ih (hkeep s l t' hs ht hok) hrest⟩

/-- A condition strengthens along a run when it does so at every step under an invariant that
the stronger of the two keeps. -/
theorem AllSteps.imp (inv : S → Prop) {ok ok' : S → L → S → Prop}
    (hstep : ∀ s l t, inv s → step s l = some t → ok s l t → ok' s l t ∧ inv t)
    {s : S} {labels : List L} (hs : inv s) (hok : AllSteps step ok s labels) :
    AllSteps step ok' s labels := by
  induction labels generalizing s with
  | nil => trivial
  | cons l rest ih =>
    intro t ht
    obtain ⟨hlt, hrest⟩ := hok t ht
    obtain ⟨hlt', hinv⟩ := hstep s l t hs ht hlt
    exact ⟨hlt', ih hinv hrest⟩

/-- A condition that is weaker at every step holds of the same run. -/
theorem AllSteps.mono {ok ok' : S → L → S → Prop} {s : S} {labels : List L}
    (hok : AllSteps step ok s labels) (h : ∀ s l t, ok s l t → ok' s l t) :
    AllSteps step ok' s labels :=
  hok.imp (fun _ => True) (fun s l t _ _ hlt => ⟨h s l t hlt, trivial⟩) trivial

/-- A condition on the labels alone joins a condition on the steps. -/
theorem AllSteps.and_labels (allowed : L → Prop) {ok : S → L → S → Prop} {s : S} {labels : List L}
    (hok : AllSteps step ok s labels) (hlabels : ∀ l ∈ labels, allowed l) :
    AllSteps step (fun s l t => allowed l ∧ ok s l t) s labels := by
  induction labels generalizing s with
  | nil => trivial
  | cons l rest ih =>
    intro t ht
    obtain ⟨hlt, hrest⟩ := hok t ht
    exact ⟨⟨hlabels l List.mem_cons_self, hlt⟩,
      ih hrest fun k hk => hlabels k (List.mem_cons_of_mem _ hk)⟩

/-- Two conditions on the steps of a run join. -/
theorem AllSteps.and {ok ok' : S → L → S → Prop} {s : S} {labels : List L}
    (hok : AllSteps step ok s labels) (hok' : AllSteps step ok' s labels) :
    AllSteps step (fun s l t => ok s l t ∧ ok' s l t) s labels := by
  induction labels generalizing s with
  | nil => trivial
  | cons l rest ih =>
    intro t ht
    obtain ⟨hlt, hrest⟩ := hok t ht
    obtain ⟨hlt', hrest'⟩ := hok' t ht
    exact ⟨⟨hlt, hlt'⟩, ih hrest hrest'⟩

/-- Two conditions that agree on every step of an invariant region, and that both keep the
region, hold of the same runs. -/
theorem allSteps_congr (inv : S → Prop) {ok ok' : S → L → S → Prop}
    (hinv : ∀ s l t, inv s → step s l = some t → ok s l t → inv t)
    (hiff : ∀ s l t, inv s → step s l = some t → (ok s l t ↔ ok' s l t))
    {s : S} {labels : List L} (hs : inv s) :
    AllSteps step ok s labels ↔ AllSteps step ok' s labels := by
  constructor
  · exact AllSteps.imp inv (fun s l t h ht hok => ⟨(hiff s l t h ht).mp hok, hinv s l t h ht hok⟩) hs
  · refine AllSteps.imp inv (fun s l t h ht hok' => ?_) hs
    have hok := (hiff s l t h ht).mpr hok'
    exact ⟨hok, hinv s l t h ht hok⟩

end PalmEngine.Lib
