import PalmEngine.BehaviorTree.Node

/-!
# Running a tree again

A tick that returns success or failure leaves every node outside the parallel nodes as `reset()`
would: cursors and counters are back at zero on every way out. A parallel node keeps the results of
its children, so it is run again only after a reset. A tree without parallel nodes is run again by
ticking it further, and so is the child of a repeat or retry node.
-/

namespace PalmEngine.BehaviorTree

section Loops

variable {n : ℕ} {σ S : Type} {τ : Fin n → Type}

/-- The cursor is at the start and all children are at rest. -/
def Cursor.Rested (rested : (i : Fin n) → τ i → Prop) (c : Cursor ((i : Fin n) → τ i)) : Prop :=
  c.currentIndex = 0 ∧ ∀ i, rested i (c.children i)

/-- Only the child at the cursor is in the middle of a run. -/
structure Cursor.Ready (rested ready : (i : Fin n) → τ i → Prop)
    (c : Cursor ((i : Fin n) → τ i)) : Prop where
  index_le : c.currentIndex ≤ n
  rested : ∀ i : Fin n, i.val ≠ c.currentIndex → rested i (c.children i)
  ready : ∀ i, ready i (c.children i)

/-- Nothing is counted and the child is at rest. -/
def Counter.Rested (rested : σ → Prop) (c : Counter σ) : Prop := c.count = 0 ∧ rested c.child

/-- The tick keeps what may be held, and leaves the node at rest when it does not pause. -/
def Settles (rested ready : σ → Prop) (tickChild : σ → S → Option (Ticked σ S)) : Prop :=
  ∀ held s out, ready held → tickChild held s = some out →
    ready out.held ∧ (isYieldingStatus out.status = false → rested out.held)

/-- A loop over the children settles, if the ticks of the children do. -/
theorem cursorLoop_settles {rested ready : (i : Fin n) → τ i → Prop}
    {tickChild : (i : Fin n) → τ i → S → Option (Ticked (τ i) S)} {stop done : PatternStatus}
    (hchild : ∀ i, Settles (rested i) (ready i) (tickChild i))
    (hready : ∀ i held, rested i held → ready i held) :
    Settles (Cursor.Rested rested) (Cursor.Ready rested ready)
      fun c => cursorLoop tickChild stop done (n - c.currentIndex) c := by
  have hend (children : (i : Fin n) → τ i) (status : PatternStatus) (s : S)
      (out : Ticked (Cursor ((i : Fin n) → τ i)) S) (h : ∀ i, rested i (children i))
      (hout : some ⟨status, ⟨0, children⟩, s⟩ = some out) :
      Cursor.Ready rested ready out.held ∧
        (isYieldingStatus out.status = false → Cursor.Rested rested out.held) := by
    obtain rfl := Option.some.inj hout
    exact ⟨⟨Nat.zero_le n, fun i _ => h i, fun i => hready i _ (h i)⟩, fun _ => ⟨rfl, h⟩⟩
  intro c s out hc hout
  have hrounds : n ≤ c.currentIndex + (n - c.currentIndex) := by omega
  dsimp only at hout
  generalize n - c.currentIndex = rounds at hout hrounds
  induction rounds generalizing c s with
  | zero => exact hend c.children done s out (fun i => hc.rested i (i.isLt.trans_le hrounds).ne) hout
  | succ rounds ih =>
    unfold cursorLoop at hout
    split at hout
    · rename_i hindex
      obtain ⟨res, hres, hout⟩ := Option.bind_eq_some_iff.mp hout
      obtain ⟨hreadyRes, hrestedRes⟩ := hchild _ _ _ _ (hc.ready _) hres
      have hready' : ∀ i, ready i (Function.update c.children ⟨c.currentIndex, hindex⟩ res.held i) :=
        Function.forall_update_iff _ _ |>.mpr ⟨hreadyRes, fun i _ => hc.ready i⟩
      have hrested' (i : Fin n) (hi : i.val ≠ c.currentIndex) :
          rested i (Function.update c.children ⟨c.currentIndex, hindex⟩ res.held i) := by
        rw [Function.update_of_ne (fun heq => hi (congrArg Fin.val heq))]
        exact hc.rested i hi
      dsimp only at hout
      split at hout
      · rename_i hyields
        obtain rfl := Option.some.inj hout
        exact ⟨⟨hindex.le, hrested', hready'⟩,
          fun hterminal => absurd (hterminal.symm.trans hyields) (by decide)⟩
      · rename_i hterminal
        have hall : ∀ i, rested i (Function.update c.children ⟨c.currentIndex, hindex⟩ res.held i) :=
          Function.forall_update_iff _ _ |>.mpr ⟨hrestedRes (Bool.eq_false_iff.mpr hterminal),
            fun i hi => hc.rested i fun heq => hi (Fin.ext heq)⟩
        split at hout
        · exact hend _ _ _ out hall hout
        · refine ih ⟨c.currentIndex + 1, _⟩ _ ⟨hindex, fun i _ => hall i, hready'⟩ hout ?_
          simp only
          omega
    · rename_i hindex
      exact hend c.children done s out
        (fun i => hc.rested i (i.isLt.trans_le (not_lt.mp hindex)).ne) hout

/-- A node with a cursor settles, if the ticks of its children do. -/
theorem cursorTick_settles {rested ready : (i : Fin n) → τ i → Prop}
    {tickChild : (i : Fin n) → τ i → S → Option (Ticked (τ i) S)} {stop done : PatternStatus}
    (hchild : ∀ i, Settles (rested i) (ready i) (tickChild i))
    (hready : ∀ i held, rested i held → ready i held) :
    Settles (Cursor.Rested rested) (Cursor.Ready rested ready)
      (cursorTick tickChild stop done) := by
  intro c s out hc hout
  unfold cursorTick at hout
  split at hout
  · rename_i hn
    obtain rfl := Option.some.inj hout
    subst hn
    exact ⟨hc, fun _ => ⟨Nat.le_zero.mp hc.index_le, fun i => i.elim0⟩⟩
  · exact cursorLoop_settles hchild hready c s out hc hout

/-- No bound is reached at zero. -/
theorem reached_zero (times : Option ℕ+) : reached times 0 = false := by
  cases times with
  | none => rfl
  | some n => simp [reached]

/-- Repeating settles, if the tick of the child does. -/
theorem repeatLoop_settles {rested ready : σ → Prop} {tickChild : σ → S → Option (Ticked σ S)}
    {times : Option ℕ+} {rounds : Counter σ → ℕ} (hchild : Settles rested ready tickChild) :
    Settles (Counter.Rested rested)
      (fun c => reached times c.count = false ∧ ready c.child)
      fun c => repeatLoop tickChild times (rounds c) c := by
  intro c s out hc hout
  dsimp only at hout
  generalize rounds c = rounds at hout
  induction rounds generalizing c s with
  | zero => cases hout
  | succ rounds ih =>
    unfold repeatLoop at hout
    split at hout
    · rename_i hdone
      exact absurd (hc.1.symm.trans hdone) (by decide)
    · obtain ⟨res, hres, hout⟩ := Option.bind_eq_some_iff.mp hout
      obtain ⟨hreadyRes, hrestedRes⟩ := hchild _ _ _ hc.2 hres
      split at hout
      · rename_i hyields
        obtain rfl := Option.some.inj hout
        exact ⟨⟨hc.1, hreadyRes⟩,
          fun hterminal => absurd (hterminal.symm.trans hyields) (by decide)⟩
      · rename_i hterminal
        have hrested := hrestedRes (Bool.eq_false_iff.mpr hterminal)
        split at hout
        · obtain rfl := Option.some.inj hout
          exact ⟨⟨reached_zero times, hreadyRes⟩, fun _ => ⟨rfl, hrested⟩⟩
        · split at hout
          · obtain rfl := Option.some.inj hout
            exact ⟨⟨reached_zero times, hreadyRes⟩, fun _ => ⟨rfl, hrested⟩⟩
          · rename_i hmore
            exact ih _ _ ⟨Bool.eq_false_iff.mpr hmore, hreadyRes⟩ hout

/-- Retrying settles, if the tick of the child does. -/
theorem retryLoop_settles {rested ready : σ → Prop} {tickChild : σ → S → Option (Ticked σ S)}
    {maxAttempts : ℕ+} {rounds : Counter σ → ℕ} (hchild : Settles rested ready tickChild) :
    Settles (Counter.Rested rested) (fun c => ready c.child)
      fun c => retryLoop tickChild maxAttempts (rounds c) c := by
  intro c s out hc hout
  dsimp only at hout
  generalize rounds c = rounds at hout
  induction rounds generalizing c s with
  | zero => cases hout
  | succ rounds ih =>
    unfold retryLoop at hout
    obtain ⟨res, hres, hout⟩ := Option.bind_eq_some_iff.mp hout
    obtain ⟨hreadyRes, hrestedRes⟩ := hchild _ _ _ hc hres
    split at hout
    · rename_i hyields
      obtain rfl := Option.some.inj hout
      exact ⟨hreadyRes, fun hterminal => absurd (hterminal.symm.trans hyields) (by decide)⟩
    · rename_i hterminal
      have hrested := hrestedRes (Bool.eq_false_iff.mpr hterminal)
      split at hout
      · obtain rfl := Option.some.inj hout
        exact ⟨hreadyRes, fun _ => ⟨rfl, hrested⟩⟩
      · split at hout
        · obtain rfl := Option.some.inj hout
          exact ⟨hreadyRes, fun _ => ⟨rfl, hrested⟩⟩
        · exact ih _ _ hreadyRes hout

/-- A child that has a result keeps one and is left as it is, and a parallel node that has gone
over a child and does not pause has a result. -/
theorem parallelLoop_results {tickChild : (i : Fin n) → τ i → S → Option (Ticked (τ i) S)}
    {policy : ParallelPolicy} {indices : List (Fin n)} {anyWaiting anyRunning : Bool}
    {p : Results n ((i : Fin n) → τ i)} {s : S} {out : Ticked (Results n ((i : Fin n) → τ i)) S}
    (hout : parallelLoop tickChild policy indices anyWaiting anyRunning p s = some out) :
    (∀ i, (p.childResults i).isSome →
        (out.held.childResults i).isSome ∧ out.held.children i = p.children i) ∧
      (isYieldingStatus out.status = false →
        indices ≠ [] ∨ anyWaiting ∨ anyRunning ∨ (∃ i, (p.childResults i).isSome) →
          ∃ i, (out.held.childResults i).isSome) := by
  induction indices generalizing anyWaiting anyRunning p s with
  | nil =>
    obtain rfl := Option.some.inj hout
    refine ⟨fun i hi => ⟨hi, rfl⟩, fun hterminal hany => ?_⟩
    cases anyWaiting with
    | true => cases hterminal
    | false =>
      cases anyRunning with
      | true => cases hterminal
      | false => simpa using hany
  | cons i rest ih =>
    unfold parallelLoop at hout
    split at hout
    · rename_i hsome
      obtain ⟨hkept, hresult⟩ := ih hout
      exact ⟨hkept, fun hterminal _ => hresult hterminal (.inr (.inr (.inr ⟨i, hsome⟩)))⟩
    · rename_i hnone
      obtain ⟨res, hres, hout⟩ := Option.bind_eq_some_iff.mp hout
      have hchild (j : Fin n) (hj : (p.childResults j).isSome) :
          Function.update p.children i res.held j = p.children j := by
        have hne : j ≠ i := fun heq => hnone (heq ▸ hj)
        rw [Function.update_of_ne hne]
      have hupdate (j : Fin n) (hj : (p.childResults j).isSome) :
          (Function.update p.childResults i (some res.status) j).isSome := by
        have hne : j ≠ i := fun heq => hnone (heq ▸ hj)
        rwa [Function.update_of_ne hne]
      have hself : (Function.update p.childResults i (some res.status) i).isSome := by
        rw [Function.update_self]
        rfl
      dsimp only at hout
      split at hout
      · obtain ⟨hkept, hresult⟩ := ih hout
        exact ⟨fun j hj => ⟨(hkept j hj).1, (hkept j hj).2.trans (hchild j hj)⟩,
          fun hterminal _ => hresult hterminal (.inr (.inl rfl))⟩
      · split at hout
        · obtain ⟨hkept, hresult⟩ := ih hout
          exact ⟨fun j hj => ⟨(hkept j hj).1, (hkept j hj).2.trans (hchild j hj)⟩,
            fun hterminal _ => hresult hterminal (.inr (.inr (.inl rfl)))⟩
        · split at hout
          · obtain rfl := Option.some.inj hout
            exact ⟨fun j hj => ⟨rfl, hchild j hj⟩, fun _ _ => ⟨i, rfl⟩⟩
          · split at hout
            · obtain rfl := Option.some.inj hout
              exact ⟨fun j hj => ⟨hupdate j hj, hchild j hj⟩, fun _ _ => ⟨i, hself⟩⟩
            · obtain ⟨hkept, hresult⟩ := ih hout
              exact ⟨fun j hj => ⟨(hkept j (hupdate j hj)).1,
                  (hkept j (hupdate j hj)).2.trans (hchild j hj)⟩,
                fun hterminal _ => hresult hterminal (.inr (.inr (.inr ⟨i, hself⟩)))⟩

/-- A parallel node that does not pause has a result, unless it has no children and nothing to
keep. -/
theorem parallelTick_rested {tickChild : (i : Fin n) → τ i → S → Option (Ticked (τ i) S)}
    {policy : ParallelPolicy} {p p' : Results n ((i : Fin n) → τ i)} {s : S}
    {out : Ticked (Results n ((i : Fin n) → τ i)) S}
    (hout : parallelTick tickChild policy p s = some out) :
    isYieldingStatus out.status = false →
      out.held = p' ∨ ∃ i, (out.held.childResults i).isSome := by
  intro hterminal
  unfold parallelTick at hout
  split at hout
  · rename_i hn
    obtain rfl := Option.some.inj hout
    subst hn
    refine .inl ?_
    obtain ⟨childResults, held⟩ := p
    exact congrArg₂ Results.mk (funext fun i => i.elim0) (funext fun i => i.elim0)
  · rename_i hn
    have hne : List.finRange n ≠ [] := fun h => hn (List.finRange_eq_nil_iff.mp h)
    exact .inr ((parallelLoop_results hout).2 hterminal (.inl hne))

/-- A child that has a result is not ticked: what its tick would do has no part in what the
parallel node does. -/
theorem parallelLoop_congr {tickChild tickChild' : (i : Fin n) → τ i → S → Option (Ticked (τ i) S)}
    {policy : ParallelPolicy} {indices : List (Fin n)} {anyWaiting anyRunning : Bool}
    {p : Results n ((i : Fin n) → τ i)} {s : S}
    (h : ∀ i, p.childResults i = none → tickChild i = tickChild' i) :
    parallelLoop tickChild policy indices anyWaiting anyRunning p s =
      parallelLoop tickChild' policy indices anyWaiting anyRunning p s := by
  induction indices generalizing anyWaiting anyRunning p s with
  | nil => rfl
  | cons i rest ih =>
    simp only [parallelLoop]
    split
    · exact ih h
    · rename_i hnone
      rw [h i (Option.not_isSome_iff_eq_none.mp hnone)]
      refine congrArg _ (funext fun res => ?_)
      have hupdate (j : Fin n)
          (hj : Function.update p.childResults i (some res.status) j = none) :
          tickChild j = tickChild' j := by
        by_cases heq : j = i
        · rw [heq, Function.update_self] at hj
          cases hj
        · exact h j (by rwa [Function.update_of_ne heq] at hj)
      split
      · exact ih h
      · split
        · exact ih h
        · split
          · rfl
          · split
            · rfl
            · exact ih hupdate

/-- What the ticks of the children keep, a loop over the children keeps. -/
theorem cursorLoop_keeps {P : (i : Fin n) → τ i → Prop}
    {tickChild : (i : Fin n) → τ i → S → Option (Ticked (τ i) S)} {stop done : PatternStatus}
    (hchild : ∀ i held s out, P i held → tickChild i held s = some out → P i out.held) {rounds : ℕ}
    {c : Cursor ((i : Fin n) → τ i)} {s : S} {out : Ticked (Cursor ((i : Fin n) → τ i)) S}
    (hc : ∀ i, P i (c.children i)) (hout : cursorLoop tickChild stop done rounds c s = some out) :
    ∀ i, P i (out.held.children i) := by
  induction rounds generalizing c s with
  | zero =>
    obtain rfl := Option.some.inj hout
    exact hc
  | succ rounds ih =>
    unfold cursorLoop at hout
    split at hout
    · obtain ⟨res, hres, hout⟩ := Option.bind_eq_some_iff.mp hout
      have hupdate : ∀ i, P i (Function.update c.children _ res.held i) :=
        Function.forall_update_iff _ _ |>.mpr ⟨hchild _ _ _ _ (hc _) hres, fun i _ => hc i⟩
      dsimp only at hout
      split at hout
      · obtain rfl := Option.some.inj hout
        exact hupdate
      · split at hout
        · obtain rfl := Option.some.inj hout
          exact hupdate
        · exact ih (c := ⟨c.currentIndex + 1, _⟩) hupdate hout
    · obtain rfl := Option.some.inj hout
      exact hc

/-- What the ticks of the children keep, a loop over them side by side keeps. -/
theorem parallelLoop_keeps {P : (i : Fin n) → τ i → Prop}
    {tickChild : (i : Fin n) → τ i → S → Option (Ticked (τ i) S)} {policy : ParallelPolicy}
    (hchild : ∀ i held s out, P i held → tickChild i held s = some out → P i out.held)
    {indices : List (Fin n)} {anyWaiting anyRunning : Bool} {p : Results n ((i : Fin n) → τ i)}
    {s : S} {out : Ticked (Results n ((i : Fin n) → τ i)) S} (hp : ∀ i, P i (p.children i))
    (hout : parallelLoop tickChild policy indices anyWaiting anyRunning p s = some out) :
    ∀ i, P i (out.held.children i) := by
  induction indices generalizing anyWaiting anyRunning p s with
  | nil =>
    obtain rfl := Option.some.inj hout
    exact hp
  | cons i rest ih =>
    unfold parallelLoop at hout
    split at hout
    · exact ih hp hout
    · obtain ⟨res, hres, hout⟩ := Option.bind_eq_some_iff.mp hout
      have hupdate : ∀ j, P j (Function.update p.children i res.held j) :=
        Function.forall_update_iff _ _ |>.mpr ⟨hchild _ _ _ _ (hp i) hres, fun j _ => hp j⟩
      dsimp only at hout
      split at hout
      · exact ih (p := ⟨_, _⟩) hupdate hout
      · split at hout
        · exact ih (p := ⟨_, _⟩) hupdate hout
        · split at hout
          · obtain rfl := Option.some.inj hout
            exact hupdate
          · split at hout
            · obtain rfl := Option.some.inj hout
              exact hupdate
            · exact ih (p := ⟨_, _⟩) hupdate hout

/-- What the ticks of the children keep, a node with a cursor keeps. -/
theorem cursorTick_keeps {P : (i : Fin n) → τ i → Prop}
    {tickChild : (i : Fin n) → τ i → S → Option (Ticked (τ i) S)} {stop done : PatternStatus}
    (hchild : ∀ i held s out, P i held → tickChild i held s = some out → P i out.held)
    {c : Cursor ((i : Fin n) → τ i)} {s : S} {out : Ticked (Cursor ((i : Fin n) → τ i)) S}
    (hc : ∀ i, P i (c.children i)) (hout : cursorTick tickChild stop done c s = some out) :
    ∀ i, P i (out.held.children i) := by
  unfold cursorTick at hout
  split at hout
  · obtain rfl := Option.some.inj hout
    exact hc
  · exact cursorLoop_keeps hchild hc hout

/-- What the ticks of the children keep, a parallel node keeps. -/
theorem parallelTick_keeps {P : (i : Fin n) → τ i → Prop}
    {tickChild : (i : Fin n) → τ i → S → Option (Ticked (τ i) S)} {policy : ParallelPolicy}
    (hchild : ∀ i held s out, P i held → tickChild i held s = some out → P i out.held)
    {p : Results n ((i : Fin n) → τ i)} {s : S} {out : Ticked (Results n ((i : Fin n) → τ i)) S}
    (hp : ∀ i, P i (p.children i)) (hout : parallelTick tickChild policy p s = some out) :
    ∀ i, P i (out.held.children i) := by
  unfold parallelTick at hout
  split at hout
  · obtain rfl := Option.some.inj hout
    exact hp
  · exact parallelLoop_keeps hchild hp hout

/-- A child that has a result keeps one and is left as it is. -/
theorem parallelTick_results {tickChild : (i : Fin n) → τ i → S → Option (Ticked (τ i) S)}
    {policy : ParallelPolicy} {p : Results n ((i : Fin n) → τ i)} {s : S}
    {out : Ticked (Results n ((i : Fin n) → τ i)) S}
    (hout : parallelTick tickChild policy p s = some out) :
    ∀ i, (p.childResults i).isSome →
      (out.held.childResults i).isSome ∧ out.held.children i = p.children i := by
  unfold parallelTick at hout
  split at hout
  · obtain rfl := Option.some.inj hout
    exact fun i hi => ⟨hi, rfl⟩
  · exact (parallelLoop_results hout).1

/-- What the tick of a child that has a result would do has no part in what the node does. -/
theorem parallelTick_congr {tickChild tickChild' : (i : Fin n) → τ i → S → Option (Ticked (τ i) S)}
    {policy : ParallelPolicy} {p : Results n ((i : Fin n) → τ i)} {s : S}
    (h : ∀ i, p.childResults i = none → tickChild i = tickChild' i) :
    parallelTick tickChild policy p s = parallelTick tickChild' policy p s := by
  unfold parallelTick
  rw [parallelLoop_congr h]

/-- What the tick of the child keeps, repeating keeps. -/
theorem repeatLoop_keeps {P : σ → Prop} {tickChild : σ → S → Option (Ticked σ S)}
    {times : Option ℕ+} (hchild : ∀ held s out, P held → tickChild held s = some out → P out.held)
    {rounds : ℕ} {c : Counter σ} {s : S} {out : Ticked (Counter σ) S} (hc : P c.child)
    (hout : repeatLoop tickChild times rounds c s = some out) : P out.held.child := by
  induction rounds generalizing c s with
  | zero => cases hout
  | succ rounds ih =>
    unfold repeatLoop at hout
    split at hout
    · obtain rfl := Option.some.inj hout
      exact hc
    · obtain ⟨res, hres, hout⟩ := Option.bind_eq_some_iff.mp hout
      have hheld := hchild _ _ _ hc hres
      split at hout
      · obtain rfl := Option.some.inj hout
        exact hheld
      · split at hout
        · obtain rfl := Option.some.inj hout
          exact hheld
        · split at hout
          · obtain rfl := Option.some.inj hout
            exact hheld
          · exact ih (c := ⟨_, _⟩) hheld hout

/-- What the tick of the child keeps, retrying keeps. -/
theorem retryLoop_keeps {P : σ → Prop} {tickChild : σ → S → Option (Ticked σ S)}
    {maxAttempts : ℕ+} (hchild : ∀ held s out, P held → tickChild held s = some out → P out.held)
    {rounds : ℕ} {c : Counter σ} {s : S} {out : Ticked (Counter σ) S} (hc : P c.child)
    (hout : retryLoop tickChild maxAttempts rounds c s = some out) : P out.held.child := by
  induction rounds generalizing c s with
  | zero => cases hout
  | succ rounds ih =>
    unfold retryLoop at hout
    obtain ⟨res, hres, hout⟩ := Option.bind_eq_some_iff.mp hout
    have hheld := hchild _ _ _ hc hres
    split at hout
    · obtain rfl := Option.some.inj hout
      exact hheld
    · split at hout
      · obtain rfl := Option.some.inj hout
        exact hheld
      · split at hout
        · obtain rfl := Option.some.inj hout
          exact hheld
        · exact ih (c := ⟨_, _⟩) hheld hout

end Loops

namespace Node

variable {L S : Type}

/-- The nodes outside the parallel nodes hold what they hold after a reset, and each of the
outermost parallel nodes does or has a result of a child. -/
def Rested : (t : Node L) → t.Held → Prop
  | leafNode _ => fun _ => True
  | sequenceNode _ children | selectorNode _ children =>
    Cursor.Rested fun i => (children i).Rested
  | parallelNode policy n children => fun p =>
    p = (parallelNode policy n children).reset ∨ ∃ i : Fin n, (Results.childResults p i).isSome
  | inverterNode child => child.Rested
  | repeatNode _ child | retryNode _ child => Counter.Rested child.Rested

/-- What the nodes may hold between ticks: only the child at a cursor is in the middle of a run, and
a bounded repeat node has rounds left. -/
def Ready : (t : Node L) → t.Held → Prop
  | leafNode _ => fun _ => True
  | sequenceNode _ children | selectorNode _ children =>
    Cursor.Ready (fun i => (children i).Rested) fun i => (children i).Ready
  | parallelNode _ _ _ => fun _ => True
  | inverterNode child => child.Ready
  | repeatNode times child => fun c =>
    reached times (Counter.count c) = false ∧ child.Ready (Counter.child c)
  | retryNode _ child => fun c => child.Ready (Counter.child c)

/-- There is no parallel node with children in the tree. -/
def ParallelFree : Node L → Prop
  | leafNode _ => True
  | sequenceNode _ children | selectorNode _ children => ∀ i, (children i).ParallelFree
  | parallelNode _ n _ => n = 0
  | inverterNode child | repeatNode _ child | retryNode _ child => child.ParallelFree

/-- After a reset the tree is rested. -/
theorem rested_reset (t : Node L) : t.Rested t.reset := by
  induction t with
  | leafNode leaf => trivial
  | sequenceNode n children ih | selectorNode n children ih => exact ⟨rfl, ih⟩
  | parallelNode policy n children ih => exact .inl rfl
  | inverterNode child ih => exact ih
  | repeatNode times child ih | retryNode maxAttempts child ih => exact ⟨rfl, ih⟩

/-- A rested tree may be ticked. -/
theorem Rested.ready {t : Node L} {held : t.Held} (h : t.Rested held) : t.Ready held := by
  induction t with
  | leafNode leaf => trivial
  | sequenceNode n children ih | selectorNode n children ih =>
    exact ⟨h.1.symm ▸ Nat.zero_le n, fun i _ => h.2 i, fun i => ih i (h.2 i)⟩
  | parallelNode policy n children ih => trivial
  | inverterNode child ih => exact ih h
  | repeatNode times child ih => exact ⟨h.1.symm ▸ reached_zero times, ih h.2⟩
  | retryNode maxAttempts child ih => exact ih h.2

/-- A rested tree without parallel nodes holds what it holds after a reset. -/
theorem Rested.eq_reset {t : Node L} {held : t.Held} (h : t.Rested held) (hfree : t.ParallelFree) :
    held = t.reset := by
  induction t with
  | leafNode leaf => rfl
  | sequenceNode n children ih | selectorNode n children ih =>
    obtain ⟨currentIndex, held⟩ := held
    obtain ⟨hindex, hchildren⟩ := h
    have hheld : held = fun i => (children i).reset := by
      funext i
      exact ih i (hchildren i) (hfree i)
    exact congrArg₂ Cursor.mk hindex hheld
  | parallelNode policy n children ih =>
    refine h.resolve_right ?_
    rintro ⟨i, -⟩
    exact absurd i.pos (hfree ▸ Nat.lt_irrefl 0)
  | inverterNode child ih => exact ih h hfree
  | repeatNode times child ih | retryNode maxAttempts child ih =>
    obtain ⟨count, held⟩ := held
    exact congrArg₂ Counter.mk h.1 (ih h.2 hfree)

/-- A tick keeps what the nodes may hold, and leaves the tree rested when it does not pause. -/
theorem tick_settles (tickLeaf : L → S → PatternStatus × S) (rounds : ℕ) (t : Node L) :
    Settles t.Rested t.Ready (t.tick tickLeaf rounds) := by
  induction t with
  | leafNode leaf => exact fun _ _ _ _ _ => ⟨trivial, fun _ => trivial⟩
  | sequenceNode n children ih | selectorNode n children ih =>
    exact cursorTick_settles ih fun _ _ => Rested.ready
  | parallelNode policy n children ih =>
    exact fun p s out _ hout => ⟨trivial, parallelTick_rested hout⟩
  | inverterNode child ih =>
    intro held s out hheld hout
    obtain ⟨res, hres, rfl⟩ := Option.map_eq_some_iff.mp hout
    obtain ⟨hready, hrested⟩ := ih held s res hheld hres
    refine ⟨hready, fun hterminal => hrested ?_⟩
    cases hstatus : res.status with
    | success | failure => rfl
    | running | waitingForInput => simp [hstatus, isYieldingStatus] at hterminal
  | repeatNode times child ih => exact repeatLoop_settles ih
  | retryNode maxAttempts child ih => exact retryLoop_settles ih

/-- What the nodes of a tree hold after a reset and any ticks, whatever was done to the execution
state between them. -/
inductive Ran (tickLeaf : L → S → PatternStatus × S) (t : Node L) : t.Held → Prop where
  | reset : Ran tickLeaf t t.reset
  | tick {held : t.Held} {s : S} {rounds : ℕ} {out : Ticked t.Held S} :
    Ran tickLeaf t held → t.tick tickLeaf rounds held s = some out → Ran tickLeaf t out.held

/-- A node of a tree, with what it and the nodes below it hold. -/
inductive Within : (t : Node L) → t.Held → (u : Node L) → u.Held → Prop where
  | self {t : Node L} {held : t.Held} : Within t held t held
  | sequenceNode {n : ℕ} {children : Fin n → Node L} {c : (sequenceNode n children).Held}
    {i : Fin n} {u : Node L} {held : u.Held} :
    Within (children i) (Cursor.children c i) u held → Within (.sequenceNode n children) c u held
  | selectorNode {n : ℕ} {children : Fin n → Node L} {c : (selectorNode n children).Held}
    {i : Fin n} {u : Node L} {held : u.Held} :
    Within (children i) (Cursor.children c i) u held → Within (.selectorNode n children) c u held
  | parallelNode {policy : ParallelPolicy} {n : ℕ} {children : Fin n → Node L}
    {p : (parallelNode policy n children).Held} {i : Fin n} {u : Node L} {held : u.Held} :
    Within (children i) (Results.children p i) u held →
      Within (.parallelNode policy n children) p u held
  | inverterNode {child u : Node L} {held' : child.Held} {held : u.Held} :
    Within child held' u held → Within (.inverterNode child) held' u held
  | repeatNode {times : Option ℕ+} {child u : Node L} {c : (repeatNode times child).Held}
    {held : u.Held} :
    Within child (Counter.child c) u held → Within (.repeatNode times child) c u held
  | retryNode {maxAttempts : ℕ+} {child u : Node L} {c : (retryNode maxAttempts child).Held}
    {held : u.Held} :
    Within child (Counter.child c) u held → Within (.retryNode maxAttempts child) c u held

section Ran

variable {tickLeaf : L → S → PatternStatus × S} {t u : Node L} {n : ℕ} {children : Fin n → Node L}

/-- What nodes hold after a reset and any ticks they may hold. -/
theorem Ran.ready {held : t.Held} (h : Ran tickLeaf t held) : t.Ready held := by
  induction h with
  | reset => exact t.rested_reset.ready
  | tick _ hout ih => exact (t.tick_settles tickLeaf _ _ _ _ ih hout).1

/-- The children of a sequence node are only reset and ticked. -/
theorem Ran.sequenceNode {c : (Node.sequenceNode n children).Held}
    (h : Ran tickLeaf (.sequenceNode n children) c) :
    ∀ i, Ran tickLeaf (children i) (Cursor.children c i) := by
  induction h with
  | reset => exact fun _ => .reset
  | tick _ hout ih => exact cursorTick_keeps (fun _ _ _ _ => Ran.tick) ih hout

/-- The children of a selector node are only reset and ticked. -/
theorem Ran.selectorNode {c : (Node.selectorNode n children).Held}
    (h : Ran tickLeaf (.selectorNode n children) c) :
    ∀ i, Ran tickLeaf (children i) (Cursor.children c i) := by
  induction h with
  | reset => exact fun _ => .reset
  | tick _ hout ih => exact cursorTick_keeps (fun _ _ _ _ => Ran.tick) ih hout

/-- The children of a parallel node are only reset and ticked. -/
theorem Ran.parallelNode {policy : ParallelPolicy} {p : (Node.parallelNode policy n children).Held}
    (h : Ran tickLeaf (.parallelNode policy n children) p) :
    ∀ i, Ran tickLeaf (children i) (Results.children p i) := by
  induction h with
  | reset => exact fun _ => .reset
  | tick _ hout ih => exact parallelTick_keeps (fun _ _ _ _ => Ran.tick) ih hout

/-- The child of an inverter node is only reset and ticked. -/
theorem Ran.inverterNode {held : (Node.inverterNode t).Held}
    (h : Ran tickLeaf (.inverterNode t) held) : Ran tickLeaf t held := by
  induction h with
  | reset => exact .reset
  | tick _ hout ih =>
    obtain ⟨res, hres, rfl⟩ := Option.map_eq_some_iff.mp hout
    have hran : Ran tickLeaf t res.held := ih.tick hres
    exact hran

/-- The child of a repeat node is only reset and ticked. -/
theorem Ran.repeatNode {times : Option ℕ+} {c : (Node.repeatNode times t).Held}
    (h : Ran tickLeaf (.repeatNode times t) c) : Ran tickLeaf t (Counter.child c) := by
  induction h with
  | reset => exact .reset
  | tick _ hout ih => exact repeatLoop_keeps (fun _ _ _ => Ran.tick) ih hout

/-- The child of a retry node is only reset and ticked. -/
theorem Ran.retryNode {maxAttempts : ℕ+} {c : (Node.retryNode maxAttempts t).Held}
    (h : Ran tickLeaf (.retryNode maxAttempts t) c) : Ran tickLeaf t (Counter.child c) := by
  induction h with
  | reset => exact .reset
  | tick _ hout ih => exact retryLoop_keeps (fun _ _ _ => Ran.tick) ih hout

/-- Every node of a tree is only reset and ticked. -/
theorem Ran.within : ∀ {t u : Node L} {held : t.Held} {held' : u.Held},
    Within t held u held' → Ran tickLeaf t held → Ran tickLeaf u held'
  | _, _, _, _, .self, h => h
  | _, _, _, _, .sequenceNode hwithin, h => within hwithin (h.sequenceNode _)
  | _, _, _, _, .selectorNode hwithin, h => within hwithin (h.selectorNode _)
  | _, _, _, _, .parallelNode hwithin, h => within hwithin (h.parallelNode _)
  | _, _, _, _, .inverterNode hwithin, h => within hwithin h.inverterNode
  | _, _, _, _, .repeatNode hwithin, h => within hwithin h.repeatNode
  | _, _, _, _, .retryNode hwithin, h => within hwithin h.retryNode

end Ran

end Node

open Node

/-- Whatever ticks a tree was given, a tick of any of its nodes that returns success or failure
leaves the nodes outside parallel nodes as after a reset and each outermost parallel node either so
or with a result. Without parallel nodes it leaves the node as after a reset, and further ticks are
those of a fresh run. A parallel node keeps the results of its children and does not tick those
that have one. -/
theorem rested_run {L S : Type} {tickLeaf : L → S → PatternStatus × S} {root u : Node L}
    {held : root.Held} {held' : u.Held} {rounds : ℕ} {s : S} {out : Ticked u.Held S}
    (hran : Ran tickLeaf root held) (hwithin : Within root held u held')
    (hout : u.tick tickLeaf rounds held' s = some out)
    (hterminal : isYieldingStatus out.status = false) :
    u.Rested out.held ∧
    (u.ParallelFree → out.held = u.reset ∧
      ∀ rounds s, u.tick tickLeaf rounds out.held s = u.tick tickLeaf rounds u.reset s) ∧
    ∀ {n : ℕ} {τ : Fin n → Type} {tickChild : (i : Fin n) → τ i → S → Option (Ticked (τ i) S)}
      {policy : ParallelPolicy} {p : Results n ((i : Fin n) → τ i)} {s : S}
      {out : Ticked (Results n ((i : Fin n) → τ i)) S},
      parallelTick tickChild policy p s = some out →
        (∀ i, (p.childResults i).isSome →
          (out.held.childResults i).isSome ∧ out.held.children i = p.children i) ∧
        ∀ tickChild', (∀ i, p.childResults i = none → tickChild i = tickChild' i) →
          parallelTick tickChild' policy p s = some out := by
  have hrested := (u.tick_settles tickLeaf _ _ _ _ (Ran.within hwithin hran).ready hout).2 hterminal
  refine ⟨hrested, fun hfree => ?_, fun hp => ⟨parallelTick_results hp, fun tickChild' h => ?_⟩⟩
  · have heq := hrested.eq_reset hfree
    exact ⟨heq, fun rounds s => by rw [heq]⟩
  · rw [← hp, parallelTick_congr h]

/-- Try a leaf at most twice. -/
def tryTwice : Node Unit := .retryNode ⟨2, Nat.two_pos⟩ (.sequenceNode 1 fun _ => .leafNode ())

/-- The leaf fails at first and succeeds from then on. -/
def failsOnce (_ : Unit) (failed : Bool) : PatternStatus × Bool :=
  (if failed then .success else .failure, true)

/-- The second attempt executes the leaf again, and afterwards nothing is counted. -/
theorem rested_run_tryTwice : ∃ out, tryTwice.tick failsOnce 0 tryTwice.reset false = some out ∧
    out.status = .success ∧ out.held = tryTwice.reset := by
  have hout : tryTwice.tick failsOnce 0 tryTwice.reset false = some _ := rfl
  refine ⟨_, hout, rfl, ?_⟩
  exact ((rested_run .reset .self hout rfl).2.1 (fun _ => trivial)).1

/-- A parallel node with a leaf that succeeded keeps the result. -/
theorem rested_run_fails : ¬ ∀ (L S : Type) (tickLeaf : L → S → PatternStatus × S) (t : Node L)
    (held : t.Held) (rounds : ℕ) (s : S) (out : Ticked t.Held S), Ran tickLeaf t held →
      t.tick tickLeaf rounds held s = some out → isYieldingStatus out.status = false →
        out.held = t.reset := by
  intro h
  have hreset := h Unit Bool failsOnce (.parallelNode .successOnAll 1 fun _ => .leafNode ()) _ 0
    true _ .reset rfl rfl
  exact absurd (congrFun (congrArg Results.childResults hreset) 0) (by decide)

end PalmEngine.BehaviorTree
