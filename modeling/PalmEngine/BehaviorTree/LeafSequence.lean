import PalmEngine.BehaviorTree.Node

/-!
# Sequences of leaves

What a sequence node over leaves does in a tick: it ticks its leaves from the cursor on until one
does not succeed. The results are noted beside the execution state, which may hold anything, so a
leaf stands for any phase that is ticked.
-/

namespace PalmEngine.BehaviorTree

variable {L S : Type}

/-- Tick a leaf and note its result. -/
def traced (tickLeaf : L → S → PatternStatus × S) (leaf : L) (s : S × List (L × PatternStatus)) :
    PatternStatus × (S × List (L × PatternStatus)) :=
  ((tickLeaf leaf s.1).1, (tickLeaf leaf s.1).2, s.2 ++ [(leaf, (tickLeaf leaf s.1).1)])

/-- The results of leaves that are ticked in their order from one of them on, until one does not
succeed, with the result of them all and the place where this ends. -/
inductive SequenceRun {n : ℕ} (leaf : Fin n → L) :
    ℕ → List (L × PatternStatus) → PatternStatus → ℕ → Prop
  | done {i : ℕ} (h : n ≤ i) : SequenceRun leaf i [] .success i
  | stop {i : ℕ} (h : i < n) {status : PatternStatus} (hstatus : status ≠ .success) :
    SequenceRun leaf i [(leaf ⟨i, h⟩, status)] status i
  | step {i : ℕ} (h : i < n) {rest : List (L × PatternStatus)} {status : PatternStatus} {j : ℕ}
    (hrest : SequenceRun leaf (i + 1) rest status j) :
    SequenceRun leaf i ((leaf ⟨i, h⟩, .success) :: rest) status j

namespace SequenceRun

variable {n : ℕ} {leaf : Fin n → L} {i j : ℕ} {visits : List (L × PatternStatus)}
  {status : PatternStatus}

/-- It does not end before it starts. -/
theorem le (h : SequenceRun leaf i visits status j) : i ≤ j := by
  induction h with
  | done _ => exact le_rfl
  | stop _ _ => exact le_rfl
  | step _ _ ih => exact Nat.le_of_succ_le ih

/-- It ends at a leaf unless all have succeeded. -/
theorem lt_iff (h : SequenceRun leaf i visits status j) : j < n ↔ status ≠ .success := by
  induction h with
  | done hn => exact ⟨fun hlt => absurd hlt (Nat.not_lt.mpr hn), fun hne => absurd rfl hne⟩
  | stop hi hne => exact ⟨fun _ => hne, fun _ => hi⟩
  | step _ _ ih => exact ih

/-- The leaves that are ticked are those from the start to the end. -/
theorem exists_mem_iff (hinj : Function.Injective leaf) (h : SequenceRun leaf i visits status j)
    (k : Fin n) : (∃ result, (leaf k, result) ∈ visits) ↔ i ≤ k ∧ k ≤ j := by
  induction h with
  | done hn =>
    have hk := k.isLt
    simp
    omega
  | @stop i hi _ _ =>
    simp only [List.mem_singleton, Prod.mk.injEq, exists_and_left, exists_eq, and_true,
      hinj.eq_iff, Fin.ext_iff]
    omega
  | @step i hi rest status j hrest ih =>
    have hle := hrest.le
    simp only [List.mem_cons, exists_or, ih, Prod.mk.injEq, exists_and_left, exists_eq, and_true,
      hinj.eq_iff, Fin.ext_iff]
    omega

/-- The leaves that succeed are those before the end. -/
theorem success_mem_iff (hinj : Function.Injective leaf) (h : SequenceRun leaf i visits status j)
    (k : Fin n) : (leaf k, .success) ∈ visits ↔ i ≤ k ∧ k < j := by
  induction h with
  | done hn => simp
  | @stop i hi status hne =>
    simp only [List.mem_singleton, Prod.mk.injEq, Ne.symm hne, and_false, false_iff]
    omega
  | @step i hi rest status j hrest ih =>
    have hle := hrest.le
    simp only [List.mem_cons, ih, Prod.mk.injEq, and_true, hinj.eq_iff, Fin.ext_iff]
    omega

/-- A leaf fails if it is the last one and the sequence fails. -/
theorem failure_mem_iff (hinj : Function.Injective leaf) (h : SequenceRun leaf i visits status j)
    (k : Fin n) : (leaf k, .failure) ∈ visits ↔ k = j ∧ status = .failure := by
  induction h with
  | done hn => simp
  | @stop i hi status hne =>
    simp only [List.mem_singleton, Prod.mk.injEq, hinj.eq_iff, Fin.ext_iff]
    exact ⟨fun hk => ⟨hk.1, hk.2.symm⟩, fun hk => ⟨hk.1, hk.2.symm⟩⟩
  | @step i hi rest status j hrest ih => simp [ih]

/-- Only leaves of the sequence are ticked. -/
theorem exists_leaf (h : SequenceRun leaf i visits status j) {e : L × PatternStatus}
    (he : e ∈ visits) : ∃ k, e.1 = leaf k := by
  induction h with
  | done _ => cases he
  | stop hi _ => exact ⟨_, congrArg Prod.fst (List.mem_singleton.mp he)⟩
  | step hi _ ih =>
    rcases List.mem_cons.mp he with heq | hrest
    · exact ⟨_, congrArg Prod.fst heq⟩
    · exact ih hrest

end SequenceRun

/-- The leaves of a sequence are ticked up to one of them, all before it with success. -/
structure TickedTo {n : ℕ} (leaf : Fin n → L) (visits : List (L × PatternStatus)) (i : ℕ) : Prop where
  le_of_mem : ∀ k : Fin n, (∃ result, (leaf k, result) ∈ visits) → (k : ℕ) ≤ i
  success_iff : ∀ k : Fin n, (leaf k, .success) ∈ visits ↔ (k : ℕ) < i

/-- Nothing is ticked yet. -/
theorem TickedTo.of_forall_not_mem {n : ℕ} {leaf : Fin n → L} {visits : List (L × PatternStatus)}
    (h : ∀ k result, (leaf k, result) ∉ visits) : TickedTo leaf visits 0 where
  le_of_mem k hk := by
    obtain ⟨result, hresult⟩ := hk
    exact absurd hresult (h k result)
  success_iff k := iff_of_false (h k _) (Nat.not_lt_zero _)

/-- A sequence that is ticked from where it was is ticked up to where it ends. -/
theorem TickedTo.append {n : ℕ} {leaf : Fin n → L} (hinj : Function.Injective leaf)
    {visits visits' : List (L × PatternStatus)} {i j : ℕ} {status : PatternStatus}
    (h : TickedTo leaf visits i) (hrun : SequenceRun leaf i visits' status j) :
    TickedTo leaf (visits ++ visits') j ∧
      ∀ k : Fin n, (∃ result, (leaf k, result) ∈ visits ++ visits') ↔ (k : ℕ) ≤ j := by
  have hij := hrun.le
  have hiff : ∀ k : Fin n, (∃ result, (leaf k, result) ∈ visits ++ visits') ↔ (k : ℕ) ≤ j := by
    intro k
    have hnew := hrun.exists_mem_iff hinj k
    have hold := h.le_of_mem k
    have hbefore : (k : ℕ) < i → ∃ result, (leaf k, result) ∈ visits :=
      fun hk => ⟨_, (h.success_iff k).mpr hk⟩
    simp only [List.mem_append, exists_or, hnew]
    constructor
    · rintro (hmem | hmem)
      · exact (hold hmem).trans hij
      · exact hmem.2
    · intro hk
      by_cases hlt : (k : ℕ) < i
      · exact Or.inl (hbefore hlt)
      · exact Or.inr ⟨Nat.not_lt.mp hlt, hk⟩
  refine ⟨⟨fun k => (hiff k).mp, fun k => ?_⟩, hiff⟩
  rw [List.mem_append, h.success_iff k, hrun.success_mem_iff hinj k]
  omega

/-- A sequence of leaves ticks them from the cursor on; the cursor stays at a leaf that pauses and
goes back to the start otherwise. -/
theorem cursorLoop_leaves (tickLeaf : L → S → PatternStatus × S) {n : ℕ} (leaf : Fin n → L)
    (rounds : ℕ) (c : Cursor (Fin n → Unit)) (s : S × List (L × PatternStatus))
    (hrounds : n ≤ c.currentIndex + rounds) :
    ∃ out visits j, cursorLoop (fun i (held : Unit) s => some ⟨(traced tickLeaf (leaf i) s).1, held,
        (traced tickLeaf (leaf i) s).2⟩) .failure .success rounds c s = some out ∧
      SequenceRun leaf c.currentIndex visits out.status j ∧ out.state.2 = s.2 ++ visits ∧
      (out.held.currentIndex = if isYieldingStatus out.status then j else 0) ∧
      ∀ h : c.currentIndex < n, visits.head? = some (leaf ⟨c.currentIndex, h⟩,
        (tickLeaf (leaf ⟨c.currentIndex, h⟩) s.1).1) := by
  induction rounds generalizing c s with
  | zero =>
    exact ⟨_, [], c.currentIndex, rfl, .done hrounds, by simp, rfl,
      fun h => absurd h (Nat.not_lt.mpr hrounds)⟩
  | succ rounds ih =>
    rw [cursorLoop]
    split
    · next hi =>
      dsimp only [traced, Option.bind_some]
      split
      · next hyields =>
        have hne : (tickLeaf (leaf ⟨c.currentIndex, hi⟩) s.1).1 ≠ .success := by
          intro heq
          rw [heq] at hyields
          cases hyields
        exact ⟨_, _, c.currentIndex, rfl, .stop hi hne, rfl, by rw [if_pos hyields], fun _ => rfl⟩
      · next hends =>
        split
        · next hfailed =>
          refine ⟨_, _, c.currentIndex, rfl, ?_, rfl, rfl, fun _ => rfl⟩
          have hstop : SequenceRun leaf c.currentIndex [(leaf ⟨c.currentIndex, hi⟩, .failure)] .failure
              c.currentIndex := .stop hi (by decide)
          simpa [hfailed] using hstop
        · next hfine =>
          have hsuccess : (tickLeaf (leaf ⟨c.currentIndex, hi⟩) s.1).1 = .success := by
            cases hstatus : (tickLeaf (leaf ⟨c.currentIndex, hi⟩) s.1).1 <;>
              simp_all [isYieldingStatus]
          obtain ⟨out, visits, j, hout, hrun, htrace, hcursor, -⟩ := ih ⟨c.currentIndex + 1, fun _ => ()⟩
            ((tickLeaf (leaf ⟨c.currentIndex, hi⟩) s.1).2,
              s.2 ++ [(leaf ⟨c.currentIndex, hi⟩, .success)]) (by simp only; omega)
          refine ⟨out, (leaf ⟨c.currentIndex, hi⟩, .success) :: visits, j, ?_, .step hi hrun, ?_,
            hcursor, fun _ => by rw [hsuccess]; rfl⟩
          · rw [hsuccess]
            exact hout
          · rw [htrace]
            simp
    · next hi =>
      exact ⟨_, [], c.currentIndex, rfl, .done (Nat.not_lt.mp hi), by simp, rfl,
        fun h => absurd h hi⟩

/-- The tick of a sequence of leaves. -/
theorem tick_leaves (tickLeaf : L → S → PatternStatus × S) (rounds : ℕ) {n : ℕ} (leaf : Fin n → L)
    (c : Cursor (Fin n → Unit)) (hc : c.currentIndex ≤ n) (s : S × List (L × PatternStatus)) :
    ∃ out visits j, (Node.sequenceNode n fun i => .leafNode (leaf i)).tick (traced tickLeaf) rounds c
        s = some out ∧
      SequenceRun leaf c.currentIndex visits out.status j ∧ out.state.2 = s.2 ++ visits ∧
      (Cursor.currentIndex out.held = if isYieldingStatus out.status then j else 0) ∧
      ∀ h : c.currentIndex < n, visits.head? = some (leaf ⟨c.currentIndex, h⟩,
        (tickLeaf (leaf ⟨c.currentIndex, h⟩) s.1).1) := by
  by_cases hn : n = 0
  · subst hn
    exact ⟨_, [], c.currentIndex, rfl, .done (Nat.zero_le _), by simp, Nat.le_zero.mp hc,
      fun h => absurd h (Nat.not_lt_zero _)⟩
  · have htick : (Node.sequenceNode n fun i => .leafNode (leaf i)).tick (traced tickLeaf) rounds c s =
        cursorLoop (fun i (held : Unit) s => some ⟨(traced tickLeaf (leaf i) s).1, held,
          (traced tickLeaf (leaf i) s).2⟩) .failure .success (n - c.currentIndex) c s :=
      if_neg hn
    rw [htick]
    exact cursorLoop_leaves tickLeaf leaf _ c s (by omega)

section Selectors

variable {τ : Fin 2 → Type} (tickChild : (k : Fin 2) → τ k → S → Option (Ticked (τ k) S))

/-- A selector of two children ticks the second one when the first one fails. -/
theorem selectorTick_zero (children : (k : Fin 2) → τ k) (s : S) {out : Ticked (τ 0) S}
    (hout : tickChild 0 (children 0) s = some out) :
    cursorTick tickChild .success .failure ⟨0, children⟩ s =
      if isYieldingStatus out.status then
        some ⟨out.status, ⟨0, Function.update children 0 out.held⟩, out.state⟩
      else if out.status = .success then
        some ⟨.success, ⟨0, Function.update children 0 out.held⟩, out.state⟩
      else cursorTick tickChild .success .failure ⟨1, Function.update children 0 out.held⟩
        out.state := by
  have hchild : tickChild ⟨0, Nat.zero_lt_two⟩ (children ⟨0, Nat.zero_lt_two⟩) s = some out := hout
  simp only [cursorTick, cursorLoop, hchild, Option.bind_some]
  rfl

/-- A selector of two children that is at the second one has its result. -/
theorem selectorTick_one (children : (k : Fin 2) → τ k) (s : S) {out : Ticked (τ 1) S}
    (hout : tickChild 1 (children 1) s = some out) :
    cursorTick tickChild .success .failure ⟨1, children⟩ s =
      some ⟨out.status, ⟨if isYieldingStatus out.status then 1 else 0,
        Function.update children 1 out.held⟩, out.state⟩ := by
  have hchild : tickChild ⟨1, Nat.one_lt_two⟩ (children ⟨1, Nat.one_lt_two⟩) s = some out := hout
  obtain ⟨status, held, state⟩ := out
  simp only [cursorTick, cursorLoop, hchild, Option.bind_some]
  cases status <;> rfl

end Selectors

end PalmEngine.BehaviorTree
