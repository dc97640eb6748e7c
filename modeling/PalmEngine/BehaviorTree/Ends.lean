import PalmEngine.BehaviorTree.Rerun
import PalmEngine.BehaviorTree.Resume

/-!
# Trees that end without a pause

How a tree of sequences and selectors may end, if none of its leaves pauses, as a relation between
two marks, given how the leaves may end. A tick from the start that ends and spends nothing ends so.
Conversely, where the leaves follow a script that is read along a clock, the tree is led to every end
that it may have.
-/

namespace PalmEngine.BehaviorTree

variable {L J S A σ : Type} {n : ℕ}

/-- How a node with a cursor may end from a child on, given how its children may end. -/
inductive CursorEnds (ends : Fin n → J → PatternStatus → J → Prop) (stop done : PatternStatus) :
    ℕ → J → PatternStatus → J → Prop where
  | done {k : ℕ} {j : J} (h : n ≤ k) : CursorEnds ends stop done k j done j
  | stop {k : ℕ} {j j' : J} (h : k < n) (hchild : ends ⟨k, h⟩ j stop j') :
      CursorEnds ends stop done k j stop j'
  | next {k : ℕ} {j j₁ j' : J} {status status' : PatternStatus} (h : k < n)
      (hchild : ends ⟨k, h⟩ j status j₁) (hne : status ≠ stop)
      (hrest : CursorEnds ends stop done (k + 1) j₁ status' j') :
      CursorEnds ends stop done k j status' j'

namespace Node

/-- How a tree of sequences and selectors may end from the start, given how its leaves may end. -/
def Ends (leafEnds : L → J → PatternStatus → J → Prop) : Node L → J → PatternStatus → J → Prop
  | leafNode leaf => leafEnds leaf
  | sequenceNode _ children =>
    CursorEnds (fun i => (children i).Ends leafEnds) .failure .success 0
  | selectorNode _ children =>
    CursorEnds (fun i => (children i).Ends leafEnds) .success .failure 0
  | _ => fun _ _ _ => False

/-- The tree begins with a leaf. -/
def Busy : Node L → Prop
  | leafNode _ => True
  | sequenceNode n children | selectorNode n children => ∃ h : 0 < n, (children ⟨0, h⟩).Busy
  | _ => False

/-- A tree of sequences and selectors has no parallel nodes. -/
theorem Sequential.parallelFree {ok : L → Prop} {t : Node L} (h : t.Sequential ok) :
    t.ParallelFree := by
  induction t with
  | leafNode leaf => trivial
  | sequenceNode n children ih | selectorNode n children ih => exact fun i => ih i (h i)
  | parallelNode policy n children ih => exact h.elim
  | inverterNode child ih => exact h.elim
  | repeatNode times child ih => exact h.elim
  | retryNode maxAttempts child ih => exact h.elim

end Node

section Total

variable {τ : Fin n → Type} {tickChild : (i : Fin n) → τ i → S → Option (Ticked (τ i) S)}
  {stop done : PatternStatus}

/-- A loop over children that return returns. -/
theorem cursorLoop_returns (hchild : ∀ i held s, ∃ out, tickChild i held s = some out)
    (rounds : ℕ) : ∀ (c : Cursor ((i : Fin n) → τ i)) (s : S),
      ∃ out, cursorLoop tickChild stop done rounds c s = some out := by
  induction rounds with
  | zero => exact fun _ _ => ⟨_, rfl⟩
  | succ rounds ih =>
    intro c s
    rw [cursorLoop]
    split
    · next hlt =>
      obtain ⟨mid, hmid⟩ := hchild ⟨c.currentIndex, hlt⟩ (c.children ⟨c.currentIndex, hlt⟩) s
      rw [hmid, Option.bind_some]
      simp only
      split
      · exact ⟨_, rfl⟩
      · split
        · exact ⟨_, rfl⟩
        · exact ih _ _
    · exact ⟨_, rfl⟩

/-- The tick of a tree of sequences and selectors returns. -/
theorem Node.tick_returns (tickLeaf : L → S → PatternStatus × S) (rounds : ℕ) {ok : L → Prop} :
    ∀ t : Node L, t.Sequential ok → ∀ held s, ∃ out, t.tick tickLeaf rounds held s = some out := by
  intro t
  induction t with
  | leafNode leaf => exact fun _ _ _ => ⟨_, rfl⟩
  | sequenceNode n children ih | selectorNode n children ih =>
    intro ht held s
    simp only [tick, cursorTick]
    split
    · exact ⟨_, rfl⟩
    · exact cursorLoop_returns (fun i held s => ih i (ht i) held s) _ _ _
  | parallelNode policy n children ih => exact fun ht => ht.elim
  | inverterNode child ih => exact fun ht => ht.elim
  | repeatNode times child ih => exact fun ht => ht.elim
  | retryNode maxAttempts child ih => exact fun ht => ht.elim

end Total

section Sound

variable {mark : S → J} {size : S → ℕ} {τ : Fin n → Type}
  {tickChild : (i : Fin n) → τ i → S → Option (Ticked (τ i) S)}
  {stop done : PatternStatus} {ends : Fin n → J → PatternStatus → J → Prop}

/-- A tick spends something, or pauses, or ends as it may. -/
structure Spends (mark : S → J) (size : S → ℕ) (ends : J → PatternStatus → J → Prop) (s : S)
    (status : PatternStatus) (s' : S) : Prop where
  size_le : size s' ≤ size s
  ends : isYieldingStatus status = false → size s' = size s → ends (mark s) status (mark s')

/-- A loop over children at rest ends as it may unless it spends something. -/
theorem cursorLoop_spends {rest : (i : Fin n) → τ i}
    (hchild : ∀ i s out, tickChild i (rest i) s = some out →
      Spends mark size (ends i) s out.status out.state)
    (rounds : ℕ) : ∀ (k : ℕ) (children : (i : Fin n) → τ i) (s : S)
      (out : Ticked (Cursor ((i : Fin n) → τ i)) S), n - k ≤ rounds →
      (∀ i : Fin n, k ≤ i → children i = rest i) →
      cursorLoop tickChild stop done rounds ⟨k, children⟩ s = some out →
      Spends mark size (CursorEnds ends stop done k) s out.status out.state := by
  induction rounds with
  | zero =>
    intro k children s out hrounds _ hloop
    obtain rfl := Option.some.inj hloop
    exact ⟨le_rfl, fun _ _ => .done (by omega)⟩
  | succ rounds ih =>
    intro k children s out hrounds hrest hloop
    rw [cursorLoop] at hloop
    split at hloop
    · next hlt =>
      obtain ⟨mid, hmid, hloop⟩ := Option.bind_eq_some_iff.mp hloop
      have hmidSpends := hchild ⟨k, hlt⟩ s mid ((hrest ⟨k, hlt⟩ le_rfl) ▸ hmid)
      simp only at hloop
      split at hloop
      · next hyields =>
        obtain rfl := Option.some.inj hloop
        exact ⟨hmidSpends.size_le, fun hends => by simp [hyields] at hends⟩
      · next hyields =>
        have hends : isYieldingStatus mid.status = false := by simpa using hyields
        split at hloop
        · next hstop =>
          obtain rfl := Option.some.inj hloop
          refine ⟨hmidSpends.size_le, fun _ hsize => .stop hlt ?_⟩
          exact hstop ▸ hmidSpends.ends hends hsize
        · next hne =>
          have hlater : ∀ i : Fin n, k + 1 ≤ i →
              Function.update children ⟨k, hlt⟩ mid.held i = rest i := by
            intro i hi
            rw [Function.update_of_ne (by rintro rfl; simp at hi)]
            exact hrest i (by omega)
          have htail := ih (k + 1) _ mid.state out (by omega) hlater hloop
          refine ⟨htail.size_le.trans hmidSpends.size_le, fun hyields hsize => ?_⟩
          have hfirst : size mid.state = size s :=
            le_antisymm hmidSpends.size_le (hsize ▸ htail.size_le)
          exact .next hlt (hmidSpends.ends hends hfirst) hne
            (htail.ends hyields (hsize.trans hfirst.symm))
    · next hlt =>
      obtain rfl := Option.some.inj hloop
      exact ⟨le_rfl, fun _ _ => .done (by simpa using hlt)⟩

/-- The tick of a node with a cursor at the start ends as it may unless it spends something. -/
theorem cursorTick_spends {rest : (i : Fin n) → τ i}
    (hchild : ∀ i s out, tickChild i (rest i) s = some out →
      Spends mark size (ends i) s out.status out.state) {s : S}
    {out : Ticked (Cursor ((i : Fin n) → τ i)) S}
    (htick : cursorTick tickChild stop done ⟨0, rest⟩ s = some out) :
    Spends mark size (CursorEnds ends stop done 0) s out.status out.state := by
  unfold cursorTick at htick
  split at htick
  · next hn =>
    obtain rfl := Option.some.inj htick
    exact ⟨le_rfl, fun _ _ => .done (by omega)⟩
  · exact cursorLoop_spends hchild _ 0 rest s out le_rfl (fun _ _ => rfl) htick

/-- The tick of a tree from the start ends as it may unless it spends something. -/
theorem Node.tick_spends {tickLeaf : L → S → PatternStatus × S} {ok : L → Prop} (rounds : ℕ)
    {leafEnds : L → J → PatternStatus → J → Prop}
    (hleaf : ∀ leaf s, ok leaf →
      Spends mark size (leafEnds leaf) s (tickLeaf leaf s).1 (tickLeaf leaf s).2) :
    ∀ t : Node L, t.Sequential ok → ∀ s out, t.tick tickLeaf rounds t.reset s = some out →
      Spends mark size (t.Ends leafEnds) s out.status out.state := by
  intro t
  induction t with
  | leafNode leaf =>
    intro ht s out htick
    obtain rfl := Option.some.inj htick
    exact hleaf leaf s ht
  | sequenceNode n children ih | selectorNode n children ih =>
    exact fun ht s out htick => cursorTick_spends (fun i => ih i (ht i)) htick
  | parallelNode policy n children ih => exact fun ht => ht.elim
  | inverterNode child ih => exact fun ht => ht.elim
  | repeatNode times child ih => exact fun ht => ht.elim
  | retryNode maxAttempts child ih => exact fun ht => ht.elim

end Sound

section Complete

variable {clock : S → ℕ} {calm : S → Prop} {mark : S → J}

/-- Under every script that has the given entries from the clock on, the tick ends as told, at rest,
when the clock has run through them. -/
def Plays (clock : S → ℕ) (calm : S → Prop) (mark : S → J)
    (tick : (ℕ → A) → S → Option (Ticked σ S)) (rest : σ) (entries : List A) (j : J)
    (status : PatternStatus) (j' : J) : Prop :=
  ∀ script s, calm s → mark s = j →
    (∀ m (hm : m < entries.length), script (clock s + m) = entries[m]) →
      ∃ s', tick script s = some ⟨status, rest, s'⟩ ∧ calm s' ∧ mark s' = j' ∧
        clock s' = clock s + entries.length

/-- The tick is led to every end that it may have, by entries that are there if it is busy. -/
structure Led (clock : S → ℕ) (calm : S → Prop) (mark : S → J)
    (tick : (ℕ → A) → S → Option (Ticked σ S)) (rest : σ) (busy : Prop) (j : J)
    (status : PatternStatus) (j' : J) : Prop where
  ends : isYieldingStatus status = false
  plays : ∃ entries, (busy → entries ≠ []) ∧ Plays clock calm mark tick rest entries j status j'

variable {τ : Fin n → Type}
  {tickChild : (ℕ → A) → (i : Fin n) → τ i → S → Option (Ticked (τ i) S)} {rest : (i : Fin n) → τ i}
  {busy : Fin n → Prop} {stop done : PatternStatus} {ends : Fin n → J → PatternStatus → J → Prop}

/-- A loop over children that are led to their ends is led to its ends. -/
theorem cursorLoop_plays (hstop : isYieldingStatus stop = false)
    (hdone : isYieldingStatus done = false)
    (hchild : ∀ i j status j', ends i j status j' →
      Led clock calm mark (fun script => tickChild script i (rest i)) (rest i) (busy i) j status
        j')
    {k : ℕ} {j j' : J} {status : PatternStatus}
    (h : CursorEnds ends stop done k j status j') :
    ∀ rounds, n - k ≤ rounds →
      Led clock calm mark
        (fun script => cursorLoop (tickChild script) stop done rounds ⟨k, rest⟩) ⟨0, rest⟩
        (∃ h : k < n, busy ⟨k, h⟩) j status j' := by
  induction h with
  | done hk =>
    intro rounds _
    refine ⟨hdone, [], fun ⟨h, _⟩ => absurd h (by omega), fun script s hcalm hmark _ => ?_⟩
    refine ⟨s, ?_, hcalm, hmark, rfl⟩
    cases rounds with
    | zero => rfl
    | succ rounds =>
      beta_reduce
      rw [cursorLoop, dif_neg (by simpa using hk)]
  | @stop k j j' hk hends =>
    intro rounds hrounds
    obtain ⟨rounds, rfl⟩ : ∃ r, rounds = r + 1 := ⟨rounds - 1, by omega⟩
    obtain ⟨entries, hbusy, hplays⟩ := (hchild _ _ _ _ hends).plays
    refine ⟨hstop, entries, fun ⟨_, h⟩ => hbusy h, fun script s hcalm hmark hscript => ?_⟩
    obtain ⟨s', htick, hrest⟩ := hplays script s hcalm hmark hscript
    refine ⟨s', ?_, hrest⟩
    beta_reduce
    rw [cursorLoop, dif_pos hk]
    simp only at htick ⊢
    rw [htick]
    simp [hstop]
  | @next k j j₁ j' status status' hk hends hne _ ih =>
    intro rounds hrounds
    obtain ⟨rounds, rfl⟩ : ∃ r, rounds = r + 1 := ⟨rounds - 1, by omega⟩
    have hfirst := hchild _ _ _ _ hends
    obtain ⟨entries, hbusy, hplays⟩ := hfirst.plays
    have htail := ih rounds (by omega)
    obtain ⟨later, -, hlater⟩ := htail.plays
    refine ⟨htail.ends, entries ++ later, fun ⟨_, h⟩ hnil => hbusy h (List.append_eq_nil_iff.mp hnil).1,
      fun script s hcalm hmark hscript => ?_⟩
    obtain ⟨s₁, htick, hcalm₁, hmark₁, hclock₁⟩ := hplays script s hcalm hmark fun m hm => by
      rw [hscript m (by simp; omega), List.getElem_append_left hm]
    obtain ⟨s', htick', hcalm', hmark', hclock'⟩ := hlater script s₁ hcalm₁ hmark₁ fun m hm => by
      rw [hclock₁, Nat.add_assoc, hscript (entries.length + m) (by simp; omega),
        List.getElem_append_right (by omega)]
      simp
    refine ⟨s', ?_, hcalm', hmark', by rw [hclock', hclock₁, List.length_append]; omega⟩
    beta_reduce
    rw [cursorLoop, dif_pos hk]
    simp only at htick htick' ⊢
    rw [htick]
    simpa [hfirst.ends, hne] using htick'

/-- The tick of a node with a cursor at the start is led to its ends. -/
theorem cursorTick_plays (hstop : isYieldingStatus stop = false)
    (hdone : isYieldingStatus done = false)
    (hchild : ∀ i j status j', ends i j status j' →
      Led clock calm mark (fun script => tickChild script i (rest i)) (rest i) (busy i) j status
        j')
    {j j' : J} {status : PatternStatus} (h : CursorEnds ends stop done 0 j status j') :
    Led clock calm mark (fun script => cursorTick (tickChild script) stop done ⟨0, rest⟩)
      ⟨0, rest⟩ (∃ h : 0 < n, busy ⟨0, h⟩) j status j' := by
  have hloop := cursorLoop_plays hstop hdone hchild h n (Nat.sub_le n 0)
  by_cases hn : n = 0
  · subst hn
    refine ⟨hloop.ends, [], fun ⟨h, _⟩ => absurd h (Nat.lt_irrefl 0), ?_⟩
    cases h with
    | done _ => exact fun script s hcalm hmark _ => ⟨s, rfl, hcalm, hmark, rfl⟩
    | stop hk _ => exact absurd hk (Nat.lt_irrefl 0)
    | next hk _ _ _ => exact absurd hk (Nat.lt_irrefl 0)
  · unfold cursorTick
    simpa only [if_neg hn, Nat.sub_zero] using hloop

/-- Where the leaves are led to their ends by one entry of a script each, a tree is led to its
ends. -/
theorem Node.tick_plays {tickLeaf : (ℕ → A) → L → S → PatternStatus × S} {ok : L → Prop}
    (rounds : ℕ) {leafEnds : L → J → PatternStatus → J → Prop}
    (hleaf : ∀ leaf j status j', ok leaf → leafEnds leaf j status j' →
      isYieldingStatus status = false ∧ ∃ entry, ∀ script s, calm s → mark s = j →
        script (clock s) = entry → ∃ s', tickLeaf script leaf s = (status, s') ∧ calm s' ∧
          mark s' = j' ∧ clock s' = clock s + 1) :
    ∀ t : Node L, t.Sequential ok → ∀ j status j', t.Ends leafEnds j status j' →
      Led clock calm mark (fun script => t.tick (tickLeaf script) rounds t.reset) t.reset t.Busy j
        status j' := by
  intro t
  induction t with
  | leafNode leaf =>
    intro ht j status j' h
    obtain ⟨hends, entry, hplays⟩ := hleaf leaf j status j' ht h
    refine ⟨hends, [entry], fun _ => List.cons_ne_nil _ _, fun script s hcalm hmark hscript => ?_⟩
    obtain ⟨s', htick, hrest⟩ := hplays script s hcalm hmark (hscript 0 Nat.zero_lt_one)
    refine ⟨s', ?_, hrest⟩
    beta_reduce
    rw [tick, htick]
  | sequenceNode n children ih | selectorNode n children ih =>
    exact fun ht j status j' h => cursorTick_plays rfl rfl (fun i => ih i (ht i)) h
  | parallelNode policy n children ih => exact fun ht => ht.elim
  | inverterNode child ih => exact fun ht => ht.elim
  | repeatNode times child ih => exact fun ht => ht.elim
  | retryNode maxAttempts child ih => exact fun ht => ht.elim

end Complete

end PalmEngine.BehaviorTree
