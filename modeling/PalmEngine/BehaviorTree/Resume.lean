import PalmEngine.BehaviorTree.Node

/-!
# Where a tree goes on

A tree of sequences and selectors that has paused goes on with the leaf that paused. A fact about
the execution state that holds between leaves, and another one that holds where a leaf has paused,
are therefore kept by a tick of the tree if they are kept by the leaves.
-/

namespace PalmEngine.BehaviorTree

variable {L S : Type}

namespace Node

/-- A tree of sequences and selectors, with leaves of which something holds. -/
def Sequential (ok : L → Prop) : Node L → Prop
  | leafNode leaf => ok leaf
  | sequenceNode _ children => ∀ i, (children i).Sequential ok
  | selectorNode _ children => ∀ i, (children i).Sequential ok
  | _ => False

/-- What holds of the leaves of a tree may be weakened. -/
theorem Sequential.mono {ok ok' : L → Prop} {t : Node L} (h : t.Sequential ok)
    (himp : ∀ leaf, ok leaf → ok' leaf) : t.Sequential ok' := by
  induction t with
  | leafNode leaf => exact himp leaf h
  | sequenceNode n children ih => exact fun i => ih i (h i)
  | selectorNode n children ih => exact fun i => ih i (h i)
  | parallelNode policy n children ih => exact h.elim
  | inverterNode child ih => exact h.elim
  | repeatNode times child ih => exact h.elim
  | retryNode maxAttempts child ih => exact h.elim

/-- The leaf with which a tree of sequences and selectors goes on. -/
def current : (t : Node L) → t.Held → Option L
  | leafNode leaf, _ => some leaf
  | sequenceNode n children, c =>
    if h : Cursor.currentIndex c < n then
      (children ⟨c.currentIndex, h⟩).current (c.children ⟨c.currentIndex, h⟩)
    else none
  | selectorNode n children, c =>
    if h : Cursor.currentIndex c < n then
      (children ⟨c.currentIndex, h⟩).current (c.children ⟨c.currentIndex, h⟩)
    else none
  | _, _ => none

end Node

/-- The statuses that pause. -/
theorem isYieldingStatus_iff {status : PatternStatus} :
    isYieldingStatus status = true ↔ status = .running ∨ status = .waitingForInput := by
  simp [isYieldingStatus]

/-- Where a step has led: paused as told, or else back between two steps. -/
def Leads (status : PatternStatus) (paused between : Prop) : Prop :=
  if isYieldingStatus status then paused else between

/-- A step that pauses leads to where it is paused. -/
theorem Leads.paused {status : PatternStatus} {p q : Prop} (h : Leads status p q)
    (hyields : isYieldingStatus status = true) : p := by
  rwa [Leads, if_pos hyields] at h

/-- A step that does not pause leads between two steps. -/
theorem Leads.between {status : PatternStatus} {p q : Prop} (h : Leads status p q)
    (hyields : isYieldingStatus status = false) : q := by
  rwa [Leads, if_neg (by simp [hyields])] at h

section Loop

variable {n : ℕ} {τ : Fin n → Type} {tickChild : (i : Fin n) → τ i → S → Option (Ticked (τ i) S)}
  {stop done : PatternStatus} {between : S → Prop} {paused : (i : Fin n) → τ i → S → Prop}

/-- The child at the cursor is where it has paused. -/
def PausedAt (paused : (i : Fin n) → τ i → S → Prop) (c : Cursor ((i : Fin n) → τ i)) (s : S) :
    Prop :=
  ∃ h : c.currentIndex < n, paused ⟨c.currentIndex, h⟩ (c.children ⟨c.currentIndex, h⟩) s

/-- A loop over the children goes on with the one at the cursor, and each of the next ones starts
where the one before it has led. -/
theorem cursorLoop_leads (hstop : isYieldingStatus stop = false)
    (hdone : isYieldingStatus done = false)
    (hchild : ∀ i held s out, between s ∨ paused i held s → tickChild i held s = some out →
      Leads out.status (paused i out.held out.state) (between out.state)) :
    ∀ (rounds : ℕ) (c : Cursor ((i : Fin n) → τ i)) (s : S)
      (out : Ticked (Cursor ((i : Fin n) → τ i)) S), n - c.currentIndex ≤ rounds →
      between s ∨ PausedAt paused c s → cursorLoop tickChild stop done rounds c s = some out →
      Leads out.status (PausedAt paused out.held out.state) (between out.state) := by
  intro rounds
  induction rounds with
  | zero =>
    intro c s out hrounds hs hloop
    have hbetween : between s := by
      rcases hs with hs | ⟨hlt, -⟩
      · exact hs
      · omega
    obtain rfl := Option.some.inj hloop
    simpa [Leads, hdone] using hbetween
  | succ rounds ih =>
    intro c s out hrounds hs hloop
    rw [cursorLoop] at hloop
    split at hloop
    · next hlt =>
      obtain ⟨mid, hmid, hrest⟩ := Option.bind_eq_some_iff.mp hloop
      have hstart : between s ∨ paused ⟨c.currentIndex, hlt⟩ (c.children ⟨c.currentIndex, hlt⟩) s :=
        hs.imp_right fun hpaused => hpaused.2
      have hmidLeads := hchild _ _ s mid hstart hmid
      simp only at hrest
      split at hrest
      · next hyields =>
        obtain rfl := Option.some.inj hrest
        simp only [Leads, hyields, if_true]
        refine ⟨hlt, ?_⟩
        simpa using hmidLeads.paused hyields
      · next hyields =>
        have hbetween := hmidLeads.between (by simpa using hyields)
        split at hrest
        · obtain rfl := Option.some.inj hrest
          simpa [Leads, hstop] using hbetween
        · refine ih _ mid.state out ?_ (Or.inl hbetween) hrest
          simp only
          omega
    · next hlt =>
      have hbetween : between s := by
        rcases hs with hs | ⟨hlt', -⟩
        · exact hs
        · exact absurd hlt' hlt
      obtain rfl := Option.some.inj hloop
      simpa [Leads, hdone] using hbetween

/-- The tick of a node with a cursor goes on with the child at the cursor. -/
theorem cursorTick_leads (hstop : isYieldingStatus stop = false)
    (hdone : isYieldingStatus done = false)
    (hchild : ∀ i held s out, between s ∨ paused i held s → tickChild i held s = some out →
      Leads out.status (paused i out.held out.state) (between out.state))
    {c : Cursor ((i : Fin n) → τ i)} {s : S} {out : Ticked (Cursor ((i : Fin n) → τ i)) S}
    (hs : between s ∨ PausedAt paused c s) (htick : cursorTick tickChild stop done c s = some out) :
    Leads out.status (PausedAt paused out.held out.state) (between out.state) := by
  unfold cursorTick at htick
  split at htick
  · next hn =>
    have hbetween : between s := by
      rcases hs with hs | ⟨hlt, -⟩
      · exact hs
      · omega
    obtain rfl := Option.some.inj htick
    simpa [Leads, hdone] using hbetween
  · exact cursorLoop_leads hstop hdone hchild _ c s out le_rfl hs htick

end Loop

namespace Node

variable {ok : L → Prop} {between : S → Prop} {paused : L → S → Prop}

/-- A tree goes on at a leaf. -/
def PausedLeaf (paused : L → S → Prop) (t : Node L) (held : t.Held) (s : S) : Prop :=
  ∃ leaf, t.current held = some leaf ∧ paused leaf s

/-- A sequence goes on with the child at its cursor. -/
theorem pausedLeaf_sequenceNode {n : ℕ} {children : Fin n → Node L}
    (c : (sequenceNode n children).Held) (s : S) :
    (sequenceNode n children).PausedLeaf paused c s ↔
      PausedAt (fun i held s => (children i).PausedLeaf paused held s) c s := by
  simp only [PausedLeaf, PausedAt, current]
  constructor
  · rintro ⟨leaf, hcurrent, hleaf⟩
    split at hcurrent
    · next hlt => exact ⟨hlt, leaf, hcurrent, hleaf⟩
    · cases hcurrent
  · rintro ⟨hlt, leaf, hcurrent, hleaf⟩
    exact ⟨leaf, by rw [dif_pos hlt, hcurrent], hleaf⟩

/-- A selector goes on with the child at its cursor. -/
theorem pausedLeaf_selectorNode {n : ℕ} {children : Fin n → Node L}
    (c : (selectorNode n children).Held) (s : S) :
    (selectorNode n children).PausedLeaf paused c s ↔
      PausedAt (fun i held s => (children i).PausedLeaf paused held s) c s :=
  @pausedLeaf_sequenceNode L S paused n children c s

/-- What the leaves keep between them and where they pause is kept by a tick of the tree. -/
theorem tick_leads (tickLeaf : L → S → PatternStatus × S) (rounds : ℕ)
    (hleaf : ∀ leaf s, ok leaf → between s ∨ paused leaf s →
      Leads (tickLeaf leaf s).1 (paused leaf (tickLeaf leaf s).2) (between (tickLeaf leaf s).2)) :
    ∀ (t : Node L), t.Sequential ok → ∀ (held : t.Held) (s : S) (out : Ticked t.Held S),
      between s ∨ t.PausedLeaf paused held s → t.tick tickLeaf rounds held s = some out →
      Leads out.status (t.PausedLeaf paused out.held out.state) (between out.state) := by
  intro t
  induction t with
  | leafNode leaf =>
    intro ht held s out hs htick
    have hstart : between s ∨ paused leaf s := by
      refine hs.imp_right fun hpaused => ?_
      obtain ⟨leaf', hcurrent, hpaused⟩ := hpaused
      exact Option.some.inj hcurrent ▸ hpaused
    have hout := hleaf leaf s ht hstart
    obtain rfl := Option.some.inj htick
    simp only [Leads] at hout ⊢
    split
    · next hyields => exact ⟨leaf, rfl, by rwa [if_pos hyields] at hout⟩
    · next hyields => rwa [if_neg hyields] at hout
  | sequenceNode n children ih =>
    intro ht c s out hs htick
    rw [pausedLeaf_sequenceNode] at hs ⊢
    exact cursorTick_leads rfl rfl (fun i held s out => ih i (ht i) held s out) hs htick
  | selectorNode n children ih =>
    intro ht c s out hs htick
    rw [pausedLeaf_selectorNode] at hs ⊢
    exact cursorTick_leads rfl rfl (fun i held s out => ih i (ht i) held s out) hs htick
  | parallelNode policy n children ih => exact fun ht => ht.elim
  | inverterNode child ih => exact fun ht => ht.elim
  | repeatNode times child ih => exact fun ht => ht.elim
  | retryNode maxAttempts child ih => exact fun ht => ht.elim

end Node

end PalmEngine.BehaviorTree
