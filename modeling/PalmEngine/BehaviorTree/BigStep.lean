import PalmEngine.BehaviorTree.Rerun
import PalmEngine.Lib.Until

/-!
# Ticking against direct evaluation

A tree of sequence, selector, inverter, bounded repeat and retry nodes is evaluated directly by
visiting its leaves in order, each of which answers at once. Ticked, a leaf may pause any finite
number of times before it answers. What a leaf answers, and how it pauses before, depends on the
answers so far in any way. A half-done run also has a direct evaluation, that of what is left to do,
and a tick that pauses does not change it.
-/

namespace PalmEngine.BehaviorTree

open PalmEngine.Lib

/-- How a leaf pauses. -/
inductive Pause where
  | running
  | waitingForInput
  deriving DecidableEq, Repr

/-- The status of a pause. -/
def Pause.status : Pause → PatternStatus
  | running => .running
  | waitingForInput => .waitingForInput

/-- The answers of leaves in order, success or not. -/
abbrev Answers (L : Type) := List (L × Bool)

/-- What leaves answer after the answers so far, and how they pause before. -/
structure Leaves (L : Type) where
  answer : Answers L → L → Bool
  pauses : Answers L → L → List Pause

/-- The answers so far, and the pauses left of a visit that has begun. -/
structure Visits (L : Type) where
  answers : Answers L
  pending : Option (List Pause)

variable {L : Type}

/-- The status of a result. -/
def resultStatus (success : Bool) : PatternStatus := if success then .success else .failure

/-- The tick of a leaf: it pauses if a pause of the visit is left, and answers otherwise. -/
def Leaves.tickLeaf (v : Leaves L) (leaf : L) (h : Visits L) : PatternStatus × Visits L :=
  match h.pending.getD (v.pauses h.answers leaf) with
  | pause :: rest => (pause.status, ⟨h.answers, some rest⟩)
  | [] =>
    let answer := v.answer h.answers leaf
    (resultStatus answer, ⟨h.answers ++ [(leaf, answer)], none⟩)

/-- Evaluate in order until one evaluation has the result that stops. -/
def evalUntil (stop : Bool) : List (Answers L → Bool × Answers L) → Answers L → Bool × Answers L
  | [], answers => (!stop, answers)
  | eval :: rest, answers =>
    if (eval answers).1 = stop then (stop, (eval answers).2)
    else evalUntil stop rest (eval answers).2

/-- What is left to do for a node with a cursor: its children from the cursor on. -/
def Cursor.resume {n : ℕ} {τ : Fin n → Type} (stop : Bool)
    (resume : (i : Fin n) → τ i → Answers L → Bool × Answers L)
    (c : Cursor ((i : Fin n) → τ i)) : Answers L → Bool × Answers L :=
  evalUntil stop (((List.finRange n).drop c.currentIndex).map fun i => resume i (c.children i))

/-- What is left to do for a node that counts to a bound: the rest of its child, and then its child
for what is left of the bound. -/
def Counter.resume {σ : Type} (stop : Bool) (bound : ℕ) (eval : Answers L → Bool × Answers L)
    (resume : σ → Answers L → Bool × Answers L) (c : Counter σ) :
    Answers L → Bool × Answers L :=
  evalUntil stop (resume c.child :: List.replicate (bound - c.count - 1) eval)

/-- The child at the cursor is in the middle of a visit. -/
def Cursor.Visiting {n : ℕ} {τ : Fin n → Type} (visiting : (i : Fin n) → τ i → Prop)
    (c : Cursor ((i : Fin n) → τ i)) : Prop :=
  ∃ i : Fin n, i.val = c.currentIndex ∧ visiting i (c.children i)

namespace Node

/-- A tree of sequence, selector, inverter, bounded repeat and retry nodes. -/
def Serial : Node L → Prop
  | leafNode _ => True
  | sequenceNode _ children | selectorNode _ children => ∀ i, (children i).Serial
  | parallelNode _ _ _ | repeatNode none _ => False
  | inverterNode child | repeatNode (some _) child | retryNode _ child => child.Serial

/-- The direct evaluation of a tree, in which every leaf answers at once. -/
def eval (v : Leaves L) : (t : Node L) → t.Serial → Answers L → Bool × Answers L
  | leafNode leaf, _ => fun answers =>
    (v.answer answers leaf, answers ++ [(leaf, v.answer answers leaf)])
  | sequenceNode n children, h =>
    evalUntil false ((List.finRange n).map fun i => (children i).eval v (h i))
  | selectorNode n children, h =>
    evalUntil true ((List.finRange n).map fun i => (children i).eval v (h i))
  | parallelNode _ _ _, h => h.elim
  | inverterNode child, h => fun answers =>
    (!(child.eval v h answers).1, (child.eval v h answers).2)
  | repeatNode none _, h => h.elim
  | repeatNode (some times) child, h => evalUntil false (List.replicate times (child.eval v h))
  | retryNode maxAttempts child, h =>
    evalUntil true (List.replicate maxAttempts (child.eval v h))

/-- The direct evaluation of what is left to do of a run. -/
def resume (v : Leaves L) : (t : Node L) → t.Serial → t.Held → Answers L → Bool × Answers L
  | leafNode leaf, _ => fun _ => (leafNode leaf).eval v trivial
  | sequenceNode _ children, h => Cursor.resume false fun i => (children i).resume v (h i)
  | selectorNode _ children, h => Cursor.resume true fun i => (children i).resume v (h i)
  | parallelNode _ _ _, h => h.elim
  | inverterNode child, h => fun held answers =>
    (!(child.resume v h held answers).1, (child.resume v h held answers).2)
  | repeatNode none _, h => h.elim
  | repeatNode (some times) child, h =>
    Counter.resume false times (child.eval v h) (child.resume v h)
  | retryNode maxAttempts child, h =>
    Counter.resume true maxAttempts (child.eval v h) (child.resume v h)

/-- The run is in the middle of a visit of a leaf. -/
def Visiting : (t : Node L) → t.Held → Prop
  | leafNode _ => fun _ => True
  | sequenceNode _ children | selectorNode _ children =>
    Cursor.Visiting fun i => (children i).Visiting
  | parallelNode _ _ _ => fun _ => False
  | inverterNode child => child.Visiting
  | repeatNode _ child | retryNode _ child => fun c => child.Visiting (Counter.child c)

end Node

namespace Visits

/-- How far a visit is from its answer; one that has not begun is further than any that has. -/
def ahead (h : Visits L) : WithTop ℕ := h.pending.elim ⊤ fun pauses => (pauses.length : ℕ)

/-- There are more answers, or as many and the visit is not further from its answer. -/
def Follows (h h' : Visits L) : Prop :=
  h.answers.length < h'.answers.length ∨
    h.answers.length = h'.answers.length ∧ h'.ahead ≤ h.ahead

/-- There are more answers, or as many and the visit is nearer to its answer. -/
def Advances (h h' : Visits L) : Prop :=
  h.answers.length < h'.answers.length ∨
    h.answers.length = h'.answers.length ∧ h'.ahead < h.ahead

/-- Following and then advancing. -/
theorem Follows.advances {h h' h'' : Visits L} (hf : h.Follows h') (ha : h'.Advances h'') :
    h.Advances h'' := by
  rcases hf with hlt | ⟨heq, hle⟩
  · rcases ha with hlt' | ⟨heq', -⟩
    · exact .inl (hlt.trans hlt')
    · exact .inl (heq' ▸ hlt)
  · rcases ha with hlt' | ⟨heq', hlt'⟩
    · exact .inl (heq ▸ hlt')
    · exact .inr ⟨heq.trans heq', hlt'.trans_le hle⟩

/-- Following twice. -/
theorem Follows.trans {h h' h'' : Visits L} (hf : h.Follows h') (hf' : h'.Follows h'') :
    h.Follows h'' := by
  rcases hf with hlt | ⟨heq, hle⟩
  · rcases hf' with hlt' | ⟨heq', -⟩
    · exact .inl (hlt.trans hlt')
    · exact .inl (heq' ▸ hlt)
  · rcases hf' with hlt' | ⟨heq', hle'⟩
    · exact .inl (heq ▸ hlt')
    · exact .inr ⟨heq.trans heq', hle'.trans hle⟩

end Visits

section Refines

variable {σ : Type} {n : ℕ} {τ : Fin n → Type} {ready visiting : σ → Prop}
  {resume : σ → Answers L → Bool × Answers L}

/-- A tick paused: the run is in the middle of a visit, nearer to its answer, and what is left to
do comes to the same. -/
structure Paused (visiting : σ → Prop) (resume : σ → Answers L → Bool × Answers L) (held : σ)
    (h : Visits L) (out : Ticked σ (Visits L)) : Prop where
  yields : isYieldingStatus out.status = true
  visiting : visiting out.held
  resume_eq : resume out.held out.state.answers = resume held h.answers
  advances : h.Advances out.state

/-- A tick ended the run with what was left to do done. -/
structure Ended (resume : σ → Answers L → Bool × Answers L) (held : σ) (h : Visits L)
    (out : Ticked σ (Visits L)) : Prop where
  status_eq : out.status = resultStatus (resume held h.answers).1
  answers_eq : out.state.answers = (resume held h.answers).2
  pending : out.state.pending = none
  follows : h.Follows out.state

/-- Every tick of a run returns, and it pauses the run or ends it. -/
def Refines (ready visiting : σ → Prop) (resume : σ → Answers L → Bool × Answers L)
    (tickChild : σ → Visits L → Option (Ticked σ (Visits L))) : Prop :=
  ∀ held h, ready held → h.pending = none ∨ visiting held →
    ∃ out, tickChild held h = some out ∧
      (Paused visiting resume held h out ∨ Ended resume held h out)

/-- A result does not pause. -/
theorem isYieldingStatus_resultStatus (success : Bool) :
    isYieldingStatus (resultStatus success) = false := by
  cases success <;> rfl

/-- Results are told apart by their statuses. -/
theorem resultStatus_inj {a b : Bool} : resultStatus a = resultStatus b ↔ a = b := by
  cases a <;> cases b <;> decide

/-- Only the first evaluation and the answers before it matter together. -/
theorem evalUntil_congr {stop : Bool} {e e' : Answers L → Bool × Answers L}
    {rest : List (Answers L → Bool × Answers L)} {a a' : Answers L} (h : e a = e' a') :
    evalUntil stop (e :: rest) a = evalUntil stop (e' :: rest) a' := by
  simp only [evalUntil, h]

/-- The indices from one on. -/
private theorem drop_finRange {k : ℕ} (h : k < n) :
    (List.finRange n).drop k = ⟨k, h⟩ :: (List.finRange n).drop (k + 1) := by
  rw [List.drop_eq_getElem_cons (by simpa using h)]
  simp

/-- The first child from the cursor on, and what is left after it. -/
private theorem Cursor.resume_eq {resume : (i : Fin n) → τ i → Answers L → Bool × Answers L}
    {stop : Bool} {k : ℕ} {children : (i : Fin n) → τ i} (h : k < n) :
    Cursor.resume stop resume ⟨k, children⟩ =
      evalUntil stop (resume ⟨k, h⟩ (children ⟨k, h⟩) ::
        ((List.finRange n).drop (k + 1)).map fun i => resume i (children i)) := by
  unfold Cursor.resume
  rw [drop_finRange h]
  rfl

/-- What is left after the cursor does not depend on the child at the cursor. -/
private theorem map_drop_update {resume : (i : Fin n) → τ i → Answers L → Bool × Answers L} {k : ℕ}
    (h : k < n) (children : (i : Fin n) → τ i) (held : τ ⟨k, h⟩) :
    (((List.finRange n).drop (k + 1)).map fun i =>
        resume i (Function.update children ⟨k, h⟩ held i)) =
      ((List.finRange n).drop (k + 1)).map fun i => resume i (children i) := by
  refine List.map_congr_left fun i hi => ?_
  obtain ⟨j, hj, rfl⟩ := List.mem_drop_iff_getElem.mp hi
  have hne : (List.finRange n)[k + 1 + j] ≠ ⟨k, h⟩ := by
    intro heq
    have hval := congrArg Fin.val heq
    simp only [List.getElem_finRange, Fin.val_cast] at hval
    omega
  rw [Function.update_of_ne hne]

/-- The loop of a node with a cursor evaluates its children from the cursor on. -/
theorem cursorLoop_refines {ready visiting : (i : Fin n) → τ i → Prop}
    {resume : (i : Fin n) → τ i → Answers L → Bool × Answers L}
    {tickChild : (i : Fin n) → τ i → Visits L → Option (Ticked (τ i) (Visits L))} (stop : Bool)
    (hchild : ∀ i, Refines (ready i) (visiting i) (resume i) (tickChild i)) {rounds : ℕ}
    {c : Cursor ((i : Fin n) → τ i)} {h : Visits L} (hrounds : n ≤ c.currentIndex + rounds)
    (hready : ∀ i : Fin n, c.currentIndex ≤ i.val → ready i (c.children i))
    (hvisit : h.pending = none ∨ c.Visiting visiting) :
    ∃ out, cursorLoop tickChild (resultStatus stop) (resultStatus !stop) rounds c h = some out ∧
      (Paused (Cursor.Visiting visiting) (Cursor.resume stop resume) c h out ∨
        Ended (Cursor.resume stop resume) c h out) := by
  have hend (c : Cursor ((i : Fin n) → τ i)) (h : Visits L) (hindex : n ≤ c.currentIndex)
      (hvisit : h.pending = none ∨ c.Visiting visiting) :
      Ended (Cursor.resume stop resume) c h ⟨resultStatus !stop, ⟨0, c.children⟩, h⟩ := by
    have hnil : (List.finRange n).drop c.currentIndex = [] :=
      List.drop_eq_nil_of_le (by simpa using hindex)
    refine ⟨?_, ?_, ?_, .inr ⟨rfl, le_rfl⟩⟩
    · simp [Cursor.resume, hnil, evalUntil]
    · simp [Cursor.resume, hnil, evalUntil]
    · refine hvisit.resolve_right ?_
      rintro ⟨i, hi, -⟩
      exact absurd i.isLt (hi ▸ hindex.not_gt)
  induction rounds generalizing c h with
  | zero => exact ⟨_, rfl, .inr (hend c h hrounds hvisit)⟩
  | succ rounds ih =>
    obtain ⟨k, children⟩ := c
    have hrounds : n ≤ k + (rounds + 1) := hrounds
    by_cases hk : k < n
    · have hvisitChild : h.pending = none ∨ visiting ⟨k, hk⟩ (children ⟨k, hk⟩) := by
        refine hvisit.imp_right ?_
        rintro ⟨i, rfl, hi⟩
        exact hi
      obtain ⟨res, hres, hcase⟩ := hchild _ _ h (hready ⟨k, hk⟩ le_rfl) hvisitChild
      simp only [cursorLoop, hk, dite_true, hres, Option.bind_some]
      rcases hcase with hpaused | hended
      · rw [if_pos hpaused.yields]
        refine ⟨_, rfl, .inl ⟨hpaused.yields, ⟨⟨k, hk⟩, rfl, ?_⟩, ?_, hpaused.advances⟩⟩
        · simpa using hpaused.visiting
        · rw [Cursor.resume_eq hk, Cursor.resume_eq hk, map_drop_update]
          refine evalUntil_congr ?_
          simpa using hpaused.resume_eq
      · have hstep : Cursor.resume stop resume ⟨k, children⟩ h.answers =
            if (resume ⟨k, hk⟩ (children ⟨k, hk⟩) h.answers).1 = stop then
              (stop, res.state.answers)
            else Cursor.resume stop resume
              ⟨k + 1, Function.update children ⟨k, hk⟩ res.held⟩ res.state.answers := by
          rw [Cursor.resume_eq hk, evalUntil, Cursor.resume, map_drop_update, hended.answers_eq]
        rw [hended.status_eq, isYieldingStatus_resultStatus, if_neg (by decide)]
        simp only [resultStatus_inj]
        split
        · rename_i hstop
          rw [if_pos hstop] at hstep
          refine ⟨_, rfl, .inr ⟨?_, ?_, hended.pending, hended.follows⟩⟩
          · rw [hstep]
          · rw [hstep]
        · rename_i hgo
          rw [if_neg hgo] at hstep
          have hready' (i : Fin n) (hi : k + 1 ≤ i.val) :
              ready i (Function.update children ⟨k, hk⟩ res.held i) := by
            have hne : i ≠ ⟨k, hk⟩ := by
              rintro rfl
              exact absurd hi (Nat.not_succ_le_self k)
            rw [Function.update_of_ne hne]
            exact hready i (Nat.le_of_succ_le hi)
          obtain ⟨out, hout, hcase⟩ := ih
            (c := ⟨k + 1, Function.update children ⟨k, hk⟩ res.held⟩) (h := res.state)
            (by simp only; omega) hready' (.inl hended.pending)
          refine ⟨out, hout, hcase.imp (fun hp => ?_) fun he => ?_⟩
          · exact ⟨hp.yields, hp.visiting, hp.resume_eq.trans hstep.symm,
              hended.follows.advances hp.advances⟩
          · exact ⟨hstep ▸ he.status_eq, hstep ▸ he.answers_eq, he.pending,
              hended.follows.trans he.follows⟩
    · have hloop : cursorLoop tickChild (resultStatus stop) (resultStatus !stop) (rounds + 1)
          ⟨k, children⟩ h = some ⟨resultStatus !stop, ⟨0, children⟩, h⟩ := by
        simp only [cursorLoop, hk, dite_false]
      exact ⟨_, hloop, .inr (hend ⟨k, children⟩ h (not_lt.mp hk) hvisit)⟩

/-- A node with a cursor evaluates its children from the cursor on. -/
theorem cursorTick_refines {rested ready visiting : (i : Fin n) → τ i → Prop}
    {resume : (i : Fin n) → τ i → Answers L → Bool × Answers L}
    {tickChild : (i : Fin n) → τ i → Visits L → Option (Ticked (τ i) (Visits L))} (stop : Bool)
    (hchild : ∀ i, Refines (ready i) (visiting i) (resume i) (tickChild i)) :
    Refines (Cursor.Ready rested ready) (Cursor.Visiting visiting) (Cursor.resume stop resume)
      (cursorTick tickChild (resultStatus stop) (resultStatus !stop)) := by
  intro c h hc hvisit
  by_cases hn : n = 0
  · subst hn
    refine ⟨_, rfl, .inr ⟨?_, ?_, hvisit.resolve_right ?_, .inr ⟨rfl, le_rfl⟩⟩⟩
    · simp [Cursor.resume, evalUntil]
    · simp [Cursor.resume, evalUntil]
    · rintro ⟨i, -⟩
      exact i.elim0
  · simp only [cursorTick, hn, if_false]
    exact cursorLoop_refines stop hchild (by omega) (fun i _ => hc.ready i) hvisit

section Counting

variable {tickChild : σ → Visits L → Option (Ticked σ (Visits L))}
  {eval : Answers L → Bool × Answers L} {c : Counter σ} {h : Visits L} {stop : Bool} {bound : ℕ}

/-- When the child pauses, what is left to do for a node that counts comes to the same. -/
private theorem Paused.counter {res : Ticked σ (Visits L)}
    (hpaused : Paused visiting resume c.child h res) :
    Paused (fun c : Counter σ => visiting c.child) (Counter.resume stop bound eval resume) c h
      ⟨res.status, ⟨c.count, res.held⟩, res.state⟩ where
  yields := hpaused.yields
  visiting := hpaused.visiting
  resume_eq := evalUntil_congr hpaused.resume_eq
  advances := hpaused.advances

/-- When the child has ended, the node that counts is done, or goes on with its child afresh. -/
private theorem Ended.counter {res : Ticked σ (Visits L)} (hended : Ended resume c.child h res)
    (hnext : resume res.held = eval) :
    Counter.resume stop bound eval resume c h.answers =
      if (resume c.child h.answers).1 = stop then (stop, res.state.answers)
      else if bound ≤ c.count + 1 then (!stop, res.state.answers)
      else Counter.resume stop bound eval resume ⟨c.count + 1, res.held⟩ res.state.answers := by
  rw [Counter.resume, evalUntil, ← hended.answers_eq]
  split
  · rfl
  · split
    · rename_i hbound
      rw [Nat.sub_sub, Nat.sub_eq_zero_of_le hbound]
      rfl
    · rename_i hbound
      have hmore : bound - c.count - 1 = bound - (c.count + 1) - 1 + 1 := by omega
      rw [Counter.resume, hnext, hmore, List.replicate_succ]

/-- A node that counts is done with its child. -/
private theorem Ended.of_counter {res : Ticked σ (Visits L)} {success : Bool}
    (hended : Ended resume c.child h res) {resume' : Counter σ → Answers L → Bool × Answers L}
    (heq : resume' c h.answers = (success, res.state.answers)) :
    Ended resume' c h ⟨resultStatus success, ⟨0, res.held⟩, res.state⟩ where
  status_eq := by rw [heq]
  answers_eq := by rw [heq]
  pending := hended.pending
  follows := hended.follows

/-- What holds of a node that goes on with its child holds of the node before. -/
private theorem Ended.goesOn {res : Ticked σ (Visits L)} {out : Ticked (Counter σ) (Visits L)}
    {c' : Counter σ} (hended : Ended resume c.child h res)
    {resume' : Counter σ → Answers L → Bool × Answers L} {visiting' : Counter σ → Prop}
    (heq : resume' c h.answers = resume' c' res.state.answers)
    (hcase : Paused visiting' resume' c' res.state out ∨ Ended resume' c' res.state out) :
    Paused visiting' resume' c h out ∨ Ended resume' c h out := by
  refine hcase.imp (fun hp => ?_) fun he => ?_
  · exact ⟨hp.yields, hp.visiting, hp.resume_eq.trans heq.symm,
      hended.follows.advances hp.advances⟩
  · exact ⟨heq ▸ he.status_eq, heq ▸ he.answers_eq, he.pending, hended.follows.trans he.follows⟩

/-- A bounded repeat node evaluates its child for what is left of the bound. -/
theorem repeatLoop_refines {times : ℕ+} (hchild : Refines ready visiting resume tickChild)
    (hnext : ∀ held h out, ready held → tickChild held h = some out →
      isYieldingStatus out.status = false → ready out.held ∧ resume out.held = eval) :
    Refines (fun c => reached (some times) c.count = false ∧ ready c.child)
      (fun c => visiting c.child) (Counter.resume false times eval resume)
      fun c => repeatLoop tickChild (some times) (times - c.count + 1) c := by
  intro c h hc hvisit
  have hrounds : (times : ℕ) ≤ c.count + (times - c.count + 1) := by omega
  have hpos : 0 < times - c.count + 1 := Nat.succ_pos _
  dsimp only
  generalize times - c.count + 1 = rounds at hrounds hpos
  induction rounds generalizing c h with
  | zero => exact absurd hpos (Nat.lt_irrefl 0)
  | succ rounds ih =>
    obtain ⟨res, hres, hcase⟩ := hchild c.child h hc.2 hvisit
    simp only [repeatLoop, hc.1, Bool.false_eq_true, if_false, hres, Option.bind_some]
    rcases hcase with hpaused | hended
    · rw [if_pos hpaused.yields]
      exact ⟨_, rfl, .inl hpaused.counter⟩
    · have hterminal : isYieldingStatus res.status = false := by
        rw [hended.status_eq, isYieldingStatus_resultStatus]
      obtain ⟨hready, heval⟩ := hnext _ _ _ hc.2 hres hterminal
      have hstep := @Ended.counter _ _ resume eval c h false times _ hended heval
      rw [if_neg (Bool.eq_false_iff.mp hterminal), hended.status_eq]
      by_cases hfailed : (resume c.child h.answers).1 = false
      · rw [if_pos hfailed] at hstep
        rw [hfailed, if_pos (show resultStatus false = .failure from rfl)]
        exact ⟨_, rfl, .inr (hended.of_counter hstep)⟩
      · rw [if_neg hfailed] at hstep
        rw [Bool.eq_true_of_not_eq_false hfailed, if_neg (by decide)]
        by_cases hreached : (times : ℕ) ≤ c.count + 1
        · rw [if_pos hreached] at hstep
          rw [if_pos (by simpa [reached] using hreached)]
          exact ⟨_, rfl, .inr (hended.of_counter hstep)⟩
        · rw [if_neg hreached] at hstep
          have hmore : reached (some times) (c.count + 1) = false := by
            simpa [reached] using hreached
          rw [if_neg (by simp [hmore])]
          obtain ⟨out, hout, hcase⟩ := ih ⟨c.count + 1, res.held⟩ res.state ⟨hmore, hready⟩
            (.inl hended.pending) (by simp only; omega) (by omega)
          exact ⟨out, hout, hended.goesOn hstep hcase⟩

/-- A retry node evaluates its child for what is left of the attempts. -/
theorem retryLoop_refines {maxAttempts : ℕ+} (hchild : Refines ready visiting resume tickChild)
    (hnext : ∀ held h out, ready held → tickChild held h = some out →
      isYieldingStatus out.status = false → ready out.held ∧ resume out.held = eval) :
    Refines (fun c => ready c.child) (fun c => visiting c.child)
      (Counter.resume true maxAttempts eval resume)
      fun c => retryLoop tickChild maxAttempts (maxAttempts - c.count + 1) c := by
  intro c h hc hvisit
  have hrounds : (maxAttempts : ℕ) ≤ c.count + (maxAttempts - c.count + 1) := by omega
  have hpos : 0 < maxAttempts - c.count + 1 := Nat.succ_pos _
  dsimp only
  generalize maxAttempts - c.count + 1 = rounds at hrounds hpos
  induction rounds generalizing c h with
  | zero => exact absurd hpos (Nat.lt_irrefl 0)
  | succ rounds ih =>
    obtain ⟨res, hres, hcase⟩ := hchild c.child h hc hvisit
    simp only [retryLoop, hres, Option.bind_some]
    rcases hcase with hpaused | hended
    · rw [if_pos hpaused.yields]
      exact ⟨_, rfl, .inl hpaused.counter⟩
    · have hterminal : isYieldingStatus res.status = false := by
        rw [hended.status_eq, isYieldingStatus_resultStatus]
      obtain ⟨hready, heval⟩ := hnext _ _ _ hc hres hterminal
      have hstep := @Ended.counter _ _ resume eval c h true maxAttempts _ hended heval
      rw [if_neg (Bool.eq_false_iff.mp hterminal), hended.status_eq]
      by_cases hsucceeded : (resume c.child h.answers).1 = true
      · rw [if_pos hsucceeded] at hstep
        rw [hsucceeded, if_pos (show resultStatus true = .success from rfl)]
        exact ⟨_, rfl, .inr (hended.of_counter hstep)⟩
      · rw [if_neg hsucceeded] at hstep
        rw [Bool.eq_false_iff.mpr hsucceeded, if_neg (by decide)]
        by_cases hreached : (maxAttempts : ℕ) ≤ c.count + 1
        · rw [if_pos hreached] at hstep ⊢
          exact ⟨_, rfl, .inr (hended.of_counter hstep)⟩
        · rw [if_neg hreached] at hstep ⊢
          obtain ⟨out, hout, hcase⟩ := ih ⟨c.count + 1, res.held⟩ res.state hready
            (.inl hended.pending) (by simp only; omega) (by omega)
          exact ⟨out, hout, hended.goesOn hstep hcase⟩

end Counting

end Refines

/-- Evaluating keeps the answers there are, if every evaluation does. -/
private theorem le_length_evalUntil {stop : Bool} {evals : List (Answers L → Bool × Answers L)}
    (h : ∀ e ∈ evals, ∀ a, a.length ≤ (e a).2.length) (a : Answers L) :
    a.length ≤ (evalUntil stop evals a).2.length := by
  induction evals generalizing a with
  | nil => exact le_rfl
  | cons e rest ih =>
    have he := h e List.mem_cons_self a
    simp only [evalUntil]
    split
    · exact he
    · exact he.trans (ih (fun e' he' => h e' (List.mem_cons_of_mem _ he')) _)

namespace Node

variable {v : Leaves L}

/-- A serial tree has no parallel nodes. -/
theorem Serial.parallelFree {t : Node L} (h : t.Serial) : t.ParallelFree := by
  induction t with
  | leafNode leaf => trivial
  | sequenceNode n children ih | selectorNode n children ih => exact fun i => ih i (h i)
  | parallelNode policy n children ih => exact h.elim
  | inverterNode child ih | retryNode maxAttempts child ih => exact ih h
  | repeatNode times child ih =>
    cases times with
    | none => exact h.elim
    | some times => exact ih h

/-- Evaluating a tree keeps the answers there are. -/
theorem le_length_eval {t : Node L} (h : t.Serial) (a : Answers L) :
    a.length ≤ (t.eval v h a).2.length := by
  induction t generalizing a with
  | leafNode leaf => simp [eval]
  | sequenceNode n children ih | selectorNode n children ih =>
    refine le_length_evalUntil (fun e he a => ?_) a
    obtain ⟨i, -, rfl⟩ := List.mem_map.mp he
    exact ih i (h i) a
  | parallelNode policy n children ih => exact h.elim
  | inverterNode child ih => exact ih h a
  | repeatNode times child ih =>
    cases times with
    | none => exact h.elim
    | some times =>
      refine le_length_evalUntil (fun e he a => ?_) a
      rw [List.eq_of_mem_replicate he]
      exact ih h a
  | retryNode maxAttempts child ih =>
    refine le_length_evalUntil (fun e he a => ?_) a
    rw [List.eq_of_mem_replicate he]
    exact ih h a

/-- Evaluating what is left to do of a node that counts keeps the answers there are. -/
private theorem le_length_counter {t : Node L} {h : t.Serial} {stop : Bool} {bound : ℕ}
    {c : Counter t.Held} (hchild : ∀ a, a.length ≤ (t.resume v h c.child a).2.length)
    (a : Answers L) :
    a.length ≤ (Counter.resume stop bound (t.eval v h) (t.resume v h) c a).2.length := by
  refine le_length_evalUntil (fun e he a => ?_) a
  rcases List.mem_cons.mp he with rfl | he
  · exact hchild a
  · rw [List.eq_of_mem_replicate he]
    exact le_length_eval h a

/-- Evaluating what is left to do keeps the answers there are. -/
theorem le_length_resume {t : Node L} (h : t.Serial) (held : t.Held) (a : Answers L) :
    a.length ≤ (t.resume v h held a).2.length := by
  induction t generalizing a with
  | leafNode leaf => simp [resume, eval]
  | sequenceNode n children ih | selectorNode n children ih =>
    refine le_length_evalUntil (fun e he a => ?_) a
    obtain ⟨i, -, rfl⟩ := List.mem_map.mp he
    exact ih i (h i) _ a
  | parallelNode policy n children ih => exact h.elim
  | inverterNode child ih => exact ih h held a
  | repeatNode times child ih =>
    cases times with
    | none => exact h.elim
    | some times => exact le_length_counter (ih h _) a
  | retryNode maxAttempts child ih => exact le_length_counter (ih h _) a

/-- After a reset everything is left to do. -/
theorem resume_reset {t : Node L} (h : t.Serial) : t.resume v h t.reset = t.eval v h := by
  have hcounter {child : Node L} {h : child.Serial} {stop : Bool} (bound : ℕ+)
      (ih : child.resume v h child.reset = child.eval v h) :
      Counter.resume stop bound (child.eval v h) (child.resume v h) ⟨0, child.reset⟩ =
        evalUntil stop (List.replicate bound (child.eval v h)) := by
    obtain ⟨k, hk⟩ := Nat.exists_eq_succ_of_ne_zero bound.ne_zero
    rw [Counter.resume, ih, hk, List.replicate_succ]
    rfl
  have hcursor {n : ℕ} {children : Fin n → Node L} {stop : Bool} {h : ∀ i, (children i).Serial}
      (ih : ∀ i, (children i).resume v (h i) (children i).reset = (children i).eval v (h i)) :
      Cursor.resume stop (fun i => (children i).resume v (h i)) ⟨0, fun i => (children i).reset⟩ =
        evalUntil stop ((List.finRange n).map fun i => (children i).eval v (h i)) := by
    simp only [Cursor.resume, List.drop_zero, ih]
  induction t with
  | leafNode leaf => rfl
  | sequenceNode n children ih => exact hcursor (h := h) fun i => ih i (h i)
  | selectorNode n children ih => exact hcursor (h := h) fun i => ih i (h i)
  | parallelNode policy n children ih => exact h.elim
  | inverterNode child ih =>
    funext answers
    simp only [resume, eval]
    rw [show (inverterNode child).reset = child.reset from rfl, ih h]
  | repeatNode times child ih =>
    cases times with
    | none => exact h.elim
    | some times => exact hcounter times (ih h)
  | retryNode maxAttempts child ih => exact hcounter maxAttempts (ih h)

/-- The tick of a leaf pauses or ends its visit. -/
theorem leaf_refines (v : Leaves L) (leaf : L) :
    Refines (fun _ : Unit => True) (fun _ => True) (fun _ => (leafNode leaf).eval v trivial)
      fun held h => some ⟨(v.tickLeaf leaf h).1, held, (v.tickLeaf leaf h).2⟩ := by
  intro held h _ _
  refine ⟨_, rfl, ?_⟩
  unfold Leaves.tickLeaf
  split
  · rename_i pause rest hpauses
    refine .inl ⟨?_, trivial, rfl, .inr ⟨rfl, ?_⟩⟩
    · cases pause <;> rfl
    · cases hpending : h.pending with
      | none => simp [Visits.ahead, hpending]
      | some pauses =>
        rw [hpending, Option.getD_some] at hpauses
        rw [Visits.ahead, Visits.ahead, hpending, hpauses]
        exact WithTop.coe_lt_coe.mpr (Nat.lt_succ_self _)
  · exact .inr ⟨rfl, rfl, rfl, .inl (by simp)⟩

/-- When the child pauses, the inverter node pauses. -/
private theorem Paused.inverter {child : Node L} {h : child.Serial} {held : child.Held}
    {visits : Visits L} {res : Ticked child.Held (Visits L)}
    (hpaused : Paused child.Visiting (child.resume v h) held visits res) :
    Paused (σ := (inverterNode child).Held) (inverterNode child).Visiting
      ((inverterNode child).resume v h) held visits
      ⟨if res.status = .success then .failure else if res.status = .failure then .success
        else res.status, res.held, res.state⟩ where
  yields := by
    have hyields := hpaused.yields
    cases hstatus : res.status with
    | success | failure => simp [hstatus, isYieldingStatus] at hyields
    | running | waitingForInput => rfl
  visiting := hpaused.visiting
  resume_eq := by
    simp only [resume, hpaused.resume_eq]
  advances := hpaused.advances

/-- When the child has ended, the inverter node has the other result. -/
private theorem Ended.inverter {child : Node L} {h : child.Serial} {held : child.Held}
    {visits : Visits L} {res : Ticked child.Held (Visits L)}
    (hended : Ended (child.resume v h) held visits res) :
    Ended (σ := (inverterNode child).Held) ((inverterNode child).resume v h) held visits
      ⟨if res.status = .success then .failure else if res.status = .failure then .success
        else res.status, res.held, res.state⟩ where
  status_eq := by
    simp only [resume, hended.status_eq]
    cases (child.resume v h held visits.answers).1 <;> rfl
  answers_eq := hended.answers_eq
  pending := hended.pending
  follows := hended.follows

/-- Every tick of a serial tree pauses or ends its run. -/
theorem tick_refines (v : Leaves L) (rounds : ℕ) {t : Node L} (h : t.Serial) :
    Refines t.Ready t.Visiting (t.resume v h) (t.tick v.tickLeaf rounds) := by
  have hnext (child : Node L) (h : child.Serial) (held : child.Held) (visits : Visits L)
      (out : Ticked child.Held (Visits L)) (hready : child.Ready held)
      (hout : child.tick v.tickLeaf rounds held visits = some out)
      (hterminal : isYieldingStatus out.status = false) :
      child.Ready out.held ∧ child.resume v h out.held = child.eval v h := by
    have hsettles := child.tick_settles v.tickLeaf rounds held visits out hready hout
    refine ⟨hsettles.1, ?_⟩
    rw [(hsettles.2 hterminal).eq_reset h.parallelFree, resume_reset]
  induction t with
  | leafNode leaf => exact leaf_refines v leaf
  | sequenceNode n children ih => exact cursorTick_refines false fun i => ih i (h i)
  | selectorNode n children ih => exact cursorTick_refines true fun i => ih i (h i)
  | parallelNode policy n children ih => exact h.elim
  | inverterNode child ih =>
    intro held visits hready hvisit
    obtain ⟨res, hres, hcase⟩ := ih h held visits hready hvisit
    have hout : (inverterNode child).tick v.tickLeaf rounds held visits = some ⟨_, _, _⟩ :=
      Option.map_eq_some_iff.mpr ⟨res, hres, rfl⟩
    refine ⟨_, hout, ?_⟩
    rcases hcase with hpaused | hended
    · exact .inl (Paused.inverter hpaused)
    · exact .inr (Ended.inverter hended)
  | repeatNode times child ih =>
    cases times with
    | none => exact h.elim
    | some times => exact repeatLoop_refines (ih h) (hnext child h)
  | retryNode maxAttempts child ih => exact retryLoop_refines (ih h) (hnext child h)

/-- One tick of the root: the run goes on if the tick pauses it. -/
def tickRoot (v : Leaves L) (rounds : ℕ) (t : Node L) (run : t.Held × Visits L) :
    Option (t.Held × Visits L ⊕ Ticked t.Held (Visits L)) :=
  (t.tick v.tickLeaf rounds run.1 run.2).map fun out =>
    if isYieldingStatus out.status then .inl (out.held, out.state) else .inr out

/-- A run is between two ticks. -/
def BetweenTicks (t : Node L) (run : t.Held × Visits L) : Prop :=
  t.Ready run.1 ∧ (run.2.pending = none ∨ t.Visiting run.1)

/-- A tick that ends a run has the result and the answers of what was left to do. -/
def EndsAs (v : Leaves L) {t : Node L} (h : t.Serial) (run : t.Held × Visits L)
    (out : Ticked t.Held (Visits L)) : Prop :=
  out.status = resultStatus (t.resume v h run.1 run.2.answers).1 ∧
    out.state.answers = (t.resume v h run.1 run.2.answers).2

/-- What a tick that pauses brings nearer: the answers still to come, and then the answer of the
visit. -/
def remaining (v : Leaves L) {t : Node L} (h : t.Serial) (run : t.Held × Visits L) :
    ℕ ×ₗ WithTop ℕ :=
  toLex ((t.resume v h run.1 run.2.answers).2.length - run.2.answers.length, run.2.ahead)

/-- A tick that pauses brings the end nearer. -/
theorem remaining_lt {t : Node L} {h : t.Serial} {held : t.Held} {visits : Visits L}
    {out : Ticked t.Held (Visits L)}
    (hpaused : Paused t.Visiting (t.resume v h) held visits out) :
    remaining v h (out.held, out.state) < remaining v h (held, visits) := by
  have hle := le_length_resume (v := v) h out.held out.state.answers
  rw [remaining, remaining, Prod.Lex.toLex_lt_toLex, hpaused.resume_eq]
  rw [hpaused.resume_eq] at hle
  rcases hpaused.advances with hlt | ⟨heq, hlt⟩
  · exact .inl (by simp only; omega)
  · exact .inr ⟨by simp only [heq], hlt⟩

/-- A tick between two ticks goes on to another one nearer to the same end, or ends the run. -/
theorem tickRoot_cases (v : Leaves L) (rounds : ℕ) {t : Node L} (h : t.Serial)
    {run : t.Held × Visits L} (hbetween : t.BetweenTicks run) :
    (∃ run', t.tickRoot v rounds run = some (.inl run') ∧ t.BetweenTicks run' ∧
      remaining v h run' < remaining v h run ∧ ∀ out, EndsAs v h run' out → EndsAs v h run out) ∨
    ∃ out, t.tickRoot v rounds run = some (.inr out) ∧ EndsAs v h run out := by
  obtain ⟨held, visits⟩ := run
  obtain ⟨out, hout, hcase⟩ := tick_refines v rounds h held visits hbetween.1 hbetween.2
  have hready := (t.tick_settles v.tickLeaf rounds held visits out hbetween.1 hout).1
  rcases hcase with hpaused | hended
  · left
    refine ⟨(out.held, out.state), ?_, ⟨hready, .inr hpaused.visiting⟩, remaining_lt hpaused, ?_⟩
    · simp [tickRoot, hout, hpaused.yields]
    · intro last hlast
      rw [EndsAs, hpaused.resume_eq] at hlast
      exact hlast
  · right
    refine ⟨out, ?_, hended.status_eq, hended.answers_eq⟩
    simp [tickRoot, hout, hended.status_eq, isYieldingStatus_resultStatus]

end Node

/-- However the leaves pause, ticking a serial tree until it returns success or failure comes to an
end, and it ends with the result of the direct evaluation and with the answers of the leaves in
the same order. -/
theorem tick_until_eq_eval {L : Type} (v : Leaves L) (rounds : ℕ) {t : Node L} (h : t.Serial)
    (answers : Answers L) :
    ∃ enough, ∀ ticks ≥ enough, ∃ out,
      untilEnd (t.tickRoot v rounds) ticks (t.reset, ⟨answers, none⟩) = some out ∧
      out.status = resultStatus (t.eval v h answers).1 ∧
      out.state.answers = (t.eval v h answers).2 := by
  have hbetween : t.BetweenTicks (t.reset, ⟨answers, none⟩) := ⟨t.rested_reset.ready, .inl rfl⟩
  have hwf : WellFounded fun run' run => Node.remaining v h run' < Node.remaining v h run :=
    InvImage.wf _ wellFounded_lt
  obtain ⟨enough, out, hends, hout⟩ :=
    exists_untilEnd hwf (fun run => Node.tickRoot_cases v rounds h) hbetween
  rw [Node.EndsAs, Node.resume_reset] at hends
  exact ⟨enough, fun ticks hticks => ⟨out, untilEnd_mono hticks hout, hends⟩⟩

/-- Two attempts at a first leaf and then a second one. -/
def retryThenFinish : Node Bool :=
  .sequenceNode 2 fun i =>
    if i.val = 0 then .retryNode (Nat.succPNat 1) (.inverterNode (.leafNode false))
    else .leafNode true

/-- Every leaf waits once; the first one succeeds only at first. -/
def waitsOnce : Leaves Bool where
  answer answers leaf := leaf || answers.isEmpty
  pauses _ _ := [.waitingForInput]

/-- A leaf that succeeds fails its inverter, which is tried again. -/
theorem tick_until_eq_eval_retryThenFinish : ∃ enough, ∀ ticks ≥ enough, ∃ out,
    untilEnd (retryThenFinish.tickRoot waitsOnce 0) ticks (retryThenFinish.reset, ⟨[], none⟩) =
      some out ∧ out.status = .success ∧
        out.state.answers = [(false, true), (false, false), (true, true)] := by
  have h : retryThenFinish.Serial := by
    intro i
    fin_cases i <;> trivial
  obtain ⟨enough, henough⟩ := tick_until_eq_eval waitsOnce 0 h []
  exact ⟨enough, henough⟩

end PalmEngine.BehaviorTree
