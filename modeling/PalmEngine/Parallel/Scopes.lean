import PalmEngine.Parallel.Pattern

/-!
# The scopes of parallel branches

A branch puts its scope on the stack of the parent when it is entered and takes it off when it
ends, but only if the scope is the innermost one at that moment. So the stack is as before the first
tick when the pattern ends if every branch that ends is the innermost one and none is left behind.
The stored snapshots of the other branches are never changed by the turn of a branch.
-/

namespace PalmEngine.Parallel

open PalmEngine.Lib PalmEngine.Context PalmEngine.BehaviorTree

namespace ParallelPattern

variable {n : ℕ} {σ : Type} (p : ParallelPattern n σ)

/-- What the executable of a branch does in its turn. -/
def turnCall (i : Fin n) (w : World n σ) : PatternStatus × Called σ :=
  (p.executables i).tick (w.runners i).executable (p.ensureBranchState i w).1

/-- What a branch returns in its turn. -/
def turnStatus (i : Fin n) (w : World n σ) : PatternStatus :=
  if (w.runners i).completed then .success else (p.turnCall i w).1

/-- The turn of a branch nests its scope: the scope is not the innermost one before it is entered;
when the branch ends the scope is the innermost one, a context engine is bound to the parent, and no
other branch is entered if the pattern ends with it. -/
structure NestsScope (i : Fin n) (w : World n σ) : Prop where
  enters : (w.runners i).scopeEntered = false → w.parent.currentScope ≠ some (p.slug i)
  innermost : isYieldingStatus (p.turnStatus i w) = false → (w.runners i).scopeEntered = true →
    w.parent.currentScope = some (p.slug i)
  bound : isYieldingStatus (p.turnStatus i w) = false → w.context.isSome →
    (p.turnCall i w).2.binding = .same ∧
      ((w.runners i).scopeEntered = true → w.context = some .parent)
  alone : endsNode p.config.parallelPolicy (p.turnStatus i w) →
    ∀ j ≠ i, (w.runners j).scopeEntered = false

/-- Every branch that has its turn in a tick nests its scope, and a value is given only to a branch
whose scope is entered. -/
def NestsScopes (s : System n σ) (call : Call) : Prop :=
  match call with
  | .tick => p.done s.world.parent = false → ∀ turn ∈ p.turns s, p.NestsScope turn.1 turn.2
  | .provideInput _ =>
    ∀ i, (s.world.parent.get ParallelKeys.activeBranch).bind Value.asStr = some (p.slug i) →
      (p.executables i).provideInput.isSome → (s.world.runners i).scopeEntered = true

/-- Whether the turn of a branch nests its scope is found by calling its executable. -/
instance (i : Fin n) (w : World n σ) : Decidable (p.NestsScope i w) :=
  decidable_of_iff (((w.runners i).scopeEntered = false →
      w.parent.currentScope ≠ some (p.slug i)) ∧
    (isYieldingStatus (p.turnStatus i w) = false → (w.runners i).scopeEntered = true →
      w.parent.currentScope = some (p.slug i)) ∧
    (isYieldingStatus (p.turnStatus i w) = false → w.context.isSome →
      (p.turnCall i w).2.binding = .same ∧
        ((w.runners i).scopeEntered = true → w.context = some .parent)) ∧
    (endsNode p.config.parallelPolicy (p.turnStatus i w) →
      ∀ j ≠ i, (w.runners j).scopeEntered = false))
    ⟨fun h => ⟨h.1, h.2.1, h.2.2.1, h.2.2.2⟩, fun h => ⟨h.enters, h.innermost, h.bound, h.alone⟩⟩

/-- Whether a call nests the scopes is found by going over its turns. -/
instance (s : System n σ) : (call : Call) → Decidable (p.NestsScopes s call)
  | .tick => inferInstanceAs (Decidable (_ = false → ∀ turn ∈ p.turns s, _))
  | .provideInput _ => inferInstanceAs (Decidable (∀ i, _ = some (p.slug i) → _ → _ = true))

/-- The stack is the given one when a tick succeeds or fails, and the turn of a branch keeps the
stored snapshots of the others. -/
def KeepsBalance (stack : List String) (s : System n σ) (call : Call) (t : System n σ) : Prop :=
  match call with
  | .tick => (∀ status, p.tick s = some (status, t) → isYieldingStatus status = false →
      t.world.parent.scopeStack = stack) ∧
    ∀ turn ∈ p.turns s, ∀ j ≠ turn.1,
      loadBranchSnapshot (p.branchLeaf turn.1 turn.2).2.parent (p.slug j) =
        loadBranchSnapshot turn.2.parent (p.slug j)
  | .provideInput _ => True

/-- A pattern before its first tick: no branch has a result, is entered or completed. -/
structure Fresh (s : System n σ) : Prop where
  results : ∀ i, s.held.childResults i = none
  entered : ∀ i, (s.world.runners i).scopeEntered = false
  completed : ∀ i, (s.world.runners i).completed = false

/-- The stack is a given one with the scopes of the entered branches on it, each once, and no
completed branch is entered. -/
structure Nested (stack : List String) (w : World n σ) : Prop where
  scopes : ∃ order : List (Fin n), order.Nodup ∧
    (∀ i, i ∈ order ↔ (w.runners i).scopeEntered = true) ∧
    w.parent.scopeStack = stack ++ order.map p.slug
  completed : ∀ i, (w.runners i).completed = true → (w.runners i).scopeEntered = false

section Turn

variable {p : ParallelPattern n σ} {stack : List String} {i : Fin n} {w : World n σ}

/-- The leaf of a branch returns what the branch returns in its turn. -/
theorem branchLeaf_status (i : Fin n) (w : World n σ) : (p.branchLeaf i w).1 = p.turnStatus i w := by
  unfold branchLeaf turnStatus
  cases hcompleted : (w.runners i).completed with
  | true => rfl
  | false =>
    simp only [Bool.false_eq_true, if_false]
    rw [Branches.tickRunner_status hcompleted, Branches.callRunner_eq]
    rfl

/-- Leaving the scope of a branch takes it off the stack of the parent, if it is the innermost one
and no other state is bound. -/
theorem teardownScope_stack (hentered : (w.runners i).scopeEntered = true)
    (hcontext : w.context = none ∨ w.context = some .parent)
    (htop : w.parent.currentScope = some (p.slug i)) :
    (p.teardownScope i w).parent.scopeStack = w.parent.scopeStack.dropLast := by
  have hbound : w.context.getD .parent = .parent := by
    rcases hcontext with h | h <;> rw [h] <;> rfl
  have hleave : p.leaveBranch i w = p.exitBoundScope w .parent := by
    simp [Branches.leaveBranch, hbound, Branches.boundScope, htop]
  simp only [Branches.teardownScope, hentered, if_true, World.setRunner, hleave,
    Branches.exitBoundScope]
  exact (Branches.exitScope_parent w.parent).2

/-- The end of a branch with success takes its scope off the stack under the same conditions. -/
theorem finalizeSuccess_stack (hentered : (w.runners i).scopeEntered = true)
    (hcontext : w.context = none ∨ w.context = some .parent)
    (htop : w.parent.currentScope = some (p.slug i)) (state : BlackboardState) :
    (p.finalizeSuccess i w state).parent.scopeStack = w.parent.scopeStack.dropLast := by
  unfold Branches.finalizeSuccess
  refine teardownScope_stack ?_ ?_ htop
  · simpa [World.setRunner] using hentered
  · rcases hcontext with h | h
    · simp [Branches.detach, h]
    · simp [Branches.detach, h]

/-- The stack in the turn of a branch that nests its scope. -/
def enteredStack (p : ParallelPattern n σ) (i : Fin n) (w : World n σ) : List String :=
  if (w.runners i).scopeEntered = true then w.parent.scopeStack
  else w.parent.scopeStack ++ [p.slug i]

/-- What the executable of a branch leaves in a turn that nests the scope. -/
theorem callRunner_nests (h : p.NestsScope i w) :
    let called := (p.callRunner i w (p.executables i).tick).2.2
    called.parent.scopeStack = p.enteredStack i w ∧
      (isYieldingStatus (p.turnStatus i w) = false →
        (called.context = none ∨ called.context = some .parent) ∧
          called.parent.currentScope = some (p.slug i)) := by
  obtain ⟨-, hstack, hcontext⟩ :=
    Branches.callRunner_scope (b := p.toBranches) i w (p.executables i).tick
  have hentered : (p.callRunner i w (p.executables i).tick).2.2.parent.scopeStack =
      p.enteredStack i w := by
    rw [hstack, enteredStack]
    cases hmark : (w.runners i).scopeEntered with
    | true => simp
    | false => simp [h.enters hmark]
  refine ⟨hentered, fun hends => ⟨?_, ?_⟩⟩
  · cases hnone : w.context with
    | none =>
      left
      rw [hcontext, hnone]
      cases ((p.executables i).tick (w.runners i).executable
        (p.ensureBranchState i w).1).2.binding <;> simp [Branches.rebind]
    | some bound =>
      right
      obtain ⟨hbinding, hparent⟩ := h.bound hends (by simp [hnone])
      rw [hcontext]
      change Branches.rebind i _ (p.turnCall i w).2.binding = _
      rw [hbinding]
      cases hmark : (w.runners i).scopeEntered with
      | true => simp [Branches.rebind, hparent hmark]
      | false => simp [Branches.rebind, hnone]
  · rw [BlackboardState.currentScope, hentered, enteredStack]
    cases hmark : (w.runners i).scopeEntered with
    | true => exact h.innermost hends hmark
    | false => simp

/-- What the turn of a branch that is not completed leaves of its scope. -/
theorem tickRunner_scope (hcompleted : (w.runners i).completed = false) (h : p.NestsScope i w) :
    ((p.tickRunner i w).2.runners i).scopeEntered = isYieldingStatus (p.turnStatus i w) ∧
      (p.tickRunner i w).2.parent.scopeStack =
        if isYieldingStatus (p.turnStatus i w) then p.enteredStack i w
        else (p.enteredStack i w).dropLast := by
  obtain ⟨hstack, hleaves⟩ := callRunner_nests h
  obtain ⟨hentered, -, -⟩ :=
    Branches.callRunner_scope (b := p.toBranches) i w (p.executables i).tick
  have hstatus : (p.callRunner i w (p.executables i).tick).1 = p.turnStatus i w := by
    rw [← branchLeaf_status, branchLeaf, hcompleted]
    exact (Branches.tickRunner_status hcompleted).symm
  unfold Branches.tickRunner
  generalize p.callRunner i w (p.executables i).tick = out at hstack hleaves hentered hstatus ⊢
  cases hturn : p.turnStatus i w with
  | waitingForInput =>
    rw [hturn] at hstatus
    cases hnone : noneActive out.2.2.parent <;>
      simp [hcompleted, hstatus, hnone, isYieldingStatus, hentered, hstack, BlackboardState.set]
  | running =>
    rw [hturn] at hstatus
    simp [hcompleted, hstatus, isYieldingStatus, hentered, hstack]
  | failure =>
    rw [hturn] at hstatus
    obtain ⟨hcontext, htop⟩ := hleaves (by rw [hturn]; rfl)
    have hleft := teardownScope_stack hentered hcontext htop
    rw [hstack] at hleft
    refine ⟨?_, ?_⟩
    · simpa [hcompleted, hstatus, isYieldingStatus] using
        (Branches.teardownScope_keeps (b := p.toBranches) i i out.2.2).2.2.1
    · simpa [hcompleted, hstatus, isYieldingStatus] using hleft
  | success =>
    rw [hturn] at hstatus
    obtain ⟨hcontext, htop⟩ := hleaves (by rw [hturn]; rfl)
    refine ⟨?_, ?_⟩
    · simpa [hcompleted, hstatus, isYieldingStatus] using
        (Branches.finalizeSuccess_keeps (b := p.toBranches) i out.2.2 out.2.1).2.2.2
    · have hleft := finalizeSuccess_stack hentered hcontext htop out.2.1
      rw [hstack] at hleft
      simpa [hcompleted, hstatus, isYieldingStatus] using hleft

/-- The turn of a branch keeps the marks of the others. -/
theorem branchLeaf_scopeEntered {j : Fin n} (hj : j ≠ i) :
    ((p.branchLeaf i w).2.runners j).scopeEntered = (w.runners j).scopeEntered := by
  unfold branchLeaf
  split
  · rfl
  · exact ((Branches.tickRunner_keeps i w).1 j hj).1

/-- After its turn a branch is entered exactly if it has paused. -/
theorem branchLeaf_entered_self (hw : p.Nested stack w) (h : p.NestsScope i w) :
    ((p.branchLeaf i w).2.runners i).scopeEntered = isYieldingStatus (p.branchLeaf i w).1 := by
  rw [branchLeaf_status]
  cases hcompleted : (w.runners i).completed with
  | true => simpa [branchLeaf, turnStatus, hcompleted, isYieldingStatus] using hw.completed i hcompleted
  | false => simpa [branchLeaf, hcompleted] using (tickRunner_scope hcompleted h).1

/-- An entered branch whose scope is the innermost one is the last in the order. -/
theorem eq_concat_of_innermost {order : List (Fin n)} (hi : i ∈ order)
    (htop : (stack ++ order.map p.slug).getLast? = some (p.slug i)) :
    ∃ front, order = front ++ [i] := by
  rcases List.eq_nil_or_concat' order with rfl | ⟨front, last, rfl⟩
  · cases hi
  · refine ⟨front, ?_⟩
    have hslug : p.slug last = p.slug i := by simpa using htop
    rw [Branches.slug_injective hslug]

/-- The turn of a branch that nests its scope keeps the stack nested. -/
theorem Nested.branchLeaf (hw : p.Nested stack w) (h : p.NestsScope i w) :
    p.Nested stack (p.branchLeaf i w).2 := by
  cases hcompleted : (w.runners i).completed with
  | true => simpa [ParallelPattern.branchLeaf, hcompleted] using hw
  | false =>
    have hself := branchLeaf_entered_self hw h
    obtain ⟨hmark, hstack⟩ := tickRunner_scope hcompleted h
    have hleaf : p.branchLeaf i w = p.tickRunner i w := by
      simp [ParallelPattern.branchLeaf, hcompleted]
    refine ⟨?_, fun j hj => ?_⟩
    · obtain ⟨order, hnodup, horder, hscopes⟩ := hw.scopes
      have hmem (order' : List (Fin n))
          (hi : i ∈ order' ↔ isYieldingStatus (p.branchLeaf i w).1 = true)
          (hother : ∀ j ≠ i, j ∈ order' ↔ j ∈ order) (j : Fin n) :
          j ∈ order' ↔ ((p.branchLeaf i w).2.runners j).scopeEntered = true := by
        by_cases hji : j = i
        · rw [hji, hself, hi]
        · rw [branchLeaf_scopeEntered hji, hother j hji, horder]
      rw [← branchLeaf_status] at hstack
      rw [← hleaf] at hstack
      rw [hstack, enteredStack]
      cases hentered : (w.runners i).scopeEntered with
      | true =>
        have hi := (horder i).mpr hentered
        cases hyields : isYieldingStatus (p.branchLeaf i w).1 with
        | true =>
          refine ⟨order, hnodup, hmem order ?_ fun _ _ => Iff.rfl, by simpa using hscopes⟩
          exact iff_of_true hi hyields
        | false =>
          have htop := h.innermost (by rw [← branchLeaf_status]; exact hyields) hentered
          rw [BlackboardState.currentScope, hscopes] at htop
          obtain ⟨front, rfl⟩ := eq_concat_of_innermost hi htop
          rw [← List.concat_eq_append, List.nodup_concat] at hnodup
          refine ⟨front, hnodup.2, hmem front ?_ fun j hj => ?_, ?_⟩
          · simp [hnodup.1, hyields]
          · simp [hj]
          · simp [hscopes]
      | false =>
        have hi : i ∉ order := fun hi => by simp [(horder i).mp hi] at hentered
        cases hyields : isYieldingStatus (p.branchLeaf i w).1 with
        | true =>
          refine ⟨order ++ [i], ?_, hmem _ ?_ fun j hj => ?_, ?_⟩
          · rw [← List.concat_eq_append, List.nodup_concat]
            exact ⟨hi, hnodup⟩
          · simp [hyields]
          · simp [hj]
          · simp [hscopes]
        | false =>
          refine ⟨order, hnodup, hmem order ?_ fun _ _ => Iff.rfl, by simpa using hscopes⟩
          exact iff_of_false hi (by simp [hyields])
    · by_cases hji : j = i
      · subst hji
        by_contra hentered
        rw [hself, Bool.not_eq_false, hleaf] at hentered
        rw [hleaf, Branches.completed_of_yields hcompleted hentered] at hj
        cases hj
      · rw [branchLeaf_scopeEntered hji]
        rw [hleaf, ((Branches.tickRunner_keeps i w).1 j hji).2] at hj
        exact hw.completed j hj

end Turn

section Run

variable {p : ParallelPattern n σ} {stack : List String} {s t : System n σ}

/-- What holds between two calls: the stack is nested, no branch with a result is entered, and none
is once the pattern is done. -/
structure Between (p : ParallelPattern n σ) (stack : List String) (s : System n σ) : Prop where
  nested : p.Nested stack s.world
  results : ∀ i, (s.held.childResults i).isSome → (s.world.runners i).scopeEntered = false
  done : p.done s.world.parent = true → ∀ i, (s.world.runners i).scopeEntered = false

/-- The stack is the given one while no branch is entered. -/
theorem Nested.stack_eq {w : World n σ} (hw : p.Nested stack w)
    (h : ∀ i, (w.runners i).scopeEntered = false) : w.parent.scopeStack = stack := by
  obtain ⟨order, -, horder, hscopes⟩ := hw.scopes
  have hempty : order = [] := by
    refine List.eq_nil_iff_forall_not_mem.mpr fun i hi => ?_
    have := (horder i).mp hi
    simp [h i] at this
  simpa [hempty] using hscopes

/-- A pattern before its first tick has no entered branch. -/
theorem Fresh.between (h : Fresh s) : p.Between s.world.parent.scopeStack s where
  nested := ⟨⟨[], List.nodup_nil, by simp [h.entered], by simp⟩, fun i _ => h.entered i⟩
  results i hi := by simp [h.results i] at hi
  done _ := h.entered

section Turns

variable {w w' : World n σ} {list : List (Fin n × World n σ)} {i : Fin n} {u : World n σ}

/-- A branch that has its turn is entered afterwards exactly if it has paused. -/
theorem entered_turns (hturns : Turns p.branchLeaf w list w') (hw : p.Nested stack w)
    (hok : ∀ turn ∈ list, p.NestsScope turn.1 turn.2) (hnodup : (list.map Prod.fst).Nodup)
    (hi : (i, u) ∈ list) :
    (w'.runners i).scopeEntered = isYieldingStatus (p.branchLeaf i u).1 := by
  have hu : p.Nested stack u :=
    hturns.invariant_before _ _ (fun _ _ hw h => hw.branchLeaf h) hw hok (i, u) hi
  have hlast := hturns.last (f := fun v : World n σ => (v.runners i).scopeEntered)
    (fun j v hj => branchLeaf_scopeEntered hj.symm) hnodup hi
  exact hlast.trans (branchLeaf_entered_self hu (hok (i, u) hi))

/-- A branch without a turn is entered as before. -/
theorem entered_of_no_turn (hturns : Turns p.branchLeaf w list w')
    (hi : ∀ turn ∈ list, turn.1 ≠ i) :
    (w'.runners i).scopeEntered = (w.runners i).scopeEntered :=
  hturns.frame (f := fun v : World n σ => (v.runners i).scopeEntered)
    (fun _ _ hj => branchLeaf_scopeEntered hj.symm) hi

/-- If the turns end with one whose status is that of the pattern, no branch is entered. -/
theorem not_entered_of_early (hturns : Turns p.branchLeaf w list w') (hw : p.Nested stack w)
    (hok : ∀ turn ∈ list, p.NestsScope turn.1 turn.2) (hnodup : (list.map Prod.fst).Nodup)
    (hearly : EndsEarly p.branchLeaf p.config.parallelPolicy list) (i : Fin n) :
    (w'.runners i).scopeEntered = false := by
  obtain ⟨front, j, u, rfl, hends⟩ := hearly
  have hmem : (j, u) ∈ front ++ [(j, u)] := by simp
  by_cases hij : i = j
  · rw [hij, entered_turns hturns hw hok hnodup hmem]
    rcases hends with ⟨-, hstatus⟩ | ⟨-, hstatus⟩ <;> rw [hstatus] <;> rfl
  · rw [hturns.state_of_last, branchLeaf_scopeEntered hij]
    rw [branchLeaf_status] at hends
    exact (hok (j, u) hmem).alone hends i hij

/-- The turns of a tick leave the marks of a pattern that is done as they are. -/
theorem done_turns (hturns : Turns p.branchLeaf w list w') :
    p.done w'.parent = p.done w.parent := by
  have hget (k : String) (hk : k ≠ scopesRootKey ∧ k ≠ ParallelKeys.branchResults ∧
      k ≠ ParallelKeys.activeBranch) : w'.parent.get k = w.parent.get k := by
    refine hturns.invariant (fun v => v.parent.get k = w.parent.get k) (fun _ _ => True)
      (fun i v hv _ => ?_) rfl fun _ _ => trivial
    rw [← hv]
    unfold branchLeaf
    split
    · rfl
    · exact (Branches.tickRunner_keeps i v).2.1 k hk.1 hk.2.1 hk.2.2
  rw [done, done, hget _ (by decide), hget _ (by decide)]

end Turns

/-- Merging the results leaves the scopes as they are. -/
theorem mergeBranchResults_scopeStack {state merged : BlackboardState}
    (h : p.mergeBranchResults state = some merged) : merged.scopeStack = state.scopeStack := by
  obtain ⟨results, -, rfl⟩ := Option.map_eq_some_iff.mp h
  dsimp only
  split <;> rfl

/-- A tick whose turns nest their scopes keeps the stack nested, leaves no branch with a result
entered, and leaves no branch entered when it succeeds or fails. -/
theorem nested_of_looped (hs : p.Between stack s) (hdone : p.done s.world.parent = false)
    (hok : p.NestsScopes s .tick) {out : Ticked (Results n (Fin n → Unit)) (World n σ)}
    (hlooped : Looped p.branchLeaf p.config.parallelPolicy (p.turns s) false false s.held
      (bindContext s.world) out) :
    p.Nested stack out.state ∧
      (∀ i, (out.held.childResults i).isSome → (out.state.runners i).scopeEntered = false) ∧
      (isYieldingStatus out.status = false → ∀ i, (out.state.runners i).scopeEntered = false) := by
  have hbound : p.Nested stack (bindContext s.world) := ⟨hs.nested.scopes, hs.nested.completed⟩
  have hturns : ∀ turn ∈ p.turns s, p.NestsScope turn.1 turn.2 := hok hdone
  have hnodup : ((p.turns s).map Prod.fst).Nodup :=
    nodup_turns _ (List.nodup_finRange n) (bindContext s.world)
  have hold (i : Fin n) (hi : (s.held.childResults i).isSome) :
      (out.state.runners i).scopeEntered = false := by
    rw [entered_of_no_turn hlooped.run fun turn hturn heq => ?_]
    · exact hs.results i hi
    · have hnone := (mem_turns (i := turn.1) (u := turn.2) hturn).2
      rw [heq] at hnone
      simp [hnone] at hi
  refine ⟨hlooped.run.invariant _ _ (fun _ _ hw h => hw.branchLeaf h) hbound hturns, fun i hi => ?_,
    fun hends i => ?_⟩
  · rcases hlooped.results i hi with hi | hearly | ⟨u, hu, hstatus⟩
    · exact hold i hi
    · exact not_entered_of_early hlooped.run hbound hturns hnodup hearly i
    · exact (entered_turns hlooped.run hbound hturns hnodup hu).trans hstatus
  · by_cases hearly : EndsEarly p.branchLeaf p.config.parallelPolicy (p.turns s)
    · exact not_entered_of_early hlooped.run hbound hturns hnodup hearly i
    · obtain ⟨-, -, hall⟩ := (hlooped.ends hends).resolve_left hearly
      cases hresult : s.held.childResults i with
      | some result => exact hold i (by simp [hresult])
      | none =>
        obtain ⟨u, hu⟩ := exists_turn (List.mem_finRange i) hresult hearly
        exact (entered_turns hlooped.run hbound hturns hnodup hu).trans (hall (i, u) hu)

/-- A tick whose turns nest their scopes keeps what holds between two calls, and leaves no branch
entered when it succeeds or fails. -/
theorem Between.tick (hs : p.Between stack s) (hok : p.NestsScopes s .tick)
    {status : PatternStatus} (htick : p.tick s = some (status, t)) :
    p.Between stack t ∧ (isYieldingStatus status = false →
      ∀ i, (t.world.runners i).scopeEntered = false) := by
  cases hdone : p.done s.world.parent with
  | true =>
    have hentered := hs.done hdone
    simp only [ParallelPattern.tick, hdone, if_true, Option.some.injEq, Prod.mk.injEq] at htick
    obtain ⟨rfl, rfl⟩ := htick
    exact ⟨⟨⟨hs.nested.scopes, hs.nested.completed⟩, hs.results, fun _ => hentered⟩,
      fun _ => hentered⟩
  | false =>
    obtain ⟨out, hout, hlooped⟩ := tick_eq hdone
    obtain ⟨hnested, hresults, hends⟩ := nested_of_looped hs hdone hok hlooped
    have hdone' : p.done out.state.parent = false := (done_turns hlooped.run).trans hdone
    rw [hout, Option.some.injEq] at htick
    have hplain : p.Between stack ⟨out.held, out.state⟩ :=
      ⟨hnested, hresults, fun h => absurd (h.symm.trans hdone') Bool.noConfusion⟩
    unfold afterTick at htick
    split at htick
    · next hsuccess =>
      have hentered := hends (by rw [hsuccess]; rfl)
      cases hmerge : p.mergeBranchResults out.state.parent with
      | none =>
        simp only [hmerge, Option.elim_none, Prod.mk.injEq] at htick
        obtain ⟨rfl, rfl⟩ := htick
        exact ⟨hplain, fun _ => hentered⟩
      | some merged =>
        simp only [hmerge, Option.elim_some, Prod.mk.injEq] at htick
        obtain ⟨rfl, rfl⟩ := htick
        refine ⟨⟨⟨?_, hnested.completed⟩, hresults, fun _ => hentered⟩, fun _ => hentered⟩
        obtain ⟨order, hnodup, horder, hscopes⟩ := hnested.scopes
        exact ⟨order, hnodup, horder, (mergeBranchResults_scopeStack hmerge).trans hscopes⟩
    · obtain ⟨rfl, rfl⟩ := Prod.mk.inj htick
      exact ⟨hplain, hends⟩

/-- What holds between two calls depends on the stack, the marks of the branches and of the pattern. -/
theorem Between.congr (hs : p.Between stack s) {w : World n σ}
    (hscopes : w.parent.scopeStack = s.world.parent.scopeStack)
    (hentered : ∀ i, (w.runners i).scopeEntered = (s.world.runners i).scopeEntered)
    (hcompleted : ∀ i, (w.runners i).completed = (s.world.runners i).completed)
    (hdone : p.done w.parent = p.done s.world.parent) : p.Between stack { s with world := w } where
  nested := by
    obtain ⟨order, hnodup, horder, hstack⟩ := hs.nested.scopes
    refine ⟨⟨order, hnodup, fun i => ?_, hscopes.trans hstack⟩, fun i hi => ?_⟩
    · rw [horder, hentered]
    · rw [hcompleted] at hi
      rw [hentered]
      exact hs.nested.completed i hi
  results i hi := (hentered i).trans (hs.results i hi)
  done h i := (hentered i).trans (hs.done (hdone.symm.trans h) i)

/-- A value for a branch whose scope is entered keeps what holds between two calls. -/
theorem Between.provideInput (hs : p.Between stack s) {v : Value}
    (hok : p.NestsScopes s (.provideInput v)) :
    p.Between stack { s with world := (p.provideInput s.world v).2 } := by
  unfold ParallelPattern.provideInput
  cases hactive : ((s.world.parent.get ParallelKeys.activeBranch).bind Value.asStr).bind
      p.runner? with
  | none => exact hs
  | some i =>
    obtain ⟨name, hname, hrunner⟩ := Option.bind_eq_some_iff.mp hactive
    rw [← Branches.slug_of_runner? hrunner] at hname
    have hkey (state : BlackboardState) (k : String) (hk : k ≠ ParallelKeys.activeBranch) :
        (state.delete ParallelKeys.activeBranch).get k = state.get k := by
      refine (Dict.get?_erase _ _ _).trans ?_
      rw [if_neg hk]
      rfl
    cases hprovide : (p.executables i).provideInput with
    | none =>
      refine hs.congr ?_ (fun _ => ?_) (fun _ => ?_) ?_
      · simp [Branches.provideInputRunner, hprovide, BlackboardState.delete]
      · simp [Branches.provideInputRunner, hprovide]
      · simp [Branches.provideInputRunner, hprovide]
      · simp only [Option.elim_some, Branches.provideInputRunner, hprovide, Option.elim_none]
        rw [ParallelPattern.done, ParallelPattern.done, hkey _ _ (by decide), hkey _ _ (by decide)]
    | some provide =>
      have hentered := hok i hname (by simp [hprovide])
      let call : σ → BlackboardState → Option String × Called σ :=
        fun held state => provide held state v
      have htouches : p.Touches i s.world (p.callRunner i s.world call).2.2 :=
        Branches.touches_callRunner i s.world call
      obtain ⟨hmark, hstack, -⟩ := Branches.callRunner_scope (b := p.toBranches) i s.world call
      rw [if_pos (.inl hentered)] at hstack
      have hmarks (j : Fin n) : ((p.callRunner i s.world call).2.2.runners j).scopeEntered =
          (s.world.runners j).scopeEntered ∧
          ((p.callRunner i s.world call).2.2.runners j).completed =
            (s.world.runners j).completed := by
        by_cases hj : j = i
        · rw [hj]
          exact ⟨hmark.trans hentered.symm, htouches.completed⟩
        · rw [htouches.runners j hj]
          exact ⟨rfl, rfl⟩
      simp only [Option.elim_some, Branches.provideInputRunner, hprovide]
      refine hs.congr hstack (fun j => (hmarks j).1) (fun j => (hmarks j).2) ?_
      have hset (k : String) (hk : k ≠ ParallelKeys.activeBranch) (hk' : k ≠ scopesRootKey) :
          (((p.callRunner i s.world call).2.2.parent.set ParallelKeys.activeBranch
            (.str (p.slug i))).delete ParallelKeys.activeBranch).get k =
              s.world.parent.get k := by
        rw [hkey _ _ hk]
        exact (Dict.get?_set_ne _ _ hk).trans (htouches.get k hk')
      exact congrArg₂ (fun a b : Option Value => a.any (truthy p.otherTruthy) ||
        b.any (truthy p.otherTruthy)) (hset _ (by decide) (by decide)) (hset _ (by decide) (by decide))

/-- In every run of a new pattern in which every branch that has its turn nests its scope and values
are given to entered branches only, the stack is as before the first tick whenever a tick succeeds
or fails; and the turn of a branch always keeps the stored snapshots of the others. -/
theorem keepsBalance_of_nestsScopes (p : ParallelPattern n σ) {s : System n σ} (hs : Fresh s)
    {calls : List Call}
    (h : AllSteps p.step (fun s call _ => p.NestsScopes s call) s calls) :
    AllSteps p.step (p.KeepsBalance s.world.parent.scopeStack) s calls := by
  refine h.imp (p.Between s.world.parent.scopeStack) (fun u call t hu hstep hok => ?_) hs.between
  cases call with
  | provideInput v =>
    obtain rfl := Option.some.inj hstep
    exact ⟨trivial, hu.provideInput hok⟩
  | tick =>
    obtain ⟨⟨status, t'⟩, htick, rfl⟩ := Option.map_eq_some_iff.mp hstep
    obtain ⟨hbetween, hends⟩ := hu.tick hok htick
    refine ⟨⟨fun status' htick' hterminal => ?_, fun turn _ j hj => ?_⟩, hbetween⟩
    · have heq : status = status' := congrArg Prod.fst (Option.some.inj (htick.symm.trans htick'))
      exact hbetween.nested.stack_eq (hends (heq ▸ hterminal))
    · unfold branchLeaf
      split
      · rfl
      · exact (Branches.tickRunner_keeps turn.1 turn.2).2.2 j hj

/-- Two branches of which the second ends first, and then the first, nest their scopes. -/
theorem keepsBalance_of_nestsScopes_scripted :
    AllSteps (twoScripted .all).step ((twoScripted .all).KeepsBalance [])
      (scriptedStart [.waitingForInput, .waitingForInput] [.waitingForInput]) [.tick, .tick, .tick] :=
  keepsBalance_of_nestsScopes (twoScripted .all)
    (s := scriptedStart [.waitingForInput, .waitingForInput] [.waitingForInput])
    ⟨fun _ => rfl, fun _ => rfl, fun _ => rfl⟩ (by decide)

/-- Two branches of which the first ends first: its scope stays on the stack when the pattern
succeeds. -/
theorem keepsBalance_fails : ¬ AllSteps (twoScripted .all).step ((twoScripted .all).KeepsBalance [])
    (scriptedStart [.waitingForInput] [.waitingForInput, .waitingForInput])
    [.tick, .tick, .tick] := by
  intro h
  have hreturns : (runSteps (twoScripted .all).step
      (scriptedStart [.waitingForInput] [.waitingForInput, .waitingForInput]) [.tick, .tick]).bind
        (fun s => ((twoScripted .all).tick s).map fun out =>
          (out.1, out.2.world.parent.scopeStack)) = some (.success, ["alpha"]) := by decide
  obtain ⟨s, hrun, htick⟩ := Option.bind_eq_some_iff.mp hreturns
  obtain ⟨⟨status, t⟩, htick, hout⟩ := Option.map_eq_some_iff.mp htick
  obtain ⟨rfl, hstack⟩ := Prod.mk.inj hout
  change AllSteps _ _ _ ([Call.tick, .tick] ++ [.tick]) at h
  have hlast := h.of_append hrun
  have hempty := (hlast t (by simp [step, htick])).1.1 .success htick rfl
  rw [hempty] at hstack
  cases hstack

end Run

end ParallelPattern

end PalmEngine.Parallel
