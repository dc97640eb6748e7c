import PalmEngine.BehaviorTree.LeafSequence
import PalmEngine.Context.State

/-!
# Branch steps of a wizard

A branch step is a selector over two sequences: the then-steps behind a condition, and the
else-steps. The selector takes a failing then-step for a condition that does not hold, so one arm is
run, the one that the condition asks for, unless the condition holds and a then-step fails. How
values are compared is left open, and a nested step is any phase that is ticked on an execution
state, in which it also keeps what it holds.
-/

namespace PalmEngine.Wizard

open PalmEngine.BehaviorTree PalmEngine.Context

/-- The start of the keys of a wizard. -/
def wizardPrefix : String := "__wizard__"

/-- The key of the answers. -/
def answersKey : String := "__wizard__.answers"

/-- The answers that are collected so far. -/
def getAnswers (state : BlackboardState) : List (String × Value) :=
  ((state.get answersKey).bind Value.asDict).getD []

section Predicate

/-- The comparisons of a condition. -/
inductive Comparison where
  | equals
  | notEquals
  | gt
  | gte
  | lt
  | lte
  deriving DecidableEq, Repr

/-- How values are compared, which may raise, and which other values count as true. -/
structure Comparing where
  compare : Comparison → Value → Value → Except String Bool
  otherTruthy : ℕ → Bool

/-- The keys of the comparisons, in the order in which they are looked for. -/
def comparisons : List (String × Comparison) :=
  [("equals", .equals), ("not_equals", .notEquals), ("gt", .gt), ("gte", .gte), ("lt", .lt),
    ("lte", .lte)]

/-- The keys of a condition that says something. -/
def predicateKeys : List String := comparisons.map Prod.fst ++ ["is_truthy", "exists"]

/-- Refuse a condition that says nothing. -/
def validateWhenClause (clause : List (String × Value)) : Except String Unit :=
  if clause.isEmpty then .error "branch step requires a non-empty when clause"
  else if predicateKeys.any fun k => (valueOf? k clause).isSome then .ok ()
  else .error "branch when requires a predicate (equals, gt, gte, is_truthy, exists, ...)"

/-- A value that is not the missing one. -/
def present? (v : Option Value) : Option Value := v.filter fun v => !v.isNull

/-- What a condition is about: the answers, or the answer for its field, or else what the state
holds for it. -/
def subjectOf (state : BlackboardState) (field : Option String) : Value :=
  field.elim (.dict (getAnswers state)) fun k =>
    ((present? (valueOf? k (getAnswers state))).or
      ((present? (state.get k)).or (state.get (wizardPrefix ++ "." ++ k)))).getD .null

/-- Whether what a condition is about meets it. -/
def matchesClause (c : Comparing) (subject : Value) (answers : List (String × Value))
    (field : Option String) (clause : List (String × Value)) : Except String Bool :=
  match comparisons.findSome? fun e => (valueOf? e.1 clause).map (e.2, ·) with
  | some (comparison, v) => c.compare comparison subject v
  | none =>
    if (valueOf? "is_truthy" clause).any (truthy c.otherTruthy) then
      .ok (truthy c.otherTruthy subject)
    else if (valueOf? "exists" clause).any (truthy c.otherTruthy) then
      .ok (field.any fun k => (valueOf? k answers).isSome)
    else .error "branch when requires a predicate (equals, gt, gte, is_truthy, exists, ...)"

/-- Whether the condition of a branch holds; the field of a condition is a text. -/
def evaluateBranchPredicate (c : Comparing) (state : BlackboardState)
    (clause : List (String × Value)) : Except String Bool := do
  validateWhenClause clause
  let field := (valueOf? "field" clause).bind Value.asStr
  matchesClause c (subjectOf state field) (getAnswers state) field clause

end Predicate

/-- The leaves of a branch. -/
inductive BranchLeaf (n m : ℕ) where
  | condition
  | thenStep (i : Fin n)
  | elseStep (j : Fin m)
  deriving DecidableEq, Repr

/-- A branch step over the states of an execution, each of which has a blackboard. -/
structure BranchStep (S : Type) where
  whenClause : List (String × Value)
  comparing : Comparing
  board : S → BlackboardState
  thenSteps : ℕ
  elseSteps : ℕ
  thenPhase : Fin thenSteps → S → PatternStatus × S
  elsePhase : Fin elseSteps → S → PatternStatus × S

namespace BranchStep

variable {S : Type} (b : BranchStep S)

/-- Whether the condition holds in a state, unless it raises. -/
def holds? (s : S) : Option Bool :=
  (evaluateBranchPredicate b.comparing (b.board s) b.whenClause).toOption

/-- The tick of a leaf; the condition fails if it does not hold. -/
def tickLeaf : BranchLeaf b.thenSteps b.elseSteps → S → PatternStatus × S
  | .condition, s => (if b.holds? s = some true then .success else .failure, s)
  | .thenStep i, s => b.thenPhase i s
  | .elseStep j, s => b.elsePhase j s

/-- The leaves of the then-arm. -/
def thenLeaf : Fin (b.thenSteps + 1) → BranchLeaf b.thenSteps b.elseSteps :=
  Fin.cons .condition .thenStep

/-- The then-arm: the condition and the then-steps. -/
def thenArm : Node (BranchLeaf b.thenSteps b.elseSteps) :=
  .sequenceNode (b.thenSteps + 1) fun i => .leafNode (b.thenLeaf i)

/-- The else-arm: the else-steps. -/
def elseArm : Node (BranchLeaf b.thenSteps b.elseSteps) :=
  .sequenceNode b.elseSteps fun j => .leafNode (.elseStep j)

/-- The tree of a branch step: the else-arm is tried when the then-arm fails. -/
def branchSubtree : Node (BranchLeaf b.thenSteps b.elseSteps) :=
  .selectorNode 2 ![b.thenArm, b.elseArm]

/-- The results of the leaves of a branch, in their order. -/
abbrev Visits := List (BranchLeaf b.thenSteps b.elseSteps × PatternStatus)

/-- Tick the branch and note the results of its leaves. -/
def tick (held : b.branchSubtree.Held) (s : S) (visits : b.Visits) :
    Option (Ticked b.branchSubtree.Held (S × b.Visits)) :=
  b.branchSubtree.tick (traced b.tickLeaf) 0 held (s, visits)

/-- The ticks of a branch that is entered in a state in which its condition can be evaluated, until
it succeeds or fails. Between two ticks the state may change in any way. -/
inductive Episode (holds : Bool) : b.branchSubtree.Held → b.Visits → PatternStatus → Prop
  | enter {s : S} {out : Ticked b.branchSubtree.Held (S × b.Visits)} (hholds : b.holds? s = some holds)
    (htick : b.tick b.branchSubtree.reset s [] = some out) :
    Episode holds out.held out.state.2 out.status
  | again {held : b.branchSubtree.Held} {visits : b.Visits} {status : PatternStatus}
    (hepisode : Episode holds held visits status) (hyields : isYieldingStatus status) {s : S}
    {out : Ticked b.branchSubtree.Held (S × b.Visits)} (htick : b.tick held s visits = some out) :
    Episode holds out.held out.state.2 out.status

/-- One arm is run, the one that the condition asks for, and the branch succeeds if and only if all
steps of that arm do. -/
structure RunsOneArm (holds : Bool) (visits : b.Visits) (status : PatternStatus) : Prop where
  runsThen : 0 < b.thenSteps → ((∃ i result, (.thenStep i, result) ∈ visits) ↔ holds = true)
  runsElse : 0 < b.elseSteps → ((∃ j result, (.elseStep j, result) ∈ visits) ↔ holds = false)
  success : status = .success ↔ ¬isYieldingStatus status ∧
    if holds then ∀ i, (.thenStep i, .success) ∈ visits else ∀ j, (.elseStep j, .success) ∈ visits

variable {b}

/-- The cursor of the then-arm. -/
def thenCursor (held : b.branchSubtree.Held) : Cursor (Fin (b.thenSteps + 1) → Unit) :=
  Cursor.children held 0

/-- The cursor of the else-arm. -/
def elseCursor (held : b.branchSubtree.Held) : Cursor (Fin b.elseSteps → Unit) :=
  Cursor.children held 1

/-- Where a branch stands after a tick that has returned a status: it waits in its then-arm or has
succeeded there, with no failure, or it waits in its else-arm or has ended there, because the
condition does not hold or a then-step has failed. -/
inductive Stands (holds : Bool) (held : b.branchSubtree.Held) (visits : b.Visits)
    (status : PatternStatus) : Prop
  | inThen (hholds : holds = true) (hfine : ∀ e ∈ visits, e.2 ≠ .failure)
    (hno : ∀ j result, (.elseStep j, result) ∉ visits) (k : ℕ) (hk : 1 ≤ k)
    (hrun : ∀ i : Fin b.thenSteps, (∃ result, (.thenStep i, result) ∈ visits) ↔ i + 1 ≤ k)
    (hticked : TickedTo b.thenLeaf visits k)
    (hend : k < b.thenSteps + 1 ↔ status ≠ .success)
    (hwaits : status ≠ .success → isYieldingStatus status ∧ Cursor.currentIndex held = 0 ∧
      (thenCursor held).currentIndex = k ∧ (elseCursor held).currentIndex = 0)
  | inElse (hwhy : holds = false ∧ (∀ i result, (.thenStep i, result) ∉ visits) ∨ holds = true ∧
      ∃ i, (.thenStep i, .failure) ∈ visits ∧ (.thenStep i, .success) ∉ visits) (k : ℕ)
    (hrun : ∀ j : Fin b.elseSteps, (∃ result, (.elseStep j, result) ∈ visits) ↔ (j : ℕ) ≤ k)
    (hsuccess : ∀ j : Fin b.elseSteps, (.elseStep j, .success) ∈ visits ↔ (j : ℕ) < k)
    (hend : k < b.elseSteps ↔ status ≠ .success)
    (hwaits : isYieldingStatus status → Cursor.currentIndex held = 1 ∧
      (elseCursor held).currentIndex = k)

/-- A branch that stands in one of its arms has run one arm if and only if no then-step has failed
after its condition has held. -/
theorem Stands.oneArm_iff {holds : Bool} {held : b.branchSubtree.Held} {visits : b.Visits}
    {status : PatternStatus} (h : Stands holds held visits status) :
    b.RunsOneArm holds visits status ↔
      ¬(holds = true ∧ ∃ i, (.thenStep i, .failure) ∈ visits) := by
  cases h with
  | inThen hholds hfine hno k hk hrun hticked hend hwaits =>
    have hright : ¬(holds = true ∧ ∃ i, (.thenStep i, .failure) ∈ visits) := by
      rintro ⟨_, i, hi⟩
      exact hfine _ hi rfl
    refine iff_of_true ⟨?_, ?_, ?_⟩ hright
    · intro hn
      refine iff_of_true ?_ hholds
      exact ⟨⟨0, hn⟩, (hrun ⟨0, hn⟩).mpr hk⟩
    · intro _
      refine iff_of_false ?_ (by simp [hholds])
      rintro ⟨j, result, hj⟩
      exact hno j result hj
    · rw [if_pos hholds]
      constructor
      · intro hstatus
        have hall : b.thenSteps + 1 ≤ k := Nat.not_lt.mp fun hlt => hend.mp hlt hstatus
        refine ⟨by rw [hstatus]; decide, fun i => (hticked.success_iff i.succ).mpr ?_⟩
        exact i.succ.isLt.trans_le hall
      · rintro ⟨hends, -⟩
        by_contra hne
        exact hends (hwaits hne).1
  | inElse hwhy k hrun hsuccess hend hwaits =>
    rcases hwhy with ⟨hholds, hno⟩ | ⟨hholds, i, hfailure, hnot⟩
    · have hright : ¬(holds = true ∧ ∃ i, (.thenStep i, .failure) ∈ visits) := by
        rintro ⟨htrue, -⟩
        rw [hholds] at htrue
        cases htrue
      refine iff_of_true ⟨?_, ?_, ?_⟩ hright
      · intro _
        refine iff_of_false ?_ (by simp [hholds])
        rintro ⟨i, result, hi⟩
        exact hno i result hi
      · intro hm
        refine iff_of_true ?_ hholds
        exact ⟨⟨0, hm⟩, (hrun ⟨0, hm⟩).mpr (Nat.zero_le k)⟩
      · rw [if_neg (by simp [hholds])]
        constructor
        · intro hstatus
          have hall : b.elseSteps ≤ k := Nat.not_lt.mp fun hlt => hend.mp hlt hstatus
          exact ⟨by rw [hstatus]; decide, fun j => (hsuccess j).mpr (j.isLt.trans_le hall)⟩
        · rintro ⟨hends, hall⟩
          by_contra hne
          have hk := hend.mpr hne
          exact absurd ((hsuccess ⟨k, hk⟩).mp (hall ⟨k, hk⟩)) (lt_irrefl k)
    · refine iff_of_false ?_ (not_not.mpr ⟨hholds, i, hfailure⟩)
      intro hruns
      by_cases hm : 0 < b.elseSteps
      · have helse := (hruns.runsElse hm).mp ⟨⟨0, hm⟩, (hrun ⟨0, hm⟩).mpr (Nat.zero_le k)⟩
        rw [hholds] at helse
        cases helse
      · have hstatus : status = .success := by
          by_contra hne
          exact hm ((Nat.zero_le k).trans_lt (hend.mpr hne))
        have hall := (hruns.success.mp hstatus).2
        rw [if_pos hholds] at hall
        exact hnot (hall i)

/-- The leaves of the then-arm are distinct. -/
theorem thenLeaf_injective : Function.Injective b.thenLeaf := by
  refine Fin.cons_injective_iff.mpr ⟨?_, ?_⟩
  · rintro ⟨i, hi⟩
    cases hi
  · intro i j h
    cases h
    rfl

/-- The leaves of the else-arm are distinct. -/
theorem elseStep_injective :
    Function.Injective (BranchLeaf.elseStep : Fin b.elseSteps → BranchLeaf b.thenSteps b.elseSteps) := by
  intro i j h
  cases h
  rfl

/-- What the then-arm does is not what the else-arm does. -/
theorem thenLeaf_ne_elseStep (i : Fin (b.thenSteps + 1)) (j : Fin b.elseSteps) :
    b.thenLeaf i ≠ .elseStep j := by
  refine Fin.cases ?_ (fun i => ?_) i <;> intro h <;> cases h

/-- The tick of an arm. -/
def tickChild (b : BranchStep S) (k : Fin 2) :
    (![b.thenArm, b.elseArm] k).Held → S × b.Visits →
      Option (Ticked (![b.thenArm, b.elseArm] k).Held (S × b.Visits)) :=
  (![b.thenArm, b.elseArm] k).tick (traced b.tickLeaf) 0

/-- A branch in its else-arm runs on in it. -/
theorem tick_inElse {holds : Bool} {held : b.branchSubtree.Held} {visits : b.Visits} {k : ℕ} (s : S)
    (hindex : Cursor.currentIndex held = 1) (hcursor : (elseCursor held).currentIndex = k)
    (hk : k ≤ b.elseSteps)
    (hwhy : holds = false ∧ (∀ i result, (.thenStep i, result) ∉ visits) ∨ holds = true ∧
      ∃ i, (.thenStep i, .failure) ∈ visits ∧ (.thenStep i, .success) ∉ visits)
    (hticked : TickedTo .elseStep visits k) :
    ∃ out, b.tick held s visits = some out ∧ Stands holds out.held out.state.2 out.status := by
  obtain ⟨index, children⟩ := held
  obtain rfl : index = 1 := hindex
  obtain ⟨out, new, j, hout, hrun, htrace, hend, -⟩ := tick_leaves b.tickLeaf 0 .elseStep
    (elseCursor (Cursor.mk 1 children)) (hcursor.le.trans hk) (s, visits)
  rw [hcursor] at hrun
  have htick : b.tick (Cursor.mk 1 children) s visits = some ⟨out.status,
      Cursor.mk (if isYieldingStatus out.status then 1 else 0) (Function.update children 1 out.held),
        out.state⟩ :=
    selectorTick_one b.tickChild children (s, visits) hout
  obtain ⟨⟨-, hsuccess⟩, hall⟩ := hticked.append elseStep_injective hrun
  have hnew : ∀ i result, (.thenStep i, result) ∉ new := by
    intro i result hmem
    obtain ⟨j, hj⟩ := hrun.exists_leaf hmem
    cases hj
  refine ⟨_, htick, ?_⟩
  dsimp only
  rw [htrace]
  refine .inElse ?_ j hall hsuccess hrun.lt_iff ?_
  · simpa [hnew] using hwhy
  · intro hyields
    refine ⟨if_pos hyields, ?_⟩
    have hself := Function.update_self (1 : Fin 2) (show b.elseArm.Held from out.held) children
    exact (congrArg Cursor.currentIndex hself).trans (hend.trans (if_pos hyields))

/-- A branch in its then-arm runs on in it, or goes to its else-arm. -/
theorem tick_inThen {holds : Bool} {held : b.branchSubtree.Held} {visits : b.Visits} {k : ℕ} {s : S}
    (hindex : Cursor.currentIndex held = 0) (hcursor : (thenCursor held).currentIndex = k)
    (helse : (elseCursor held).currentIndex = 0) (hk : k ≤ b.thenSteps + 1)
    (hholds : (k = 0 → b.holds? s = some holds) ∧ (0 < k → holds = true))
    (hfine : ∀ e ∈ visits, e.2 ≠ .failure) (hno : ∀ j result, (.elseStep j, result) ∉ visits)
    (hticked : TickedTo b.thenLeaf visits k) :
    ∃ out, b.tick held s visits = some out ∧ Stands holds out.held out.state.2 out.status := by
  obtain ⟨index, children⟩ := held
  obtain rfl : index = 0 := hindex
  obtain ⟨out, new, j, hout, hrun, htrace, hend, hhead⟩ := tick_leaves b.tickLeaf 0 b.thenLeaf
    (thenCursor (Cursor.mk 0 children)) (hcursor.le.trans hk) (s, visits)
  rw [hcursor] at hrun
  have htick : b.tick (Cursor.mk 0 children) s visits =
      if isYieldingStatus out.status then
        some ⟨out.status, Cursor.mk 0 (Function.update children 0 out.held), out.state⟩
      else if out.status = .success then
        some ⟨.success, Cursor.mk 0 (Function.update children 0 out.held), out.state⟩
      else b.tick (Cursor.mk 1 (Function.update children 0 out.held)) out.state.1 out.state.2 :=
    selectorTick_zero b.tickChild children (s, visits) hout
  obtain ⟨hticked', hall⟩ := hticked.append thenLeaf_injective hrun
  have hno' : ∀ j result, (.elseStep j, result) ∉ visits ++ new := by
    intro j result hmem
    rcases List.mem_append.mp hmem with hold | hnew
    · exact hno j result hold
    · obtain ⟨i, hi⟩ := hrun.exists_leaf hnew
      exact thenLeaf_ne_elseStep i j hi.symm
  -- the condition succeeds if it is met, and does not pause
  have hcondition : k = 0 → (.condition, if b.holds? s = some true then .success else .failure) ∈ new := by
    rintro rfl
    have hfirst := hhead (by rw [hcursor]; exact Nat.succ_pos _)
    simp only [hcursor] at hfirst
    exact List.mem_of_head? hfirst
  have hmet : 1 ≤ j → holds = true := by
    intro hj
    rcases Nat.eq_zero_or_pos k with hzero | hpos
    · have hmem := hcondition hzero
      by_contra hnot
      have hunmet : b.holds? s ≠ some true := by
        rw [hholds.1 hzero]
        simpa using hnot
      rw [if_neg hunmet] at hmem
      have hlast : 0 = j := ((hrun.failure_mem_iff thenLeaf_injective 0).mp hmem).1
      omega
    · exact hholds.2 hpos
  have hunmet : j = 0 → k = 0 ∧ b.holds? s ≠ some true := by
    rintro rfl
    have hzero : k = 0 := Nat.le_zero.mp hrun.le
    refine ⟨hzero, fun hmet => ?_⟩
    have hmem := hcondition hzero
    rw [if_pos hmet] at hmem
    exact Nat.lt_irrefl 0 ((hrun.success_mem_iff thenLeaf_injective 0).mp hmem).2
  have hchildren : (elseCursor (Cursor.mk 0 (Function.update children 0 (show b.thenArm.Held from
      out.held)))).currentIndex = 0 := by
    have hother := Function.update_of_ne (show (1 : Fin 2) ≠ 0 by decide)
      (show b.thenArm.Held from out.held) children
    exact (congrArg Cursor.currentIndex hother).trans helse
  by_cases hfailed : out.status = .failure
  · rw [htick, hfailed]
    have hwhy : holds = false ∧ (∀ i result, (.thenStep i, result) ∉ visits ++ new) ∨ holds = true ∧
        ∃ i, (.thenStep i, .failure) ∈ visits ++ new ∧ (.thenStep i, .success) ∉ visits ++ new := by
      rcases Nat.eq_zero_or_pos j with hzero | hpos
      · obtain ⟨hk, hnot⟩ := hunmet hzero
        rw [hholds.1 hk] at hnot
        refine Or.inl ⟨by simpa using hnot, ?_⟩
        intro i result hmem
        have hle : (i : ℕ) + 1 ≤ j := (hall i.succ).mp ⟨result, hmem⟩
        omega
      · have hlt : j < b.thenSteps + 1 := hrun.lt_iff.mpr (by rw [hfailed]; decide)
        let i : Fin b.thenSteps := ⟨j - 1, by omega⟩
        have hi : (i.succ : ℕ) = j := Nat.sub_add_cancel hpos
        refine Or.inr ⟨hmet hpos, i, ?_, ?_⟩
        · exact List.mem_append_right _
            ((hrun.failure_mem_iff thenLeaf_injective i.succ).mpr ⟨hi, hfailed⟩)
        · intro hmem
          have hbefore := (hticked'.success_iff i.succ).mp hmem
          omega
    rw [← htrace] at hwhy hno'
    exact tick_inElse out.state.1 rfl hchildren (Nat.zero_le _) hwhy (.of_forall_not_mem hno')
  · have hpos : 1 ≤ j := by
      by_contra hnot
      obtain ⟨hk, hnotmet⟩ := hunmet (by omega)
      have hmem := hcondition hk
      rw [if_neg hnotmet] at hmem
      exact hfailed ((hrun.failure_mem_iff thenLeaf_injective 0).mp hmem).2
    have hresult : b.tick (Cursor.mk 0 children) s visits =
        some ⟨out.status, Cursor.mk 0 (Function.update children 0 out.held), out.state⟩ := by
      rw [htick]
      cases hstatus : out.status with
      | failure => exact absurd hstatus hfailed
      | success => rfl
      | running => rfl
      | waitingForInput => rfl
    refine ⟨_, hresult, ?_⟩
    dsimp only
    rw [htrace]
    refine .inThen (hmet hpos) ?_ hno' j hpos (fun i => hall i.succ) hticked' hrun.lt_iff ?_
    · intro e he hfailure
      rcases List.mem_append.mp he with hold | hnew
      · exact hfine e hold hfailure
      · obtain ⟨i, hi⟩ := hrun.exists_leaf hnew
        have hmem : (b.thenLeaf i, PatternStatus.failure) ∈ new := by
          rw [← hi, ← hfailure]
          exact hnew
        exact hfailed ((hrun.failure_mem_iff thenLeaf_injective i).mp hmem).2
    · intro hne
      have hyields : isYieldingStatus out.status := by
        cases hstatus : out.status with
        | failure => exact absurd hstatus hfailed
        | success => exact absurd hstatus hne
        | running => rfl
        | waitingForInput => rfl
      have hself := Function.update_self (0 : Fin 2) (show b.thenArm.Held from out.held) children
      exact ⟨hyields, rfl, (congrArg Cursor.currentIndex hself).trans (hend.trans (if_pos hyields)),
        hchildren⟩

/-- After every tick a branch stands in one of its arms. -/
theorem Episode.stands {holds : Bool} {held : b.branchSubtree.Held} {visits : b.Visits}
    {status : PatternStatus} (h : b.Episode holds held visits status) :
    Stands holds held visits status := by
  induction h with
  | @enter s out hholds htick =>
    have hstands : ∃ out, b.tick b.branchSubtree.reset s [] = some out ∧
        Stands holds out.held out.state.2 out.status := by
      refine tick_inThen rfl rfl rfl (Nat.zero_le _)
        ⟨fun _ => hholds, fun hlt => absurd hlt (lt_irrefl 0)⟩ ?_ ?_ (.of_forall_not_mem ?_) <;> simp
    obtain ⟨out', hout, hstands⟩ := hstands
    rw [htick] at hout
    exact Option.some.inj hout ▸ hstands
  | @again held visits status hepisode hyields s out htick ih =>
    have hstands : ∃ out, b.tick held s visits = some out ∧
        Stands holds out.held out.state.2 out.status := by
      cases ih with
      | inThen hholds hfine hno k hk hrun hticked hend hwaits =>
        have hne : status ≠ .success := by
          intro heq
          rw [heq] at hyields
          cases hyields
        obtain ⟨-, hindex, hcursor, helse⟩ := hwaits hne
        exact tick_inThen hindex hcursor helse (hend.mpr hne).le
          ⟨fun hzero => absurd hzero (by omega), fun _ => hholds⟩ hfine hno hticked
      | inElse hwhy k hrun hsuccess hend hwaits =>
        have hne : status ≠ .success := by
          intro heq
          rw [heq] at hyields
          cases hyields
        obtain ⟨hindex, hcursor⟩ := hwaits hyields
        exact tick_inElse s hindex hcursor (hend.mpr hne).le hwhy ⟨fun j => (hrun j).mp, hsuccess⟩
    obtain ⟨out', hout, hstands⟩ := hstands
    rw [htick] at hout
    exact Option.some.inj hout ▸ hstands

/-- A branch runs exactly one arm, and succeeds if and only if all steps of that arm do, unless its
condition holds when it is entered and one of its then-steps fails. -/
theorem Episode.runsOneArm_iff {holds : Bool} {held : b.branchSubtree.Held} {visits : b.Visits}
    {status : PatternStatus} (h : b.Episode holds held visits status) :
    b.RunsOneArm holds visits status ↔ ¬(holds = true ∧ ∃ i, (.thenStep i, .failure) ∈ visits) :=
  h.stands.oneArm_iff

/-- A branch with one step in each arm whose condition holds; the state says what the then-step
returns, and the else-step succeeds. -/
def oneStepEach : BranchStep PatternStatus where
  whenClause := [("equals", .null)]
  comparing := ⟨fun _ _ _ => .ok true, fun _ => true⟩
  board _ := {}
  thenSteps := 1
  elseSteps := 1
  thenPhase _ s := (s, s)
  elsePhase _ s := (.success, s)

/-- What that branch does if the then-step waits once and then succeeds. -/
def waitsThenSucceeds : oneStepEach.Visits :=
  [(.condition, .success), (.thenStep ⟨0, Nat.zero_lt_one⟩, .waitingForInput),
    (.thenStep ⟨0, Nat.zero_lt_one⟩, .success)]

/-- That run is one of the then-arm. -/
theorem Episode.runsOneArm_iff_oneStepEach : oneStepEach.RunsOneArm true waitsThenSucceeds .success ↔
    ¬(true = true ∧ ∃ i, (.thenStep i, .failure) ∈ waitsThenSucceeds) := by
  obtain ⟨out, htick, hstatus, hvisits⟩ : ∃ out,
      oneStepEach.tick oneStepEach.branchSubtree.reset .waitingForInput [] = some out ∧
        isYieldingStatus out.status ∧ (oneStepEach.tick out.held .success out.state.2).map (fun out =>
          (out.state.2, out.status)) = some (waitsThenSucceeds, .success) := ⟨_, rfl, rfl, rfl⟩
  obtain ⟨last, hlast, hlastVisits⟩ := Option.map_eq_some_iff.mp hvisits
  have hsucceeds := (Episode.enter (b := oneStepEach) rfl htick).again hstatus hlast
  obtain ⟨hvisits, hstatus⟩ := Prod.mk.inj hlastVisits
  rw [hvisits, hstatus] at hsucceeds
  exact Episode.runsOneArm_iff hsucceeds

/-- If the then-step fails, then the else-step is run. -/
theorem Episode.runsOneArm_fails : ¬ ∀ (holds : Bool) (held : oneStepEach.branchSubtree.Held)
    (visits : oneStepEach.Visits) (status : PatternStatus),
    oneStepEach.Episode holds held visits status → oneStepEach.RunsOneArm holds visits status := by
  intro h
  have htick : ∃ out, oneStepEach.tick oneStepEach.branchSubtree.reset .failure [] = some out ∧
      (.elseStep ⟨0, Nat.zero_lt_one⟩, .success) ∈ out.state.2 := ⟨_, rfl, by decide⟩
  obtain ⟨out, htick, hrun⟩ := htick
  have hruns := (h true _ _ _ (.enter rfl htick)).runsElse Nat.zero_lt_one
  have helse := hruns.mp ⟨_, _, hrun⟩
  cases helse

end BranchStep

end PalmEngine.Wizard
