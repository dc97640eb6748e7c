import PalmEngine.BehaviorTree.Node
import PalmEngine.Persistence.StateSnapshot

/-!
# Branches of a parallel pattern

Every branch runs an executable on a blackboard of its own, which is stored in the parent state
under the name of the branch after every call. A branch enters its scope on the parent before it is
ticked and leaves it when it has succeeded or failed; while it waits or runs it stays entered. The
branches share one key of the parent for the branch that waits for input.

The executables are of any kind: what they hold is of any type, and a context engine they share
with the pattern may be left bound to a state of theirs.
-/

namespace PalmEngine.Parallel

open PalmEngine.Lib PalmEngine.Context PalmEngine.Persistence PalmEngine.BehaviorTree

/-- The key of the branch that waits for input. -/
def ParallelKeys.activeBranch : String := "__parallel__.active_branch"

/-- The key of the results of the branches. -/
def ParallelKeys.branchResults : String := "__parallel__.branch_results"

/-- The key of the merged result. -/
def ParallelKeys.merged : String := "__parallel__.merged"

/-- The key that marks the merge as done. -/
def ParallelKeys.mergeComplete : String := "__parallel__.merge_complete"

/-- The key that marks the pattern as done. -/
def ParallelKeys.completed : String := "__parallel__.completed"

/-- The key of the blackboard of a branch, in what is stored for its scope. -/
def ParallelKeys.branchState : String := "__branch_state__"

/-- The key of what is stored for nested scopes. -/
def scopesRootKey : String := "__palm:scopes"

/-- A branch: its name, the schema of its blackboard and the key of its result. -/
structure BranchConfig where
  slug : String
  stateSchema : Option StateSchema := none
  resultKey : Option String := none
  slug_ne_empty : slug ≠ ""

/-- The key of the result of a branch in the merged result. -/
def BranchConfig.outputKey (branch : BranchConfig) : String :=
  (branch.resultKey.filter fun k => k ≠ "").getD branch.slug

/-- How the results of the branches are merged. -/
inductive MergeStrategy where
  | all
  | any
  | first
  deriving DecidableEq, Repr

/-- The branches of a pattern and how their results are merged. -/
structure ParallelConfig (n : ℕ) where
  branches : Fin n → BranchConfig
  mergeStrategy : MergeStrategy := .all
  mergeResultKey : String := "merged"
  nonempty : 0 < n
  slugs_injective : Function.Injective fun i => (branches i).slug

/-- When the branches are enough for the pattern. -/
def ParallelConfig.parallelPolicy {n : ℕ} (config : ParallelConfig n) : ParallelPolicy :=
  if config.mergeStrategy = .any ∨ config.mergeStrategy = .first then .successOnAny
  else .successOnAll

/-- What a call of an executable leaves the context engine bound to: the same state, the blackboard
of the branch or a state inside the executable. -/
inductive Binding where
  | same
  | branch
  | inner
  deriving DecidableEq, Repr

/-- What a call of an executable leaves. -/
structure Called (σ : Type) where
  held : σ
  state : BlackboardState
  binding : Binding := .same

/-- What a branch executes. It may take no input, or have no answers to show. The scope of a state
inside it is looked at and left where the context engine is bound to that state. -/
structure Executable (σ : Type) where
  name : String
  tick : σ → BlackboardState → PatternStatus × Called σ
  provideInput : Option (σ → BlackboardState → Value → Option String × Called σ) := none
  answers : Option (σ → BlackboardState → List (String × Value)) := none
  innerScope : σ → Option String := fun _ => none
  exitInnerScope : σ → σ := id

/-- What a branch holds: its executable, its blackboard if it is at hand, and two marks. -/
structure BranchRunner (σ : Type) where
  executable : σ
  branchState : Option BlackboardState := none
  scopeEntered : Bool := false
  completed : Bool := false

/-- The state a context engine is bound to: the parent, the blackboard of a branch, a state inside
its executable, or one that no branch holds any more, with its scopes. -/
inductive Bound (n : ℕ) where
  | parent
  | branch (i : Fin n)
  | inner (i : Fin n)
  | detached (scopes : List String)
  deriving DecidableEq

/-- The branches with the parent state and the context engine, if there is one. -/
structure World (n : ℕ) (σ : Type) where
  runners : Fin n → BranchRunner σ
  parent : BlackboardState
  context : Option (Bound n) := none

/-- Replace what a branch holds. -/
def World.setRunner {n : ℕ} {σ : Type} (w : World n σ) (i : Fin n) (runner : BranchRunner σ) :
    World n σ :=
  { w with runners := Function.update w.runners i runner }

/-- Parallel branches: their configuration and their executables. How a scope name that is not a
text is shown is left open. -/
structure Branches (n : ℕ) (σ : Type) where
  config : ParallelConfig n
  executables : Fin n → Executable σ
  shown : Value → String := fun _ => ""

section Storage

/-- A dictionary of entries; of two with one key the later one counts. -/
def dictOf (entries : List (String × Value)) : Dict String Value :=
  entries.foldl (fun d e => d.set e.1 e.2) .empty

/-- Store a snapshot under a branch. -/
def saveBranchSnapshot (state : BlackboardState) (branchSlug : String)
    (snapshot : Dict String Value) : BlackboardState :=
  let scopesRoot := ((state.get scopesRootKey).bind Value.asDict).getD []
  let node := ((valueOf? branchSlug scopesRoot).bind Value.asDict).getD []
  let node := setEntry ParallelKeys.branchState (.dict snapshot.entries) node
  state.set scopesRootKey (.dict (setEntry branchSlug (.dict node) scopesRoot))

/-- The snapshot that is stored under a branch. -/
def loadBranchSnapshot (state : BlackboardState) (branchSlug : String) :
    Option (List (String × Value)) :=
  ((state.get scopesRootKey).bind Value.asDict).bind fun scopesRoot =>
    ((valueOf? branchSlug scopesRoot).bind Value.asDict).bind fun node =>
      (valueOf? ParallelKeys.branchState node).bind Value.asDict

/-- The results of the branches that have succeeded. -/
def getBranchResults (state : BlackboardState) : List (String × Value) :=
  ((state.get ParallelKeys.branchResults).bind Value.asDict).getD []

/-- Store the result of a branch. -/
def recordBranchResult (state : BlackboardState) (branchSlug : String)
    (result : List (String × Value)) : BlackboardState :=
  state.set ParallelKeys.branchResults
    (.dict (setEntry branchSlug (.dict result) (getBranchResults state)))

/-- Whether the key of the branch that waits has no value. -/
def noneActive (state : BlackboardState) : Bool :=
  (state.get ParallelKeys.activeBranch).all Value.isNull

end Storage

namespace Branches

variable {n : ℕ} {σ : Type} (b : Branches n σ)

/-- The name of a branch. -/
def slug (i : Fin n) : String := (b.config.branches i).slug

/-- The branch of a name. -/
def runner? (name : String) : Option (Fin n) := (List.finRange n).find? fun i => b.slug i = name

section Scope

/-- Bind the schema of a branch to its scope and enter the scope, unless it is the innermost one. A
context engine is bound to the parent. -/
def enterBranch (i : Fin n) (w : World n σ) : World n σ :=
  let parent := (b.config.branches i).stateSchema.elim w.parent fun schema =>
    (w.parent.bindScopeSchema (b.slug i) (some schema)).toOption.getD w.parent
  let parent := if parent.currentScope = some (b.slug i) then parent
    else (parent.enterScope (b.slug i)).toOption.getD parent
  { w with parent := parent, context := w.context.map fun _ => .parent }

/-- The innermost scope of the state the context engine is bound to. -/
def boundScope (w : World n σ) : Bound n → Option String
  | .parent => w.parent.currentScope
  | .branch i => (w.runners i).branchState.bind BlackboardState.currentScope
  | .inner i => (b.executables i).innerScope (w.runners i).executable
  | .detached scopes => scopes.getLast?

/-- Leave the innermost scope of the state the context engine is bound to. -/
def exitBoundScope (w : World n σ) : Bound n → World n σ
  | .parent => { w with parent := w.parent.exitScope.toOption.getD w.parent }
  | .branch i => w.setRunner i { w.runners i with
      branchState := (w.runners i).branchState.map fun s => s.exitScope.toOption.getD s }
  | .inner i => w.setRunner i { w.runners i with
      executable := (b.executables i).exitInnerScope (w.runners i).executable }
  | .detached scopes => { w with context := some (.detached scopes.dropLast) }

/-- Leave the scope of a branch, if it is the innermost one of the parent, or of the state the
context engine is bound to if there is one. -/
def leaveBranch (i : Fin n) (w : World n σ) : World n σ :=
  let bound := w.context.getD .parent
  if b.boundScope w bound = some (b.slug i) then b.exitBoundScope w bound else w

/-- Enter the scope of a branch, unless it is marked as entered. -/
def ensureScope (i : Fin n) (w : World n σ) : World n σ :=
  if (w.runners i).scopeEntered then w
  else (b.enterBranch i w).setRunner i { w.runners i with scopeEntered := true }

/-- Leave the scope of a branch and take the mark back, if it is marked as entered. -/
def teardownScope (i : Fin n) (w : World n σ) : World n σ :=
  if (w.runners i).scopeEntered then
    (b.leaveBranch i w).setRunner i { (b.leaveBranch i w).runners i with scopeEntered := false }
  else w

end Scope

section Runner

/-- The blackboard of a branch: the one at hand, or that of the stored snapshot, or a new one, which
is stored. -/
def ensureBranchState (i : Fin n) (w : World n σ) : BlackboardState × World n σ :=
  (w.runners i).branchState.elim
    (((loadBranchSnapshot w.parent (b.slug i)).filter fun snapshot => !snapshot.isEmpty).elim
      (let fresh : BlackboardState := { schema := (b.config.branches i).stateSchema }
      (fresh, { w.setRunner i { w.runners i with branchState := some fresh } with
        parent := saveBranchSnapshot w.parent (b.slug i) (snapshotState fresh) }))
      fun snapshot =>
        let restored := stateFromSnapshot b.shown (dictOf snapshot)
        (restored, w.setRunner i { w.runners i with branchState := some restored }))
    fun state => (state, w)

/-- The state the context engine is bound to after a call of the executable of a branch. -/
def rebind (i : Fin n) (context : Option (Bound n)) : Binding → Option (Bound n)
  | .same => context
  | .branch => context.map fun _ => .branch i
  | .inner => context.map fun _ => .inner i

/-- What a call of the executable of a branch leaves, with the snapshot stored. -/
def storeCalled (i : Fin n) (w : World n σ) (called : Called σ) : World n σ :=
  { w.setRunner i { w.runners i with
      executable := called.held, branchState := some called.state } with
    parent := saveBranchSnapshot w.parent (b.slug i) (snapshotState called.state)
    context := rebind i w.context called.binding }

/-- Enter the scope of a branch, have its blackboard at hand, call the executable on it and store
what it leaves. -/
def callRunner {α : Type} (i : Fin n) (w : World n σ) (call : σ → BlackboardState → α × Called σ) :
    α × BlackboardState × World n σ :=
  let ensured := b.ensureBranchState i (b.ensureScope i w)
  let out := call (ensured.2.runners i).executable ensured.1
  (out.1, out.2.state, b.storeCalled i ensured.2 out.2)

/-- The result of a branch: its answers, or all of its blackboard. -/
def buildResult (i : Fin n) (held : σ) (state : BlackboardState) : List (String × Value) :=
  [("status", .str "success"), ("slug", .str (b.slug i)),
    ("pattern", .str (b.executables i).name),
    (b.executables i).answers.elim ("value", .dict state.data.entries) fun answers =>
      ("answers", .dict (answers held state))]

/-- Where the context engine is bound when a branch gives its blackboard away. -/
def detach (i : Fin n) (w : World n σ) : Option (Bound n) :=
  w.context.map fun bound => match bound with
    | .branch j =>
      if j = i then .detached ((w.runners i).branchState.elim [] BlackboardState.scopeStack)
      else .branch j
    | other => other

/-- Record the result of a branch that has succeeded, mark it as completed, remove the key of the
branch that waits and leave the scope. -/
def finalizeSuccess (i : Fin n) (w : World n σ) (state : BlackboardState) : World n σ :=
  let parent := recordBranchResult w.parent (b.slug i)
    (b.buildResult i (w.runners i).executable state)
  let w : World n σ := { w.setRunner i { w.runners i with completed := true, branchState := none }
    with parent := parent.delete ParallelKeys.activeBranch, context := detach i w }
  b.teardownScope i w

/-- Tick a branch. -/
def tickRunner (i : Fin n) (w : World n σ) : PatternStatus × World n σ :=
  if (w.runners i).completed then (.success, w)
  else
    let out := b.callRunner i w (b.executables i).tick
    let w := out.2.2
    if out.1 = .waitingForInput then
      (out.1, if noneActive w.parent then
          { w with parent := w.parent.set ParallelKeys.activeBranch (.str (b.slug i)) }
        else w)
    else if out.1 = .running then (out.1, w)
    else if out.1 = .success then (.success, b.finalizeSuccess i w out.2.1)
    else (.failure, b.teardownScope i w)

/-- Give a value to a branch; it returns the name of the step that has taken it. -/
def provideInputRunner (i : Fin n) (w : World n σ) (v : Value) : Option String × World n σ :=
  (b.executables i).provideInput.elim (none, w) fun provide =>
    let out := b.callRunner i w fun held state => provide held state v
    let w := out.2.2
    (some ((out.1.filter fun step => step ≠ "").elim (b.slug i) fun step =>
        b.slug i ++ ":" ++ step),
      { w with parent := w.parent.set ParallelKeys.activeBranch (.str (b.slug i)) })

end Runner

section Frames

variable {b : Branches n σ} {i j : Fin n} {w : World n σ}

/-- The name of a branch tells it apart. -/
theorem slug_injective : Function.Injective b.slug := b.config.slugs_injective

/-- The branch of its name. -/
theorem runner?_slug (i : Fin n) : b.runner? (b.slug i) = some i := by
  unfold runner?
  rw [List.find?_eq_some_iff_getElem]
  refine ⟨by simp, i, by simp, by simp, fun j hj => ?_⟩
  have hne : (⟨j, hj.trans i.isLt⟩ : Fin n) ≠ i := fun heq => (ne_of_lt hj) (congrArg Fin.val heq)
  simpa using fun heq => hne (slug_injective heq)

/-- A name that gives a branch is the name of that branch. -/
theorem slug_of_runner? {name : String} (h : b.runner? name = some i) : b.slug i = name := by
  simpa using List.find?_some h

/-- A stored snapshot is found again. -/
theorem loadBranchSnapshot_save_self (state : BlackboardState) (name : String)
    (snapshot : Dict String Value) :
    loadBranchSnapshot (saveBranchSnapshot state name snapshot) name = some snapshot.entries := by
  simp [loadBranchSnapshot, saveBranchSnapshot, BlackboardState.get, BlackboardState.set,
    Value.asDict]

/-- Storing a snapshot leaves those of the other branches as they are. -/
theorem loadBranchSnapshot_save_ne (state : BlackboardState) {name other : String}
    (snapshot : Dict String Value) (h : other ≠ name) :
    loadBranchSnapshot (saveBranchSnapshot state name snapshot) other =
      loadBranchSnapshot state other := by
  simp only [loadBranchSnapshot, saveBranchSnapshot, BlackboardState.get, BlackboardState.set,
    Dict.get?_set_self, Option.bind_some, Value.asDict, valueOf?_setEntry_ne _ _ h]
  cases (state.data.get? scopesRootKey).bind Value.asDict with
  | none => simp [valueOf?]
  | some scopesRoot => rfl

/-- The stored snapshots are in the data under one key. -/
theorem loadBranchSnapshot_congr {state state' : BlackboardState}
    (h : state.get scopesRootKey = state'.get scopesRootKey) (name : String) :
    loadBranchSnapshot state name = loadBranchSnapshot state' name := by
  rw [loadBranchSnapshot, loadBranchSnapshot, h]

/-- Storing a snapshot leaves the other keys as they are. -/
theorem get_saveBranchSnapshot (state : BlackboardState) (name : String)
    (snapshot : Dict String Value) {k : String} (h : k ≠ scopesRootKey) :
    (saveBranchSnapshot state name snapshot).get k = state.get k :=
  Dict.get?_set_ne _ _ h

/-- Entering a scope changes no data and puts the scope on the stack unless it is there. -/
theorem enterBranch_parent (i : Fin n) (w : World n σ) :
    (b.enterBranch i w).parent.data = w.parent.data ∧
      (b.enterBranch i w).parent.scopeStack =
        if w.parent.currentScope = some (b.slug i) then w.parent.scopeStack
        else w.parent.scopeStack ++ [b.slug i] := by
  have hne : b.slug i ≠ "" := (b.config.branches i).slug_ne_empty
  cases hschema : (b.config.branches i).stateSchema with
  | none =>
    by_cases htop : w.parent.currentScope = some (b.slug i) <;>
      simp [enterBranch, hschema, htop, BlackboardState.enterScope, hne, Except.toOption]
  | some schema =>
    have hbind : w.parent.bindScopeSchema (b.slug i) (some schema) = .ok { w.parent with
        scopeSchemas := w.parent.scopeSchemas.set (b.slug i) schema } := by
      simp [BlackboardState.bindScopeSchema, hne]
    have hscope (schemas : Dict String StateSchema) :
        BlackboardState.currentScope { w.parent with scopeSchemas := schemas } =
          w.parent.currentScope := rfl
    by_cases htop : w.parent.currentScope = some (b.slug i) <;>
      simp [enterBranch, hschema, hbind, hscope, htop, BlackboardState.enterScope, hne,
        Except.toOption]

/-- Leaving a scope, if there is one, takes it off the stack and changes no data. -/
theorem exitScope_parent (state : BlackboardState) :
    (state.exitScope.toOption.getD state).data = state.data ∧
      (state.exitScope.toOption.getD state).scopeStack = state.scopeStack.dropLast := by
  by_cases hempty : state.scopeStack = [] <;>
    simp [BlackboardState.exitScope, hempty, Except.toOption]

/-- What leaving a scope keeps: the data of the parent and the marks of the branches. -/
theorem leaveBranch_keeps (i j : Fin n) (w : World n σ) :
    (b.leaveBranch i w).parent.data = w.parent.data ∧
      ((b.leaveBranch i w).runners j).scopeEntered = (w.runners j).scopeEntered ∧
      ((b.leaveBranch i w).runners j).completed = (w.runners j).completed := by
  unfold leaveBranch
  dsimp only
  split
  · cases w.context.getD .parent with
    | parent => exact ⟨(exitScope_parent w.parent).1, rfl, rfl⟩
    | branch k => by_cases h : j = k <;> simp [exitBoundScope, World.setRunner, h]
    | inner k => by_cases h : j = k <;> simp [exitBoundScope, World.setRunner, h]
    | detached scopes => exact ⟨rfl, rfl, rfl⟩
  · exact ⟨rfl, rfl, rfl⟩

/-- What leaving the scope of a branch keeps, its own mark as entered apart. -/
theorem teardownScope_keeps (i j : Fin n) (w : World n σ) :
    (b.teardownScope i w).parent.data = w.parent.data ∧
      (j ≠ i → ((b.teardownScope i w).runners j).scopeEntered = (w.runners j).scopeEntered) ∧
      ((b.teardownScope i w).runners i).scopeEntered = false ∧
      ((b.teardownScope i w).runners j).completed = (w.runners j).completed := by
  obtain ⟨hdata, hentered, hcompleted⟩ := b.leaveBranch_keeps i j w
  unfold teardownScope
  split
  · refine ⟨hdata, fun h => ?_, by simp [World.setRunner], ?_⟩
    · simpa [World.setRunner, h] using hentered
    · by_cases h : j = i
      · subst h
        simpa [World.setRunner] using hcompleted
      · simpa [World.setRunner, h] using hcompleted
  · next hnot => exact ⟨rfl, fun _ => rfl, by simpa using hnot, rfl⟩

/-- Leaving the scope of a branch leaves the keys of the parent as they are. -/
theorem get_teardownScope (i : Fin n) (w : World n σ) (k : String) :
    (b.teardownScope i w).parent.get k = w.parent.get k :=
  congrArg (fun d : Dict String Value => d.get? k) (teardownScope_keeps i i w).1

/-- What a call of a branch leaves alone: the data of the parent apart from what is stored for
nested scopes, the snapshots of the other branches, what they hold and the mark as completed. -/
structure Touches (b : Branches n σ) (i : Fin n) (w w' : World n σ) : Prop where
  get : ∀ k ≠ scopesRootKey, w'.parent.get k = w.parent.get k
  snapshots : ∀ j ≠ i, loadBranchSnapshot w'.parent (b.slug j) =
    loadBranchSnapshot w.parent (b.slug j)
  runners : ∀ j ≠ i, w'.runners j = w.runners j
  completed : (w'.runners i).completed = (w.runners i).completed

/-- One part of a call after another. -/
theorem Touches.trans {w w' w'' : World n σ} (h : b.Touches i w w') (h' : b.Touches i w' w'') :
    b.Touches i w w'' where
  get k hk := (h'.get k hk).trans (h.get k hk)
  snapshots j hj := (h'.snapshots j hj).trans (h.snapshots j hj)
  runners j hj := (h'.runners j hj).trans (h.runners j hj)
  completed := h'.completed.trans h.completed

/-- A change of what the branch holds and of its snapshot. -/
theorem touches_save (runner : BranchRunner σ) (snapshot : Dict String Value)
    (context : Option (Bound n)) (h : runner.completed = (w.runners i).completed) :
    b.Touches i w { w.setRunner i runner with
      parent := saveBranchSnapshot w.parent (b.slug i) snapshot, context := context } where
  get k hk := get_saveBranchSnapshot _ _ _ hk
  snapshots j hj := loadBranchSnapshot_save_ne _ _ (slug_injective.ne hj)
  runners j hj := by simp [World.setRunner, hj]
  completed := by simpa [World.setRunner] using h

/-- Entering the scope of a branch is part of a call of it. -/
theorem touches_ensureScope (i : Fin n) (w : World n σ) : b.Touches i w (b.ensureScope i w) := by
  have hdata := (enterBranch_parent (b := b) i w).1
  unfold ensureScope
  split
  · exact ⟨fun _ _ => rfl, fun _ _ => rfl, fun _ _ => rfl, rfl⟩
  · refine ⟨fun k _ => ?_, fun j _ => ?_, fun j hj => ?_, ?_⟩
    · exact congrArg (fun d : Dict String Value => d.get? k) hdata
    · refine loadBranchSnapshot_congr ?_ _
      exact congrArg (fun d : Dict String Value => d.get? scopesRootKey) hdata
    · simp [World.setRunner, enterBranch, hj]
    · simp [World.setRunner]

/-- Having the blackboard at hand is part of a call of a branch. -/
theorem touches_ensureBranchState (i : Fin n) (w : World n σ) :
    b.Touches i w (b.ensureBranchState i w).2 := by
  unfold ensureBranchState
  cases (w.runners i).branchState with
  | some state => exact ⟨fun _ _ => rfl, fun _ _ => rfl, fun _ _ => rfl, rfl⟩
  | none =>
    rw [Option.elim_none]
    cases (loadBranchSnapshot w.parent (b.slug i)).filter fun snapshot => !snapshot.isEmpty with
    | none => exact touches_save _ _ _ rfl
    | some snapshot =>
      exact ⟨fun _ _ => rfl, fun _ _ => rfl, fun j hj => by simp [World.setRunner, hj],
        by simp [World.setRunner]⟩

/-- A call of a branch leaves the others alone. -/
theorem touches_callRunner {α : Type} (i : Fin n) (w : World n σ)
    (call : σ → BlackboardState → α × Called σ) : b.Touches i w (b.callRunner i w call).2.2 :=
  ((touches_ensureScope i w).trans (touches_ensureBranchState i _)).trans
    (touches_save _ _ _ rfl)

/-- Having the blackboard of a branch at hand changes neither its executable nor any scope. -/
theorem ensureBranchState_keeps (i : Fin n) (w : World n σ) :
    ((b.ensureBranchState i w).2.runners i).executable = (w.runners i).executable ∧
      ((b.ensureBranchState i w).2.runners i).scopeEntered = (w.runners i).scopeEntered ∧
      (b.ensureBranchState i w).2.parent.scopeStack = w.parent.scopeStack ∧
      (b.ensureBranchState i w).2.context = w.context := by
  unfold ensureBranchState
  cases (w.runners i).branchState with
  | some state => exact ⟨rfl, rfl, rfl, rfl⟩
  | none =>
    rw [Option.elim_none]
    cases (loadBranchSnapshot w.parent (b.slug i)).filter fun snapshot => !snapshot.isEmpty with
    | none => simp [World.setRunner, saveBranchSnapshot, BlackboardState.set]
    | some snapshot => simp [World.setRunner]

/-- What entering the scope of a branch leaves: its mark, the stack and the context engine. -/
theorem ensureScope_scope (i : Fin n) (w : World n σ) :
    ((b.ensureScope i w).runners i).scopeEntered = true ∧
      (b.ensureScope i w).parent.scopeStack =
        (if (w.runners i).scopeEntered = true ∨ w.parent.currentScope = some (b.slug i) then
          w.parent.scopeStack
        else w.parent.scopeStack ++ [b.slug i]) ∧
      (b.ensureScope i w).context =
        if (w.runners i).scopeEntered = true then w.context
        else w.context.map fun _ => .parent := by
  unfold ensureScope
  by_cases h : (w.runners i).scopeEntered = true
  · simp [h]
  · simpa [h, World.setRunner, enterBranch] using (enterBranch_parent (b := b) i w).2

/-- The blackboard of a branch is the same whether its scope is entered or not. -/
theorem ensureBranchState_ensureScope (i : Fin n) (w : World n σ) :
    (b.ensureBranchState i (b.ensureScope i w)).1 = (b.ensureBranchState i w).1 := by
  have hstate : ((b.ensureScope i w).runners i).branchState = (w.runners i).branchState := by
    unfold ensureScope
    split <;> simp [World.setRunner]
  have hload : loadBranchSnapshot (b.ensureScope i w).parent (b.slug i) =
      loadBranchSnapshot w.parent (b.slug i) := by
    refine loadBranchSnapshot_congr ?_ _
    unfold ensureScope
    split
    · rfl
    · exact congrArg (fun d : Dict String Value => d.get? scopesRootKey) (enterBranch_parent i w).1
  unfold ensureBranchState
  rw [hstate, hload]
  cases (w.runners i).branchState with
  | some state => rfl
  | none => cases (loadBranchSnapshot w.parent (b.slug i)).filter fun snapshot =>
      !snapshot.isEmpty <;> rfl

/-- A call of a branch calls its executable on what it holds and on its blackboard. -/
theorem callRunner_eq {α : Type} (i : Fin n) (w : World n σ)
    (call : σ → BlackboardState → α × Called σ) :
    b.callRunner i w call =
      let out := call (w.runners i).executable (b.ensureBranchState i w).1
      (out.1, out.2.state,
        b.storeCalled i (b.ensureBranchState i (b.ensureScope i w)).2 out.2) := by
  have hheld : ((b.ensureScope i w).runners i).executable = (w.runners i).executable := by
    unfold ensureScope
    split <;> simp [World.setRunner]
  simp only [callRunner, ensureBranchState_ensureScope, (ensureBranchState_keeps i _).1, hheld]

/-- What the executable of a branch leaves after a call. -/
theorem callRunner_held {α : Type} (i : Fin n) (w : World n σ)
    (call : σ → BlackboardState → α × Called σ) :
    ((b.callRunner i w call).2.2.runners i).executable =
        (call (w.runners i).executable (b.ensureBranchState i w).1).2.held ∧
      ((b.callRunner i w call).2.2.runners i).branchState =
        some (call (w.runners i).executable (b.ensureBranchState i w).1).2.state := by
  simp [callRunner_eq, storeCalled, World.setRunner]

/-- A call of a branch finds its scope entered, puts it on the stack if it has not been and may bind
the context engine. -/
theorem callRunner_scope {α : Type} (i : Fin n) (w : World n σ)
    (call : σ → BlackboardState → α × Called σ) :
    ((b.callRunner i w call).2.2.runners i).scopeEntered = true ∧
      (b.callRunner i w call).2.2.parent.scopeStack =
        (if (w.runners i).scopeEntered = true ∨ w.parent.currentScope = some (b.slug i) then
          w.parent.scopeStack
        else w.parent.scopeStack ++ [b.slug i]) ∧
      (b.callRunner i w call).2.2.context =
        rebind i (if (w.runners i).scopeEntered = true then w.context
            else w.context.map fun _ => .parent)
          (call (w.runners i).executable (b.ensureBranchState i w).1).2.binding := by
  obtain ⟨hentered, hstack, hcontext⟩ := ensureScope_scope (b := b) i w
  obtain ⟨-, hentered', hstack', hcontext'⟩ := ensureBranchState_keeps (b := b) i (b.ensureScope i w)
  rw [callRunner_eq]
  refine ⟨?_, hstack'.trans hstack, ?_⟩
  · simpa [storeCalled, World.setRunner] using hentered'.trans hentered
  · simp [storeCalled, hcontext', hcontext]

/-- What the end of a branch with success leaves alone, and what it takes away. -/
theorem finalizeSuccess_keeps (i : Fin n) (w : World n σ) (state : BlackboardState) :
    (∀ k, k ≠ ParallelKeys.branchResults → k ≠ ParallelKeys.activeBranch →
      (b.finalizeSuccess i w state).parent.get k = w.parent.get k) ∧
    (b.finalizeSuccess i w state).parent.get ParallelKeys.activeBranch = none ∧
    (∀ j ≠ i, ((b.finalizeSuccess i w state).runners j).scopeEntered =
      (w.runners j).scopeEntered ∧
      ((b.finalizeSuccess i w state).runners j).completed = (w.runners j).completed) ∧
    ((b.finalizeSuccess i w state).runners i).scopeEntered = false := by
  unfold finalizeSuccess
  dsimp only
  generalize hw : ({ w.setRunner i { w.runners i with completed := true, branchState := none } with
    parent := (recordBranchResult w.parent (b.slug i)
      (b.buildResult i (w.runners i).executable state)).delete ParallelKeys.activeBranch
    context := detach i w } : World n σ) = w'
  refine ⟨fun k hresults hactive => ?_, ?_, fun j hj => ?_, (teardownScope_keeps i i w').2.2.1⟩
  · rw [get_teardownScope, ← hw]
    simp only [BlackboardState.get, BlackboardState.delete, recordBranchResult, BlackboardState.set]
    rw [Dict.get?_erase, if_neg hactive, Dict.get?_set_ne _ _ hresults]
  · rw [get_teardownScope, ← hw]
    simp [BlackboardState.get, BlackboardState.delete, Dict.get?_erase]
  · obtain ⟨-, hentered, -, hcompleted⟩ := teardownScope_keeps (b := b) i j w'
    rw [hentered hj, hcompleted, ← hw]
    simp [World.setRunner, hj]

/-- A branch that is not completed returns what its executable returns. -/
theorem tickRunner_status (h : (w.runners i).completed = false) :
    (b.tickRunner i w).1 = (b.callRunner i w (b.executables i).tick).1 := by
  unfold tickRunner
  cases hstatus : (b.callRunner i w (b.executables i).tick).1 <;> simp [h, hstatus]

/-- What the tick of a branch leaves alone: the marks and the snapshots of the others, and the data
of the parent apart from three keys. -/
theorem tickRunner_keeps (i : Fin n) (w : World n σ) :
    (∀ j ≠ i, ((b.tickRunner i w).2.runners j).scopeEntered = (w.runners j).scopeEntered ∧
      ((b.tickRunner i w).2.runners j).completed = (w.runners j).completed) ∧
    (∀ k, k ≠ scopesRootKey → k ≠ ParallelKeys.branchResults → k ≠ ParallelKeys.activeBranch →
      (b.tickRunner i w).2.parent.get k = w.parent.get k) ∧
    ∀ j ≠ i, loadBranchSnapshot (b.tickRunner i w).2.parent (b.slug j) =
      loadBranchSnapshot w.parent (b.slug j) := by
  have htouches := touches_callRunner (b := b) i w (b.executables i).tick
  unfold tickRunner
  generalize b.callRunner i w (b.executables i).tick = out at htouches ⊢
  have hrunner (j : Fin n) (hj : j ≠ i) :
      (out.2.2.runners j).scopeEntered = (w.runners j).scopeEntered ∧
        (out.2.2.runners j).completed = (w.runners j).completed := by
    rw [htouches.runners j hj]
    exact ⟨rfl, rfl⟩
  dsimp only
  split
  · exact ⟨fun _ _ => ⟨rfl, rfl⟩, fun _ _ _ _ => rfl, fun _ _ => rfl⟩
  split
  · dsimp only
    split
    · refine ⟨hrunner, fun k hk _ hactive => ?_, fun j hj => ?_⟩
      · exact (Dict.get?_set_ne _ _ hactive).trans (htouches.get k hk)
      · refine (loadBranchSnapshot_congr ?_ _).trans (htouches.snapshots j hj)
        exact Dict.get?_set_ne _ _ (by decide)
    · exact ⟨hrunner, fun k hk _ _ => htouches.get k hk, htouches.snapshots⟩
  split
  · exact ⟨hrunner, fun k hk _ _ => htouches.get k hk, htouches.snapshots⟩
  split
  · obtain ⟨hget, -, hmarks, -⟩ := finalizeSuccess_keeps (b := b) i out.2.2 out.2.1
    refine ⟨fun j hj => ?_, fun k hk hresults hactive => ?_, fun j hj => ?_⟩
    · exact ⟨(hmarks j hj).1.trans (hrunner j hj).1, (hmarks j hj).2.trans (hrunner j hj).2⟩
    · exact (hget k hresults hactive).trans (htouches.get k hk)
    · refine (loadBranchSnapshot_congr ?_ _).trans (htouches.snapshots j hj)
      exact hget _ (by decide) (by decide)
  · refine ⟨fun j hj => ?_, fun k hk _ _ => ?_, fun j hj => ?_⟩
    · obtain ⟨-, hentered, -, hcompleted⟩ := teardownScope_keeps (b := b) i j out.2.2
      exact ⟨(hentered hj).trans (hrunner j hj).1, hcompleted.trans (hrunner j hj).2⟩
    · exact (get_teardownScope i out.2.2 k).trans (htouches.get k hk)
    · exact (loadBranchSnapshot_congr (get_teardownScope i out.2.2 _) _).trans
        (htouches.snapshots j hj)

/-- What a branch that is not completed does to the key of the branch that waits. -/
theorem tickRunner_active (h : (w.runners i).completed = false) :
    (b.tickRunner i w).2.parent.get ParallelKeys.activeBranch =
      if (b.tickRunner i w).1 = .waitingForInput then
        if noneActive w.parent then some (.str (b.slug i))
        else w.parent.get ParallelKeys.activeBranch
      else if (b.tickRunner i w).1 = .success then none
      else w.parent.get ParallelKeys.activeBranch := by
  have hget := (touches_callRunner (b := b) i w (b.executables i).tick).get
    ParallelKeys.activeBranch (by decide)
  have hnone : noneActive (b.callRunner i w (b.executables i).tick).2.2.parent =
      noneActive w.parent := by
    rw [noneActive, noneActive, hget]
  rw [tickRunner_status h]
  unfold tickRunner
  cases hstatus : (b.callRunner i w (b.executables i).tick).1 with
  | waitingForInput =>
    cases hactive : noneActive w.parent with
    | true => simp [h, hstatus, hnone, hactive, BlackboardState.set, BlackboardState.get]
    | false => simpa [h, hstatus, hnone, hactive] using hget
  | running => simpa [h, hstatus] using hget
  | success => simpa [h, hstatus] using (finalizeSuccess_keeps i _ _).2.1
  | failure => simpa [h, hstatus] using (get_teardownScope i _ _).trans hget

/-- A branch that pauses is not completed. -/
theorem completed_of_yields (h : (w.runners i).completed = false)
    (hstatus : isYieldingStatus (b.tickRunner i w).1 = true) :
    ((b.tickRunner i w).2.runners i).completed = false := by
  have hcompleted := (touches_callRunner (b := b) i w (b.executables i).tick).completed.trans h
  rw [tickRunner_status h] at hstatus
  unfold tickRunner
  cases hout : (b.callRunner i w (b.executables i).tick).1 with
  | waitingForInput =>
    cases hactive : noneActive (b.callRunner i w (b.executables i).tick).2.2.parent <;>
      simp [h, hout, hactive, hcompleted]
  | running => simp [h, hout, hcompleted]
  | success =>
    rw [hout] at hstatus
    cases hstatus
  | failure =>
    rw [hout] at hstatus
    cases hstatus

end Frames

end Branches

end PalmEngine.Parallel
