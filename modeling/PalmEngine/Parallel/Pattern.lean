import PalmEngine.BehaviorTree.Turns
import PalmEngine.Lib.Runs
import PalmEngine.Parallel.Branch

/-!
# The parallel pattern

A pattern ticks its branches by a parallel node, merges their results when the node succeeds and
gives an input to the branch that the key for it names. Once the results are merged it succeeds at
every tick. Events are left out; how a schema validates is left open.
-/

namespace PalmEngine.Parallel

open PalmEngine.Lib PalmEngine.Context PalmEngine.BehaviorTree

/-- A pattern: its branches, how a schema validates a state or one key of it, and which values of
other types count as true. -/
structure ParallelPattern (n : ℕ) (σ : Type) extends Branches n σ where
  validateState : StateSchema → List (String × Value) → Bool
  validateKey : StateSchema → String → Value → Bool
  otherTruthy : ℕ → Bool

/-- What a pattern holds: the results of its branches, with the branches and the parent state. -/
structure System (n : ℕ) (σ : Type) where
  held : Results n (Fin n → Unit)
  world : World n σ

/-- The value of a branch in the merged result. -/
def branchValue (payload : List (String × Value)) : Value :=
  ((valueOf? "answers" payload).or (valueOf? "value" payload)).getD (.dict payload)

/-- The result of a branch if it has succeeded. -/
def succeeded (results : List (String × Value)) (branchSlug : String) :
    Option (List (String × Value)) :=
  ((valueOf? branchSlug results).bind Value.asDict).filter fun payload =>
    (valueOf? "status" payload).bind Value.asStr = some "success"

namespace ParallelPattern

variable {n : ℕ} {σ : Type} (p : ParallelPattern n σ)

section Merge

/-- The results of all branches, if all have succeeded. -/
def mergeAll (results : List (String × Value)) : Option (List (String × Value)) :=
  (List.finRange n).foldlM (fun merged i => (succeeded results (p.slug i)).map fun payload =>
    setEntry (p.config.branches i).outputKey (branchValue payload) merged) []

/-- The results of the branches that have succeeded, if any has. -/
def mergeAny (results : List (String × Value)) : Option (List (String × Value)) :=
  let merged := (List.finRange n).foldl (fun merged i =>
    (succeeded results (p.slug i)).elim merged fun payload =>
      setEntry (p.config.branches i).outputKey (branchValue payload) merged) []
  if merged.isEmpty then none else some merged

/-- The result of the first branch that has succeeded, if any has. -/
def mergeFirst (results : List (String × Value)) : Option (List (String × Value)) :=
  (List.finRange n).findSome? fun i => (succeeded results (p.slug i)).map fun payload =>
    [((p.config.branches i).outputKey, branchValue payload)]

/-- Merge the results of the branches. -/
def applyMergeStrategy (results : List (String × Value)) : Option (List (String × Value)) :=
  if p.config.mergeStrategy = .all then p.mergeAll results
  else if p.config.mergeStrategy = .any then p.mergeAny results
  else p.mergeFirst results

/-- Whether the schema of the parent accepts a merged result. -/
def validateMerged (state : BlackboardState) (merged : List (String × Value)) : Bool :=
  state.schema.all fun schema =>
    if p.config.mergeStrategy = .all then p.validateState schema merged
    else merged.all fun e => p.validateKey schema e.1 e.2

/-- Store the merged result, if the branches have one that the schema accepts. -/
def mergeBranchResults (state : BlackboardState) : Option BlackboardState :=
  ((p.applyMergeStrategy (getBranchResults state)).filter (p.validateMerged state)).map
    fun merged =>
      let state := state.set ParallelKeys.merged (.dict merged)
      let state := state.set ParallelKeys.mergeComplete (.bool true)
      if p.config.mergeResultKey = "" then state
      else state.set p.config.mergeResultKey (.dict merged)

end Merge

section Calls

/-- Whether the pattern has marked itself as done. -/
def done (state : BlackboardState) : Bool :=
  (state.get ParallelKeys.completed).any (truthy p.otherTruthy) ||
    (state.get ParallelKeys.mergeComplete).any (truthy p.otherTruthy)

/-- Bind the context engine to the parent. -/
def bindContext (w : World n σ) : World n σ :=
  { w with context := w.context.map fun _ => .parent }

/-- The tick of the leaf of a branch. -/
def branchLeaf (i : Fin n) (w : World n σ) : PatternStatus × World n σ :=
  if (w.runners i).completed then (.success, w) else p.tickRunner i w

/-- Merge the results after a tick of the node that has succeeded. -/
def afterTick (out : Ticked (Results n (Fin n → Unit)) (World n σ)) :
    PatternStatus × System n σ :=
  if out.status = .success then
    (p.mergeBranchResults out.state.parent).elim (.failure, ⟨out.held, out.state⟩) fun merged =>
      (.success, ⟨out.held, { out.state with
        parent := merged.set ParallelKeys.completed (.bool true) }⟩)
  else (out.status, ⟨out.held, out.state⟩)

/-- Tick the pattern. -/
def tick (s : System n σ) : Option (PatternStatus × System n σ) :=
  if p.done s.world.parent then some (.success, { s with world := bindContext s.world })
  else (parallelTick (leafTick p.branchLeaf) p.config.parallelPolicy s.held
    (bindContext s.world)).map p.afterTick

/-- Give a value to the branch that waits for input. -/
def provideInput (w : World n σ) (v : Value) : Option String × World n σ :=
  (((w.parent.get ParallelKeys.activeBranch).bind Value.asStr).bind p.runner?).elim (none, w)
    fun i =>
      let out := p.provideInputRunner i w v
      (out.1, { out.2 with parent := out.2.parent.delete ParallelKeys.activeBranch })

/-- A call of the pattern. -/
inductive Call where
  | tick
  | provideInput (v : Value)

/-- What a call of the pattern leaves. -/
def step (s : System n σ) : Call → Option (System n σ)
  | .tick => (p.tick s).map Prod.snd
  | .provideInput v => some { s with world := (p.provideInput s.world v).2 }

/-- The branches that have their turn in a tick, each with what it finds. -/
def turns (s : System n σ) : List (Fin n × World n σ) :=
  BehaviorTree.turns p.branchLeaf p.config.parallelPolicy s.held.childResults (List.finRange n)
    (bindContext s.world)

end Calls

variable {p : ParallelPattern n σ} {s t : System n σ}

/-- A pattern that is not done returns what the turns of its branches say. -/
theorem tick_eq (hdone : p.done s.world.parent = false) :
    ∃ out, p.tick s = some (p.afterTick out) ∧
      Looped p.branchLeaf p.config.parallelPolicy (p.turns s) false false s.held
        (bindContext s.world) out := by
  obtain ⟨out, hout, hlooped⟩ := @parallelTick_turns n (World n σ) p.branchLeaf
    p.config.parallelPolicy p.config.nonempty s.held (bindContext s.world)
  exact ⟨out, by simp [tick, hdone, hout], hlooped⟩

/-- Every call returns. -/
theorem step_isSome (s : System n σ) (call : Call) : (p.step s call).isSome := by
  cases call with
  | tick =>
    cases hdone : p.done s.world.parent with
    | true => simp [step, tick, hdone]
    | false =>
      obtain ⟨out, hout, -⟩ := tick_eq hdone
      simp [step, hout]
  | provideInput v => rfl

end ParallelPattern

section Scripted

/-- An executable that returns one status after another and then succeeds, and takes any input. -/
def scripted (name : String) : Executable (List PatternStatus) where
  name := name
  tick held state := (held.headD .success, ⟨held.tail, state, .same⟩)
  provideInput := some fun held state _ => (none, ⟨held, state, .same⟩)

/-- Two branches with scripts, in an order of names. -/
def twoScripted (mergeStrategy : MergeStrategy) : ParallelPattern 2 (List PatternStatus) where
  config := {
    branches := fun i => ⟨if i.val = 0 then "alpha" else "beta", none, none, by split <;> decide⟩
    mergeStrategy := mergeStrategy
    nonempty := by decide
    slugs_injective := by decide }
  executables i := scripted (if i.val = 0 then "alpha" else "beta")
  validateState _ _ := true
  validateKey _ _ _ := true
  otherTruthy _ := true

/-- Two branches with scripts before the first tick. -/
def scriptedStart (alpha beta : List PatternStatus) : System 2 (List PatternStatus) where
  held := ⟨fun _ => none, fun _ => ()⟩
  world := {
    runners := fun i => { executable := if i.val = 0 then alpha else beta }
    parent := {} }

end Scripted

end PalmEngine.Parallel
