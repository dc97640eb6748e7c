import Mathlib

/-!
# Behavior tree nodes

A tree is ticked from its root until it returns success or failure. A composite or decorator node
keeps a cursor, a counter or the results of its children between ticks; leaves keep nothing, they
read and change the execution state, which is of any type here.

The children of a node are given by their index, and the fields of the nodes that change are apart
from the tree: for every tree there is a type of what its nodes hold. A repeat node without a bound
may run forever in one tick, which is then said to return nothing within a number of rounds.
-/

namespace PalmEngine.BehaviorTree

/-- The outcome of a tick. -/
inductive PatternStatus where
  | success
  | failure
  | running
  | waitingForInput
  deriving DecidableEq, Repr

/-- Whether a status pauses the parent without failing. -/
def isYieldingStatus (status : PatternStatus) : Bool :=
  status = .running || status = .waitingForInput

/-- When a parallel node succeeds. -/
inductive ParallelPolicy where
  | successOnAll
  | successOnAny
  deriving DecidableEq, Repr

/-- A behavior tree over leaves of a type. -/
inductive Node (L : Type) where
  | leafNode (leaf : L)
  | sequenceNode (n : ℕ) (children : Fin n → Node L)
  | selectorNode (n : ℕ) (children : Fin n → Node L)
  | parallelNode (policy : ParallelPolicy) (n : ℕ) (children : Fin n → Node L)
  | inverterNode (child : Node L)
  | repeatNode (times : Option ℕ+) (child : Node L)
  | retryNode (maxAttempts : ℕ+) (child : Node L)

/-- What a node with a cursor holds. -/
structure Cursor (σ : Type) where
  currentIndex : ℕ
  children : σ

/-- What a parallel node holds. -/
structure Results (n : ℕ) (σ : Type) where
  childResults : Fin n → Option PatternStatus
  children : σ

/-- What a node that counts holds. -/
structure Counter (σ : Type) where
  count : ℕ
  child : σ

namespace Node

variable {L : Type}

/-- What the nodes of a tree hold between two ticks. -/
def Held : Node L → Type
  | leafNode _ => Unit
  | sequenceNode n children => Cursor ((i : Fin n) → (children i).Held)
  | selectorNode n children => Cursor ((i : Fin n) → (children i).Held)
  | parallelNode _ n children => Results n ((i : Fin n) → (children i).Held)
  | inverterNode child => child.Held
  | repeatNode _ child => Counter child.Held
  | retryNode _ child => Counter child.Held

/-- What the nodes hold after `reset()`, and when they are made. -/
def reset : (t : Node L) → t.Held
  | leafNode _ => ()
  | sequenceNode _ children => Cursor.mk 0 fun i => (children i).reset
  | selectorNode _ children => Cursor.mk 0 fun i => (children i).reset
  | parallelNode _ _ children => Results.mk (fun _ => none) fun i => (children i).reset
  | inverterNode child => child.reset
  | repeatNode _ child => Counter.mk 0 child.reset
  | retryNode _ child => Counter.mk 0 child.reset

end Node

/-- What a tick returns, with what the nodes hold and the execution state after it. -/
structure Ticked (σ S : Type) where
  status : PatternStatus
  held : σ
  state : S

section Loops

variable {n : ℕ} {σ : Type} {τ : Fin n → Type} {S : Type}

/-- Tick the children from the cursor on, until one pauses or returns the status that stops; the
cursor stays at a child that pauses and goes back to the start otherwise. The node returns another
status if no child stops it. At most so many children are ticked. -/
def cursorLoop (tickChild : (i : Fin n) → τ i → S → Option (Ticked (τ i) S))
    (stop done : PatternStatus) :
    ℕ → Cursor ((i : Fin n) → τ i) → S → Option (Ticked (Cursor ((i : Fin n) → τ i)) S)
  | 0, c, s => some ⟨done, ⟨0, c.children⟩, s⟩
  | rounds + 1, c, s =>
    if h : c.currentIndex < n then
      (tickChild ⟨c.currentIndex, h⟩ (c.children ⟨c.currentIndex, h⟩) s).bind fun out =>
        let children := Function.update c.children ⟨c.currentIndex, h⟩ out.held
        if isYieldingStatus out.status then
          some ⟨out.status, ⟨c.currentIndex, children⟩, out.state⟩
        else if out.status = stop then some ⟨stop, ⟨0, children⟩, out.state⟩
        else cursorLoop tickChild stop done rounds ⟨c.currentIndex + 1, children⟩ out.state
    else some ⟨done, ⟨0, c.children⟩, s⟩

/-- The tick of a node with a cursor: without children it returns the other status. -/
def cursorTick (tickChild : (i : Fin n) → τ i → S → Option (Ticked (τ i) S))
    (stop done : PatternStatus) (c : Cursor ((i : Fin n) → τ i)) (s : S) :
    Option (Ticked (Cursor ((i : Fin n) → τ i)) S) :=
  if n = 0 then some ⟨done, c, s⟩
  else cursorLoop tickChild stop done (n - c.currentIndex) c s

/-- Whether a repeat node has counted to its bound, if it has one. -/
def reached (times : Option ℕ+) (count : ℕ) : Bool :=
  times.any fun (n : ℕ+) => decide ((n : ℕ) ≤ count)

/-- Tick the child until it pauses or fails or has succeeded so many times; without a bound, for
at most so many rounds. -/
def repeatLoop (tickChild : σ → S → Option (Ticked σ S)) (times : Option ℕ+) :
    ℕ → Counter σ → S → Option (Ticked (Counter σ) S)
  | 0, _, _ => none
  | rounds + 1, c, s =>
    if reached times c.count then some ⟨.success, ⟨0, c.child⟩, s⟩
    else
      (tickChild c.child s).bind fun out =>
        if isYieldingStatus out.status then some ⟨out.status, ⟨c.count, out.held⟩, out.state⟩
        else if out.status = .failure then some ⟨.failure, ⟨0, out.held⟩, out.state⟩
        else if reached times (c.count + 1) then
          some ⟨.success, ⟨0, out.held⟩, out.state⟩
        else repeatLoop tickChild times rounds ⟨c.count + 1, out.held⟩ out.state

/-- Tick the child until it pauses or succeeds or has failed so many times. -/
def retryLoop (tickChild : σ → S → Option (Ticked σ S)) (maxAttempts : ℕ+) :
    ℕ → Counter σ → S → Option (Ticked (Counter σ) S)
  | 0, _, _ => none
  | rounds + 1, c, s =>
    (tickChild c.child s).bind fun out =>
      if isYieldingStatus out.status then some ⟨out.status, ⟨c.count, out.held⟩, out.state⟩
      else if out.status = .success then some ⟨.success, ⟨0, out.held⟩, out.state⟩
      else if (maxAttempts : ℕ) ≤ c.count + 1 then some ⟨.failure, ⟨0, out.held⟩, out.state⟩
      else retryLoop tickChild maxAttempts rounds ⟨c.count + 1, out.held⟩ out.state

/-- What a parallel node returns when every child has a result. -/
def parallelVerdict (policy : ParallelPolicy) (childResults : Fin n → Option PatternStatus) :
    PatternStatus :=
  let successes := (List.finRange n).countP fun i => childResults i = some .success
  let failures := (List.finRange n).countP fun i => childResults i = some .failure
  match policy with
  | .successOnAll =>
    if 0 < failures then .failure else if successes = n then .success else .failure
  | .successOnAny => if 0 < successes then .success else .failure

/-- Tick the children among the given ones that have no result yet: a success that is enough
gives all children that result, a failure that is too much ends the node, and otherwise it waits
if a child waited, runs if one ran, and has its verdict if none paused. -/
def parallelLoop (tickChild : (i : Fin n) → τ i → S → Option (Ticked (τ i) S))
    (policy : ParallelPolicy) :
    List (Fin n) → (anyWaiting anyRunning : Bool) → Results n ((i : Fin n) → τ i) → S →
      Option (Ticked (Results n ((i : Fin n) → τ i)) S)
  | [], anyWaiting, anyRunning, p, s =>
    some ⟨if anyWaiting then .waitingForInput else if anyRunning then .running
      else parallelVerdict policy p.childResults, p, s⟩
  | i :: rest, anyWaiting, anyRunning, p, s =>
    if (p.childResults i).isSome then parallelLoop tickChild policy rest anyWaiting anyRunning p s
    else
      (tickChild i (p.children i) s).bind fun out =>
        let children := Function.update p.children i out.held
        if out.status = .waitingForInput then
          parallelLoop tickChild policy rest true anyRunning ⟨p.childResults, children⟩ out.state
        else if out.status = .running then
          parallelLoop tickChild policy rest anyWaiting true ⟨p.childResults, children⟩ out.state
        else
          let childResults := Function.update p.childResults i (some out.status)
          if policy = .successOnAny ∧ out.status = .success then
            some ⟨.success, ⟨fun _ => some .success, children⟩, out.state⟩
          else if out.status = .failure ∧ policy = .successOnAll then
            some ⟨.failure, ⟨childResults, children⟩, out.state⟩
          else
            parallelLoop tickChild policy rest anyWaiting anyRunning ⟨childResults, children⟩
              out.state

/-- The tick of a parallel node: without children it succeeds. -/
def parallelTick (tickChild : (i : Fin n) → τ i → S → Option (Ticked (τ i) S))
    (policy : ParallelPolicy) (p : Results n ((i : Fin n) → τ i)) (s : S) :
    Option (Ticked (Results n ((i : Fin n) → τ i)) S) :=
  if n = 0 then some ⟨.success, p, s⟩
  else parallelLoop tickChild policy (List.finRange n) false false p s

end Loops

namespace Node

variable {L S : Type}

/-- Tick a tree whose leaves tick the execution state; a repeat node without a bound may tick its
child so many times. -/
def tick (tickLeaf : L → S → PatternStatus × S) (rounds : ℕ) :
    (t : Node L) → t.Held → S → Option (Ticked t.Held S)
  | leafNode leaf, held, s => some ⟨(tickLeaf leaf s).1, held, (tickLeaf leaf s).2⟩
  | sequenceNode _ children, c, s =>
    cursorTick (fun i => (children i).tick tickLeaf rounds) .failure .success c s
  | selectorNode _ children, c, s =>
    cursorTick (fun i => (children i).tick tickLeaf rounds) .success .failure c s
  | parallelNode policy _ children, p, s =>
    parallelTick (fun i => (children i).tick tickLeaf rounds) policy p s
  | inverterNode child, held, s =>
    (child.tick tickLeaf rounds held s).map fun out =>
      ⟨if out.status = .success then .failure else if out.status = .failure then .success
        else out.status, out.held, out.state⟩
  | repeatNode times child, c, s =>
    repeatLoop (child.tick tickLeaf rounds) times
      (times.elim rounds fun (n : ℕ+) => n - Counter.count c + 1) c s
  | retryNode maxAttempts child, c, s =>
    retryLoop (child.tick tickLeaf rounds) maxAttempts (maxAttempts - Counter.count c + 1) c s

end Node

end PalmEngine.BehaviorTree
