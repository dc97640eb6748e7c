import PalmEngine.BehaviorTree.Node
import PalmEngine.Dag.Config
import PalmEngine.Lib.Until
import PalmEngine.Workloads.Record

/-!
# The DAG pattern

A tick runs the nodes whose dependencies have succeeded, one of them or in rounds all of them, and
keeps the status of every node in a document of the state. What is invoked for a node is open: an
engine returns a result and may change a world of its own. Beside its state a run has a history, the
nodes that were run and whether they succeeded; it is not part of the program and decides nothing.
-/

namespace PalmEngine.Dag

open PalmEngine.Lib PalmEngine.Context PalmEngine.Workloads
open PalmEngine.BehaviorTree (PatternStatus)

/-- The outcome of the invocation of a resource. -/
structure ProviderResult where
  success : Bool
  data : Value := .null
  error : Option String := none

/-- What starts the workload of a node: how placeholders are bound and a specification is read, what
counts as a mapping, how a record is stored, and the start itself. -/
structure WorkloadDriver (ω : Type) where
  bind : List (String × Value) → BlackboardState → List (String × Value)
  mappingOf : Value → Except String (List (String × Value))
  fromDict : List (String × Value) → Except String WorkloadSpec
  specFromBoundParams : List (String × Value) → Except String WorkloadSpec
  start : ω → WorkloadSpec → WorkloadOwner → Except String Workload × ω
  toDict : Workload → Value

/-- What invokes the resource of a node. -/
abbrev ResourceInvoker (ω : Type) := ω → DagNodeSpec → BlackboardState → ProviderResult × ω

/-- A pattern with its engines, as far as they are configured. -/
structure DagPattern (ω : Type) where
  config : DagConfig
  texts : Texts
  resourceEngine : Option (ResourceInvoker ω) := none
  workloadEngine : Option (WorkloadDriver ω) := none

/-- A pattern at work on a state, the world of its engines and the history. -/
structure DagRun (ω : Type) where
  state : BlackboardState
  world : ω
  seeded : Bool := false
  ran : List (String × Bool) := []

/-- The key of the document. -/
def dagKey : String := "dag"

/-- The error of a run that gets nowhere. -/
def stuckError : String := "DAG stuck: no ready nodes and not all succeeded"

namespace DagRun

variable {ω : Type}

/-- Store a value in the state. -/
def set (r : DagRun ω) (k : String) (v : Value) : DagRun ω := { r with state := r.state.set k v }

/-- Store the document. -/
def setDag (r : DagRun ω) (dag : List (String × Value)) : DagRun ω := r.set dagKey (.dict dag)

/-- Note in the history that a node was run. -/
def note (r : DagRun ω) (id : String) (ok : Bool) : DagRun ω := { r with ran := r.ran ++ [(id, ok)] }

/-- Storing a value is not noted in the history. -/
@[simp] theorem ran_set (r : DagRun ω) (k : String) (v : Value) : (r.set k v).ran = r.ran := rfl

/-- Storing the document is not noted in the history. -/
@[simp] theorem ran_setDag (r : DagRun ω) (dag : List (String × Value)) :
    (r.setDag dag).ran = r.ran := rfl

/-- A node that was run is noted last. -/
@[simp] theorem ran_note (r : DagRun ω) (id : String) (ok : Bool) :
    (r.note id ok).ran = r.ran ++ [(id, ok)] := rfl

/-- The stored document is the one that is read. -/
@[simp] theorem get_setDag (r : DagRun ω) (dag : List (String × Value)) :
    (r.setDag dag).state.get dagKey = some (.dict dag) :=
  Dict.get?_set_self r.state.data dagKey _

/-- Storing another value keeps what is read under a key. -/
theorem get_set_of_ne (r : DagRun ω) {i k : String} (h : i ≠ k) (v : Value) :
    (r.set k v).state.get i = r.state.get i :=
  Dict.get?_set_ne r.state.data v h

end DagRun

namespace DagPattern

variable {ω : Type} (p : DagPattern ω)

section Document

/-- A mapping to read, empty if the value counts as false. -/
def orEmpty : Option Value → Except String (List (String × Value))
  | none => .ok []
  | some (.dict entries) => .ok entries
  | some v => if truthy p.texts.otherTruthy v then .error "object has no attribute 'get'" else .ok []

/-- What the document says of a node. -/
def entryOf (dag : List (String × Value)) (id : String) : Except String (List (String × Value)) := do
  let nodes ← p.orEmpty (valueOf? "nodes" dag)
  p.orEmpty (valueOf? id nodes)

/-- Whether a node has a status in the document. -/
def hasStatus (dag : List (String × Value)) (status id : String) : Except String Bool := do
  let entry ← p.entryOf dag id
  return (valueOf? "status" entry).bind Value.asStr = some status

/-- Whether the run has a status in the document. -/
def dagStatus (dag : List (String × Value)) (status : String) : Bool :=
  (valueOf? "status" dag).bind Value.asStr = some status

/-- Whether a node is to be run and its dependencies have succeeded. -/
def isReady (dag : List (String × Value)) (n : DagNodeSpec) : Except String Bool := do
  if ← p.hasStatus dag "pending" n.id then n.dependsOn.allM (p.hasStatus dag "succeeded")
  else return false

/-- The nodes that can be run. -/
def readyNodes (dag : List (String × Value)) : Except String (List DagNodeSpec) :=
  p.config.nodes.filterM (p.isReady dag)

/-- Whether all nodes have succeeded. -/
def allSucceeded (dag : List (String × Value)) : Except String Bool :=
  p.config.nodes.allM fun n => p.hasStatus dag "succeeded" n.id

/-- The key for the output of a node. -/
def outputKey (n : DagNodeSpec) : String := if hasText n.outputKey then n.outputKey.getD "" else n.id

/-- Put the entry of a node into the document. -/
def setNode (dag nodes : List (String × Value)) (id : String) (entry : List (String × Value)) :
    List (String × Value) :=
  setEntry "nodes" (.dict (setEntry id (.dict entry) nodes)) dag

end Document

section Start

/-- Store the values to start from, once, for the keys that have none. -/
def seedInitialState (r : DagRun ω) : DagRun ω :=
  if r.seeded || p.config.initialState.isEmpty then r
  else { p.config.initialState.foldl
      (fun (r : DagRun ω) e => if (r.state.get e.1).isSome then r else r.set e.1 e.2) r with
    seeded := true }

/-- The document of a run before its first node. -/
def newDag : List (String × Value) :=
  [("status", .str "running"), ("order", .list (p.config.nodes.map fun n => .str n.id)),
    ("nodes", .dict (p.config.nodes.map fun n =>
      (n.id, .dict [("status", .str "pending"), ("output_key", .str (outputKey n))])))]

/-- The document of a state, if it has one with nodes. -/
def document? (v : Option Value) : Option (List (String × Value)) :=
  (v.bind Value.asDict).filter fun dag => (valueOf? "nodes" dag).any (truthy p.texts.otherTruthy)

/-- Keep the document of the state or store a new one. -/
def ensureDagState (r : DagRun ω) : List (String × Value) × DagRun ω :=
  (p.document? (r.state.get dagKey)).elim (p.newDag, r.setDag p.newDag) (·, r)

end Start

section Nodes

/-- Mark a node as succeeded, and the run if it was the last one. -/
def succeedNode (r : DagRun ω) (dag nodes : List (String × Value)) (n : DagNodeSpec) :
    Except String (PatternStatus × DagRun ω) := do
  let entry ← p.orEmpty (valueOf? n.id nodes)
  let entry := setEntry "status" (.str "succeeded") entry
  let dag := setNode dag nodes n.id (setEntry "output_key" (.str (outputKey n)) entry)
  let r := r.note n.id true
  if ← p.allSucceeded dag then
    let dag := (setEntry "status" (.str "succeeded") dag).filter (·.1 ≠ "current")
    return (.success, r.setDag dag)
  else return (.running, r.setDag dag)

/-- Mark a node and the run as failed. -/
def failNode (r : DagRun ω) (dag : List (String × Value)) (n : DagNodeSpec) (error : String) :
    Except String (PatternStatus × DagRun ω) := do
  let nodes ← p.orEmpty (valueOf? "nodes" dag)
  let entry ← p.orEmpty (valueOf? n.id nodes)
  let entry := setEntry "error" (.str error) (setEntry "status" (.str "failed") entry)
  let dag := setEntry "status" (.str "failed") (setNode dag nodes n.id entry)
  let dag := setEntry "error" (.str s!"node {p.texts.repr n.id}: {error}") dag
  let r := (r.note n.id false).setDag (setEntry "current" (.str n.id) dag)
  return (.failure, r.set s!"dag_error_{n.id}" (.str error))

/-- The mapping of a value, empty if there is none that counts as true. -/
def mappingOr (w : WorkloadDriver ω) (v : Option Value) : Except String (List (String × Value)) :=
  match v.filter (truthy p.texts.otherTruthy) with
  | none => .ok []
  | some (.dict entries) => .ok entries
  | some v => w.mappingOf v

/-- Set a key unless it is present. -/
def setEntryDefault (k : String) (v : Value) (entries : List (String × Value)) :
    List (String × Value) :=
  if (valueOf? k entries).isSome then entries else setEntry k v entries

/-- The parameters of a workload with the defaults of a hermetic run. -/
def hermeticDefaults (w : WorkloadDriver ω) (bound : List (String × Value)) :
    Except String (List (String × Value)) :=
  if (valueOf? "kind" bound).isNone && (valueOf? "command" bound).isSome then do
    let bound := setEntryDefault "kind" (.str "run") bound
    let bound := setEntryDefault "isolation" (.str "hermetic") bound
    let bound := setEntryDefault "lifecycle" (.str "job") bound
    let placement ← p.mappingOr w (valueOf? "placement" bound)
    return setEntry "placement"
      (.dict (setEntryDefault "runtime" (.str "neonroot") placement)) bound
  else .ok bound

/-- The specification of the workload of a node. -/
def workloadSpec (w : WorkloadDriver ω) (state : BlackboardState) (n : DagNodeSpec) :
    Except String WorkloadSpec := do
  let bound := w.bind (n.workload.getD []) state
  let bound := if n.params.isEmpty then bound
    else (w.bind n.params state).foldl (fun bound e => setEntry e.1 e.2 bound) bound
  let bound ← p.hermeticDefaults w bound
  if (valueOf? "kind" bound).any (truthy p.texts.otherTruthy) then w.fromDict bound
  else w.specFromBoundParams bound

/-- The specification of a node and the start of its workload, which may raise. -/
def startWorkload (w : WorkloadDriver ω) (r : DagRun ω) (n : DagNodeSpec) :
    Except String Workload × ω :=
  match p.workloadSpec w r.state n with
  | .error e => (.error e, r.world)
  | .ok spec => w.start r.world spec { createdByPalm := true }

/-- The error of a workload that has failed. -/
def workloadError (wl : Workload) : String :=
  let told := [wl.result.bind (·.error), wl.message]
  (told.findSome? fun error => error.filter (· ≠ "")).getD s!"workload {wl.status.text}"

/-- Run a node that starts a workload. -/
def runWorkloadNode (r : DagRun ω) (dag nodes : List (String × Value)) (n : DagNodeSpec) :
    Except String (PatternStatus × DagRun ω) :=
  match p.workloadEngine with
  | none => p.failNode r dag n "WorkloadDriver is not configured"
  | some w =>
    let started := p.startWorkload w r n
    let r := { r with world := started.2 }
    match started.1 with
    | .error e => p.failNode r dag n e
    | .ok wl =>
      let r := r.set (outputKey n) (w.toDict wl)
      if wl.status = .stopped ∧ wl.result.all (·.success) then p.succeedNode r dag nodes n
      else if wl.status = .failed ∨ wl.result.any (!·.success) then
        p.failNode r dag n (workloadError wl)
      else p.failNode r dag n
        s!"workload not terminal (status={wl.status.text}); async DAG wait later"

/-- Run a node that invokes a resource. -/
def runResourceNode (r : DagRun ω) (dag nodes : List (String × Value)) (n : DagNodeSpec) :
    Except String (PatternStatus × DagRun ω) :=
  match p.resourceEngine with
  | none => p.failNode r dag n "ResourceInvoker is not configured"
  | some invoke =>
    let invoked := invoke r.world n r.state
    let r := { r with world := invoked.2 }
    if invoked.1.success then p.succeedNode (r.set (outputKey n) invoked.1.data) dag nodes n
    else p.failNode r dag n ((invoked.1.error.filter (· ≠ "")).getD "resource invoke failed")

/-- Run a node: mark it as running and invoke what it stands for. -/
def runNode (r : DagRun ω) (dag : List (String × Value)) (n : DagNodeSpec) :
    Except String (PatternStatus × DagRun ω) := do
  let nodes ← p.orEmpty (valueOf? "nodes" dag)
  let entry ← p.orEmpty (valueOf? n.id nodes)
  let nodes := setEntry n.id (.dict (setEntry "status" (.str "running") entry)) nodes
  let dag := setEntry "current" (.str n.id) (setEntry "nodes" (.dict nodes) dag)
  let r := r.setDag dag
  if n.workload.isSome then p.runWorkloadNode r dag nodes n else p.runResourceNode r dag nodes n

end Nodes

section Ticks

/-- Run the nodes of a batch that are still ready: what is left to return, or what is returned. -/
def runBatch : List DagNodeSpec → PatternStatus × DagRun ω →
    Except String ((PatternStatus × DagRun ω) ⊕ (PatternStatus × DagRun ω))
  | [], s => .ok (.inl s)
  | n :: batch, s => do
    match (s.2.state.get dagKey).bind Value.asDict with
    | none => return .inr (.failure, s.2)
    | some dag =>
      if dagStatus dag "failed" then return .inr (.failure, s.2)
      else if ← p.isReady dag n then
        let out ← p.runNode s.2 dag n
        if out.1 = .failure ∨ out.1 = .success then return .inr out
        else runBatch batch out
      else runBatch batch s

/-- Finish a run without ready nodes. -/
def finish (r : DagRun ω) (dag : List (String × Value)) :
    Except String (PatternStatus × DagRun ω) := do
  if ← p.allSucceeded dag then
    return (.success, r.setDag (setEntry "status" (.str "succeeded") dag))
  else return (.failure, r.setDag
    (setEntry "error" (.str stuckError) (setEntry "status" (.str "failed") dag)))

/-- One round of a tick: the status of the last node that was run, or what the tick returns. -/
def round (s : PatternStatus × DagRun ω) :
    Except String ((PatternStatus × DagRun ω) ⊕ (PatternStatus × DagRun ω)) := do
  match (s.2.state.get dagKey).bind Value.asDict with
  | none => return .inr (.failure, s.2)
  | some dag =>
    if dagStatus dag "failed" then return .inr (.failure, s.2)
    else if dagStatus dag "succeeded" then return .inr (.success, s.2)
    else
      let ready ← p.readyNodes dag
      if ready.isEmpty then return .inr (← p.finish s.2 dag)
      else
        let out ← p.runBatch (if p.config.drainReady then ready else ready.take 1) s
        match out with
        | .inl s => return if p.config.drainReady then .inl s else .inr s
        | .inr out => return .inr out

/-- A round as a step towards the end of a tick, which may be an exception. -/
def roundStep (s : PatternStatus × DagRun ω) :
    Option ((PatternStatus × DagRun ω) ⊕ Except String (PatternStatus × DagRun ω)) :=
  match p.round s with
  | .error e => some (.inr (.error e))
  | .ok (.inl s) => some (.inl s)
  | .ok (.inr out) => some (.inr (.ok out))

/-- Tick the pattern, with so many rounds at most. -/
def tick (rounds : ℕ) (r : DagRun ω) : Option (Except String (PatternStatus × DagRun ω)) :=
  let started := p.ensureDagState (p.seedInitialState r)
  if dagStatus started.1 "succeeded" then some (.ok (.success, started.2))
  else if dagStatus started.1 "failed" then some (.ok (.failure, started.2))
  else untilEnd p.roundStep rounds (.running, started.2)

/-- What the ticks of a pattern have returned and left. -/
inductive Driven (start : DagRun ω) : List PatternStatus → DagRun ω → Prop
  | start : Driven start [] start
  | tick {statuses : List PatternStatus} {r next : DagRun ω} {status : PatternStatus} {rounds : ℕ} :
    Driven start statuses r → p.tick rounds r = some (.ok (status, next)) →
      Driven start (statuses ++ [status]) next

end Ticks

end DagPattern

end PalmEngine.Dag
