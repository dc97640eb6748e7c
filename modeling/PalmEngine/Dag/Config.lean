import PalmEngine.Lib.Strip
import PalmEngine.Lib.TopologicalSort
import PalmEngine.Context.State

/-!
# The configuration of a DAG

The nodes of a DAG are read from the documents of its options, chained in their order if none of
them names a dependency, and put in an order in which every node stands after its dependencies.
A list or a tuple is a list here.
-/

namespace PalmEngine.Dag

open PalmEngine.Lib PalmEngine.Context

/-- What is left open of values and texts: whether a value of another type counts as true, how a
value that is no text is shown, and how a text is quoted. -/
structure Texts where
  otherTruthy : ℕ → Bool
  shown : Value → String
  repr : String → String

/-- Whether an optional text counts as true. -/
def hasText (s : Option String) : Bool := s.any (· ≠ "")

/-- Whether an optional document counts as true. -/
def hasEntries (entries : Option (List (String × Value))) : Bool := entries.any (!·.isEmpty)

/-- A node: the invocation of a resource or the start of a workload. -/
structure DagNodeSpec where
  id : String
  resourceRef : Option String := none
  provider : Option String := none
  action : Option String := none
  resourceId : Option String := none
  params : List (String × Value) := []
  workload : Option (List (String × Value)) := none
  outputKey : Option String := none
  dependsOn : List String := []
  named : strip id ≠ ""
  runsOne : (hasText resourceRef || hasText provider) ≠ hasEntries workload

/-- The options of a DAG once they are read. -/
structure DagConfig where
  nodes : List DagNodeSpec
  initialState : List (String × Value) := []
  chainImplicit : Bool := true
  drainReady : Bool := true

/-- The dependencies of a node that is given by its id. -/
def dependsOf (nodes : List DagNodeSpec) (id : String) : List String :=
  (nodes.find? (·.id = id)).elim [] (·.dependsOn)

section Reading

variable (t : Texts)

/-- The value of a key, if it counts as true. -/
def trueValue? (k : String) (data : List (String × Value)) : Option Value :=
  (valueOf? k data).filter (truthy t.otherTruthy)

/-- The text of the value of a key, if it counts as true. -/
def textIfTrue (k : String) (data : List (String × Value)) : Option String :=
  (trueValue? t k data).map (textOf t.shown)

/-- The id in the document of a node. -/
def nodeId (data : List (String × Value)) : String :=
  strip (((["id", "name", "slug"].findSome? (trueValue? t · data)).map (textOf t.shown)).getD "")

/-- The dependencies in the document of a node. -/
def depsOf (data : List (String × Value)) : Except String (List String) :=
  match ["depends_on", "deps"].findSome? (trueValue? t · data) with
  | none => .ok []
  | some (.str dep) => .ok (if strip dep = "" then [] else [dep])
  | some (.list deps) => .ok ((deps.map (strip ∘ textOf t.shown)).filter (· ≠ ""))
  | some _ => .error s!"DAG node {t.repr (nodeId t data)}: depends_on must be a list of ids"

/-- A document in the document of a node. -/
def documentOf (k error : String) (data : List (String × Value)) :
    Except String (Option (List (String × Value))) :=
  match valueOf? k data with
  | none | some .null => .ok none
  | some (.dict entries) => .ok (some entries)
  | some _ => .error s!"DAG node {t.repr (nodeId t data)}: {error}"

/-- Read a node from its document. -/
def DagNodeSpec.fromMapping (data : List (String × Value)) : Except String DagNodeSpec := do
  let deps ← depsOf t data
  let params ← documentOf t "params" "params must be a dict" data
  let workload ← documentOf t "workload" "workload must be a dict (Spec)" data
  let id := nodeId t data
  let resourceRef := textIfTrue t "resource_ref" data
  let provider := textIfTrue t "provider" data
  if hnamed : strip id = "" then .error "DAG node id must be non-empty"
  else if hruns : (hasText resourceRef || hasText provider) = hasEntries workload then
    if hasEntries workload then
      .error s!"DAG node {t.repr id} cannot set both resource and workload"
    else .error s!"DAG node {t.repr id} requires resource_ref/provider or workload"
  else .ok {
    id, resourceRef, provider, workload
    action := textIfTrue t "action" data
    resourceId := textIfTrue t "resource_id" data
    params := params.getD []
    outputKey := textIfTrue t "output_key" data
    dependsOn := deps
    named := hnamed
    runsOne := hruns }

/-- A node with the node before as its dependency. An empty workload is dropped. -/
def DagNodeSpec.chainedTo (prev : Option String) (n : DagNodeSpec) : DagNodeSpec :=
  { n with
    workload := n.workload.filter (!·.isEmpty)
    dependsOn := prev.toList
    runsOne := by
      have hsame : hasEntries (n.workload.filter (!·.isEmpty)) = hasEntries n.workload := by
        cases n.workload with
        | none => rfl
        | some entries => cases entries <;> rfl
      rw [hsame]
      exact n.runsOne }

/-- Let every node depend on the one before, if no node has dependencies. -/
def applyImplicitChain (nodes : List DagNodeSpec) : List DagNodeSpec :=
  if nodes.any (!·.dependsOn.isEmpty) then nodes
  else List.zipWith DagNodeSpec.chainedTo (none :: nodes.map fun n => some n.id) nodes

/-- Put the nodes in an order in which every node stands after its dependencies. -/
def topologicalSort (nodes : List DagNodeSpec) : Except String (List DagNodeSpec) :=
  let ids := nodes.map (·.id)
  if ¬ids.Nodup then .error "DAG node ids must be unique"
  else
    match nodes.findSome? fun n => (n.dependsOn.find? (· ∉ ids)).map (n.id, ·) with
    | some (id, d) => .error s!"DAG node {t.repr id} depends on unknown id {t.repr d}"
    | none =>
      let ordered := topologicalOrder ids (dependsOf nodes)
      if ordered.length ≠ nodes.length then .error "DAG has a cycle among nodes"
      else .ok (ordered.filterMap fun id => nodes.find? (·.id = id))

/-- A flag of the options. -/
def flagOf (k : String) (options : List (String × Value)) : Bool :=
  (valueOf? k options).elim true (truthy t.otherTruthy)

/-- The state to start from in the options. -/
def initialStateOf (options : List (String × Value)) : Except String (List (String × Value)) :=
  match valueOf? "initial_state" options with
  | none | some .null => .ok []
  | some (.dict initial) => .ok initial
  | some _ => .error "DAG initial_state must be a dict"

/-- Read the configuration of a DAG from its options. -/
def DagConfig.fromOptions (options : List (String × Value)) : Except String DagConfig := do
  match ["nodes", "steps"].findSome? (trueValue? t · options) with
  | some (.list items) =>
    let nodes ← (items.filterMap Value.asDict).mapM (DagNodeSpec.fromMapping t)
    if nodes.isEmpty then .error "DAG 'nodes' must contain node dicts"
    else
      let chain := flagOf t "chain_implicit" options
      let ordered ← topologicalSort t (if chain then applyImplicitChain nodes else nodes)
      let initial ← initialStateOf options
      return ⟨ordered, initial, chain, flagOf t "drain_ready" options⟩
  | _ => .error "DAG requires a non-empty 'nodes' list (or 'steps' alias)"

end Reading

/-- The nodes have distinct ids and each stands after its dependencies. -/
structure DagConfig.Sorted (c : DagConfig) : Prop where
  nonempty : c.nodes ≠ []
  nodup : (c.nodes.map (·.id)).Nodup
  dependsBack : DependsBack (dependsOf c.nodes) (c.nodes.map (·.id))

/-- A node of distinct ones is found by its id. -/
theorem find?_id {nodes : List DagNodeSpec} (hnodup : (nodes.map (·.id)).Nodup) {n : DagNodeSpec}
    (hn : n ∈ nodes) : nodes.find? (·.id = n.id) = some n := by
  induction nodes with
  | nil => cases hn
  | cons m nodes ih =>
    rw [List.map_cons, List.nodup_cons] at hnodup
    rcases List.mem_cons.mp hn with rfl | hrest
    · simp
    · have hne : m.id ≠ n.id := by
        intro heq
        exact hnodup.1 (heq ▸ List.mem_map_of_mem hrest)
      rw [List.find?_cons_of_neg (by simpa using hne)]
      exact ih hnodup.2 hrest

/-- The dependencies of a node are found by its id. -/
theorem dependsOf_id {nodes : List DagNodeSpec} (hnodup : (nodes.map (·.id)).Nodup)
    {n : DagNodeSpec} (hn : n ∈ nodes) : dependsOf nodes n.id = n.dependsOn := by
  rw [dependsOf, find?_id hnodup hn]
  rfl

/-- Finding every id of some of the nodes gives nodes of these ids. -/
theorem map_id_filterMap_find? {nodes : List DagNodeSpec} {ids : List String}
    (hids : ids ⊆ nodes.map (·.id)) :
    (ids.filterMap fun id => nodes.find? (·.id = id)).map (·.id) = ids := by
  induction ids with
  | nil => rfl
  | cons id ids ih =>
    obtain ⟨n, hn, hid⟩ := List.mem_map.mp (hids List.mem_cons_self)
    have hsome : (nodes.find? (·.id = id)).isSome := by
      rw [List.find?_isSome]
      exact ⟨n, hn, by simpa using hid⟩
    obtain ⟨m, hm⟩ := Option.isSome_iff_exists.mp hsome
    have hmid : m.id = id := by simpa using List.find?_some hm
    rw [List.filterMap_cons, hm, List.map_cons, hmid,
      ih fun i hi => hids (List.mem_cons_of_mem id hi)]

/-- The dependencies of a node are nodes. -/
theorem DagConfig.Sorted.known {c : DagConfig} (h : c.Sorted) {n : DagNodeSpec} (hn : n ∈ c.nodes)
    {d : String} (hd : d ∈ n.dependsOn) : d ∈ c.nodes.map (·.id) := by
  obtain ⟨before, after, hsplit⟩ := List.append_of_mem (List.mem_map_of_mem (f := (·.id)) hn)
  have hbefore := h.dependsBack before n.id after hsplit d (by rwa [dependsOf_id h.nodup hn])
  rw [hsplit]
  exact List.mem_append_left _ hbefore

end PalmEngine.Dag
