import PalmEngine.Dag.Config

/-!
# The order of the nodes of a DAG

Nodes can be put in order exactly if their ids are distinct, they depend on listed nodes only, and
none of them depends on itself, be it through others. At each position of the order stands the first
of the nodes, as they are listed, whose dependencies stand before it.
-/

namespace PalmEngine.Dag

open PalmEngine.Lib

/-- A node names an id as one that it depends on. -/
def IdDependsOn (nodes : List DagNodeSpec) (d id : String) : Prop :=
  ∃ n ∈ nodes, n.id = id ∧ d ∈ n.dependsOn

/-- The ids are distinct, every dependency is listed, and no node depends on itself, be it through
others. -/
structure Sortable (nodes : List DagNodeSpec) : Prop where
  distinct : (nodes.map (·.id)).Nodup
  known : ∀ n ∈ nodes, ∀ d ∈ n.dependsOn, d ∈ nodes.map (·.id)
  acyclic : ∀ id, ¬Relation.TransGen (IdDependsOn nodes) id id

/-- The first node in a list that is not placed yet and whose dependencies are. -/
def nextNode (nodes : List DagNodeSpec) (placed : List String) : Option DagNodeSpec :=
  nodes.find? fun n => n.id ∉ placed ∧ ∀ d ∈ n.dependsOn, d ∈ placed

/-- The nodes in an order in which each stands after its dependencies, as early as possible. -/
structure Ordered (nodes ordered : List DagNodeSpec) : Prop where
  perm : ordered.Perm nodes
  dependsBack : ∀ before n after, ordered = before ++ n :: after →
    ∀ d ∈ n.dependsOn, d ∈ before.map (·.id)
  takesFirst : ∀ before n after, ordered = before ++ n :: after →
    nextNode nodes (before.map (·.id)) = some n

section Lookup

variable {nodes : List DagNodeSpec}

/-- The dependencies that are found for the ids are those that the nodes name. -/
theorem dependsOn_eq_idDependsOn (hnodup : (nodes.map (·.id)).Nodup) :
    DependsOn (nodes.map (·.id)) (dependsOf nodes) = IdDependsOn nodes := by
  funext d id
  apply propext
  constructor
  · rintro ⟨hid, hd⟩
    obtain ⟨n, hn, rfl⟩ := List.mem_map.mp hid
    exact ⟨n, hn, rfl, by rwa [dependsOf_id hnodup hn] at hd⟩
  · rintro ⟨n, hn, rfl, hd⟩
    exact ⟨List.mem_map_of_mem hn, by rwa [dependsOf_id hnodup hn]⟩

/-- The next id is the one of the next node. -/
theorem nextReady_ids (hnodup : (nodes.map (·.id)).Nodup) (placed : List String) :
    nextReady (nodes.map (·.id)) (dependsOf nodes) placed =
      (nextNode nodes placed).map (·.id) := by
  rw [nextReady, nextNode, List.find?_map]
  refine congrArg _ (List.find?_congr fun n hn => ?_)
  rw [Function.comp_apply, dependsOf_id hnodup hn]

/-- Finding the ids of nodes of a list of distinct ones gives these nodes. -/
theorem filterMap_find?_perm (hnodup : (nodes.map (·.id)).Nodup) {ids : List String}
    (hperm : ids.Perm (nodes.map (·.id))) :
    (ids.filterMap fun id => nodes.find? (·.id = id)).Perm nodes := by
  have hself : ((nodes.map (·.id)).filterMap fun id => nodes.find? (·.id = id)) = nodes := by
    rw [List.filterMap_map]
    refine (List.filterMap_congr fun n hn => ?_).trans List.filterMap_some
    exact find?_id hnodup hn
  have hfound := hperm.filterMap fun id => nodes.find? (·.id = id)
  rwa [hself] at hfound

end Lookup

section Sorting

variable {nodes : List DagNodeSpec}

/-- Every dependency is listed exactly if no unknown one is found. -/
theorem findSome?_unknown_eq_none_iff (ids : List String) :
    (nodes.findSome? fun n => (n.dependsOn.find? (· ∉ ids)).map (n.id, ·)) = none ↔
      ∀ n ∈ nodes, ∀ d ∈ n.dependsOn, d ∈ ids := by
  simp only [List.findSome?_eq_none_iff, Option.map_eq_none_iff, List.find?_eq_none,
    decide_eq_true_eq, not_not]

/-- Nodes with distinct ids and listed dependencies are sorted exactly if all of them can be
placed. -/
theorem topologicalSort_eq_ok_iff (t : Texts) (ordered : List DagNodeSpec) :
    topologicalSort t nodes = .ok ordered ↔ Sortable nodes ∧
      ordered = (topologicalOrder (nodes.map (·.id)) (dependsOf nodes)).filterMap
        fun id => nodes.find? (·.id = id) := by
  rw [topologicalSort]
  by_cases hnodup : (nodes.map (·.id)).Nodup
  · rw [if_neg (not_not.mpr hnodup)]
    cases hunknown : nodes.findSome? fun n =>
        (n.dependsOn.find? (· ∉ nodes.map (·.id))).map (n.id, ·) with
    | some pair =>
      have hnot : ¬∀ n ∈ nodes, ∀ d ∈ n.dependsOn, d ∈ nodes.map (·.id) := fun hall => by
        rw [(findSome?_unknown_eq_none_iff _).mpr hall] at hunknown
        cases hunknown
      exact ⟨(fun h => by cases h), fun h => absurd h.1.known hnot⟩
    | none =>
      have hknown := (findSome?_unknown_eq_none_iff _).mp hunknown
      have hids : ∀ id ∈ nodes.map (·.id), dependsOf nodes id ⊆ nodes.map (·.id) := by
        intro id hid d hd
        obtain ⟨n, hn, rfl⟩ := List.mem_map.mp hid
        exact hknown n hn d (by rwa [dependsOf_id hnodup hn] at hd)
      have hall := length_topologicalOrder_iff hnodup hids
      rw [List.length_map, Acyclic, dependsOn_eq_idDependsOn hnodup] at hall
      simp only
      split
      · next hlength =>
        exact ⟨(fun h => by cases h), fun h => absurd (hall.mpr h.1.acyclic) hlength⟩
      · next hlength =>
        rw [Except.ok.injEq]
        exact ⟨fun h => ⟨⟨hnodup, hknown, hall.mp (not_not.mp hlength)⟩, h.symm⟩, fun h => h.2.symm⟩
  · rw [if_pos hnodup]
    exact ⟨(fun h => by cases h), fun h => absurd h.1.distinct hnodup⟩

/-- Sorted nodes are in the order in which each comes as early as possible. -/
theorem Sortable.ordered (h : Sortable nodes) : Ordered nodes
    ((topologicalOrder (nodes.map (·.id)) (dependsOf nodes)).filterMap
      fun id => nodes.find? (·.id = id)) := by
  have hids : ∀ id ∈ nodes.map (·.id), dependsOf nodes id ⊆ nodes.map (·.id) := by
    intro id hid d hd
    obtain ⟨n, hn, rfl⟩ := List.mem_map.mp hid
    exact h.known n hn d (by rwa [dependsOf_id h.distinct hn] at hd)
  have hlength := (length_topologicalOrder_iff h.distinct hids).mpr
    (by rw [Acyclic, dependsOn_eq_idDependsOn h.distinct]; exact h.acyclic)
  obtain ⟨hperm, -⟩ := topologicalOrder_spec h.distinct hlength
  have hback := map_id_filterMap_find? hperm.subset
  have hnodes := filterMap_find?_perm h.distinct hperm
  have hfirst : ∀ before n after, (topologicalOrder (nodes.map (·.id)) (dependsOf nodes)).filterMap
      (fun id => nodes.find? (·.id = id)) = before ++ n :: after →
      nextNode nodes (before.map (·.id)) = some n := by
    intro before n after hsplit
    have hsplitIds := congrArg (List.map (·.id)) hsplit
    rw [hback, List.map_append, List.map_cons] at hsplitIds
    have hnext := (topologicalOrder_takesFirst (dependsOf nodes) h.distinct).1 _ _ _ hsplitIds
    rw [nextReady_ids h.distinct, Option.map_eq_some_iff] at hnext
    obtain ⟨m, hm, hid⟩ := hnext
    have hmem : n ∈ nodes := hnodes.subset (hsplit ▸ List.mem_append_right _ List.mem_cons_self)
    have hsame : m = n :=
      List.inj_on_of_nodup_map h.distinct (List.mem_of_find?_eq_some hm) hmem hid
    rw [hm, hsame]
  refine ⟨hnodes, fun before n after hsplit d hd => ?_, hfirst⟩
  have hready := List.find?_some (hfirst before n after hsplit)
  rw [decide_eq_true_eq] at hready
  exact hready.2 d hd

/-- Sorting succeeds exactly for nodes with distinct ids, listed dependencies and no cycle, and gives
the nodes in an order in which each stands after its dependencies, always the first one whose
dependencies are placed. -/
theorem topologicalSort_spec (t : Texts) (nodes : List DagNodeSpec) :
    ((∃ ordered, topologicalSort t nodes = .ok ordered) ↔ Sortable nodes) ∧
      ∀ ordered, topologicalSort t nodes = .ok ordered → Ordered nodes ordered := by
  constructor
  · constructor
    · rintro ⟨ordered, h⟩
      exact ((topologicalSort_eq_ok_iff t ordered).mp h).1
    · intro h
      exact ⟨_, (topologicalSort_eq_ok_iff t _).mpr ⟨h, rfl⟩⟩
  · intro ordered h
    obtain ⟨hsortable, rfl⟩ := (topologicalSort_eq_ok_iff t ordered).mp h
    exact hsortable.ordered

end Sorting

end PalmEngine.Dag
