import Mathlib

/-!
# Topological order by counting

The nodes of a graph are put in an order in which every node stands after the nodes it depends on.
Each node counts the dependencies that are not placed yet; a node whose count reaches zero waits in
a queue, and the queue is served in the order in which the nodes were given. A node may mention the
same dependency more than once, and nodes on a cycle are never placed.
-/

namespace PalmEngine.Lib

variable {α : Type*}

/-- Every node of an order stands after all the nodes it depends on. -/
def DependsBack (deps : α → List α) (order : List α) : Prop :=
  ∀ before n after, order = before ++ n :: after → ∀ d ∈ deps n, d ∈ before

/-- An order stays one when a node is added whose dependencies are all placed. -/
theorem DependsBack.append_singleton {deps : α → List α} {order : List α} {n : α}
    (horder : DependsBack deps order) (hdeps : ∀ d ∈ deps n, d ∈ order) :
    DependsBack deps (order ++ [n]) := by
  intro before a after hsplit d hd
  rcases List.eq_nil_or_concat after with rfl | ⟨after, last, rfl⟩
  · obtain ⟨rfl, hlast⟩ := List.append_inj' hsplit rfl
    obtain rfl : n = a := by simpa using hlast
    exact hdeps d hd
  · have hinit : order ++ [n] = (before ++ a :: after) ++ [last] := by simpa using hsplit
    exact horder before a after (List.append_inj' hinit rfl).1 d hd

/-- If some node of an order is not in a set, then one of them has all its dependencies in it. -/
theorem DependsBack.exists_ready {deps : α → List α} {order : List α}
    (horder : DependsBack deps order) (placed : α → Prop) (hleft : ∃ n ∈ order, ¬placed n) :
    ∃ n ∈ order, ¬placed n ∧ ∀ d ∈ deps n, placed d := by
  classical
  have hfirst : ∀ before after, order = before ++ after → (∀ n ∈ before, placed n) →
      (∃ n ∈ after, ¬placed n) → ∃ n ∈ order, ¬placed n ∧ ∀ d ∈ deps n, placed d := by
    intro before after
    induction after generalizing before with
    | nil => simp
    | cons n after ih =>
      intro hsplit hbefore hmissing
      by_cases hn : placed n
      · apply ih (before ++ [n])
        · simpa using hsplit
        · intro a ha
          rcases List.mem_append.mp ha with hold | hnew
          · exact hbefore a hold
          · exact List.mem_singleton.mp hnew ▸ hn
        · obtain ⟨a, ha, hna⟩ := hmissing
          rcases List.mem_cons.mp ha with rfl | hrest
          · exact absurd hn hna
          · exact ⟨a, hrest, hna⟩
      · exact ⟨n, by simp [hsplit], hn, fun d hd => hbefore d (horder before n after hsplit d hd)⟩
  exact hfirst [] order rfl (by simp) hleft

variable [DecidableEq α]

/-- The nodes that depend on a node, once for each time they mention it. -/
def children (nodes : List α) (deps : α → List α) (d : α) : List α :=
  nodes.flatMap fun n => ((deps n).filter (· = d)).map fun _ => n

/-- The counts of missing dependencies, the nodes that wait and the nodes that are placed. -/
structure Sorting (α : Type*) where
  indegree : α → ℤ
  queue : List α
  ordered : List α

/-- One dependency less is missing; a node that misses none joins the queue. -/
def release (counts : (α → ℤ) × List α) (c : α) : (α → ℤ) × List α :=
  (Function.update counts.1 c (counts.1 c - 1),
    if counts.1 c - 1 = 0 then counts.2 ++ [c] else counts.2)

/-- The queue in the order in which the nodes were given. -/
def sorted (nodes queue : List α) : List α :=
  queue.insertionSort fun a b => nodes.idxOf a ≤ nodes.idxOf b

/-- Place the first waiting node, at most so many times. -/
def sortLoop (nodes : List α) (deps : α → List α) : ℕ → Sorting α → List α
  | 0, s => s.ordered
  | fuel + 1, s =>
    match sorted nodes s.queue with
    | [] => s.ordered
    | n :: rest =>
      let counts := (children nodes deps n).foldl release (s.indegree, rest)
      sortLoop nodes deps fuel ⟨counts.1, counts.2, s.ordered ++ [n]⟩

/-- Nothing is placed and the nodes without dependencies wait. -/
def startSorting (nodes : List α) (deps : α → List α) : Sorting α where
  indegree n := (deps n).length
  queue := sorted nodes (nodes.filter fun n => ((deps n).length : ℤ) = 0)
  ordered := []

/-- The nodes that can be placed, each after its dependencies. -/
def topologicalOrder (nodes : List α) (deps : α → List α) : List α :=
  sortLoop nodes deps nodes.length (startSorting nodes deps)

/-- A node is a child of a node as many times as it mentions it. -/
theorem count_children {nodes : List α} (deps : α → List α) (hnodup : nodes.Nodup) (d n : α)
    (hn : n ∈ nodes) : (children nodes deps d).count n = (deps n).count d := by
  have hcount : ∀ m, ((((deps m).filter (· = d)).map fun _ => m).count n) =
      if m = n then (deps n).count d else 0 := by
    intro m
    rw [List.map_const', List.count_replicate]
    by_cases hm : m = n
    · simp [hm, List.count_eq_length_filter, beq_eq_decide]
    · simp [hm]
  have hsum : ∀ ms : List α, ms.Nodup →
      ((ms.flatMap fun m => ((deps m).filter (· = d)).map fun _ => m).count n) =
        if n ∈ ms then (deps n).count d else 0 := by
    intro ms hms
    induction ms with
    | nil => simp
    | cons m ms ih =>
      rw [List.flatMap_cons, List.count_append, hcount, ih (List.nodup_cons.mp hms).2]
      by_cases hm : m = n
      · have hfresh : n ∉ ms := hm ▸ (List.nodup_cons.mp hms).1
        simp [hm, hfresh]
      · simp [hm, Ne.symm hm]
  rw [children, hsum nodes hnodup, if_pos hn]

/-- A child mentions the node and is a node itself. -/
theorem mem_children {nodes : List α} {deps : α → List α} {d n : α}
    (h : n ∈ children nodes deps d) : n ∈ nodes ∧ d ∈ deps n := by
  obtain ⟨m, hm, hmap⟩ := List.mem_flatMap.mp h
  obtain ⟨a, ha, rfl⟩ := List.mem_map.mp hmap
  have hmem := List.mem_filter.mp ha
  exact ⟨hm, of_decide_eq_true hmem.2 ▸ hmem.1⟩

/-- Releasing a list of nodes lowers their counts and queues those that are left without a missing
dependency, each once. -/
theorem foldl_release (cs : List α) (deg : α → ℤ) (queue : List α)
    (hcounts : ∀ n ∈ cs, (cs.count n : ℤ) ≤ deg n) :
    ∃ freed, cs.foldl release (deg, queue) = (fun n => deg n - cs.count n, queue ++ freed) ∧
      freed.Nodup ∧ ∀ n, n ∈ freed ↔ n ∈ cs ∧ deg n = cs.count n := by
  induction cs generalizing deg queue with
  | nil => exact ⟨[], by simp, List.nodup_nil, by simp⟩
  | cons c cs ih =>
    have hdeg : ∀ n, Function.update deg c (deg c - 1) n - cs.count n =
        deg n - (c :: cs).count n := by
      intro n
      by_cases hn : n = c
      · subst hn
        simp
        omega
      · simp [Function.update_of_ne hn, List.count_cons_of_ne (Ne.symm hn)]
    have hrest : ∀ n ∈ cs, (cs.count n : ℤ) ≤ Function.update deg c (deg c - 1) n := by
      intro n hn
      have hle := hcounts n (List.mem_cons_of_mem _ hn)
      have heq := hdeg n
      omega
    have hzero : ∀ n, Function.update deg c (deg c - 1) n = cs.count n ↔
        deg n = (c :: cs).count n := by
      intro n
      have heq := hdeg n
      omega
    obtain ⟨freed, hfold, hnodup, hmem⟩ :=
      ih (Function.update deg c (deg c - 1)) (if deg c - 1 = 0 then queue ++ [c] else queue) hrest
    have hfold' : (c :: cs).foldl release (deg, queue) =
        (fun n => deg n - (c :: cs).count n,
          (if deg c - 1 = 0 then queue ++ [c] else queue) ++ freed) := by
      rw [List.foldl_cons, release, hfold]
      exact congrArg (·, _) (funext hdeg)
    by_cases hlast : deg c - 1 = 0
    · have hc : c ∉ cs := by
        intro hc
        have hle := hcounts c List.mem_cons_self
        have hpos := List.count_pos_iff.mpr hc
        rw [List.count_cons_self] at hle
        omega
      refine ⟨c :: freed, by rw [hfold', if_pos hlast]; simp, ?_, ?_⟩
      · exact List.nodup_cons.mpr ⟨fun hfreed => hc ((hmem c).mp hfreed).1, hnodup⟩
      · intro n
        rw [List.mem_cons, hmem n, hzero n, List.mem_cons]
        constructor
        · rintro (rfl | ⟨hn, heq⟩)
          · exact ⟨Or.inl rfl, by simp [List.count_eq_zero_of_not_mem hc]; omega⟩
          · exact ⟨Or.inr hn, heq⟩
        · rintro ⟨rfl | hn, heq⟩
          · exact Or.inl rfl
          · exact Or.inr ⟨hn, heq⟩
    · refine ⟨freed, by rw [hfold', if_neg hlast], hnodup, ?_⟩
      intro n
      rw [hmem n, hzero n, List.mem_cons]
      constructor
      · rintro ⟨hn, heq⟩
        exact ⟨Or.inr hn, heq⟩
      · rintro ⟨rfl | hn, heq⟩
        · refine ⟨?_, heq⟩
          by_contra hnot
          rw [List.count_cons_self, List.count_eq_zero_of_not_mem hnot] at heq
          push_cast at heq
          omega
        · exact ⟨hn, heq⟩

/-- What holds of a sorting on its way: the counts are those of the missing dependencies, no node is
met twice, and the placed and the waiting nodes miss none. -/
structure SortInvariant (nodes : List α) (deps : α → List α) (s : Sorting α) : Prop where
  counts : ∀ n ∈ nodes, s.indegree n = ((deps n).countP fun d => d ∉ s.ordered : ℕ)
  nodup : (s.ordered ++ s.queue).Nodup
  subset : s.ordered ++ s.queue ⊆ nodes
  dependsBack : DependsBack deps s.ordered
  waiting : ∀ n ∈ s.queue, ∀ d ∈ deps n, d ∈ s.ordered

/-- The invariant holds at the start. -/
theorem sortInvariant_startSorting {nodes : List α} (deps : α → List α) (hnodup : nodes.Nodup) :
    SortInvariant nodes deps (startSorting nodes deps) where
  counts n _ := by simp [startSorting]
  nodup := by
    have hperm := List.perm_insertionSort (fun a b => nodes.idxOf a ≤ nodes.idxOf b)
      (nodes.filter fun n => ((deps n).length : ℤ) = 0)
    simpa [startSorting, sorted] using hperm.nodup_iff.mpr (hnodup.filter _)
  subset := by
    intro n hn
    have hmem : n ∈ nodes.filter fun n => ((deps n).length : ℤ) = 0 := by
      simpa [startSorting, sorted] using hn
    exact (List.mem_filter.mp hmem).1
  dependsBack := by
    intro before n after hsplit
    simp [startSorting] at hsplit
  waiting := by
    intro n hn d hd
    have hmem : n ∈ nodes.filter fun n => ((deps n).length : ℤ) = 0 := by
      simpa [startSorting, sorted] using hn
    have hlength : (deps n).length = 0 := by simpa using (List.mem_filter.mp hmem).2
    rw [List.length_eq_zero_iff.mp hlength] at hd
    cases hd

/-- A placed node is one that is missing no more. -/
theorem countP_not_mem_append_singleton (ds ordered : List α) {n : α} (hn : n ∉ ordered) :
    (ds.countP fun d => d ∉ ordered ++ [n]) + ds.count n = ds.countP fun d => d ∉ ordered := by
  induction ds with
  | nil => simp
  | cons d ds ih =>
    rw [List.countP_cons, List.countP_cons, ← ih]
    by_cases hd : d = n
    · subst hd
      simp [hn]
      omega
    · rw [List.count_cons_of_ne hd]
      by_cases hplaced : d ∈ ordered <;> simp [hplaced, hd]
      omega

/-- When a node is placed, the nodes it frees join the queue: those that depend on it and now miss
nothing. -/
theorem SortInvariant.freed {nodes : List α} {deps : α → List α} {s : Sorting α}
    (hnodup : nodes.Nodup) (hs : SortInvariant nodes deps s) {n : α} (hnew : n ∉ s.ordered)
    (rest : List α) :
    ∃ freed, ((children nodes deps n).foldl release (s.indegree, rest)).2 = rest ++ freed ∧
      freed.Nodup ∧
      (∀ c, c ∈ freed ↔ c ∈ nodes ∧ n ∈ deps c ∧ ∀ d ∈ deps c, d ∈ s.ordered ++ [n]) ∧
      ∀ c ∈ nodes, ((children nodes deps n).foldl release (s.indegree, rest)).1 c =
        ((deps c).countP fun d => d ∉ s.ordered ++ [n] : ℕ) := by
  have hmissing : ∀ c ∈ nodes, (s.indegree c : ℤ) - ((children nodes deps n).count c : ℕ) =
      ((deps c).countP fun d => d ∉ s.ordered ++ [n] : ℕ) := by
    intro c hc
    have hcount := countP_not_mem_append_singleton (deps c) s.ordered hnew
    rw [hs.counts c hc, count_children deps hnodup n c hc]
    omega
  have hcounts : ∀ c ∈ children nodes deps n,
      (((children nodes deps n).count c : ℕ) : ℤ) ≤ s.indegree c := by
    intro c hc
    have hleft := hmissing c (mem_children hc).1
    omega
  obtain ⟨freed, hfold, hfreed, hmem⟩ := foldl_release (children nodes deps n) s.indegree rest hcounts
  rw [hfold]
  refine ⟨freed, rfl, hfreed, fun c => ?_, hmissing⟩
  rw [hmem]
  constructor
  · rintro ⟨hchild, heq⟩
    obtain ⟨hc, hdep⟩ := mem_children hchild
    have hnone := hmissing c hc
    have hzero : ((deps c).countP fun d => d ∉ s.ordered ++ [n]) = 0 := by omega
    refine ⟨hc, hdep, fun d hd => ?_⟩
    by_contra hmissed
    exact List.countP_eq_zero.mp hzero d hd (decide_eq_true hmissed)
  · rintro ⟨hc, hdep, hall⟩
    have hzero : ((deps c).countP fun d => d ∉ s.ordered ++ [n]) = 0 := by
      rw [List.countP_eq_zero]
      intro d hd hmissed
      exact of_decide_eq_true hmissed (hall d hd)
    have hcount := count_children deps hnodup n c hc
    have hpos := List.count_pos_iff.mpr hdep
    have hnone := hmissing c hc
    exact ⟨List.count_pos_iff.mp (by omega), by omega⟩

/-- The waiting nodes and those that are placed stay the same when the first one is placed. -/
theorem SortInvariant.perm_place {nodes : List α} {s : Sorting α} {n : α} {rest : List α}
    (hqueue : sorted nodes s.queue = n :: rest) :
    (s.ordered ++ [n] ++ rest).Perm (s.ordered ++ s.queue) := by
  have hperm : List.Perm (n :: rest) s.queue :=
    hqueue ▸ List.perm_insertionSort (fun a b => nodes.idxOf a ≤ nodes.idxOf b) s.queue
  simpa using hperm.append_left s.ordered

/-- Placing the first waiting node keeps the invariant. -/
theorem SortInvariant.place {nodes : List α} {deps : α → List α} {s : Sorting α}
    (hnodup : nodes.Nodup) (hs : SortInvariant nodes deps s) {n : α} {rest : List α}
    (hqueue : sorted nodes s.queue = n :: rest) :
    SortInvariant nodes deps
      ⟨((children nodes deps n).foldl release (s.indegree, rest)).1,
        ((children nodes deps n).foldl release (s.indegree, rest)).2, s.ordered ++ [n]⟩ := by
  have hperm : List.Perm (n :: rest) s.queue :=
    hqueue ▸ List.perm_insertionSort (fun a b => nodes.idxOf a ≤ nodes.idxOf b) s.queue
  have hall := SortInvariant.perm_place hqueue
  have hdistinct : (s.ordered ++ [n] ++ rest).Nodup := hall.nodup_iff.mpr hs.nodup
  have hnew : n ∉ s.ordered := by
    intro hold
    exact (List.nodup_append.mp (List.nodup_append.mp hdistinct).1).2.2 n hold n (by simp) rfl
  obtain ⟨freed, hqueued, hfreed, hmem, hmissing⟩ := hs.freed hnodup hnew rest
  have hfresh : ∀ c ∈ freed, c ∉ s.ordered ++ [n] ++ rest := by
    intro c hc hold
    have hdep : n ∈ deps c := ((hmem c).mp hc).2.1
    have hplaced : ∀ d ∈ deps c, d ∈ s.ordered := by
      have hsome := hall.subset hold
      rcases List.mem_append.mp hsome with hordered | hqueued
      · obtain ⟨before, after, hsplit⟩ := List.append_of_mem hordered
        intro d hd
        have hbefore := hs.dependsBack before c after hsplit d hd
        simp [hsplit, hbefore]
      · exact hs.waiting c hqueued
    exact hnew (hplaced n hdep)
  refine ⟨hmissing, ?_, ?_, ?_, ?_⟩
  · rw [hqueued, ← List.append_assoc]
    exact List.nodup_append'.mpr ⟨hdistinct, hfreed, fun c hold hc => hfresh c hc hold⟩
  · intro c hc
    rw [hqueued, ← List.append_assoc] at hc
    rcases List.mem_append.mp hc with hold | hc
    · exact hs.subset (hall.subset hold)
    · exact ((hmem c).mp hc).1
  · exact hs.dependsBack.append_singleton (hs.waiting n (hperm.subset List.mem_cons_self))
  · intro c hc d hd
    rw [hqueued] at hc
    rcases List.mem_append.mp hc with hrest | hc
    · have hold := hs.waiting c (hperm.subset (List.mem_cons_of_mem n hrest)) d hd
      exact List.mem_append_left [n] hold
    · exact ((hmem c).mp hc).2.2 d hd

/-- The placed nodes are distinct nodes, each after its dependencies. -/
theorem sortLoop_spec {nodes : List α} {deps : α → List α} (hnodup : nodes.Nodup) (fuel : ℕ)
    (s : Sorting α) (hs : SortInvariant nodes deps s) :
    (sortLoop nodes deps fuel s).Nodup ∧ sortLoop nodes deps fuel s ⊆ nodes ∧
      DependsBack deps (sortLoop nodes deps fuel s) := by
  have hhere : s.ordered.Nodup ∧ s.ordered ⊆ nodes ∧ DependsBack deps s.ordered :=
    ⟨(List.nodup_append.mp hs.nodup).1, fun n hn => hs.subset (List.mem_append_left _ hn),
      hs.dependsBack⟩
  induction fuel generalizing s with
  | zero => exact hhere
  | succ fuel ih =>
    rw [sortLoop]
    split
    · exact hhere
    · next n rest hqueue =>
      have hnext := hs.place hnodup hqueue
      exact ih _ hnext ⟨(List.nodup_append.mp hnext.nodup).1,
        fun n hn => hnext.subset (List.mem_append_left _ hn), hnext.dependsBack⟩

/-- Every node that misses nothing is placed or waits. -/
def QueuesReady (nodes : List α) (deps : α → List α) (s : Sorting α) : Prop :=
  ∀ n ∈ nodes, (∀ d ∈ deps n, d ∈ s.ordered) → n ∈ s.ordered ++ s.queue

/-- At the start every node without dependencies waits. -/
theorem queuesReady_startSorting (nodes : List α) (deps : α → List α) :
    QueuesReady nodes deps (startSorting nodes deps) := by
  intro n hn hdeps
  have hnone : (deps n).length = 0 := by
    rw [List.length_eq_zero_iff, List.eq_nil_iff_forall_not_mem]
    intro d hd
    simpa [startSorting] using hdeps d hd
  have hstart : n ∈ nodes.filter fun n => ((deps n).length : ℤ) = 0 := by
    rw [List.mem_filter, hnone]
    exact ⟨hn, rfl⟩
  simpa [startSorting, sorted] using hstart

/-- Placing the first waiting node leaves no node behind. -/
theorem QueuesReady.place {nodes : List α} {deps : α → List α} {s : Sorting α}
    (hready : QueuesReady nodes deps s) (hnodup : nodes.Nodup) (hs : SortInvariant nodes deps s)
    {n : α} {rest : List α} (hqueue : sorted nodes s.queue = n :: rest) (hnew : n ∉ s.ordered) :
    QueuesReady nodes deps
      ⟨((children nodes deps n).foldl release (s.indegree, rest)).1,
        ((children nodes deps n).foldl release (s.indegree, rest)).2, s.ordered ++ [n]⟩ := by
  obtain ⟨freed, hqueued, -, hmem, -⟩ := hs.freed hnodup hnew rest
  intro c hc hdeps
  rw [hqueued, ← List.append_assoc]
  by_cases hdep : n ∈ deps c
  · exact List.mem_append_right _ ((hmem c).mpr ⟨hc, hdep, hdeps⟩)
  · have hbefore : ∀ d ∈ deps c, d ∈ s.ordered := by
      intro d hd
      rcases List.mem_append.mp (hdeps d hd) with hold | hlast
      · exact hold
      · exact absurd (List.mem_singleton.mp hlast ▸ hd) hdep
    have hold := hready c hc hbefore
    exact List.mem_append_left freed ((SortInvariant.perm_place hqueue).symm.subset hold)

/-- If all nodes are placed, then they are the given ones, each after its dependencies. -/
theorem topologicalOrder_spec {nodes : List α} {deps : α → List α} (hnodup : nodes.Nodup)
    (hlength : (topologicalOrder nodes deps).length = nodes.length) :
    (topologicalOrder nodes deps).Perm nodes ∧ DependsBack deps (topologicalOrder nodes deps) := by
  obtain ⟨hdistinct, hsubset, hback⟩ := sortLoop_spec hnodup nodes.length (startSorting nodes deps)
    (sortInvariant_startSorting deps hnodup)
  exact ⟨(hdistinct.subperm hsubset).perm_of_length_le hlength.ge, hback⟩

/-! ## The order that is found -/

/-- The first of the nodes that is not placed yet and whose dependencies are. -/
def nextReady (nodes : List α) (deps : α → List α) (placed : List α) : Option α :=
  nodes.find? fun n => n ∉ placed ∧ ∀ d ∈ deps n, d ∈ placed

/-- At each position of an order stands the first of the nodes that are ready there. -/
def TakesFirst (nodes : List α) (deps : α → List α) (order : List α) : Prop :=
  ∀ before n after, order = before ++ n :: after → nextReady nodes deps before = some n

/-- A node that satisfies a condition is found if it stands before all others that do. -/
theorem find?_eq_some_of_first {nodes : List α} {p : α → Bool} {n : α} (hn : n ∈ nodes)
    (hp : p n) (hfirst : ∀ m ∈ nodes, p m → nodes.idxOf n ≤ nodes.idxOf m) :
    nodes.find? p = some n := by
  induction nodes with
  | nil => cases hn
  | cons m nodes ih =>
    by_cases hm : p m
    · have hle := hfirst m List.mem_cons_self hm
      rw [List.idxOf_cons_self, Nat.le_zero] at hle
      have hsame : m = n := by
        by_contra hne
        rw [List.idxOf_cons_ne _ hne] at hle
        cases hle
      rw [List.find?_cons_of_pos hm, hsame]
    · have hne : m ≠ n := fun heq => hm (heq ▸ hp)
      rw [List.find?_cons_of_neg hm]
      refine ih ((List.mem_cons.mp hn).resolve_left hne.symm) fun a ha hpa => ?_
      have hne' : m ≠ a := fun heq => hm (heq ▸ hpa)
      have hle := hfirst a (List.mem_cons_of_mem m ha) hpa
      rw [List.idxOf_cons_ne _ hne, List.idxOf_cons_ne _ hne'] at hle
      exact Nat.le_of_succ_le_succ hle

/-- The node that is placed is the first of those that are ready. -/
theorem QueuesReady.nextReady_eq {nodes : List α} {deps : α → List α} {s : Sorting α}
    (hready : QueuesReady nodes deps s) (hs : SortInvariant nodes deps s) {n : α} {rest : List α}
    (hqueue : sorted nodes s.queue = n :: rest) (hnew : n ∉ s.ordered) :
    nextReady nodes deps s.ordered = some n := by
  have hperm : List.Perm (n :: rest) s.queue :=
    hqueue ▸ List.perm_insertionSort (fun a b => nodes.idxOf a ≤ nodes.idxOf b) s.queue
  have : Std.Total fun a b : α => nodes.idxOf a ≤ nodes.idxOf b := ⟨fun a b => le_total _ _⟩
  have : IsTrans α fun a b => nodes.idxOf a ≤ nodes.idxOf b := ⟨fun _ _ _ hab hbc => hab.trans hbc⟩
  have hsorted := List.pairwise_insertionSort (fun a b => nodes.idxOf a ≤ nodes.idxOf b) s.queue
  rw [← sorted, hqueue, List.pairwise_cons] at hsorted
  have hwaits : n ∈ s.queue := hperm.subset List.mem_cons_self
  refine find?_eq_some_of_first (hs.subset (List.mem_append_right _ hwaits)) ?_ fun m hm hpm => ?_
  · exact decide_eq_true ⟨hnew, hs.waiting n hwaits⟩
  · obtain ⟨hleft, hdeps⟩ := of_decide_eq_true hpm
    have hmqueue : m ∈ s.queue := (List.mem_append.mp (hready m hm hdeps)).resolve_left hleft
    rcases List.mem_cons.mp (hperm.symm.subset hmqueue) with rfl | hlater
    · exact le_rfl
    · exact hsorted.1 m hlater

/-- An order goes on with the first of the nodes that are ready. -/
theorem TakesFirst.append_singleton {nodes : List α} {deps : α → List α} {order : List α} {n : α}
    (horder : TakesFirst nodes deps order) (hn : nextReady nodes deps order = some n) :
    TakesFirst nodes deps (order ++ [n]) := by
  intro before a after hsplit
  rcases List.eq_nil_or_concat after with rfl | ⟨after, last, rfl⟩
  · obtain ⟨rfl, hlast⟩ := List.append_inj' hsplit rfl
    obtain rfl : n = a := by simpa using hlast
    exact hn
  · have hinit : order ++ [n] = (before ++ a :: after) ++ [last] := by simpa using hsplit
    exact horder before a after (List.append_inj' hinit rfl).1

/-- With enough steps the loop takes the first of the ready nodes each time, and ends when none is
ready. -/
theorem sortLoop_takesFirst {nodes : List α} {deps : α → List α} (hnodup : nodes.Nodup) (fuel : ℕ)
    (s : Sorting α) (hs : SortInvariant nodes deps s) (hready : QueuesReady nodes deps s)
    (horder : TakesFirst nodes deps s.ordered)
    (hfuel : nodes.length ≤ s.ordered.length + fuel) :
    TakesFirst nodes deps (sortLoop nodes deps fuel s) ∧
      ∀ n ∈ nodes, (∀ d ∈ deps n, d ∈ sortLoop nodes deps fuel s) →
        n ∈ sortLoop nodes deps fuel s := by
  have hidle : ∀ s : Sorting α, QueuesReady nodes deps s → s.queue = [] →
      ∀ n ∈ nodes, (∀ d ∈ deps n, d ∈ s.ordered) → n ∈ s.ordered := by
    intro s hready hempty n hn hdeps
    have hplaced := hready n hn hdeps
    rwa [hempty, List.append_nil] at hplaced
  induction fuel generalizing s with
  | zero =>
    have hlength := (hs.nodup.subperm hs.subset).length_le
    rw [List.length_append] at hlength
    exact ⟨horder, hidle s hready (List.length_eq_zero_iff.mp (by omega))⟩
  | succ fuel ih =>
    rw [sortLoop]
    split
    · next hqueue =>
      have hperm : List.Perm [] s.queue :=
        hqueue ▸ List.perm_insertionSort (fun a b => nodes.idxOf a ≤ nodes.idxOf b) s.queue
      exact ⟨horder, hidle s hready hperm.nil_eq.symm⟩
    · next n rest hqueue =>
      have hdistinct := (SortInvariant.perm_place hqueue).nodup_iff.mpr hs.nodup
      have hnew : n ∉ s.ordered := by
        intro hold
        exact (List.nodup_append.mp (List.nodup_append.mp hdistinct).1).2.2 n hold n (by simp) rfl
      refine ih _ (hs.place hnodup hqueue) (hready.place hnodup hs hqueue hnew)
        (horder.append_singleton (hready.nextReady_eq hs hqueue hnew)) ?_
      simp only [List.length_append, List.length_singleton]
      omega

/-- The order takes the first of the ready nodes each time, and leaves none that is ready. -/
theorem topologicalOrder_takesFirst {nodes : List α} (deps : α → List α) (hnodup : nodes.Nodup) :
    TakesFirst nodes deps (topologicalOrder nodes deps) ∧
      ∀ n ∈ nodes, (∀ d ∈ deps n, d ∈ topologicalOrder nodes deps) →
        n ∈ topologicalOrder nodes deps := by
  refine sortLoop_takesFirst hnodup nodes.length (startSorting nodes deps)
    (sortInvariant_startSorting deps hnodup) (queuesReady_startSorting nodes deps) ?_ (by simp)
  intro before n after hsplit
  simp [startSorting] at hsplit

/-! ## Cycles -/

/-- A node of a list depends on another one. -/
def DependsOn (nodes : List α) (deps : α → List α) (d n : α) : Prop := n ∈ nodes ∧ d ∈ deps n

/-- No node depends on itself, be it through others. -/
def Acyclic (nodes : List α) (deps : α → List α) : Prop :=
  ∀ n, ¬Relation.TransGen (DependsOn nodes deps) n n

omit [DecidableEq α] in
/-- If nodes depend on each other in no circle, then some of them depend on none of them. -/
theorem Acyclic.exists_first {nodes : List α} {deps : α → List α} (hacyclic : Acyclic nodes deps)
    {left : α → Prop} (hleft : ∃ n ∈ nodes, left n) :
    ∃ n ∈ nodes, left n ∧ ∀ d ∈ deps n, d ∈ nodes → ¬left d := by
  let before : {n // n ∈ nodes} → {n // n ∈ nodes} → Prop :=
    fun d n => Relation.TransGen (DependsOn nodes deps) d.1 n.1
  have : Finite {n // n ∈ nodes} := (List.finite_toSet nodes).to_subtype
  have : IsTrans {n // n ∈ nodes} before := ⟨fun _ _ _ hab hbc => hab.trans hbc⟩
  have : Std.Irrefl before := ⟨fun n => hacyclic n.1⟩
  have hwf : WellFounded before := Finite.wellFounded_of_trans_of_irrefl _
  obtain ⟨a, ha, hlefta⟩ := hleft
  obtain ⟨n, hleftn, hfirst⟩ := hwf.has_min {n | left n.1} ⟨⟨a, ha⟩, hlefta⟩
  refine ⟨n.1, n.2, hleftn, fun d hd hmem hleftd => ?_⟩
  exact hfirst ⟨d, hmem⟩ hleftd (Relation.TransGen.single ⟨n.2, hd⟩)

/-- What a node depends on, be it through others, stands before it in an order of all nodes. -/
theorem DependsBack.idxOf_lt {nodes : List α} {deps : α → List α} {order : List α}
    (horder : DependsBack deps order) (hall : nodes ⊆ order) {d n : α}
    (h : Relation.TransGen (DependsOn nodes deps) d n) : order.idxOf d < order.idxOf n := by
  have hstep : ∀ d n, DependsOn nodes deps d n → order.idxOf d < order.idxOf n := by
    rintro d n ⟨hn, hd⟩
    obtain ⟨before, after, hsplit, hnew⟩ := List.eq_append_cons_of_mem (hall hn)
    have hbefore := horder before n after hsplit d hd
    rw [hsplit, List.idxOf_append_of_mem hbefore, List.idxOf_append_of_notMem hnew]
    have hlt := List.idxOf_lt_length_iff.mpr hbefore
    omega
  induction h with
  | single hdn => exact hstep _ _ hdn
  | tail _ hdn ih => exact ih.trans (hstep _ _ hdn)

/-- All nodes are placed exactly if no node depends on itself, be it through others. -/
theorem length_topologicalOrder_iff {nodes : List α} {deps : α → List α} (hnodup : nodes.Nodup)
    (hknown : ∀ n ∈ nodes, deps n ⊆ nodes) :
    (topologicalOrder nodes deps).length = nodes.length ↔ Acyclic nodes deps := by
  constructor
  · intro hlength n hcycle
    obtain ⟨hperm, hback⟩ := topologicalOrder_spec hnodup hlength
    exact lt_irrefl _ (hback.idxOf_lt hperm.symm.subset hcycle)
  · intro hacyclic
    obtain ⟨hdistinct, hsubset, -⟩ := sortLoop_spec hnodup nodes.length (startSorting nodes deps)
      (sortInvariant_startSorting deps hnodup)
    have hall : nodes ⊆ topologicalOrder nodes deps := by
      intro n hn
      by_contra hleft
      have hmissing : ∃ n ∈ nodes, n ∉ topologicalOrder nodes deps := ⟨n, hn, hleft⟩
      obtain ⟨m, hm, hmissed, hfirst⟩ := hacyclic.exists_first hmissing
      refine hmissed ((topologicalOrder_takesFirst deps hnodup).2 m hm fun d hd => ?_)
      exact not_not.mp (hfirst d hd (hknown m hm hd))
    exact le_antisymm (hdistinct.subperm hsubset).length_le (hnodup.subperm hall).length_le

end PalmEngine.Lib
