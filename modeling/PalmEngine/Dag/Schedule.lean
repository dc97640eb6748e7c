import PalmEngine.Dag.Pattern

/-!
# The schedule of a DAG

The document of a run says of every node what its history says. Every node that is not run yet has
all its dependencies before it in the order of the configuration, so as long as nothing has failed
and nodes are left, one of them is ready: every round runs a node or ends the tick.
-/

namespace PalmEngine.Dag

open PalmEngine.Lib PalmEngine.Context PalmEngine.Workloads
open PalmEngine.BehaviorTree (PatternStatus)

/-- A history in which nodes are run at most once, after their dependencies have succeeded and
before anything has failed. -/
structure Scheduled (nodes : List DagNodeSpec) (ran : List (String × Bool)) : Prop where
  known : ran.map Prod.fst ⊆ nodes.map (·.id)
  nodup : (ran.map Prod.fst).Nodup
  after : ∀ before id ok rest, ran = before ++ (id, ok) :: rest →
    (∀ d ∈ dependsOf nodes id, (d, true) ∈ before) ∧ ∀ e ∈ before, e.2 = true

/-- What a history says of a node. -/
def nodeStatus (ran : List (String × Bool)) (id : String) : String :=
  if (id, true) ∈ ran then "succeeded" else if (id, false) ∈ ran then "failed" else "pending"

/-- What a history says of the run. -/
def outcome (nodes : List DagNodeSpec) (ran : List (String × Bool)) : PatternStatus :=
  if ∃ e ∈ ran, e.2 = false then .failure
  else if ∀ n ∈ nodes, (n.id, true) ∈ ran then .success
  else .running

/-- The text for the status of a run. -/
def statusText : PatternStatus → String
  | .success => "succeeded"
  | .failure => "failed"
  | .running | .waitingForInput => "running"

section History

variable {nodes : List DagNodeSpec} {ran : List (String × Bool)}

/-- Nothing is run yet. -/
theorem Scheduled.nil (nodes : List DagNodeSpec) : Scheduled nodes [] where
  known := by simp
  nodup := by simp
  after := by simp

/-- A ready node may be run. -/
theorem Scheduled.append_singleton (h : Scheduled nodes ran) {id : String} (ok : Bool)
    (hid : id ∈ nodes.map (·.id)) (hnew : id ∉ ran.map Prod.fst)
    (hdeps : ∀ d ∈ dependsOf nodes id, (d, true) ∈ ran) (hfine : ∀ e ∈ ran, e.2 = true) :
    Scheduled nodes (ran ++ [(id, ok)]) where
  known := by
    intro i hi
    rw [List.map_append, List.mem_append] at hi
    rcases hi with hold | hlast
    · exact h.known hold
    · obtain rfl : i = id := by simpa using hlast
      exact hid
  nodup := by
    rw [List.map_append, List.nodup_append]
    refine ⟨h.nodup, by simp, ?_⟩
    intro a ha b hb
    obtain rfl : b = id := by simpa using hb
    intro hab
    exact hnew (hab ▸ ha)
  after := by
    intro before i b rest hsplit
    rcases List.eq_nil_or_concat rest with rfl | ⟨rest, last, rfl⟩
    · obtain ⟨rfl, hlast⟩ := List.append_inj' hsplit rfl
      obtain ⟨rfl, rfl⟩ : id = i ∧ ok = b := by simpa using hlast
      exact ⟨hdeps, hfine⟩
    · have hinit : ran ++ [(id, ok)] = (before ++ (i, b) :: rest) ++ [last] := by simpa using hsplit
      exact h.after before i b rest (List.append_inj' hinit rfl).1

/-- A node does not both succeed and fail. -/
theorem Scheduled.eq_of_mem (h : Scheduled nodes ran) {id : String} {a b : Bool}
    (ha : (id, a) ∈ ran) (hb : (id, b) ∈ ran) : a = b := by
  have hsame := List.inj_on_of_nodup_map h.nodup ha hb rfl
  exact congrArg Prod.snd hsame

/-- At most as many nodes are run as there are. -/
theorem Scheduled.length_le (h : Scheduled nodes ran) : ran.length ≤ nodes.length := by
  have hle := (h.nodup.subperm h.known).length_le
  simpa using hle

/-- A run goes on, fails or succeeds. -/
theorem outcome_cases (nodes : List DagNodeSpec) (ran : List (String × Bool)) :
    outcome nodes ran = .running ∨ outcome nodes ran = .failure ∨ outcome nodes ran = .success := by
  rw [outcome]
  split
  · exact Or.inr (Or.inl rfl)
  · split
    · exact Or.inr (Or.inr rfl)
    · exact Or.inl rfl

/-- A run fails if and only if one of its nodes has failed. -/
theorem outcome_eq_failure_iff : outcome nodes ran = .failure ↔ ∃ id, (id, false) ∈ ran := by
  rw [outcome]
  split
  · next hfailed =>
    obtain ⟨e, he, hfalse⟩ := hfailed
    exact ⟨fun _ => ⟨e.1, by rw [← hfalse]; exact he⟩, fun _ => rfl⟩
  · next hnone =>
    constructor
    · split <;> intro h <;> cases h
    · rintro ⟨id, hid⟩
      exact absurd ⟨_, hid, rfl⟩ hnone

/-- A run succeeds if and only if all its nodes have succeeded. -/
theorem Scheduled.outcome_eq_success_iff (h : Scheduled nodes ran) :
    outcome nodes ran = .success ↔ ∀ n ∈ nodes, (n.id, true) ∈ ran := by
  rw [outcome]
  split
  · next hfailed =>
    constructor
    · intro heq
      cases heq
    · intro hall
      obtain ⟨e, he, hfalse⟩ := hfailed
      obtain ⟨n, hn, hid⟩ := List.mem_map.mp (h.known (List.mem_map_of_mem he))
      have hboth := h.eq_of_mem (hid ▸ hall n hn) (b := e.2) he
      rw [hfalse] at hboth
      cases hboth
  · split
    · next hall => exact ⟨fun _ => hall, fun _ => rfl⟩
    · next hnot => exact ⟨fun heq => (by cases heq), fun hall => absurd hall hnot⟩

/-- A run goes on if and only if nothing has failed and something is left. -/
theorem outcome_eq_running_iff : outcome nodes ran = .running ↔
    (∀ e ∈ ran, e.2 = true) ∧ ∃ n ∈ nodes, (n.id, true) ∉ ran := by
  rw [outcome]
  split
  · next hfailed =>
    obtain ⟨e, he, hfalse⟩ := hfailed
    constructor
    · intro heq
      cases heq
    · intro hfine
      have htrue := hfine.1 e he
      rw [hfalse] at htrue
      cases htrue
  · next hnone =>
    have hfine : ∀ e ∈ ran, e.2 = true := by
      intro e he
      by_contra hnot
      exact hnone ⟨e, he, by simpa using hnot⟩
    split
    · next hall =>
      constructor
      · intro heq
        cases heq
      · rintro ⟨_, n, hn, hmissing⟩
        exact absurd (hall n hn) hmissing
    · next hnot =>
      push Not at hnot
      exact ⟨fun _ => ⟨hfine, hnot⟩, fun _ => rfl⟩

/-- A run that goes on has gone on before. -/
theorem outcome_running_of_prefix {before : List (String × Bool)} (hfront : before <+: ran)
    (h : outcome nodes ran = .running) : outcome nodes before = .running := by
  obtain ⟨hfine, n, hn, hmissing⟩ := outcome_eq_running_iff.mp h
  exact outcome_eq_running_iff.mpr ⟨fun e he => hfine e (hfront.subset he), n, hn,
    fun hbefore => hmissing (hfront.subset hbefore)⟩

/-- The status of a node that is not run. -/
theorem nodeStatus_eq_pending_iff {id : String} :
    nodeStatus ran id = "pending" ↔ id ∉ ran.map Prod.fst := by
  have hmem : id ∈ ran.map Prod.fst ↔ (id, true) ∈ ran ∨ (id, false) ∈ ran := by
    simp [List.mem_map]
    tauto
  rw [hmem, nodeStatus]
  by_cases htrue : (id, true) ∈ ran
  · simp [htrue]
  · by_cases hfalse : (id, false) ∈ ran <;> simp [htrue, hfalse]

/-- The status of a node that has succeeded. -/
theorem nodeStatus_eq_succeeded_iff {id : String} :
    nodeStatus ran id = "succeeded" ↔ (id, true) ∈ ran := by
  rw [nodeStatus]
  by_cases htrue : (id, true) ∈ ran
  · simp [htrue]
  · by_cases hfalse : (id, false) ∈ ran <;> simp [htrue, hfalse]

/-- Running a node changes what the history says of that node only. -/
theorem nodeStatus_append_singleton {id : String} (hnew : id ∉ ran.map Prod.fst) (ok : Bool) :
    nodeStatus (ran ++ [(id, ok)]) =
      Function.update (nodeStatus ran) id (if ok then "succeeded" else "failed") := by
  funext i
  by_cases hi : i = id
  · subst hi
    have hnone : ∀ b, (i, b) ∉ ran := fun b hb => hnew (List.mem_map_of_mem hb)
    cases ok <;> simp [nodeStatus, hnone]
  · rw [Function.update_of_ne hi]
    simp [nodeStatus, hi]

end History

section Documents

variable {ω : Type} {p : DagPattern ω} {ids : List String} {status : String → String}
  {dag nodes : List (String × Value)}

/-- The entries of nodes say what their statuses are. -/
def DescribesNodes (ids : List String) (status : String → String)
    (nodes : List (String × Value)) : Prop :=
  ∀ id ∈ ids, ∃ entry, valueOf? id nodes = some (.dict entry) ∧
    valueOf? "status" entry = some (.str (status id))

/-- A document says what the statuses of its nodes are. -/
def Describes (ids : List String) (status : String → String) (dag : List (String × Value)) : Prop :=
  ∃ nodes, valueOf? "nodes" dag = some (.dict nodes) ∧ DescribesNodes ids status nodes

/-- Storing an entry changes the status of its node. -/
theorem DescribesNodes.setEntry (h : DescribesNodes ids status nodes) (id : String) {v : String}
    {entry : List (String × Value)} (hentry : valueOf? "status" entry = some (.str v)) :
    DescribesNodes ids (Function.update status id v) (Context.setEntry id (.dict entry) nodes) := by
  intro i hi
  by_cases hid : i = id
  · subst hid
    exact ⟨entry, valueOf?_setEntry_self i _ nodes, by rw [Function.update_self, hentry]⟩
  · rw [valueOf?_setEntry_ne _ _ hid, Function.update_of_ne hid]
    exact h i hi

/-- Storing an entry in a document changes the status of its node. -/
theorem describes_setNode (h : DescribesNodes ids status nodes) (id : String) {v : String}
    {entry : List (String × Value)} (hentry : valueOf? "status" entry = some (.str v))
    (dag : List (String × Value)) :
    Describes ids (Function.update status id v) (DagPattern.setNode dag nodes id entry) :=
  ⟨_, valueOf?_setEntry_self "nodes" _ dag, h.setEntry id hentry⟩

/-- Storing another key of a document keeps what it says of the nodes. -/
theorem Describes.setEntry (h : Describes ids status dag) {k : String} (hk : "nodes" ≠ k)
    (v : Value) : Describes ids status (Context.setEntry k v dag) := by
  obtain ⟨nodes, hnodes, hdescribes⟩ := h
  exact ⟨nodes, by rw [valueOf?_setEntry_ne v dag hk, hnodes], hdescribes⟩

/-- Removing another key finds the same values. -/
theorem valueOf?_filter_ne {k i : String} (hk : i ≠ k) (dag : List (String × Value)) :
    valueOf? i (dag.filter (·.1 ≠ k)) = valueOf? i dag := by
  induction dag with
  | nil => rfl
  | cons e dag ih =>
    by_cases he : e.1 = k
    · rw [List.filter_cons_of_neg (by simpa using he), ih, valueOf?_cons,
        if_neg (he ▸ hk.symm)]
    · rw [List.filter_cons_of_pos (by simpa using he), valueOf?_cons, valueOf?_cons, ih]

/-- The statuses are read from the document. -/
theorem hasStatus_eq (h : Describes ids status dag) {id : String} (hid : id ∈ ids) (v : String) :
    p.hasStatus dag v id = .ok (status id = v) := by
  obtain ⟨nodes, hnodes, hdescribes⟩ := h
  obtain ⟨entry, hentry, hstatus⟩ := hdescribes id hid
  simp [DagPattern.hasStatus, DagPattern.entryOf, hnodes, DagPattern.orEmpty, hentry, hstatus,
    Value.asStr, pure, Except.pure, bind, Except.bind]

/-- Asking all of a list when every question has an answer. -/
theorem allM_eq_ok {α : Type} {ask : α → Except String Bool} {answer : α → Bool} {as : List α}
    (h : ∀ a ∈ as, ask a = .ok (answer a)) : as.allM ask = .ok (as.all answer) := by
  induction as with
  | nil => rfl
  | cons a as ih =>
    rw [List.allM, h a List.mem_cons_self]
    cases hanswer : answer a with
    | true => simpa [bind, Except.bind, hanswer] using ih fun b hb => h b (List.mem_cons_of_mem a hb)
    | false => simp [bind, Except.bind, hanswer, pure, Except.pure]

/-- Filtering a list when every question has an answer. -/
theorem filterM_eq_ok {α : Type} {ask : α → Except String Bool} {answer : α → Bool} {as : List α}
    (h : ∀ a ∈ as, ask a = .ok (answer a)) : as.filterM ask = .ok (as.filter answer) := by
  have haux : ∀ kept, as.filterAuxM ask kept = .ok ((as.filter answer).reverse ++ kept) := by
    induction as with
    | nil => simp [List.filterAuxM, pure, Except.pure]
    | cons a as ih =>
      intro kept
      rw [List.filterAuxM, h a List.mem_cons_self]
      have hrest := ih fun b hb => h b (List.mem_cons_of_mem a hb)
      cases hanswer : answer a <;> simp [bind, Except.bind, hrest, hanswer]
  simp [List.filterM, haux, bind, Except.bind, pure, Except.pure]

end Documents

section Rounds

variable {ω : Type} {p : DagPattern ω}

/-- A document says what a history says. -/
structure Described (c : DagConfig) (ran : List (String × Bool)) (dag : List (String × Value)) :
    Prop where
  nodes : Describes (c.nodes.map (·.id)) (nodeStatus ran) dag
  status : valueOf? "status" dag = some (.str (statusText (outcome c.nodes ran)))
  error : valueOf? "error" dag ≠ some (.str stuckError)

/-- A pattern that has started: its document is that of its history, which keeps to the schedule. -/
structure Started (c : DagConfig) (r : DagRun ω) : Prop where
  document : ∃ dag, r.state.get dagKey = some (.dict dag) ∧ Described c r.ran dag
  scheduled : Scheduled c.nodes r.ran

/-- A node is ready if it is not run and its dependencies have succeeded. -/
def Ready (ran : List (String × Bool)) (n : DagNodeSpec) : Prop :=
  n.id ∉ ran.map Prod.fst ∧ ∀ d ∈ n.dependsOn, (d, true) ∈ ran

instance (ran : List (String × Bool)) (n : DagNodeSpec) : Decidable (Ready ran n) :=
  inferInstanceAs (Decidable (_ ∧ _))

/-- The status of the run in the document. -/
theorem Described.dagStatus_eq {c : DagConfig} {ran : List (String × Bool)}
    {dag : List (String × Value)} (h : Described c ran dag) (v : String) :
    DagPattern.dagStatus dag v = decide (statusText (outcome c.nodes ran) = v) := by
  simp [DagPattern.dagStatus, h.status, Value.asStr]

/-- Whether a node is ready is read from the document. -/
theorem isReady_eq {c : DagConfig} (hc : c.Sorted) {ran : List (String × Bool)}
    {dag : List (String × Value)} (h : Described c ran dag) {n : DagNodeSpec} (hn : n ∈ c.nodes) :
    p.isReady dag n = .ok (decide (Ready ran n)) := by
  have hdep : ∀ d ∈ n.dependsOn,
      p.hasStatus dag "succeeded" d = .ok (decide (nodeStatus ran d = "succeeded")) :=
    fun d hd => hasStatus_eq h.nodes (hc.known hn hd) _
  rw [DagPattern.isReady, hasStatus_eq h.nodes (List.mem_map_of_mem hn) "pending", allM_eq_ok hdep]
  by_cases hnew : n.id ∈ ran.map Prod.fst
  · have hpending : ¬nodeStatus ran n.id = "pending" := fun h => nodeStatus_eq_pending_iff.mp h hnew
    simp [bind, Except.bind, pure, Except.pure, Ready, hnew, hpending]
  · have hpending := nodeStatus_eq_pending_iff.mpr hnew
    simp [bind, Except.bind, Ready, hnew, hpending, nodeStatus_eq_succeeded_iff, List.all_eq]

/-- Whether all nodes have succeeded is read from the document. -/
theorem allSucceeded_eq {nodes : List DagNodeSpec} {status : String → String}
    (hp : p.config.nodes = nodes) {dag : List (String × Value)}
    (h : Describes (nodes.map (·.id)) status dag) :
    p.allSucceeded dag = .ok (decide (∀ n ∈ nodes, status n.id = "succeeded")) := by
  have hask : ∀ n ∈ nodes, p.hasStatus dag "succeeded" n.id =
      .ok (decide (status n.id = "succeeded")) :=
    fun n hn => hasStatus_eq h (List.mem_map_of_mem hn) _
  rw [DagPattern.allSucceeded, hp, allM_eq_ok hask]
  simp [List.all_eq]

/-- A run whose document is stored has started. -/
theorem started_setDag {c : DagConfig} {r : DagRun ω} {dag : List (String × Value)}
    (hdag : Described c r.ran dag) (hscheduled : Scheduled c.nodes r.ran) :
    Started c (r.setDag dag) where
  document := ⟨dag, r.get_setDag dag, hdag⟩
  scheduled := hscheduled

/-- The document of a node at work: it goes on, and the other nodes are as the history says. -/
structure Working (c : DagConfig) (ran : List (String × Bool)) (id : String)
    (dag nodes : List (String × Value)) : Prop where
  stored : valueOf? "nodes" dag = some (.dict nodes)
  nodes : DescribesNodes (c.nodes.map (·.id)) (Function.update (nodeStatus ran) id "running") nodes
  status : valueOf? "status" dag = some (.str "running")
  error : valueOf? "error" dag ≠ some (.str stuckError)

/-- The entry that a node at work is given says how it has ended. -/
theorem Working.setNode {c : DagConfig} {ran : List (String × Bool)} {id : String}
    {dag nodes entry : List (String × Value)} (h : Working c ran id dag nodes)
    (hnew : id ∉ ran.map Prod.fst) (ok : Bool)
    (hentry : valueOf? "status" entry = some (.str (if ok then "succeeded" else "failed"))) :
    Describes (c.nodes.map (·.id)) (nodeStatus (ran ++ [(id, ok)]))
      (DagPattern.setNode dag nodes id entry) := by
  have hdescribes := describes_setNode h.nodes id hentry dag
  rwa [Function.update_idem, ← nodeStatus_append_singleton hnew ok] at hdescribes

/-- The error of a node is not that of a run that gets nowhere. -/
theorem told_ne_stuckError (quoted error : String) : s!"node {quoted}: {error}" ≠ stuckError := by
  intro heq
  change "node " ++ quoted ++ ": " ++ error = stuckError at heq
  have hchars := congrArg (fun s => s.toList.head?) heq
  simp [stuckError] at hchars

/-- The error of a node is not stored in the place of the document. -/
theorem dagKey_ne_error (id : String) : dagKey ≠ s!"dag_error_{id}" := by
  intro heq
  change dagKey = "dag_error_" ++ id at heq
  have hlength := congrArg String.length heq
  rw [String.length_append] at hlength
  have hshort : dagKey.length = 3 := rfl
  have hlong : "dag_error_".length = 10 := rfl
  omega

/-- A node was run: it is noted, and what is returned and stored is what the history says. -/
def RunsNode (c : DagConfig) (ran : List (String × Bool)) (id : String)
    (out : Except String (PatternStatus × DagRun ω)) : Prop :=
  ∃ next ok, out = .ok (outcome c.nodes next.ran, next) ∧ Started c next ∧
    next.ran = ran ++ [(id, ok)]

/-- A node whose invocation has succeeded is marked as such. -/
theorem succeedNode_runsNode {c : DagConfig} (hp : p.config = c) {n : DagNodeSpec} (hn : n ∈ c.nodes)
    {r : DagRun ω} (hnew : n.id ∉ r.ran.map Prod.fst)
    (hscheduled : Scheduled c.nodes (r.ran ++ [(n.id, true)])) (hfine : ∀ e ∈ r.ran, e.2 = true)
    {dag nodes : List (String × Value)} (hworking : Working c r.ran n.id dag nodes) :
    RunsNode c r.ran n.id (p.succeedNode r dag nodes n) := by
  obtain ⟨entry, hentry, -⟩ := hworking.nodes n.id (List.mem_map_of_mem hn)
  let marked := setEntry "output_key" (.str (DagPattern.outputKey n))
    (setEntry "status" (.str "succeeded") entry)
  have hmarked : valueOf? "status" marked = some (.str "succeeded") := by
    rw [valueOf?_setEntry_ne _ _ (by decide), valueOf?_setEntry_self]
  let stored := DagPattern.setNode dag nodes n.id marked
  have hdescribes := hworking.setNode hnew true hmarked
  have hkept : ∀ k ≠ "nodes", valueOf? k stored = valueOf? k dag :=
    fun k hk => valueOf?_setEntry_ne _ _ hk
  have hall := allSucceeded_eq (p := p) (congrArg DagConfig.nodes hp) hdescribes
  have hfine' : ∀ e ∈ r.ran ++ [(n.id, true)], e.2 = true := by
    intro e he
    rcases List.mem_append.mp he with hold | hlast
    · exact hfine e hold
    · exact List.mem_singleton.mp hlast ▸ rfl
  simp only [nodeStatus_eq_succeeded_iff] at hall
  let final := (setEntry "status" (.str "succeeded") stored).filter (·.1 ≠ "current")
  have hrun : p.succeedNode r dag nodes n =
      .ok (if ∀ m ∈ c.nodes, (m.id, true) ∈ r.ran ++ [(n.id, true)]
        then (.success, (r.note n.id true).setDag final)
        else (.running, (r.note n.id true).setDag stored)) := by
    simp only [DagPattern.succeedNode, hentry, DagPattern.orEmpty, bind, Except.bind, pure,
      Except.pure]
    rw [hall]
    by_cases hlast : ∀ m ∈ c.nodes, (m.id, true) ∈ r.ran ++ [(n.id, true)]
    · simp only [if_pos hlast, decide_eq_true hlast, if_true]
      rfl
    · simp only [if_neg hlast, decide_eq_false hlast, Bool.false_eq_true, if_false]
      rfl
  rw [hrun]
  by_cases hlast : ∀ m ∈ c.nodes, (m.id, true) ∈ r.ran ++ [(n.id, true)]
  · have hsuccess := hscheduled.outcome_eq_success_iff.mpr hlast
    have hfinal : ∀ k ≠ "current", valueOf? k final =
        valueOf? k (setEntry "status" (.str "succeeded") stored) :=
      fun k hk => valueOf?_filter_ne hk _
    rw [if_pos hlast]
    refine ⟨(r.note n.id true).setDag final, true, ?_, started_setDag ⟨?_, ?_, ?_⟩ hscheduled, rfl⟩
    · rw [DagRun.ran_setDag, DagRun.ran_note, hsuccess]
    · obtain ⟨held, hheld, hsays⟩ := hdescribes.setEntry (k := "status") (by decide)
        (.str "succeeded")
      exact ⟨held, (hfinal "nodes" (by decide)).trans hheld, hsays⟩
    · rw [DagRun.ran_note, hsuccess, hfinal "status" (by decide), valueOf?_setEntry_self]
      rfl
    · rw [hfinal "error" (by decide), valueOf?_setEntry_ne _ _ (by decide), hkept "error" (by decide)]
      exact hworking.error
  · have hrunning : outcome c.nodes (r.ran ++ [(n.id, true)]) = .running := by
      push Not at hlast
      exact outcome_eq_running_iff.mpr ⟨hfine', hlast⟩
    rw [if_neg hlast]
    refine ⟨(r.note n.id true).setDag stored, true, ?_, started_setDag ⟨hdescribes, ?_, ?_⟩
      hscheduled, rfl⟩
    · rw [DagRun.ran_setDag, DagRun.ran_note, hrunning]
    · rw [DagRun.ran_note, hrunning, hkept "status" (by decide), hworking.status]
      rfl
    · rw [hkept "error" (by decide)]
      exact hworking.error

/-- A node whose invocation has failed is marked as such, and so is the run. -/
theorem failNode_runsNode {c : DagConfig} {n : DagNodeSpec} (hn : n ∈ c.nodes)
    {r : DagRun ω} (hnew : n.id ∉ r.ran.map Prod.fst)
    (hscheduled : Scheduled c.nodes (r.ran ++ [(n.id, false)]))
    {dag nodes : List (String × Value)} (hworking : Working c r.ran n.id dag nodes)
    (error : String) :
    RunsNode c r.ran n.id (p.failNode r dag n error) := by
  obtain ⟨entry, hentry, -⟩ := hworking.nodes n.id (List.mem_map_of_mem hn)
  let marked := setEntry "error" (.str error) (setEntry "status" (.str "failed") entry)
  have hmarked : valueOf? "status" marked = some (.str "failed") := by
    rw [valueOf?_setEntry_ne _ _ (by decide), valueOf?_setEntry_self]
  have hdescribes := hworking.setNode hnew false hmarked
  let failed := setEntry "status" (.str "failed") (DagPattern.setNode dag nodes n.id marked)
  let told := setEntry "error" (.str s!"node {p.texts.repr n.id}: {error}") failed
  let final := setEntry "current" (.str n.id) told
  have hfailure : outcome c.nodes (r.ran ++ [(n.id, false)]) = .failure :=
    outcome_eq_failure_iff.mpr ⟨n.id, by simp⟩
  have hdescribed : Described c (r.ran ++ [(n.id, false)]) final := by
    refine ⟨?_, ?_, ?_⟩
    · exact ((hdescribes.setEntry (by decide) _).setEntry (by decide) _).setEntry (by decide) _
    · rw [hfailure, valueOf?_setEntry_ne _ _ (by decide), valueOf?_setEntry_ne _ _ (by decide),
        valueOf?_setEntry_self]
      rfl
    · rw [valueOf?_setEntry_ne _ _ (by decide), valueOf?_setEntry_self]
      intro heq
      exact told_ne_stuckError _ _ (Value.str.inj (Option.some.inj heq))
  refine ⟨((r.note n.id false).setDag final).set s!"dag_error_{n.id}" (.str error), false, ?_,
    ⟨⟨final, ?_, hdescribed⟩, hscheduled⟩, rfl⟩
  · simp only [DagPattern.failNode, hworking.stored, hentry, DagPattern.orEmpty, bind, Except.bind,
      pure, Except.pure]
    rw [DagRun.ran_set, DagRun.ran_setDag, DagRun.ran_note, hfailure]
  · rw [DagRun.get_set_of_ne]
    · exact DagRun.get_setDag _ final
    · exact dagKey_ne_error n.id

/-- A ready node of a run that goes on is run once more than before. -/
theorem runNode_runsNode {c : DagConfig} (hp : p.config = c) (hc : c.Sorted) {n : DagNodeSpec}
    (hn : n ∈ c.nodes) {r : DagRun ω} (hscheduled : Scheduled c.nodes r.ran)
    {dag : List (String × Value)} (hdag : Described c r.ran dag)
    (hrunning : outcome c.nodes r.ran = .running) (hready : Ready r.ran n) :
    RunsNode c r.ran n.id (p.runNode r dag n) := by
  obtain ⟨nodes, hnodes, hsays⟩ := hdag.nodes
  obtain ⟨entry, hentry, -⟩ := hsays n.id (List.mem_map_of_mem hn)
  have hfine := (outcome_eq_running_iff.mp hrunning).1
  have hdeps : ∀ d ∈ dependsOf c.nodes n.id, (d, true) ∈ r.ran := by
    rw [dependsOf_id hc.nodup hn]
    exact hready.2
  have hnext : ∀ ok, Scheduled c.nodes (r.ran ++ [(n.id, ok)]) := fun ok =>
    hscheduled.append_singleton ok (List.mem_map_of_mem hn) hready.1 hdeps hfine
  let nodes' := setEntry n.id (.dict (setEntry "status" (.str "running") entry)) nodes
  let dag' := setEntry "current" (.str n.id) (setEntry "nodes" (.dict nodes') dag)
  have hkept : ∀ k ≠ "current", k ≠ "nodes" → valueOf? k dag' = valueOf? k dag :=
    fun k hcurrent hk => (valueOf?_setEntry_ne _ _ hcurrent).trans (valueOf?_setEntry_ne _ _ hk)
  have hworking : Working c r.ran n.id dag' nodes' := by
    refine ⟨?_, ?_, ?_, ?_⟩
    · rw [valueOf?_setEntry_ne _ _ (by decide), valueOf?_setEntry_self]
    · exact hsays.setEntry n.id (valueOf?_setEntry_self _ _ _)
    · rw [hkept "status" (by decide) (by decide), hdag.status, hrunning]
      rfl
    · rw [hkept "error" (by decide) (by decide)]
      exact hdag.error
  have hsucceed : ∀ r' : DagRun ω, r'.ran = r.ran →
      RunsNode c r.ran n.id (p.succeedNode r' dag' nodes' n) := by
    intro r' hr'
    have h := succeedNode_runsNode (p := p) (r := r') hp hn (hr' ▸ hready.1) (hr' ▸ hnext true)
      (hr' ▸ hfine) (hr' ▸ hworking)
    rwa [hr'] at h
  have hfail : ∀ (r' : DagRun ω) (error : String), r'.ran = r.ran →
      RunsNode c r.ran n.id (p.failNode r' dag' n error) := by
    intro r' error hr'
    have h := failNode_runsNode (p := p) (r := r') hn (hr' ▸ hready.1) (hr' ▸ hnext false)
      (hr' ▸ hworking) error
    rwa [hr'] at h
  have hrun : p.runNode r dag n = if n.workload.isSome
      then p.runWorkloadNode (r.setDag dag') dag' nodes' n
      else p.runResourceNode (r.setDag dag') dag' nodes' n := by
    simp only [DagPattern.runNode, hnodes, hentry, DagPattern.orEmpty, bind, Except.bind]
    rfl
  rw [hrun]
  split
  · rw [DagPattern.runWorkloadNode]
    split
    · exact hfail _ _ rfl
    · dsimp only
      split
      · exact hfail _ _ rfl
      · split
        · exact hsucceed _ rfl
        · split
          · exact hfail _ _ rfl
          · exact hfail _ _ rfl
  · rw [DagPattern.runResourceNode]
    split
    · exact hfail _ _ rfl
    · dsimp only
      split
      · exact hsucceed _ rfl
      · exact hfail _ _ rfl

/-- The nodes of a batch are run until the run ends: what is returned is what the history says. -/
theorem runBatch_started {c : DagConfig} (hp : p.config = c) (hc : c.Sorted)
    (batch : List DagNodeSpec) (hbatch : batch ⊆ c.nodes) (r : DagRun ω) (hr : Started c r)
    (hrunning : outcome c.nodes r.ran = .running) :
    ∃ next, Started c next ∧ r.ran <+: next.ran ∧
      (batch.head?.any (fun n => decide (Ready r.ran n)) → r.ran.length < next.ran.length) ∧
      ((p.runBatch batch (.running, r) = .ok (.inl (.running, next)) ∧
        outcome c.nodes next.ran = .running) ∨
      p.runBatch batch (.running, r) = .ok (.inr (outcome c.nodes next.ran, next))) := by
  induction batch generalizing r with
  | nil =>
    exact ⟨r, hr, List.prefix_refl _, by simp, Or.inl ⟨rfl, hrunning⟩⟩
  | cons n batch ih =>
    have hn : n ∈ c.nodes := hbatch List.mem_cons_self
    have hrest : batch ⊆ c.nodes := fun m hm => hbatch (List.mem_cons_of_mem n hm)
    obtain ⟨dag, hdag, hdescribed⟩ := hr.document
    have hfailed : DagPattern.dagStatus dag "failed" = false := by
      rw [hdescribed.dagStatus_eq, hrunning]
      rfl
    have hstep : p.runBatch (n :: batch) (.running, r) =
        if Ready r.ran n then (p.runNode r dag n).bind fun out =>
          if out.1 = .failure ∨ out.1 = .success then .ok (.inr out) else p.runBatch batch out
        else p.runBatch batch (.running, r) := by
      rw [DagPattern.runBatch]
      simp only [hdag, Option.bind_some, Value.asDict, hfailed, Bool.false_eq_true, if_false,
        isReady_eq hc hdescribed hn, bind, Except.bind, pure, Except.pure, decide_eq_true_eq]
    by_cases hready : Ready r.ran n
    · obtain ⟨next, ok, hrun, hnext, hran⟩ :=
        runNode_runsNode hp hc hn hr.scheduled hdescribed hrunning hready
      have hlonger : r.ran.length < next.ran.length := by simp [hran]
      have hfront : r.ran <+: next.ran := hran ▸ List.prefix_append _ _
      rw [hstep, if_pos hready, hrun]
      by_cases hends : outcome c.nodes next.ran = .running
      · obtain ⟨last, hlast, hgrows, -, hresult⟩ := ih hrest next hnext hends
        refine ⟨last, hlast, hfront.trans hgrows, fun _ => hlonger.trans_le hgrows.length_le, ?_⟩
        simpa [Except.bind, hends] using hresult
      · refine ⟨next, hnext, hfront, fun _ => hlonger, Or.inr ?_⟩
        have hfinal := (outcome_cases _ _).resolve_left hends
        simp [Except.bind, hfinal]
    · rw [hstep, if_neg hready]
      obtain ⟨next, hnext, hgrows, -, hresult⟩ := ih hrest r hr hrunning
      exact ⟨next, hnext, hgrows, by simp [hready], hresult⟩

/-- As long as nothing has failed and nodes are left, one of them is ready. -/
theorem DagConfig.Sorted.exists_ready {c : DagConfig} (hc : c.Sorted) {ran : List (String × Bool)}
    (hrunning : outcome c.nodes ran = .running) : ∃ n ∈ c.nodes, Ready ran n := by
  obtain ⟨hfine, m, hm, hmissing⟩ := outcome_eq_running_iff.mp hrunning
  obtain ⟨id, hid, hnot, hdeps⟩ := hc.dependsBack.exists_ready (fun id => (id, true) ∈ ran)
    ⟨m.id, List.mem_map_of_mem hm, hmissing⟩
  obtain ⟨n, hn, rfl⟩ := List.mem_map.mp hid
  refine ⟨n, hn, ?_, ?_⟩
  · intro hran
    obtain ⟨e, he, hfst⟩ := List.mem_map.mp hran
    have htrue := hfine e he
    exact hnot (by rw [← hfst, ← htrue]; exact he)
  · rw [dependsOf_id hc.nodup hn] at hdeps
    exact hdeps

/-- What a tick or a round leaves of a started run: it is started, at least as many nodes are run,
more of them if the run went on, and what is returned is what the history says. -/
structure Advanced (c : DagConfig) (r : DagRun ω) (status : PatternStatus) (next : DagRun ω) :
    Prop where
  started : Started c next
  grows : r.ran <+: next.ran
  progress : outcome c.nodes r.ran = .running → r.ran.length < next.ran.length
  status : status = outcome c.nodes next.ran

/-- A round runs a node or ends the tick. -/
theorem round_advanced {c : DagConfig} (hp : p.config = c) (hc : c.Sorted) {r : DagRun ω}
    (hr : Started c r) :
    ∃ next, Advanced c r (outcome c.nodes next.ran) next ∧
      ((p.round (.running, r) = .ok (.inl (.running, next)) ∧
        outcome c.nodes r.ran = .running ∧ outcome c.nodes next.ran = .running) ∨
      p.round (.running, r) = .ok (.inr (outcome c.nodes next.ran, next))) := by
  obtain ⟨dag, hdag, hdescribed⟩ := hr.document
  have hended : outcome c.nodes r.ran ≠ .running →
      p.round (.running, r) = .ok (.inr (outcome c.nodes r.ran, r)) := by
    intro hnot
    rcases (outcome_cases _ _).resolve_left hnot with hstatus | hstatus
    · simp [DagPattern.round, hdag, Value.asDict, hdescribed.dagStatus_eq, hstatus, statusText, pure,
        Except.pure]
    · simp [DagPattern.round, hdag, Value.asDict, hdescribed.dagStatus_eq, hstatus, statusText, pure,
        Except.pure]
  by_cases hrunning : outcome c.nodes r.ran = .running
  · have hready := filterM_eq_ok fun n hn => isReady_eq (p := p) hc hdescribed (n := n) hn
    obtain ⟨n, hn, hnready⟩ := hc.exists_ready hrunning
    cases hfilter : c.nodes.filter fun n => decide (Ready r.ran n) with
    | nil =>
      have hmem : n ∈ c.nodes.filter fun n => decide (Ready r.ran n) :=
        List.mem_filter.mpr ⟨hn, decide_eq_true hnready⟩
      rw [hfilter] at hmem
      cases hmem
    | cons first rest =>
      rw [hfilter] at hready
      let batch := if c.drainReady then first :: rest else (first :: rest).take 1
      have hhead : batch.head? = some first := by
        dsimp only [batch]
        split <;> rfl
      have hall : first :: rest ⊆ c.nodes := hfilter ▸ List.filter_sublist.subset
      have hbatch : batch ⊆ c.nodes := by
        dsimp only [batch]
        split
        · exact hall
        · exact fun m hm => hall (List.take_subset _ _ hm)
      have hfirst : Ready r.ran first := by
        have hmem : first ∈ c.nodes.filter fun n => decide (Ready r.ran n) := by
          rw [hfilter]
          exact List.mem_cons_self
        exact of_decide_eq_true (List.mem_filter.mp hmem).2
      obtain ⟨next, hnext, hgrows, hlonger, hresult⟩ :=
        runBatch_started hp hc batch hbatch r hr hrunning
      have hmore : r.ran.length < next.ran.length := hlonger (by simp [hhead, hfirst])
      have hadvanced : Advanced c r (outcome c.nodes next.ran) next :=
        ⟨hnext, hgrows, fun _ => hmore, rfl⟩
      have hrun : p.round (.running, r) = (p.runBatch batch (.running, r)).bind fun out =>
          out.elim (fun s => .ok (if c.drainReady then .inl s else .inr s)) fun out =>
            .ok (.inr out) := by
        simp only [DagPattern.round, hdag, Option.bind_some, Value.asDict, hdescribed.dagStatus_eq,
          hrunning, DagPattern.readyNodes, hp, hready, bind, Except.bind, pure, Except.pure,
          statusText]
        cases p.runBatch batch (.running, r) with
        | error e => rfl
        | ok out => cases out <;> rfl
      refine ⟨next, hadvanced, ?_⟩
      rw [hrun]
      rcases hresult with ⟨hresult, hgoes⟩ | hresult
      · rw [hresult]
        cases hdrain : c.drainReady with
        | true => exact Or.inl ⟨by simp [Except.bind], hrunning, hgoes⟩
        | false => exact Or.inr (by simp [Except.bind, hgoes])
      · rw [hresult]
        exact Or.inr rfl
  · rw [hended hrunning]
    exact ⟨r, ⟨hr, List.prefix_refl _, fun h => absurd h hrunning, rfl⟩, Or.inr rfl⟩

/-- What a round leaves and the end of the tick after it together. -/
theorem Advanced.trans {c : DagConfig} {r mid next : DagRun ω} {status last : PatternStatus}
    (hmid : Advanced c r status mid) (hnext : Advanced c mid last next) :
    Advanced c r last next where
  started := hnext.started
  grows := hmid.grows.trans hnext.grows
  progress hrunning := (hmid.progress hrunning).trans_le hnext.grows.length_le
  status := hnext.status

/-- The rounds of a tick end, and the tick returns what the history says. -/
theorem rounds_advanced {c : DagConfig} (hp : p.config = c) (hc : c.Sorted) {r : DagRun ω}
    (hr : Started c r) : ∃ enough status next, Advanced c r status next ∧
      untilEnd p.roundStep enough (.running, r) = some (.ok (status, next)) := by
  let left : PatternStatus × DagRun ω → ℕ := fun s => c.nodes.length - s.2.ran.length
  let inv : PatternStatus × DagRun ω → Prop := fun s => s.1 = .running ∧ Started c s.2
  let ends : PatternStatus × DagRun ω → Except String (PatternStatus × DagRun ω) → Prop :=
    fun s out => ∃ status next, out = .ok (status, next) ∧ Advanced c s.2 status next
  have hstep : ∀ s, inv s →
      (∃ t, p.roundStep s = some (.inl t) ∧ inv t ∧ left t < left s ∧ ∀ out, ends t out → ends s out) ∨
        ∃ out, p.roundStep s = some (.inr out) ∧ ends s out := by
    intro s hs
    obtain ⟨status, s⟩ := s
    obtain ⟨rfl, hs⟩ : status = .running ∧ Started c s := hs
    obtain ⟨next, hadvanced, ⟨hround, hrunning, hgoes⟩ | hround⟩ := round_advanced hp hc hs
    · have hlonger := hadvanced.progress hrunning
      have hbound := hadvanced.started.scheduled.length_le
      refine Or.inl ⟨(.running, next), by rw [DagPattern.roundStep, hround], ⟨rfl, hadvanced.started⟩,
        Nat.sub_lt_sub_left (hlonger.trans_le hbound) hlonger, ?_⟩
      intro out hout
      obtain ⟨status, last, hout, hlast⟩ := hout
      exact ⟨status, last, hout, hadvanced.trans hlast⟩
    · exact Or.inr ⟨_, by rw [DagPattern.roundStep, hround], _, next, rfl, hadvanced⟩
  obtain ⟨enough, out, ⟨status, next, hout, hadvanced⟩, hend⟩ :=
    exists_untilEnd (InvImage.wf left Nat.lt_wfRel.wf) hstep (s := (.running, r)) ⟨rfl, hr⟩
  exact ⟨enough, status, next, hadvanced, by rw [hend, hout]⟩

end Rounds

section Ticks

variable {ω : Type} {p : DagPattern ω}

/-- A pattern that is to be ticked for the first time: nothing is run, and neither the state nor the
values to start from hold a document with nodes. -/
structure Fresh (p : DagPattern ω) (r : DagRun ω) : Prop where
  ran : r.ran = []
  state : p.document? (r.state.get dagKey) = none
  initial : p.document? (valueOf? dagKey p.config.initialState) = none

/-- The values to start from are stored for the keys that have none. -/
theorem get_foldl_set (k : String) (entries : List (String × Value)) (r : DagRun ω) :
    (entries.foldl (fun (r : DagRun ω) e => if (r.state.get e.1).isSome then r else r.set e.1 e.2)
      r).state.get k = (r.state.get k).or (valueOf? k entries) := by
  induction entries generalizing r with
  | nil => simp [valueOf?]
  | cons e entries ih =>
    rw [List.foldl_cons, ih, valueOf?_cons]
    by_cases hk : e.1 = k
    · subst hk
      cases hget : r.state.get e.1 with
      | none =>
        have hset : (r.set e.1 e.2).state.get e.1 = some e.2 := Dict.get?_set_self r.state.data _ _
        simp [hset]
      | some v => simp [hget]
    · rw [if_neg hk]
      split
      · rfl
      · rw [DagRun.get_set_of_ne r (Ne.symm hk)]

/-- Storing the values to start from is not noted in the history. -/
theorem ran_seedInitialState (r : DagRun ω) : (p.seedInitialState r).ran = r.ran := by
  have hfold : ∀ (entries : List (String × Value)) (r : DagRun ω),
      (entries.foldl (fun (r : DagRun ω) e => if (r.state.get e.1).isSome then r else r.set e.1 e.2)
        r).ran = r.ran := by
    intro entries
    induction entries with
    | nil => exact fun _ => rfl
    | cons e entries ih =>
      intro r
      rw [List.foldl_cons, ih]
      split <;> rfl
  rw [DagPattern.seedInitialState]
  split
  · rfl
  · exact hfold _ r

/-- A key that has a value keeps it. -/
theorem get_seedInitialState (r : DagRun ω) (k : String) :
    (p.seedInitialState r).state.get k = r.state.get k ∨ r.state.get k = none ∧
      (p.seedInitialState r).state.get k = valueOf? k p.config.initialState := by
  rw [DagPattern.seedInitialState]
  split
  · exact Or.inl rfl
  · have hfold := get_foldl_set k p.config.initialState r
    cases hget : r.state.get k with
    | none =>
      rw [hget] at hfold
      exact Or.inr ⟨rfl, by simpa using hfold⟩
    | some v =>
      rw [hget] at hfold
      exact Or.inl (by simpa using hfold)

/-- The document of a run before its first node says that nothing is run. -/
theorem newDag_described (hc : p.config.Sorted) : Described p.config [] p.newDag := by
  have hentries : ∀ nodes : List DagNodeSpec,
      DescribesNodes (nodes.map (·.id)) (nodeStatus []) (nodes.map fun n =>
        (n.id, .dict [("status", .str "pending"), ("output_key", .str (DagPattern.outputKey n))])) := by
    intro nodes
    induction nodes with
    | nil =>
      intro id hid
      cases hid
    | cons n nodes ih =>
      intro id hid
      rw [List.map_cons, valueOf?_cons]
      by_cases hn : n.id = id
      · rw [if_pos hn]
        exact ⟨_, rfl, rfl⟩
      · rw [if_neg hn]
        apply ih
        rcases List.mem_cons.mp hid with heq | hrest
        · exact absurd heq.symm hn
        · exact hrest
  have hrunning : outcome p.config.nodes [] = .running := by
    obtain ⟨n, hn⟩ := List.exists_mem_of_ne_nil _ hc.nonempty
    exact outcome_eq_running_iff.mpr ⟨by simp, n, hn, by simp⟩
  refine ⟨⟨_, rfl, hentries p.config.nodes⟩, ?_, ?_⟩
  · rw [hrunning]
    rfl
  · intro heq
    cases heq

/-- The document of a run that has started is found again. -/
theorem document?_eq_some {c : DagConfig} (hc : c.Sorted) {ran : List (String × Bool)}
    {dag : List (String × Value)} (h : Described c ran dag) :
    p.document? (some (.dict dag)) = some dag := by
  obtain ⟨nodes, hnodes, hsays⟩ := h.nodes
  obtain ⟨n, hn⟩ := List.exists_mem_of_ne_nil _ hc.nonempty
  obtain ⟨entry, hentry, -⟩ := hsays n.id (List.mem_map_of_mem hn)
  have hsome : nodes ≠ [] := by
    rintro rfl
    cases hentry
  simp [DagPattern.document?, Value.asDict, hnodes, truthy, hsome]

/-- A tick starts with the document of the history. -/
theorem ensureDagState_started (hc : p.config.Sorted) {r : DagRun ω}
    (h : Fresh p r ∨ Started p.config r) :
    Described p.config r.ran (p.ensureDagState (p.seedInitialState r)).1 ∧
      Started p.config (p.ensureDagState (p.seedInitialState r)).2 ∧
      (p.ensureDagState (p.seedInitialState r)).2.ran = r.ran := by
  have hran := ran_seedInitialState (p := p) r
  rcases h with hfresh | hstarted
  · have hnone : p.document? ((p.seedInitialState r).state.get dagKey) = none := by
      rcases get_seedInitialState (p := p) r dagKey with hsame | ⟨-, hinitial⟩
      · rw [hsame, hfresh.state]
      · rw [hinitial, hfresh.initial]
    have hnew := newDag_described hc
    have hnil : (p.seedInitialState r).ran = [] := by rw [hran, hfresh.ran]
    rw [DagPattern.ensureDagState, hnone]
    refine ⟨hfresh.ran ▸ hnew, started_setDag (hnil ▸ hnew) ?_, hran⟩
    rw [hnil]
    exact Scheduled.nil _
  · obtain ⟨dag, hdag, hdescribed⟩ := hstarted.document
    have hget : (p.seedInitialState r).state.get dagKey = some (.dict dag) := by
      rcases get_seedInitialState (p := p) r dagKey with hsame | ⟨hnone, -⟩
      · rw [hsame, hdag]
      · rw [hdag] at hnone
        cases hnone
    rw [DagPattern.ensureDagState, hget, document?_eq_some hc hdescribed]
    exact ⟨hdescribed, ⟨⟨dag, hget, by rwa [← hran] at hdescribed⟩, hran ▸ hstarted.scheduled⟩, hran⟩

/-- More rounds make no difference to a tick that has ended. -/
theorem tick_mono {r : DagRun ω} {n m : ℕ} (hnm : n ≤ m)
    {out : Except String (PatternStatus × DagRun ω)} (h : p.tick n r = some out) :
    p.tick m r = some out := by
  simp only [DagPattern.tick] at h ⊢
  split at h
  · next hsucceeded => rwa [if_pos hsucceeded]
  · next hsucceeded =>
    rw [if_neg hsucceeded]
    split at h
    · next hfailed => rwa [if_pos hfailed]
    · next hfailed =>
      rw [if_neg hfailed]
      exact untilEnd_mono hnm h

/-- Every tick ends, and returns what the history says. -/
theorem tick_advanced (hc : p.config.Sorted) {r : DagRun ω} (h : Fresh p r ∨ Started p.config r) :
    ∃ enough status next, Advanced p.config r status next ∧
      ∀ rounds ≥ enough, p.tick rounds r = some (.ok (status, next)) := by
  obtain ⟨hdescribed, hstarted, hran⟩ := ensureDagState_started hc h
  rcases outcome_cases p.config.nodes r.ran with hrunning | hended
  · obtain ⟨enough, status, next, hadvanced, hend⟩ := rounds_advanced rfl hc hstarted
    refine ⟨enough, status, next, ⟨hadvanced.started, hran ▸ hadvanced.grows, hran ▸ hadvanced.progress,
      hadvanced.status⟩, ?_⟩
    intro rounds hrounds
    rw [DagPattern.tick]
    simp only [hdescribed.dagStatus_eq, hrunning]
    exact untilEnd_mono hrounds hend
  · refine ⟨0, outcome p.config.nodes r.ran, (p.ensureDagState (p.seedInitialState r)).2,
      ⟨hstarted, hran ▸ List.prefix_refl _, ?_, by rw [hran]⟩, ?_⟩
    · intro hrunning
      rcases hended with hended | hended <;> rw [hended] at hrunning <;> cases hrunning
    · intro rounds _
      simp only [DagPattern.tick, hdescribed.dagStatus_eq]
      rcases hended with hended | hended <;> rw [hended] <;> rfl

/-- What the ticks of a fresh pattern have left: it is fresh, or it has started, has returned what
its history says, and has run a node in every tick as long as it went on. -/
theorem DagPattern.Driven.started (hc : p.config.Sorted) {start r : DagRun ω} (hfresh : Fresh p start)
    {statuses : List PatternStatus} (h : p.Driven start statuses r) :
    (statuses = [] ∧ Fresh p r) ∨ Started p.config r ∧
      (outcome p.config.nodes r.ran = .running → statuses.length ≤ r.ran.length) := by
  induction h with
  | start => exact Or.inl ⟨rfl, hfresh⟩
  | tick hbefore htick ih =>
    rename_i statuses r next status rounds
    have hr : Fresh p r ∨ Started p.config r := ih.imp And.right And.left
    obtain ⟨enough, status', next', hadvanced, hend⟩ := tick_advanced hc hr
    have hsame := (tick_mono (le_max_left rounds enough) htick).symm.trans
      (hend _ (le_max_right rounds enough))
    obtain ⟨rfl, rfl⟩ : status = status' ∧ next = next' := by simpa using hsame
    refine Or.inr ⟨hadvanced.started, ?_⟩
    intro hgoes
    have hrunning := outcome_running_of_prefix hadvanced.grows hgoes
    have hmore := hadvanced.progress hrunning
    have hcount : statuses.length ≤ r.ran.length := by
      rcases ih with ⟨hnil, -⟩ | ⟨-, hticks⟩
      · rw [hnil]
        exact Nat.zero_le _
      · exact hticks hrunning
    rw [List.length_append, List.length_singleton]
    omega

/-- If nothing has failed and there were as many ticks as nodes, then all nodes are run. -/
theorem Scheduled.perm_of_length_le {nodes : List DagNodeSpec} {ran : List (String × Bool)}
    (h : Scheduled nodes ran) (hnodup : (nodes.map (·.id)).Nodup) {ticks : ℕ}
    (hticks : outcome nodes ran = .running → ticks ≤ ran.length) (hlength : nodes.length ≤ ticks)
    (hfine : ∀ e ∈ ran, e.2 = true) : (ran.map Prod.fst).Perm (nodes.map (·.id)) := by
  have hsub := h.nodup.subperm h.known
  rcases outcome_cases nodes ran with hrunning | hfailed | hsucceeded
  · apply hsub.perm_of_length_le
    have hcount := hticks hrunning
    simp only [List.length_map]
    omega
  · obtain ⟨id, hid⟩ := outcome_eq_failure_iff.mp hfailed
    cases hfine _ hid
  · apply hsub.antisymm
    apply hnodup.subperm
    intro id hid
    obtain ⟨n, hn, rfl⟩ := List.mem_map.mp hid
    exact List.mem_map_of_mem (h.outcome_eq_success_iff.mp hsucceeded n hn)

end Ticks

end PalmEngine.Dag
