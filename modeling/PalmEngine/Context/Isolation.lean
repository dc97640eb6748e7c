import PalmEngine.Context.Engine
import PalmEngine.Lib.Runs

/-!
# Isolation of the jobs

What the calls of a slice make of the state of its job when they are made on this state alone, as
the helpers of the patterns do without an engine. Workers that share an engine are isolated when
the state of every job is what its own calls alone make of it. This holds as long as no slice finds
the frame of another job on the stack when it compares, enters or leaves a scope.
-/

namespace PalmEngine.Context

open PalmEngine.Lib
open PalmEngine.Orchestration (JobId)

namespace BlackboardState

/-- A state after a scope was entered on it, unless that raises. -/
def entered (s : BlackboardState) (name : String) : BlackboardState :=
  (s.enterScope name).toOption.getD s

/-- A state after its innermost scope was left, unless that raises. -/
def exited (s : BlackboardState) : BlackboardState := s.exitScope.toOption.getD s

end BlackboardState

/-- What a call makes of the state of its job alone, and of the scopes of the frames that its
slices have pushed. -/
def ContextCall.alone (own : BlackboardState × List Bool) : ContextCall → BlackboardState × List Bool
  | .bindState => own
  | .enter slug => if own.1.currentScope = some slug then own else (own.1.entered slug, own.2)
  | .leave slug => if own.1.currentScope = some slug then (own.1.exited, own.2) else own
  | .push name _ stateScope =>
    if stateScope then
      match own.1.enterScope name with
      | .error _ => own
      | .ok s => (s, true :: own.2)
    else (own.1, false :: own.2)
  | .pop => (if own.2.head? = some true then own.1.exited else own.1, own.2.tail)
  | .own f => (f own.1, own.2)

/-- What calls make of a state alone, one after the other. -/
def runAlone (s : BlackboardState) (calls : List ContextCall) : BlackboardState × List Bool :=
  calls.foldl ContextCall.alone (s, [])

/-- One more call. -/
theorem runAlone_concat (s : BlackboardState) (calls : List ContextCall) (call : ContextCall) :
    runAlone s (calls ++ [call]) = call.alone (runAlone s calls) := by
  rw [runAlone, List.foldl_append]
  rfl

namespace Runtime

/-- Every job's state is what the calls of its own slices have made of it. -/
def Isolated (begun : JobId → BlackboardState) (r : Runtime) : Prop :=
  ∀ j, r.shared.states j = (runAlone (begun j) (r.workers j).done).1

/-- A turn changes no state but that of its own job. -/
def ChangesOwn (r : Runtime) (turn : Turn) (r' : Runtime) : Prop :=
  ∀ k, k ≠ turn.job → r'.shared.states k = r.shared.states k

/-- In a run every turn changes the state of its own job only, and in every state reached the
scopes entered and left are those that the own calls of each job enter and leave. -/
def IsolatesJobs (r : Runtime) (turns : List Turn) : Prop :=
  AllSteps step ChangesOwn r turns ∧
    ∀ r', runSteps step r turns = some r' → Isolated r.shared.states r'

/-- What a turn of a call asks of the stack: a comparison gives the answer that the state of the
job gives, a scope is entered or left on this state, and a pop leaves a scope exactly if the last
frame that the slices of the job have pushed entered one. -/
def CallOnOwn (r : Runtime) (j : JobId) : ContextCall → Stage → Prop
  | .enter slug, .comparing =>
    r.shared.currentStateScope = some slug ↔ (r.shared.states j).currentScope = some slug
  | .enter _, .acting => r.shared.currentState = some j
  | .leave slug, .ready =>
    r.shared.currentStateScope = some slug ↔ (r.shared.states j).currentScope = some slug
  | .leave _, .acting => r.shared.currentState = some j
  | .push _ bound stateScope, .ready =>
    stateScope = true → bound = false → r.shared.currentState = some j
  | .pop, .ready =>
    r.shared.popExits = if (r.workers j).pushed.head? = some true then some j else none
  | _, _ => True

/-- Whether a turn finds the state of its own job is decided on the stack. -/
instance (r : Runtime) (j : JobId) : ∀ call stage, Decidable (CallOnOwn r j call stage)
  | .enter _, .comparing | .leave _, .ready => inferInstanceAs (Decidable (_ ↔ _))
  | .enter _, .acting | .leave _, .acting => inferInstanceAs (Decidable (_ = _))
  | .push _ _ _, .ready => inferInstanceAs (Decidable (_ → _ → _))
  | .pop, .ready => inferInstanceAs (Decidable (_ = _))
  | .bindState, _ | .own _, _ | .enter _, .ready | .enter _, .binding | .leave _, .binding
  | .leave _, .comparing | .push _ _ _, .binding | .push _ _ _, .comparing | .push _ _ _, .acting
  | .pop, .binding | .pop, .comparing | .pop, .acting => inferInstanceAs (Decidable True)

/-- The worker that takes its turn finds the state of its own job where its call asks for it. -/
def ActsOnOwn (r : Runtime) (turn : Turn) (_ : Runtime) : Prop :=
  match turn with
  | .submit _ => True
  | .slice j => ∀ call ∈ (r.workers j).todo.head?, CallOnOwn r j call (r.workers j).stage

/-- The condition is decided for each turn. -/
instance (r : Runtime) : ∀ turn r', Decidable (ActsOnOwn r turn r')
  | .submit _, _ => inferInstanceAs (Decidable True)
  | .slice j, _ =>
    inferInstanceAs (Decidable (∀ call ∈ (r.workers j).todo.head?, CallOnOwn r j call _))

/-! ## What the calls do -/

end Runtime

namespace SharedContext

variable {c : SharedContext} {j : JobId}

/-- A change that raises leaves everything as it is. -/
theorem onState_error {op : BlackboardState → Except String BlackboardState} {text : String}
    (h : op (c.states j) = .error text) : c.onState j op = (c, some text) := by
  simp [onState, h]

/-- A change that does not raise is stored. -/
theorem onState_ok {op : BlackboardState → Except String BlackboardState} {s : BlackboardState}
    (h : op (c.states j) = .ok s) : c.onState j op = (c.setState j s, none) := by
  simp [onState, h]

/-- A change of the state of a job gives it what the change gives, and the other states stay. -/
theorem onState_states (op : BlackboardState → Except String BlackboardState) :
    (c.onState j op).1.states =
      Function.update c.states j ((op (c.states j)).toOption.getD (c.states j)) := by
  cases hop : op (c.states j) with
  | error text => simp [onState_error hop, Except.toOption]
  | ok s => simp [onState_ok hop, Except.toOption, setState]

/-- A scope is entered on the state of a job that is bound. -/
theorem enterStateScope_states (h : c.currentState = some j) (slug : String) :
    (c.enterStateScope slug).1.states = Function.update c.states j ((c.states j).entered slug) := by
  unfold enterStateScope
  rw [h]
  exact onState_states _

/-- A scope is left on the state of a job that is bound. -/
theorem exitStateScope_states (h : c.currentState = some j) :
    c.exitStateScope.1.states = Function.update c.states j (c.states j).exited := by
  unfold exitStateScope
  rw [h]
  exact onState_states _

/-- A frame without a scope changes no state. -/
theorem push_unscoped (name : String) (state : Option JobId) :
    (c.push name state false).1.states = c.states ∧ (c.push name state false).2 = none :=
  ⟨rfl, rfl⟩

/-- A frame with a scope enters it on the state it is bound to, or raises. -/
theorem push_scoped {state : Option JobId} (h : state.or c.currentState = some j) (name : String) :
    (c.push name state true).1.states = Function.update c.states j ((c.states j).entered name) ∧
      ((c.push name state true).2 = none ↔ ∃ s, (c.states j).enterScope name = .ok s) := by
  unfold push BlackboardState.entered
  rw [h, if_pos rfl]
  cases hop : (c.states j).enterScope name with
  | error text =>
    have hraised : (c.onState j fun s => s.enterScope name) = (c, some text) := onState_error hop
    simp [hraised, Except.toOption]
  | ok s =>
    have hentered : (c.onState j fun s => s.enterScope name) = (c.setState j s, none) :=
      onState_ok hop
    simp [hentered, Except.toOption, append, setState]

/-- A pop leaves a scope on the state it finds under the frame of a scope. -/
theorem pop_states_exits (h : c.popExits = some j) :
    c.pop.1.states = Function.update c.states j (c.states j).exited := by
  unfold popExits at h
  unfold pop currentState
  split at h
  · next hscope =>
    cases hbelow : c.engine.below with
    | nil => simp [hbelow] at h
    | cons next rest =>
      have hnext : next.state = some j := by simpa [hbelow] using h
      simp only [hscope, hnext, if_true]
      exact onState_states (c := { c with engine := ⟨next, rest⟩ }) _
  · cases h

/-- A pop of a frame without a scope, or above a frame without a state, changes no state. -/
theorem pop_states_none (h : c.popExits = none) : c.pop.1.states = c.states := by
  unfold popExits at h
  unfold pop currentState
  cases hbelow : c.engine.below with
  | nil => rfl
  | cons next rest =>
    split at h
    · next hscope =>
      have hnext : next.state = none := by simpa [hbelow] using h
      simp only [hscope, hnext, if_true]
    · next hscope => simp only [if_neg hscope]

end SharedContext

namespace Runtime

variable {begun : JobId → BlackboardState} {r r' : Runtime} {j : JobId} {turn : Turn}

/-! ## The invariant -/

/-- Every state is what the own calls have made of it, and a call that is about to change the
scopes has found the scope of its own job. -/
structure Sound (begun : JobId → BlackboardState) (r : Runtime) : Prop where
  /-- States and frames are those of the calls that have ended. -/
  own : ∀ j, runAlone (begun j) (r.workers j).done = (r.shared.states j, (r.workers j).pushed)
  /-- A scope that is about to be entered is not the innermost one. -/
  entering : ∀ j slug rest, (r.workers j).todo = .enter slug :: rest →
    (r.workers j).stage = .acting → (r.shared.states j).currentScope ≠ some slug
  /-- A scope that is about to be left is the innermost one. -/
  leaving : ∀ j slug rest, (r.workers j).todo = .leave slug :: rest →
    (r.workers j).stage = .acting → (r.shared.states j).currentScope = some slug

namespace Sound

/-- A turn that changes no state keeps the invariant, if the stage it goes to is right. -/
theorem goto (h : Sound begun r) {shared : SharedContext} {stage : Stage}
    (hstates : shared.states = r.shared.states)
    (hentering : stage = .acting → ∀ slug rest, (r.workers j).todo = .enter slug :: rest →
      (r.shared.states j).currentScope ≠ some slug)
    (hleaving : stage = .acting → ∀ slug rest, (r.workers j).todo = .leave slug :: rest →
      (r.shared.states j).currentScope = some slug) :
    Sound begun (r.goto j shared stage) where
  own k := by
    by_cases hk : k = j
    · subst hk
      simpa [Runtime.goto, hstates] using h.own k
    · simpa [Runtime.goto, hstates, hk] using h.own k
  entering k slug rest htodo hstage := by
    by_cases hk : k = j
    · subst hk
      simp only [Runtime.goto, Function.update_self] at htodo hstage
      simpa [Runtime.goto, hstates] using hentering hstage slug rest htodo
    · simp only [Runtime.goto, Function.update_of_ne hk] at htodo hstage
      simpa [Runtime.goto, hstates] using h.entering k slug rest htodo hstage
  leaving k slug rest htodo hstage := by
    by_cases hk : k = j
    · subst hk
      simp only [Runtime.goto, Function.update_self] at htodo hstage
      simpa [Runtime.goto, hstates] using hleaving hstage slug rest htodo
    · simp only [Runtime.goto, Function.update_of_ne hk] at htodo hstage
      simpa [Runtime.goto, hstates] using h.leaving k slug rest htodo hstage

/-- A call that ends having done on the state of its job what it does on it alone keeps the
invariant. -/
theorem ends (h : Sound begun r) {call : ContextCall} {rest : List ContextCall}
    {outcome : SharedContext × Option String} {s : BlackboardState} {pushed : List Bool}
    (hstates : outcome.1.states = Function.update r.shared.states j s)
    (halone : call.alone (r.shared.states j, (r.workers j).pushed) = (s, pushed)) :
    Sound begun (r.ends j call rest outcome pushed) where
  own k := by
    by_cases hk : k = j
    · subst hk
      simp only [Runtime.ends, Function.update_self, hstates]
      rw [runAlone_concat, h.own k, halone]
    · simpa [Runtime.ends, hstates, hk] using h.own k
  entering k slug rest htodo hstage := by
    by_cases hk : k = j
    · subst hk
      simp [Runtime.ends] at hstage
    · simp only [Runtime.ends, Function.update_of_ne hk, hstates] at htodo hstage ⊢
      exact h.entering k slug rest htodo hstage
  leaving k slug rest htodo hstage := by
    by_cases hk : k = j
    · subst hk
      simp [Runtime.ends] at hstage
    · simp only [Runtime.ends, Function.update_of_ne hk, hstates] at htodo hstage ⊢
      exact h.leaving k slug rest htodo hstage

/-- A call that ends without a change of a state keeps the invariant if it does nothing alone. -/
theorem ends_same (h : Sound begun r) {call : ContextCall} {rest : List ContextCall}
    {outcome : SharedContext × Option String} {pushed : List Bool}
    (hstates : outcome.1.states = r.shared.states)
    (halone : call.alone (r.shared.states j, (r.workers j).pushed) = (r.shared.states j, pushed)) :
    Sound begun (r.ends j call rest outcome pushed) :=
  h.ends (by rw [hstates, Function.update_eq_self]) halone

/-- Entering the scope of a branch or step, on the state of the own job. -/
theorem enter (h : Sound begun r) {slug : String} {rest : List ContextCall}
    (htodo : (r.workers j).todo = .enter slug :: rest)
    (hok : CallOnOwn r j (.enter slug) (r.workers j).stage)
    (hturn : r.callTurn j (.enter slug) rest (r.workers j).stage = some r') : Sound begun r' := by
  cases hstage : (r.workers j).stage with
  | ready =>
    rw [hstage] at hturn
    obtain rfl := Option.some.inj hturn
    refine h.goto rfl ?_ ?_ <;> intro hacting <;> split at hacting <;> cases hacting
  | binding =>
    rw [hstage] at hturn
    obtain rfl := Option.some.inj hturn
    exact h.goto rfl (fun hacting => by cases hacting) (fun hacting => by cases hacting)
  | comparing =>
    rw [hstage] at hturn hok
    have hcompare : r.shared.currentStateScope = some slug ↔
        (r.shared.states j).currentScope = some slug := hok
    obtain rfl := Option.some.inj hturn
    split
    · next hsame =>
      have hinner : (r.shared.states j).currentScope = some slug := hcompare.mp hsame
      exact h.ends_same rfl (by simp [ContextCall.alone, hinner])
    · next hother =>
      refine h.goto rfl (fun _ slug' rest' htodo' => ?_) (fun _ slug' rest' htodo' => ?_)
      · cases htodo.symm.trans htodo'
        exact fun hinner => hother (hcompare.mpr hinner)
      · cases htodo.symm.trans htodo'
  | acting =>
    rw [hstage] at hturn hok
    have hown : r.shared.currentState = some j := hok
    have hinner := h.entering j slug rest htodo hstage
    obtain rfl := Option.some.inj hturn
    exact h.ends (SharedContext.enterStateScope_states hown slug)
      (by simp [ContextCall.alone, hinner])

/-- Leaving the scope of a branch or step, on the state of the own job. -/
theorem leave (h : Sound begun r) {slug : String} {rest : List ContextCall}
    (htodo : (r.workers j).todo = .leave slug :: rest)
    (hok : CallOnOwn r j (.leave slug) (r.workers j).stage)
    (hturn : r.callTurn j (.leave slug) rest (r.workers j).stage = some r') : Sound begun r' := by
  cases hstage : (r.workers j).stage with
  | ready =>
    rw [hstage] at hturn hok
    have hcompare : r.shared.currentStateScope = some slug ↔
        (r.shared.states j).currentScope = some slug := hok
    obtain rfl := Option.some.inj hturn
    split
    · next hsame =>
      refine h.goto rfl (fun _ slug' rest' htodo' => ?_) (fun _ slug' rest' htodo' => ?_)
      · cases htodo.symm.trans htodo'
      · cases htodo.symm.trans htodo'
        exact hcompare.mp hsame
    · next hother =>
      have hinner : (r.shared.states j).currentScope ≠ some slug :=
        fun hinner => hother (hcompare.mpr hinner)
      exact h.ends_same rfl (by simp [ContextCall.alone, hinner])
  | binding =>
    rw [hstage] at hturn
    cases hturn
  | comparing =>
    rw [hstage] at hturn
    cases hturn
  | acting =>
    rw [hstage] at hturn hok
    have hown : r.shared.currentState = some j := hok
    have hinner := h.leaving j slug rest htodo hstage
    obtain rfl := Option.some.inj hturn
    exact h.ends (SharedContext.exitStateScope_states hown) (by simp [ContextCall.alone, hinner])

/-- Pushing a frame, with a scope on the state of the own job or without one. -/
theorem push (h : Sound begun r) {name : String} {bound stateScope : Bool} {rest : List ContextCall}
    (hown : stateScope = true → bound = false → r.shared.currentState = some j)
    (hturn : r.callTurn j (.push name bound stateScope) rest .ready = some r') :
    Sound begun r' := by
  obtain rfl := Option.some.inj hturn
  cases stateScope with
  | false =>
    exact h.ends_same rfl rfl
  | true =>
    have htarget : (if bound = true then some j else none).or r.shared.currentState = some j := by
      cases bound with
      | false => simpa using hown rfl rfl
      | true => rfl
    obtain ⟨hstates, hraised⟩ := SharedContext.push_scoped htarget name
    refine h.ends hstates ?_
    cases hop : (r.shared.states j).enterScope name with
    | error text =>
      have hnone : ¬ (r.shared.push name (if bound = true then some j else none) true).2 = none :=
        fun hnone => by
          obtain ⟨s, hs⟩ := hraised.mp hnone
          cases hop.symm.trans hs
      simp [ContextCall.alone, hop, BlackboardState.entered, Except.toOption, hnone]
    | ok s =>
      have hnone := hraised.mpr ⟨s, hop⟩
      simp [ContextCall.alone, hop, BlackboardState.entered, Except.toOption, hnone]

/-- Popping a frame, with the scope of the last frame that the own slices have pushed. -/
theorem pop (h : Sound begun r) {rest : List ContextCall}
    (hown : r.shared.popExits = if (r.workers j).pushed.head? = some true then some j else none)
    (hturn : r.callTurn j .pop rest .ready = some r') : Sound begun r' := by
  obtain rfl := Option.some.inj hturn
  by_cases hscope : (r.workers j).pushed.head? = some true
  · rw [if_pos hscope] at hown
    exact h.ends (SharedContext.pop_states_exits hown) (by simp [ContextCall.alone, hscope])
  · rw [if_neg hscope] at hown
    exact h.ends_same (SharedContext.pop_states_none hown) (by simp [ContextCall.alone, hscope])

/-- A turn of a call on the state of the own job keeps the invariant. -/
theorem callTurn (h : Sound begun r) {call : ContextCall} {rest : List ContextCall}
    (htodo : (r.workers j).todo = call :: rest)
    (hok : CallOnOwn r j call (r.workers j).stage)
    (hturn : r.callTurn j call rest (r.workers j).stage = some r') : Sound begun r' := by
  cases call with
  | enter slug => exact h.enter htodo hok hturn
  | leave slug => exact h.leave htodo hok hturn
  | bindState =>
    cases hstage : (r.workers j).stage with
    | ready =>
      rw [hstage] at hturn
      obtain rfl := Option.some.inj hturn
      split
      · exact h.ends_same rfl rfl
      · exact h.goto rfl (fun hacting => by cases hacting) (fun hacting => by cases hacting)
    | binding =>
      rw [hstage] at hturn
      obtain rfl := Option.some.inj hturn
      exact h.ends_same rfl rfl
    | comparing | acting =>
      rw [hstage] at hturn
      cases hturn
  | push name bound stateScope =>
    cases hstage : (r.workers j).stage with
    | ready =>
      rw [hstage] at hturn hok
      exact h.push hok hturn
    | binding | comparing | acting =>
      rw [hstage] at hturn
      cases hturn
  | pop =>
    cases hstage : (r.workers j).stage with
    | ready =>
      rw [hstage] at hturn hok
      exact h.pop hok hturn
    | binding | comparing | acting =>
      rw [hstage] at hturn
      cases hturn
  | own f =>
    cases hstage : (r.workers j).stage with
    | ready =>
      rw [hstage] at hturn
      obtain rfl := Option.some.inj hturn
      exact h.ends rfl rfl
    | binding | comparing | acting =>
      rw [hstage] at hturn
      cases hturn

end Sound

/-- The submission of a job changes no state and no worker. -/
theorem Sound.submit (h : Sound begun r) (hstep : r.step (.submit j) = some r') :
    Sound begun r' := by
  obtain rfl := Option.some.inj hstep
  exact ⟨h.own, h.entering, h.leaving⟩

/-- A turn that finds the state of its own job keeps the invariant. -/
theorem Sound.step (h : Sound begun r) (hstep : r.step turn = some r')
    (hok : ActsOnOwn r turn r') : Sound begun r' := by
  cases turn with
  | submit j => exact h.submit hstep
  | slice j =>
    simp only [Runtime.step] at hstep
    split at hstep
    · cases hstep
    · next call rest htodo =>
      have hown : CallOnOwn r j call (r.workers j).stage := hok call (by simp [htodo])
      exact h.callTurn htodo hown hstep

/-- Before the first slice nothing has happened. -/
theorem sound_start (shared : SharedContext) (todo : JobId → List ContextCall) :
    Sound shared.states (start shared todo) where
  own _ := rfl
  entering _ _ _ _ hstage := by cases hstage
  leaving _ _ _ _ hstage := by cases hstage

/-- A turn of a call changes the worker of its job only. -/
theorem callTurn_workers {call : ContextCall} {rest : List ContextCall} {stage : Stage}
    (hturn : r.callTurn j call rest stage = some r') {k : JobId} (hk : k ≠ j) :
    r'.workers k = r.workers k := by
  unfold callTurn at hturn
  cases call <;> cases stage <;> simp only [Option.some.injEq, reduceCtorEq] at hturn <;>
    subst hturn <;> (try split) <;> simp [goto, ends, hk]

/-- A turn changes the worker of its job only. -/
theorem step_workers (hstep : r.step turn = some r') {k : JobId} (hk : k ≠ turn.job) :
    r'.workers k = r.workers k := by
  cases turn with
  | submit j => exact Option.some.inj hstep ▸ rfl
  | slice j =>
    simp only [step] at hstep
    split at hstep
    · cases hstep
    · exact callTurn_workers hstep hk

/-- Where states are what the own calls have made of them, a turn changes the state of its own job
only. -/
theorem Sound.changesOwn (h : Sound begun r) (h' : Sound begun r')
    (hstep : r.step turn = some r') : ChangesOwn r turn r' := by
  intro k hk
  have hbefore := h.own k
  have hafter := h'.own k
  rw [step_workers hstep hk] at hafter
  exact congrArg Prod.fst (hafter.symm.trans hbefore)

/-! ## Runs -/

/-- Whatever stack and states the workers begin with and whatever their slices call, in any order
of their turns: if every turn finds the state of its own job where its call asks the stack for a
state, the jobs are isolated. -/
theorem isolatesJobs_run (shared : SharedContext) (todo : JobId → List ContextCall)
    (turns : List Turn) (hok : AllSteps step ActsOnOwn (start shared todo) turns) :
    IsolatesJobs (start shared todo) turns := by
  have hsound := sound_start shared todo
  constructor
  · refine AllSteps.imp (Sound shared.states) (fun r turn r' h hstep hown => ?_) hsound hok
    have h' := h.step hstep hown
    exact ⟨h.changesOwn h' hstep, h'⟩
  · intro r' hrun j
    have h' : Sound shared.states r' :=
      invariant_of_allSteps (fun r turn r' h hstep hown => h.step hstep hown) hsound hok hrun
    exact (congrArg Prod.fst (h'.own j)).symm

/-- Two jobs without a scope, and the calls of a slice for each. -/
def twoSlices : Runtime :=
  start ⟨{}, fun _ => {}⟩ fun j =>
    if j = "a" then [.bindState, .enter "x", .push "y" true true, .pop, .leave "x"]
    else if j = "b" then [.enter "x", .leave "x"] else []

/-- The second worker drives its job after the first has driven its own. -/
def oneAfterTheOther : List Turn :=
  [.submit "a", .submit "b"] ++ List.replicate 9 (.slice "a") ++ List.replicate 6 (.slice "b")

/-- Slices one after the other are isolated, and run to their ends. -/
theorem isolatesJobs_run_sequence :
    IsolatesJobs twoSlices oneAfterTheOther ∧
      (runSteps step twoSlices oneAfterTheOther).isSome = true :=
  ⟨isolatesJobs_run _ _ _ (by decide +kernel), by decide +kernel⟩

/-- The second worker binds the state of its job after the first has compared the scopes, and the
first enters its scope there. -/
def boundBetween : List Turn :=
  [.submit "a", .submit "b", .slice "a", .slice "a", .slice "a", .slice "a", .slice "b", .slice "b",
    .slice "a"]

/-- A slice enters the scope of its step on the state of another job. -/
theorem isolatesJobs_run_fails : ¬ IsolatesJobs twoSlices boundBetween := by
  intro h
  have hscopes : (runSteps step twoSlices boundBetween).any (fun r => decide
      ((r.shared.states "b").scopeStack ≠
        (runAlone (twoSlices.shared.states "b") (r.workers "b").done).1.scopeStack)) = true := by
    decide +kernel
  obtain ⟨r, hrun, hdiffer⟩ := (Option.any_eq_true _ _).mp hscopes
  exact of_decide_eq_true hdiffer (congrArg BlackboardState.scopeStack (h.2 r hrun "b"))

end Runtime

end PalmEngine.Context
