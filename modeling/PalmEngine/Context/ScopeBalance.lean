import PalmEngine.Context.Isolation
import PalmEngine.Lib.Runs

/-!
# Pushed scopes and the states they are popped from

A frame that is pushed with a scope enters it on the state that it is given, or else on the one
that is bound to the frame below. The pop of the frame leaves a scope on the state that is bound
to the frame below, whatever state the frame was given. The two are the same state exactly when
the frame below is bound to the state on which the scope was entered.

A run pushes, pops and binds in any order; a context manager is a push and the pop that ends it,
also when an exception leaves it.
-/

namespace PalmEngine.Context

open PalmEngine.Lib
open PalmEngine.Orchestration (JobId)

/-- What is called on the engine. -/
inductive StackCall where
  | push (name : String) (state : Option JobId) (stateScope : Bool)
  | pop
  | bindState (j : JobId)
  deriving DecidableEq

/-- The engine with its states and, as a history, for each frame above the root from the innermost
on the state on which a scope was entered for it and the scopes that this state had before. -/
structure ScopeRun where
  shared : SharedContext
  entered : List (Option (JobId × List String)) := []

namespace ScopeRun

/-- A new engine, with or without a state on its root frame. -/
def start (root : Option JobId) (states : JobId → BlackboardState) : ScopeRun :=
  { shared := ⟨⟨{ name := "root", state := root }, []⟩, states⟩ }

/-- What a push notes. -/
def note (c : SharedContext) (state : Option JobId) (stateScope : Bool) :
    Option (JobId × List String) :=
  if stateScope then (state.or c.currentState).map fun j => (j, (c.states j).scopeStack) else none

/-- A call; one that raises is noted nowhere, except that a pop takes its frame. -/
def step (r : ScopeRun) : StackCall → Option ScopeRun
  | .push name state stateScope =>
    let outcome := r.shared.push name state stateScope
    some ⟨outcome.1,
      if outcome.2.isNone then note r.shared state stateScope :: r.entered else r.entered⟩
  | .pop => some ⟨r.shared.pop.1, r.entered.tail⟩
  | .bindState j => some { r with shared := r.shared.bindState j }

/-- The scope that was entered for the last frame: its state, and the scopes before. -/
def lastEntered (r : ScopeRun) : Option (JobId × List String) := r.entered.head?.join

/-- A pop gives the state on which the scope was entered the scopes that it had before the push,
and leaves those of all other states; a pop of a frame without a scope leaves them all. -/
def Restores (r : ScopeRun) (call : StackCall) (r' : ScopeRun) : Prop :=
  call = .pop →
    (∀ entry ∈ r.lastEntered, (r'.shared.states entry.1).scopeStack = entry.2) ∧
      ∀ i, (∀ entry ∈ r.lastEntered, i ≠ entry.1) →
        (r'.shared.states i).scopeStack = (r.shared.states i).scopeStack

/-- The frame below the one that is popped is bound to the state on which the scope was entered. -/
def PopsOwn (r : ScopeRun) (call : StackCall) (_ : ScopeRun) : Prop :=
  call = .pop → ∀ entry ∈ r.lastEntered,
    (r.shared.engine.below.head?.bind Frame.state) = some entry.1

instance (r : ScopeRun) (call : StackCall) (r' : ScopeRun) : Decidable (PopsOwn r call r') :=
  inferInstanceAs (Decidable (_ → _))

/-- Each state has the scopes it had before the entries, and on top of them one for each entry. -/
def Nested : (JobId → List String) → List (Option (JobId × List String)) → Prop
  | _, [] => True
  | scopes, none :: rest => Nested scopes rest
  | scopes, some (j, before) :: rest =>
    (∃ name, scopes j = before ++ [name]) ∧ Nested (Function.update scopes j before) rest

/-- The scopes of all states. -/
def scopes (r : ScopeRun) : JobId → List String := fun j => (r.shared.states j).scopeStack

/-- The history fits the frames, and the scopes are those that were entered and not left. -/
structure Sound (r : ScopeRun) : Prop where
  frames : (r.shared.engine.current :: r.shared.engine.below).map Frame.stateScope =
    r.entered.map Option.isSome ++ [false]
  nested : Nested r.scopes r.entered

variable {r r' : ScopeRun}

/-- Changing one state changes its scopes only. -/
theorem scopes_update (states : JobId → BlackboardState) (j : JobId) (s : BlackboardState) :
    (fun i => (Function.update states j s i).scopeStack) =
      Function.update (fun i => (states i).scopeStack) j s.scopeStack := by
  funext i
  by_cases hi : i = j
  · subst hi
    simp
  · simp [hi]

/-- The frame of an entry has a scope, and the frame of no entry has none. -/
theorem Sound.stateScope (h : r.Sound) :
    r.shared.engine.current.stateScope = r.lastEntered.isSome := by
  have hframes := h.frames
  cases hentered : r.entered with
  | nil =>
    rw [hentered] at hframes
    simpa [lastEntered, hentered] using (List.cons.inj hframes).1
  | cons entry rest =>
    rw [hentered] at hframes
    simpa [lastEntered, hentered] using (List.cons.inj hframes).1

/-- A push without a scope is noted as one. -/
theorem Sound.push_unscoped (h : r.Sound) (name : String) (state : Option JobId) :
    (⟨r.shared.append ⟨name, state, false⟩, none :: r.entered⟩ : ScopeRun).Sound where
  frames := by
    simpa [SharedContext.append] using h.frames
  nested := h.nested

/-- A push with a scope puts it on top of those that the state has. -/
theorem Sound.push_scoped (h : r.Sound) (name : String) (j : JobId) :
    (⟨(r.shared.setState j { r.shared.states j with
        scopeStack := (r.shared.states j).scopeStack ++ [name] }).append ⟨name, some j, true⟩,
      some (j, (r.shared.states j).scopeStack) :: r.entered⟩ : ScopeRun).Sound where
  frames := by
    simpa [SharedContext.append, SharedContext.setState] using h.frames
  nested := by
    have hscopes : (fun i => (Function.update r.shared.states j { r.shared.states j with
        scopeStack := (r.shared.states j).scopeStack ++ [name] } i).scopeStack) =
          Function.update r.scopes j ((r.shared.states j).scopeStack ++ [name]) :=
      scopes_update _ _ _
    change Nested (fun i => (Function.update r.shared.states j { r.shared.states j with
      scopeStack := (r.shared.states j).scopeStack ++ [name] } i).scopeStack) _
    rw [hscopes]
    refine ⟨⟨name, by simp⟩, ?_⟩
    have hback : Function.update (Function.update r.scopes j
        ((r.shared.states j).scopeStack ++ [name])) j (r.shared.states j).scopeStack = r.scopes := by
      rw [Function.update_idem]
      exact Function.update_eq_self j r.scopes
    rw [hback]
    exact h.nested

/-- A push that is not refused is one of these. -/
theorem push_cases (c : SharedContext) (name : String) (state : Option JobId)
    (stateScope : Bool) :
    (∃ text, c.push name state stateScope = (c, some text)) ∨
      (stateScope = false ∧
        c.push name state stateScope = (c.append ⟨name, state, false⟩, none)) ∨
      ∃ j, stateScope = true ∧ state.or c.currentState = some j ∧
        c.push name state stateScope = ((c.setState j { c.states j with
          scopeStack := (c.states j).scopeStack ++ [name] }).append ⟨name, some j, true⟩, none) := by
  cases stateScope with
  | false => exact .inr (.inl ⟨rfl, rfl⟩)
  | true =>
    unfold SharedContext.push
    rw [if_pos rfl]
    cases htarget : state.or c.currentState with
    | none => exact .inl ⟨_, rfl⟩
    | some j =>
      by_cases hname : name = ""
      · have hop : (c.states j).enterScope name =
            .error "State scope name cannot be empty" := by
          simp [BlackboardState.enterScope, hname]
        have hraised : (c.onState j fun s => s.enterScope name) = (c, some _) :=
          SharedContext.onState_error hop
        exact .inl ⟨"State scope name cannot be empty", by simp only [hraised]⟩
      · have hop : (c.states j).enterScope name = .ok { c.states j with
            scopeStack := (c.states j).scopeStack ++ [name] } := by
          simp [BlackboardState.enterScope, hname]
        have hentered : (c.onState j fun s => s.enterScope name) = (c.setState j _, none) :=
          SharedContext.onState_ok hop
        exact .inr (.inr ⟨j, rfl, rfl, by simp only [hentered]⟩)

/-- A push keeps the balance. -/
theorem Sound.push (h : r.Sound) {name : String} {state : Option JobId} {stateScope : Bool}
    (hstep : r.step (.push name state stateScope) = some r') : r'.Sound := by
  obtain rfl := Option.some.inj hstep
  rcases push_cases r.shared name state stateScope with
    ⟨text, hpush⟩ | ⟨rfl, hpush⟩ | ⟨j, rfl, htarget, hpush⟩
  · rw [hpush]
    exact h
  · rw [hpush]
    exact h.push_unscoped name state
  · rw [hpush]
    have hnote : note r.shared state true = some (j, (r.shared.states j).scopeStack) := by
      simp [note, htarget]
    simp only [Option.isNone_none, if_true, hnote]
    exact h.push_scoped name j

/-- Binding a state changes no scope. -/
theorem Sound.bindState (h : r.Sound) (j : JobId) :
    ({ r with shared := r.shared.bindState j } : ScopeRun).Sound :=
  ⟨by simpa [SharedContext.bindState] using h.frames, h.nested⟩

/-- A pop takes the last frame, or finds the root. -/
theorem pop_engine (c : SharedContext) :
    (c.engine.below = [] ∧ c.pop.1.engine = c.engine) ∨
      ∃ next rest, c.engine.below = next :: rest ∧ c.pop.1.engine = ⟨next, rest⟩ := by
  cases hbelow : c.engine.below with
  | nil =>
    have hpop : c.pop = (c, some "Cannot pop the root context frame") := by
      simp [SharedContext.pop, hbelow]
    exact .inl ⟨rfl, by rw [hpop]⟩
  | cons next rest =>
    refine .inr ⟨next, rest, rfl, ?_⟩
    simp only [SharedContext.pop, hbelow]
    split
    · split
      · rfl
      · simp only [SharedContext.onState]
        split <;> rfl
    · rfl

/-- The state of the last entry has one more scope than before. -/
theorem Sound.scopes_entry (h : r.Sound) {entry : JobId × List String}
    (hentry : r.lastEntered = some entry) : ∃ name, r.scopes entry.1 = entry.2 ++ [name] := by
  have hnested := h.nested
  cases hentered : r.entered with
  | nil => simp [lastEntered, hentered] at hentry
  | cons first rest =>
    obtain rfl : first = some entry := by simpa [lastEntered, hentered] using hentry
    rw [hentered] at hnested
    exact hnested.1

/-- The pop of an entry whose state is bound to the frame below gives that state the scopes it had
before, and changes no other state. -/
theorem pop_scopes_own (h : r.Sound) {entry : JobId × List String}
    (hentry : r.lastEntered = some entry)
    (hbound : r.shared.engine.below.head?.bind Frame.state = some entry.1) :
    (fun i => (r.shared.pop.1.states i).scopeStack) = Function.update r.scopes entry.1 entry.2 := by
  have hexits : r.shared.popExits = some entry.1 := by
    rw [SharedContext.popExits, h.stateScope, hentry]
    exact hbound
  obtain ⟨name, hname⟩ := h.scopes_entry hentry
  have hexited : (r.shared.states entry.1).exited.scopeStack = entry.2 := by
    have hstack : (r.shared.states entry.1).scopeStack = entry.2 ++ [name] := hname
    simp [BlackboardState.exited, BlackboardState.exitScope, hstack, Except.toOption]
  rw [SharedContext.pop_states_exits hexits, scopes_update, hexited]
  rfl

/-- The pop of an entry whose state is not bound to the frame below leaves its scopes. -/
theorem pop_scopes_other (h : r.Sound) {entry : JobId × List String}
    (hentry : r.lastEntered = some entry)
    (hbound : r.shared.engine.below.head?.bind Frame.state ≠ some entry.1) :
    (r.shared.pop.1.states entry.1).scopeStack = r.scopes entry.1 := by
  have hexits : r.shared.popExits = r.shared.engine.below.head?.bind Frame.state := by
    rw [SharedContext.popExits, h.stateScope, hentry]
    rfl
  cases hstate : r.shared.engine.below.head?.bind Frame.state with
  | none =>
    rw [SharedContext.pop_states_none (hexits.trans hstate)]
    rfl
  | some j =>
    rw [SharedContext.pop_states_exits (hexits.trans hstate), Function.update_of_ne]
    · rfl
    · rintro rfl
      exact hbound hstate

/-- The pop of a frame without a scope changes no state. -/
theorem pop_scopes_none (h : r.Sound) (hentry : r.lastEntered = none) :
    r.shared.pop.1.states = r.shared.states := by
  refine SharedContext.pop_states_none ?_
  rw [SharedContext.popExits, h.stateScope, hentry]
  rfl

/-- The scopes of the entries below the last one, once it is left. -/
theorem Sound.nested_tail (h : r.Sound) :
    Nested (r.lastEntered.elim r.scopes fun entry => Function.update r.scopes entry.1 entry.2)
      r.entered.tail := by
  have hnested := h.nested
  cases hentered : r.entered with
  | nil => trivial
  | cons first rest =>
    rw [hentered] at hnested
    cases first with
    | none =>
      simp only [lastEntered, hentered, List.head?_cons, Option.join_some]
      exact hnested
    | some entry =>
      simp only [lastEntered, hentered, List.head?_cons, Option.join_some]
      exact hnested.2

/-- A pop that leaves the scope on its own state keeps the balance. -/
theorem Sound.pop (h : r.Sound) (hown : r.PopsOwn .pop r') :
    (⟨r.shared.pop.1, r.entered.tail⟩ : ScopeRun).Sound where
  frames := by
    have hframes := h.frames
    rcases pop_engine r.shared with ⟨hbelow, hpop⟩ | ⟨next, rest, hbelow, hpop⟩
    · rw [hbelow] at hframes
      cases hentered : r.entered with
      | nil => simpa [hpop, hbelow, hentered] using hframes
      | cons entry entries => simp [hentered] at hframes
    · rw [hbelow] at hframes
      cases hentered : r.entered with
      | nil => simp [hentered] at hframes
      | cons entry entries =>
        rw [hentered] at hframes
        simpa [hpop] using (List.cons.inj hframes).2
  nested := by
    have htail := h.nested_tail
    cases hentry : r.lastEntered with
    | none =>
      rw [hentry] at htail
      change Nested (fun i => (r.shared.pop.1.states i).scopeStack) r.entered.tail
      rw [pop_scopes_none h hentry]
      exact htail
    | some entry =>
      rw [hentry] at htail
      have hscopes := pop_scopes_own h hentry (hown rfl entry hentry)
      change Nested (fun i => (r.shared.pop.1.states i).scopeStack) r.entered.tail
      rw [hscopes]
      exact htail

/-- A step that pops a scope from its own state keeps the balance. -/
theorem Sound.step (h : r.Sound) {call : StackCall} (hstep : r.step call = some r')
    (hown : r.PopsOwn call r') : r'.Sound := by
  cases call with
  | push name state stateScope => exact h.push hstep
  | pop =>
    obtain rfl := Option.some.inj hstep
    exact h.pop hown
  | bindState j =>
    obtain rfl := Option.some.inj hstep
    exact h.bindState j

/-- With balanced scopes a pop restores exactly those of the state on which the scope was entered
if the frame below is bound to this state, and otherwise does not. -/
theorem Sound.restores_iff (h : r.Sound) {call : StackCall} (hstep : r.step call = some r') :
    r.PopsOwn call r' ↔ r.Restores call r' := by
  cases call with
  | push | bindState => exact ⟨fun _ hpop => (by cases hpop), fun _ hpop => (by cases hpop)⟩
  | pop =>
    obtain rfl := Option.some.inj hstep
    cases hentry : r.lastEntered with
    | none =>
      refine ⟨fun _ _ => ⟨fun entry he => ?_, fun i _ => ?_⟩, fun _ _ entry he => ?_⟩
      · cases hentry.symm.trans he
      · rw [show (⟨r.shared.pop.1, r.entered.tail⟩ : ScopeRun).shared.states = r.shared.states from
          pop_scopes_none h hentry]
      · cases hentry.symm.trans he
    | some entry =>
      constructor
      · intro hown _
        have hscopes := pop_scopes_own h hentry (hown rfl entry hentry)
        refine ⟨fun e he => ?_, fun i hi => ?_⟩
        · obtain rfl := Option.some.inj (hentry.symm.trans he)
          exact (congrFun hscopes entry.1).trans (Function.update_self _ _ _)
        · exact (congrFun hscopes i).trans (Function.update_of_ne (hi entry hentry) _ _)
      · intro hrestores _ e he
        obtain rfl := Option.some.inj (hentry.symm.trans he)
        by_contra hbound
        obtain ⟨name, hname⟩ := h.scopes_entry hentry
        have hrestored : entry.2 = entry.2 ++ [name] :=
          ((hrestores rfl).1 entry he).symm.trans ((pop_scopes_other h hentry hbound).trans hname)
        simp at hrestored

/-- A new engine is balanced. -/
theorem sound_start (root : Option JobId) (states : JobId → BlackboardState) :
    (start root states).Sound :=
  ⟨rfl, trivial⟩

/-- In a run of a new engine over any states every pop restores exactly the scopes of the state on
which its scope was entered if and only if every frame with a scope is popped above a frame that is
bound to this state. -/
theorem restores_run_iff (root : Option JobId) (states : JobId → BlackboardState)
    (calls : List StackCall) :
    AllSteps step Restores (start root states) calls ↔
      AllSteps step PopsOwn (start root states) calls :=
  (allSteps_congr Sound (fun _ _ _ h hstep hown => h.step hstep hown)
    (fun _ _ _ h hstep => h.restores_iff hstep) (sound_start root states)).symm

/-- A scope of a state that is not bound to the frame below is not left: the pop leaves one of the
other state. -/
theorem restores_run_fails : ¬ ∀ (root : Option JobId) (states : JobId → BlackboardState)
    (calls : List StackCall), AllSteps step Restores (start root states) calls := by
  intro h
  have hrun := h (some "a") (fun _ => {})
    [.push "session" none true, .push "step" (some "b") true, .pop]
  have hpop := (((hrun _ rfl).2 _ rfl).2 _ rfl).1
  have hrestored := (hpop rfl).1 ("b", []) rfl
  revert hrestored
  decide

end ScopeRun

end PalmEngine.Context
