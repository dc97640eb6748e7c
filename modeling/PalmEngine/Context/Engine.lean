import PalmEngine.Context.State
import PalmEngine.Orchestration.Job

/-!
# The shared context engine

A stack of frames, of which the last may be bound to the state of a job, and the slices of the
workers that drive the jobs with this one stack. A job stands for its state object. A call of a
slice takes a turn for each method of the engine that it calls, and the turns of the workers come
in any order. Other metadata of a frame and the initialization of the engine are left out.
-/

namespace PalmEngine.Context

open PalmEngine.Lib
open PalmEngine.Orchestration (JobId)

/-- A frame; `stateScope` tells that a scope was entered for it. -/
structure Frame where
  name : String
  state : Option JobId := none
  stateScope : Bool := false

/-- The stack of frames: the last one, and those below it from the innermost to the root. -/
structure ContextEngine where
  current : Frame := { name := "root" }
  below : List Frame := []

/-- The engine and the states it works on. -/
structure SharedContext where
  engine : ContextEngine
  states : JobId → BlackboardState

namespace SharedContext

/-- The state bound to the last frame. -/
def currentState (c : SharedContext) : Option JobId := c.engine.current.state

/-- The innermost scope of the state bound to the last frame. -/
def currentStateScope (c : SharedContext) : Option String :=
  c.currentState.bind fun j => (c.states j).currentScope

/-- Replace the contents of a state. -/
def setState (c : SharedContext) (j : JobId) (s : BlackboardState) : SharedContext :=
  { c with states := Function.update c.states j s }

/-- Attach a state to the last frame. -/
def bindState (c : SharedContext) (j : JobId) : SharedContext :=
  { c with engine.current.state := some j }

/-- Change a state in place, or raise. -/
def onState (c : SharedContext) (j : JobId)
    (op : BlackboardState → Except String BlackboardState) : SharedContext × Option String :=
  match op (c.states j) with
  | .error text => (c, some text)
  | .ok s => (c.setState j s, none)

/-- Enter a scope on the state bound to the last frame. -/
def enterStateScope (c : SharedContext) (name : String) : SharedContext × Option String :=
  match c.currentState with
  | none => (c, some "Context frame has no bound BaseState")
  | some j => c.onState j fun s => s.enterScope name

/-- Exit the innermost scope on the state bound to the last frame. -/
def exitStateScope (c : SharedContext) : SharedContext × Option String :=
  match c.currentState with
  | none => (c, some "Context frame has no bound BaseState")
  | some j => c.onState j BlackboardState.exitScope

/-- Put a frame on the stack. -/
def append (c : SharedContext) (frame : Frame) : SharedContext :=
  { c with engine := ⟨frame, c.engine.current :: c.engine.below⟩ }

/-- Push a frame, with a state if one is given; `stateScope` enters a scope of its name on that
state, or else on the one bound to the last frame. -/
def push (c : SharedContext) (name : String) (state : Option JobId) (stateScope : Bool) :
    SharedContext × Option String :=
  if stateScope then
    match state.or c.currentState with
    | none => (c, some "Cannot push state scope without a bound BaseState")
    | some target =>
      match c.onState target fun s => s.enterScope name with
      | (c, some text) => (c, some text)
      | (c, none) => (c.append ⟨name, some target, true⟩, none)
  else (c.append ⟨name, state, false⟩, none)

/-- Pop the last frame; if a scope was entered for it, one is left on the state bound to the frame
that is the last one now. -/
def pop (c : SharedContext) : SharedContext × Option String :=
  match c.engine.below with
  | [] => (c, some "Cannot pop the root context frame")
  | next :: rest =>
    let popped : SharedContext := { c with engine := ⟨next, rest⟩ }
    if c.engine.current.stateScope then
      match popped.currentState with
      | none => (popped, none)
      | some j => popped.onState j BlackboardState.exitScope
    else (popped, none)

/-- The state whose scope a pop would leave. -/
def popExits (c : SharedContext) : Option JobId :=
  if c.engine.current.stateScope then c.engine.below.head?.bind Frame.state else none

end SharedContext

/-- What a slice calls while it drives its job. -/
inductive ContextCall where
  /-- The beginning of a tick: bind the state of the job if another one is bound. -/
  | bindState
  /-- Enter the scope of a branch or step, unless it is the innermost one. -/
  | enter (slug : String)
  /-- Leave the scope of a branch or step, if it is the innermost one. -/
  | leave (slug : String)
  /-- Push a frame; `bound` gives it the state of the job. -/
  | push (name : String) (bound : Bool) (stateScope : Bool)
  /-- Pop a frame. -/
  | pop
  /-- A change that the slice makes on the state of its job directly. -/
  | own (f : BlackboardState → BlackboardState)

/-- How far a call is: begun or not, about to bind, to compare the scopes, or to change them. -/
inductive Stage where
  | ready
  | binding
  | comparing
  | acting
  deriving DecidableEq

/-- The slices that drive one job: the calls still to come, and what has happened as a history
(the frames pushed and not popped, as whether a scope was entered for them, and the calls that
have ended). -/
structure Worker where
  todo : List ContextCall
  stage : Stage := .ready
  pushed : List Bool := []
  done : List ContextCall := []

/-- The workers, each driving its own job, and the engine they share. -/
structure Runtime where
  shared : SharedContext
  workers : JobId → Worker

namespace Runtime

/-- The worker of a job goes to another stage of its call. -/
def goto (r : Runtime) (j : JobId) (shared : SharedContext) (stage : Stage) : Runtime :=
  ⟨shared, Function.update r.workers j { r.workers j with stage }⟩

/-- A call has ended; if it has raised, the slice ends with it. -/
def ends (r : Runtime) (j : JobId) (call : ContextCall) (rest : List ContextCall)
    (outcome : SharedContext × Option String) (pushed : List Bool) : Runtime :=
  ⟨outcome.1, Function.update r.workers j
    { todo := if outcome.2.isNone then rest else []
      pushed
      done := (r.workers j).done ++ [call] }⟩

/-- The next turn of a call. -/
def callTurn (r : Runtime) (j : JobId) (call : ContextCall) (rest : List ContextCall) :
    Stage → Option Runtime :=
  let c := r.shared
  let pushed := (r.workers j).pushed
  match call with
  | .bindState => fun
    | .ready =>
      some (if c.currentState = some j then r.ends j call rest (c, none) pushed
        else r.goto j c .binding)
    | .binding => some (r.ends j call rest (c.bindState j, none) pushed)
    | _ => none
  | .enter slug => fun
    | .ready => some (r.goto j c (if c.currentState = some j then .comparing else .binding))
    | .binding => some (r.goto j (c.bindState j) .comparing)
    | .comparing =>
      some (if c.currentStateScope = some slug then r.ends j call rest (c, none) pushed
        else r.goto j c .acting)
    | .acting => some (r.ends j call rest (c.enterStateScope slug) pushed)
  | .leave slug => fun
    | .ready =>
      some (if c.currentStateScope = some slug then r.goto j c .acting
        else r.ends j call rest (c, none) pushed)
    | .acting => some (r.ends j call rest c.exitStateScope pushed)
    | _ => none
  | .push name bound stateScope => fun
    | .ready =>
      let outcome := c.push name (if bound then some j else none) stateScope
      some (r.ends j call rest outcome (if outcome.2.isNone then stateScope :: pushed else pushed))
    | _ => none
  | .pop => fun
    | .ready => some (r.ends j call rest c.pop pushed.tail)
    | _ => none
  | .own f => fun
    | .ready => some (r.ends j call rest (c.setState j (f (c.states j)), none) pushed)
    | _ => none

/-- A worker takes its next turn, or a job is submitted. -/
inductive Turn where
  | slice (j : JobId)
  | submit (j : JobId)

/-- The job of a turn. -/
def Turn.job : Turn → JobId
  | slice j => j
  | submit j => j

/-- One turn; the submission of a job binds its state on a frame of its own. -/
def step (r : Runtime) : Turn → Option Runtime
  | .slice j =>
    match (r.workers j).todo with
    | [] => none
    | call :: rest => r.callTurn j call rest (r.workers j).stage
  | .submit j => some { r with shared := (r.shared.push ("job:" ++ j) (some j) false).1 }

/-- Any stack and any states, before the first slice. -/
def start (shared : SharedContext) (todo : JobId → List ContextCall) : Runtime :=
  ⟨shared, fun j => { todo := todo j }⟩

end Runtime

end PalmEngine.Context
