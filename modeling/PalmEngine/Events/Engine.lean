import PalmEngine.Events.Payload

/-!
# The event engine

Publishing an event calls the handlers subscribed to its type and then those subscribed to all
types. A handler that is a coroutine function is only queued for a later drain. An error of a
handler is recorded and the next one is called, unless the engine was initialised not to isolate
errors: then it ends the publication. Interceptors run before the handlers unless the event
comes from the outbox.

A handler is given by what it does with an event; it does not change the subscriptions.
-/

namespace PalmEngine.Events

open PalmEngine.Lib

/-- Identifiers attached to published events. -/
structure EventContext where
  jobId : Option String
  instanceId : Option String
  sessionId : Option String
  traceId : Option String
  principalId : Option String
  extra : Payload

namespace EventContext

/-- The first text unless it is missing or empty. -/
def prefer (first second : Option String) : Option String :=
  (first.filter (· ≠ "")).or second

/-- The context combined with another, whose texts come first. -/
def merged (c other : EventContext) : EventContext where
  jobId := prefer other.jobId c.jobId
  instanceId := prefer other.instanceId c.instanceId
  sessionId := prefer other.sessionId c.sessionId
  traceId := prefer other.traceId c.traceId
  principalId := prefer other.principalId c.principalId
  extra := other.extra.entries.foldl (fun d e => d.set e.1 e.2) c.extra

/-- The context as a dictionary. -/
def toDict (c : EventContext) : Payload :=
  let named : Payload := ((((Dict.empty.setSome "job_id" (c.jobId.map .text)).setSome
    "instance_id" (c.instanceId.map .text)).setSome
    "session_id" (c.sessionId.map .text)).setSome
    "trace_id" (c.traceId.map .text)).setSome
    "principal_id" (c.principalId.map .text)
  c.extra.entries.foldl (fun d e => d.set e.1 e.2) named

/-- The context of a dictionary, none of an empty one. The principal may go by a shorter name. -/
def fromDict (data : Payload) : Option EventContext :=
  if data.entries.isEmpty then none
  else some {
    jobId := data.str? "job_id"
    instanceId := data.str? "instance_id"
    sessionId := data.str? "session_id"
    traceId := data.str? "trace_id"
    principalId := Payload.shown?
      ((data.get? "principal_id").getD (data.field "principal"))
    extra := (((((data.erase "job_id").erase "instance_id").erase "session_id").erase
      "trace_id").erase "principal").erase "principal_id" }

end EventContext

/-- An event. -/
structure Event where
  eventType : String
  payload : Payload
  timestamp : String
  id : String
  context : Option EventContext

/-- An event with a type and an id and nothing else. -/
def Event.bare (eventType id : String) : Event := ⟨eventType, .empty, "", id, none⟩

/-- What a handler does: a coroutine function waits for the drain; any other is called and raises,
or returns, maybe something to await. -/
structure Handler where
  isCoroutine : Bool
  call : Event → Except String Bool

/-- A subscribed handler. -/
structure HandlerEntry where
  subscriptionId : ℕ
  handler : Handler
  priority : ℤ

/-- What became of a handler in a publication. -/
inductive HandlerOutcome where
  | returned
  | awaitable
  | queued
  | raised (error : String)
  deriving DecidableEq, Repr

/-- The handler was called and returned. -/
def HandlerOutcome.hasReturned : HandlerOutcome → Bool
  | returned | awaitable => true
  | queued | raised _ => false

/-- Call a handler, or queue it. -/
def HandlerEntry.invoke (entry : HandlerEntry) (event : Event) : HandlerOutcome :=
  if entry.handler.isCoroutine then .queued
  else match entry.handler.call event with
    | .error error => .raised error
    | .ok true => .awaitable
    | .ok false => .returned

/-- The event engine: handlers by event type, in the order of their priorities, interceptors, each
by the error it raises, and whether errors of handlers are isolated. -/
structure EventEngine where
  handlers : Dict String (List HandlerEntry)
  interceptors : List (Event → Option String)
  isolateHandlerErrors : Bool

/-- Where a published event comes from. -/
inductive EventSource where
  | live
  | outbox
  deriving DecidableEq, Repr

/-- What a publication did with each handler it came to, and the error it raised. -/
structure Publication where
  log : List (HandlerEntry × HandlerOutcome)
  error : Option String

namespace Publication

/-- How many handlers returned something other than an awaitable, queued ones included. -/
def delivered (p : Publication) : ℕ := p.log.countP fun e => e.2 = .returned ∨ e.2 = .queued

/-- How many handlers returned an awaitable. -/
def asyncScheduled (p : Publication) : ℕ := p.log.countP fun e => e.2 = .awaitable

/-- The errors of the handlers. -/
def handlerErrors (p : Publication) : List (HandlerEntry × String) :=
  p.log.filterMap fun e =>
    match e.2 with
    | .raised error => some (e.1, error)
    | _ => none

end Publication

namespace EventEngine

/-- The handlers subscribed to an event type, and those subscribed to all. -/
def handlersOf (engine : EventEngine) (eventType : String) : List HandlerEntry :=
  (engine.handlers.get? eventType).getD [] ++ (engine.handlers.get? "*").getD []

/-- The event with the context bound at the publication. -/
def resolveContext (bound : Option EventContext) (event : Event) : Event :=
  match event.context, bound with
  | some own, some bound => { event with context := some (bound.merged own) }
  | some _, none => event
  | none, some bound => { event with context := some bound }
  | none, none => event

/-- Call handlers in order. An error ends the publication unless errors are isolated. -/
def dispatch (isolate : Bool) (event : Event) : List HandlerEntry → Publication
  | [] => ⟨[], none⟩
  | entry :: rest =>
    match entry.invoke event with
    | .raised error =>
      if isolate then
        let later := dispatch isolate event rest
        { later with log := (entry, .raised error) :: later.log }
      else ⟨[(entry, .raised error)], some error⟩
    | outcome =>
      let later := dispatch isolate event rest
      { later with log := (entry, outcome) :: later.log }

/-- Publish an event: resolve its context, run the interceptors unless it comes from the outbox,
and call the handlers. -/
def publish (engine : EventEngine) (bound : Option EventContext) (source : EventSource)
    (event : Event) : Publication :=
  let resolved := resolveContext bound event
  let intercepted :=
    if source = .outbox then none
    else engine.interceptors.findSome? fun interceptor => interceptor resolved
  match intercepted with
  | some error => ⟨[], some error⟩
  | none =>
    dispatch engine.isolateHandlerErrors resolved (engine.handlersOf resolved.eventType)

@[simp] theorem eventType_resolveContext (bound : Option EventContext) (event : Event) :
    (resolveContext bound event).eventType = event.eventType := by
  unfold resolveContext
  split <;> rfl

/-- A handler that does not raise is logged and the next ones are called. -/
theorem dispatch_cons_of_not_raised {isolate : Bool} {event : Event} {entry : HandlerEntry}
    {rest : List HandlerEntry} (h : ∀ error, entry.invoke event ≠ .raised error) :
    dispatch isolate event (entry :: rest) =
      ⟨(entry, entry.invoke event) :: (dispatch isolate event rest).log,
        (dispatch isolate event rest).error⟩ := by
  rw [dispatch]
  split
  · exact absurd ‹_› (h _)
  · rfl

/-- What comes of each handler in a publication without error: what its invocation brings. -/
theorem log_dispatch {isolate : Bool} {event : Event} {handlers : List HandlerEntry}
    (h : (dispatch isolate event handlers).error = none) :
    (dispatch isolate event handlers).log = handlers.map fun e => (e, e.invoke event) := by
  induction handlers with
  | nil => rfl
  | cons entry rest ih =>
    cases hinvoke : entry.invoke event with
    | raised error =>
      cases isolate with
      | false => simp [dispatch, hinvoke] at h
      | true =>
        simp only [dispatch, hinvoke, if_true] at h ⊢
        rw [ih h, List.map_cons, hinvoke]
    | returned | awaitable | queued =>
      rw [dispatch_cons_of_not_raised (by simp [hinvoke])] at h ⊢
      rw [ih h, List.map_cons]

/-- A publication raises exactly when errors are not isolated and a handler raises. -/
theorem error_dispatch (isolate : Bool) (event : Event) (handlers : List HandlerEntry) :
    (dispatch isolate event handlers).error.isSome ↔
      isolate = false ∧ ∃ e ∈ handlers, ∃ error, e.invoke event = .raised error := by
  induction handlers with
  | nil => simp [dispatch]
  | cons entry rest ih =>
    cases hinvoke : entry.invoke event with
    | raised error =>
      cases isolate with
      | false => simp [dispatch, hinvoke]
      | true => simpa [dispatch, hinvoke] using ih
    | returned | awaitable | queued =>
      rw [dispatch_cons_of_not_raised (by simp [hinvoke]), ih]
      simp [hinvoke]

end EventEngine

end PalmEngine.Events
