import PalmEngine.Lib.Lockstep
import PalmEngine.Websocket.SessionFilter

/-!
# What is delivered after a subscribe request that was refused

A connection handles its messages one after the other, while events are published, the sessions
change and the writer writes. A subscribe request that is refused because none of its types is public
changes nothing. One whose session cannot be bound has set the types of the filter before, and the
handlers that are attached already read them from then on.
-/

namespace PalmEngine.Websocket

open PalmEngine.Lib PalmEngine.Events PalmEngine.Session

/-- A message that the connection is handling. -/
inductive EventsMessage where
  | subscribe (req : SubscribeRequest) (fresh : String) (proc : SubscribeProc)
  | unsubscribe

/-- A connection with the publications that are under way and the message that it handles. -/
structure EventsSession where
  host : StreamHost
  publishes : List PublishProc := []
  message : Option EventsMessage := none

/-- What happens next: the sessions change, a publication begins or goes on, a message comes in or
is handled further, or the writer writes. -/
inductive EventsTurn where
  | sessions (sessions : Option SessionStore)
  | publish (p : Publication)
  | dispatch (i : ℕ)
  | receive (message : EventsMessage)
  | handle
  | write

/-- A message that has not been handled yet. -/
def EventsMessage.fresh : EventsMessage → EventsMessage
  | subscribe req fresh _ => subscribe req fresh .start
  | unsubscribe => unsubscribe

namespace EventsSession

/-- Handle a message further, until there is nothing left to do. -/
def handle (s : EventsSession) : EventsMessage → EventsSession
  | .subscribe req fresh proc =>
    match proc.move req fresh s.host with
    | some (host, proc) => { s with host := host, message := some (.subscribe req fresh proc) }
    | none => { s with message := none }
  | .unsubscribe =>
    match s.host.conn.subs with
    | [] => { s with message := none }
    | _ :: subs => { s with host := { s.host with conn := { s.host.conn with subs := subs } } }

/-- The connection after a turn. A message comes in only when none is being handled. -/
def step (s : EventsSession) : EventsTurn → Option EventsSession
  | .sessions sessions => some { s with host := { s.host with sessions := sessions } }
  | .publish p => some { s with publishes := s.publishes ++ [.start p] }
  | .dispatch i =>
    ((⟨s.host, s.publishes⟩ : Pool StreamHost PublishProc).step PublishProc.move i).map fun next =>
      { s with host := next.shared, publishes := next.procs }
  | .receive message =>
    match s.message with
    | none => some { s with message := some message.fresh }
    | some _ => none
  | .handle => s.message.map s.handle
  | .write => s.host.conn.write.map fun conn => { s with host := { s.host with conn := conn } }

/-- The event messages that were written or will be. -/
def delivered (s : EventsSession) : List StreamItem := s.host.conn.wire ++ s.host.conn.outbound

/-- The event messages after some turns, if they can be taken. -/
def deliveredAfter (s : EventsSession) (turns : List EventsTurn) : Option (List StreamItem) :=
  (runSteps step s turns).map delivered

end EventsSession

/-- A subscribe request that finds the host in one state is refused and leaves it in another. -/
def SubscribeRequest.Refused (req : SubscribeRequest) (fresh : String) (h h' : StreamHost) : Prop :=
  SubscribeProc.start.move req fresh h = some (h', .refused) ∨
    ∃ h₁, SubscribeProc.start.move req fresh h = some (h₁, .typesSet) ∧
      SubscribeProc.typesSet.move req fresh h₁ = some (h', .refused)

/-- A host whose connection has other types in its filter. -/
def StreamHost.withTypes (h : StreamHost) (types : Option (List String)) : StreamHost :=
  { h with conn := { h.conn with types := types } }

/-- What a refused request leaves behind: nothing, if none of its types is public, and else its
types. -/
theorem SubscribeRequest.Refused.cases {req : SubscribeRequest} {fresh : String} {h h' : StreamHost}
    (href : req.Refused fresh h h') :
    (req.publicTypes = some [] ∧ h' = h) ∨
      (req.publicTypes ≠ some [] ∧ h' = h.withTypes req.publicTypes) := by
  unfold SubscribeRequest.Refused SubscribeProc.move at href
  by_cases hnone : req.publicTypes = some []
  · simp only [hnone, if_true, Option.some.injEq, Prod.mk.injEq] at href
    rcases href with ⟨rfl, -⟩ | ⟨h₁, ⟨-, hproc⟩, -⟩
    · exact Or.inl ⟨hnone, rfl⟩
    · cases hproc
  · simp only [hnone, if_false, Option.some.injEq, Prod.mk.injEq] at href
    rcases href with ⟨-, hproc⟩ | ⟨h₁, ⟨rfl, -⟩, hresolve⟩
    · cases hproc
    · refine Or.inr ⟨hnone, ?_⟩
      split at hresolve
      · exact (congrArg Prod.fst (Option.some.inj hresolve)).symm
      · cases hresolve

/-- A connection with other types in its filter. -/
def EventsSession.withTypes (s : EventsSession) (types : Option (List String)) : EventsSession :=
  { s with host := s.host.withTypes types }

/-- A handler for events of the type is attached, or is going to be called. -/
def EventsSession.Calls (s : EventsSession) (eventType : String) : Prop :=
  eventType ∈ s.host.conn.subs ∨ ∃ p offset left,
    PublishProc.dispatching p offset (left + 1) ∈ s.publishes ∧ p.event.eventType = eventType

/-- The handlers pass the same events with other types in the filter, and no request is being
handled that has read the filter. -/
structure EventsSession.Indifferent (types : Option (List String)) (s : EventsSession) : Prop where
  unread : ∀ req fresh proc, s.message = some (.subscribe req fresh proc) →
    proc = .start ∨ proc = .refused
  same : ∀ eventType, s.Calls eventType →
    (s.host.withTypes types).conn.streams eventType = s.host.conn.streams eventType

/-- Two connections are the same but for types in the filter that make no difference. -/
def EventsSession.SameButTypes (s t : EventsSession) : Prop :=
  s = t ∨ ∃ types, s = t.withTypes types ∧ t.Indifferent types

section Indifference

variable {h : StreamHost} {s : EventsSession} {types : Option (List String)}

/-- A handler passes an event if its type is streamed and the session filter passes it. -/
theorem onLive_withTypes (event : Event)
    (hsame : (h.withTypes types).conn.streams event.eventType =
      h.conn.streams event.eventType) :
    ({ h.withTypes types with
      conn := (h.withTypes types).conn.onLive h.sessions event } : StreamHost) =
      ({ h with conn := h.conn.onLive h.sessions event } : StreamHost).withTypes types := by
  have haccepts : (h.withTypes types).conn.accepts h.sessions event.eventType event.payload
      event.context = h.conn.accepts h.sessions event.eventType event.payload event.context :=
    congrArg (· && _) hsame
  unfold EventsConnection.onLive
  rw [haccepts]
  split <;> rfl

/-- A step of a publication does not depend on types that make no difference to the event whose
handlers it calls. -/
theorem move_withTypes (h : StreamHost) (types : Option (List String)) (proc : PublishProc)
    (hsame : ∀ p offset left, proc = .dispatching p offset (left + 1) →
      (h.withTypes types).conn.streams p.event.eventType = h.conn.streams p.event.eventType) :
    proc.move (h.withTypes types) =
      (proc.move h).map fun next => (next.1.withTypes types, next.2) := by
  cases proc with
  | start p =>
    simp only [PublishProc.move]
    split <;> rfl
  | appended p offset => rfl
  | finished p offset => rfl
  | dispatching p offset left =>
    cases left with
    | zero => rfl
    | succ left =>
      simp only [PublishProc.move, Option.map_some]
      exact congrArg (fun host => some (host, PublishProc.dispatching p offset left))
        (onLive_withTypes p.event (hsame p offset left rfl))

/-- A step of a publication keeps the filter and the handlers, and calls a handler next only if one
is attached for its event or it was calling one. -/
theorem move_keeps {proc proc' : PublishProc} {h' : StreamHost}
    (hmove : proc.move h = some (h', proc')) :
    h'.conn.types = h.conn.types ∧ h'.conn.subs = h.conn.subs ∧
      ∀ p offset left, proc' = .dispatching p offset (left + 1) →
        p.event.eventType ∈ h.conn.subs ∨ ∃ left', proc = .dispatching p offset (left' + 1) := by
  have honLive : ∀ event, (h.conn.onLive h.sessions event).types = h.conn.types ∧
      (h.conn.onLive h.sessions event).subs = h.conn.subs := by
    intro event
    unfold EventsConnection.onLive
    split <;> exact ⟨rfl, rfl⟩
  cases proc with
  | start p =>
    simp only [PublishProc.move] at hmove
    split at hmove <;> cases hmove <;> exact ⟨rfl, rfl, fun _ _ _ hproc => by cases hproc⟩
  | appended p offset =>
    cases hmove
    refine ⟨rfl, rfl, fun q o left hproc => Or.inl ?_⟩
    obtain ⟨rfl, -, hcount⟩ := PublishProc.dispatching.inj hproc
    exact List.count_pos_iff.mp (hcount ▸ Nat.succ_pos left)
  | finished p offset => cases hmove
  | dispatching p offset left =>
    cases left with
    | zero =>
      cases hmove
      exact ⟨rfl, rfl, fun _ _ _ hproc => by cases hproc⟩
    | succ left =>
      cases hmove
      refine ⟨(honLive p.event).1, (honLive p.event).2, fun q o left' hproc => Or.inr ?_⟩
      obtain ⟨rfl, rfl, -⟩ := PublishProc.dispatching.inj hproc
      exact ⟨left, rfl⟩

/-- Whether types make a difference depends on the handlers that are attached or called and on the
filter. -/
theorem EventsSession.Indifferent.of_calls {t : EventsSession} (hs : s.Indifferent types)
    (htypes : t.host.conn.types = s.host.conn.types) (hcalls : ∀ et, t.Calls et → s.Calls et)
    (hunread : ∀ req fresh proc, t.message = some (.subscribe req fresh proc) →
      proc = .start ∨ proc = .refused) : t.Indifferent types := by
  refine ⟨hunread, fun et het => ?_⟩
  have hsame := hs.same et (hcalls et het)
  unfold EventsConnection.streams at hsame ⊢
  rw [htypes]
  exact hsame

/-- A turn is possible in both of two connections that are the same but for types that make no
difference, or in none, and they stay so. -/
theorem EventsSession.SameButTypes.step {s t : EventsSession} (turn : EventsTurn)
    (hst : s.SameButTypes t) : Option.Rel SameButTypes (s.step turn) (t.step turn) := by
  rcases hst with rfl | ⟨types, rfl, ht⟩
  · cases s.step turn with
    | none => exact .none
    | some s' => exact .some (Or.inl rfl)
  cases turn with
  | sessions sessions =>
    exact .some (Or.inr ⟨types, rfl, ht.of_calls rfl (fun _ h => h) ht.unread⟩)
  | publish p =>
    refine .some (Or.inr ⟨types, rfl, ht.of_calls rfl (fun et het => ?_) ht.unread⟩)
    refine het.imp id ?_
    rintro ⟨q, offset, left, hmem, htype⟩
    rcases List.mem_append.mp hmem with hmem | hmem
    · exact ⟨q, offset, left, hmem, htype⟩
    · cases List.mem_singleton.mp hmem
  | dispatch i =>
    unfold EventsSession.step Pool.step
    cases hproc : t.publishes[i]? with
    | none => simp [EventsSession.withTypes, hproc, Option.rel_none_none]
    | some proc =>
      have hmem : proc ∈ t.publishes := List.mem_of_getElem? hproc
      have hmove := move_withTypes t.host types proc fun p offset left heq =>
        ht.same _ (Or.inr ⟨p, offset, left, heq ▸ hmem, rfl⟩)
      simp only [EventsSession.withTypes, hproc, Option.bind_some, hmove]
      cases hnext : proc.move t.host with
      | none => exact .none
      | some next =>
        obtain ⟨htypes, hsubs, hcalls⟩ := move_keeps hnext
        refine .some (Or.inr ⟨types, rfl, ht.of_calls htypes (fun et het => ?_) ht.unread⟩)
        rcases het with het | ⟨p, offset, left, hin, rfl⟩
        · exact Or.inl (hsubs ▸ het)
        · rcases Pool.mem_set_cases hin with heq | hold
          · rcases hcalls p offset left heq.symm with hsub | ⟨left', heq'⟩
            · exact Or.inl hsub
            · exact Or.inr ⟨p, offset, left', heq' ▸ hmem, rfl⟩
          · exact Or.inr ⟨p, offset, left, hold, rfl⟩
  | receive message =>
    unfold EventsSession.step
    simp only [EventsSession.withTypes]
    cases hmessage : t.message with
    | some _ => exact .none
    | none =>
      refine .some (Or.inr ⟨types, rfl, ht.of_calls rfl (fun _ h => h) ?_⟩)
      intro req fresh proc heq
      cases message with
      | unsubscribe => cases heq
      | subscribe req' fresh' proc' =>
        cases heq
        exact Or.inl rfl
  | handle =>
    obtain ⟨host, publishes, message⟩ := t
    simp only [EventsSession.step, EventsSession.withTypes]
    cases message with
    | none => exact .none
    | some message =>
      cases message with
      | unsubscribe =>
        simp only [Option.map_some, EventsSession.handle]
        rw [show (host.withTypes types).conn.subs = host.conn.subs from rfl]
        cases hsubs : host.conn.subs with
        | nil =>
          refine .some (Or.inr ⟨types, rfl, ht.of_calls rfl (fun _ h => h) ?_⟩)
          exact fun _ _ _ hnone => by cases hnone
        | cons et subs =>
          refine .some (Or.inr ⟨types, rfl, ht.of_calls rfl (fun et' het => ?_) ht.unread⟩)
          exact het.imp (fun het => hsubs ▸ List.mem_cons_of_mem et het) id
      | subscribe req fresh proc =>
        simp only [Option.map_some, EventsSession.handle]
        rcases ht.unread req fresh proc rfl with rfl | rfl
        · -- the request sets the types of both, unless it is refused
          simp only [SubscribeProc.move]
          by_cases hnone : req.publicTypes = some []
          · simp only [hnone, if_true]
            refine .some (Or.inr ⟨types, rfl, ht.of_calls rfl (fun _ h => h) ?_⟩)
            intro req' fresh' proc' heq
            cases heq
            exact Or.inr rfl
          · simp only [hnone, if_false]
            exact .some (Or.inl rfl)
        · refine .some (Or.inr ⟨types, rfl, ht.of_calls rfl (fun _ h => h) ?_⟩)
          exact fun _ _ _ hnone => by cases hnone
  | write =>
    simp only [EventsSession.step, EventsSession.withTypes, StreamHost.withTypes,
      EventsConnection.write]
    cases t.host.conn.outbound with
    | nil => exact .none
    | cons item rest =>
      exact .some (Or.inr ⟨types, rfl, ht.of_calls rfl (fun _ h => h) ht.unread⟩)

/-- Connections that are the same but for types have delivered the same. -/
theorem EventsSession.SameButTypes.delivered_eq {s t : EventsSession} (hst : s.SameButTypes t) :
    s.delivered = t.delivered := by
  rcases hst with rfl | ⟨types, rfl, -⟩ <;> rfl

end Indifference

/-- An event of some type that names the session of a filter. -/
def probe (eventType : String) (sessionId : Option String) : Publication where
  event := { Event.bare eventType "" with
    payload := sessionId.elim .empty fun sid => Dict.empty.set "session_id" (.text sid) }
  timestamp := ""
  freshId := ""

/-- The event is published where there is no session service, up to its first handler. -/
def probeTurns (p : Publication) : List EventsTurn :=
  [.sessions none, .publish p, .dispatch 0, .dispatch 0, .dispatch 0]

/-- Without a session service a connection passes an event of a type that is streamed if it names
the session of the filter. -/
theorem accepts_probe (c : EventsConnection) (eventType : String) :
    c.accepts none eventType (probe eventType c.sessionId).event.payload none =
      c.streams eventType := by
  unfold EventsConnection.accepts EventsConnection.streams
  cases hsid : c.sessionId.filter (· ≠ "") with
  | none => simp
  | some sid =>
    obtain ⟨hsome, hne⟩ := Option.filter_eq_some_iff.mp hsid
    have hne : sid ≠ "" := by simpa using hne
    have hfield : (probe eventType c.sessionId).event.payload.textField "session_id" = sid := by
      simp [probe, hsome, Payload.textField, Payload.textOr, Payload.field, Dict.get?_set_self,
        Value.truthy, Value.str, hne]
    simp [eventMatchesSession, hfield]

/-- A handler queues a message exactly if the event passes the filter. -/
theorem length_onLive (c : EventsConnection) (sessions : Option SessionStore) (event : Event) :
    ((c.onLive sessions event).wire ++ (c.onLive sessions event).outbound).length =
      (c.wire ++ c.outbound).length +
        if c.accepts sessions event.eventType event.payload event.context = true then 1 else 0 := by
  unfold EventsConnection.onLive
  split <;> simp [EventsConnection.put, Nat.add_assoc]

/-- What is delivered after an event was published for which a handler is attached. -/
theorem deliveredAfter_probeTurns (h : StreamHost) (p : Publication)
    (hsub : p.event.eventType ∈ h.conn.subs) :
    EventsSession.deliveredAfter ⟨h, [], none⟩ (probeTurns p) =
      some ((h.conn.onLive none p.event).wire ++ (h.conn.onLive none p.event).outbound) := by
  obtain ⟨n, hcount⟩ := Nat.exists_eq_succ_of_ne_zero (List.count_pos_iff.mpr hsub).ne'
  unfold EventsSession.deliveredAfter probeTurns
  by_cases hjournal : p.event.eventType ∈ journalEventTypes <;>
    simp [runSteps, EventsSession.step, Pool.step, PublishProc.move, hjournal, hcount,
      EventsSession.delivered]

/-- Types that change whether a type is streamed change what is delivered after an event of it, if a
handler is attached. -/
theorem streams_eq_of_deliveredAfter {h : StreamHost} {types : Option (List String)}
    {eventType : String} (hsub : eventType ∈ h.conn.subs)
    (heq : EventsSession.deliveredAfter ⟨h.withTypes types, [], none⟩
        (probeTurns (probe eventType h.conn.sessionId)) =
      EventsSession.deliveredAfter ⟨h, [], none⟩ (probeTurns (probe eventType h.conn.sessionId))) :
    (h.withTypes types).conn.streams eventType = h.conn.streams eventType := by
  rw [deliveredAfter_probeTurns (h.withTypes types) (probe eventType h.conn.sessionId) hsub,
    deliveredAfter_probeTurns h (probe eventType h.conn.sessionId) hsub, Option.some.injEq] at heq
  have hlength := congrArg List.length heq
  have hnew : (h.withTypes types).conn.accepts none eventType
      (probe eventType h.conn.sessionId).event.payload none =
        (h.withTypes types).conn.streams eventType :=
    accepts_probe (h.withTypes types).conn eventType
  rw [length_onLive, length_onLive] at hlength
  change _ + (if (h.withTypes types).conn.accepts none eventType
      (probe eventType h.conn.sessionId).event.payload none = true then 1 else 0) =
    _ + if h.conn.accepts none eventType
      (probe eventType h.conn.sessionId).event.payload none = true then 1 else 0 at hlength
  rw [hnew, accepts_probe h.conn eventType] at hlength
  -- the two have the same messages before, so they have queued as many
  have hcount := Nat.add_left_cancel hlength
  cases hstreams : (h.withTypes types).conn.streams eventType <;>
    cases hstreamed : h.conn.streams eventType <;> simp [hstreams, hstreamed] at hcount ⊢

/-- A request that is refused changes what is delivered afterwards in no way if and only if none of
its types is public, or it lets its types through for each type for which a handler is attached
exactly as the filter did before. -/
theorem refused_delivers_iff {req : SubscribeRequest} {fresh : String} {h h' : StreamHost}
    (href : req.Refused fresh h h') :
    (∀ turns, EventsSession.deliveredAfter ⟨h', [], none⟩ turns =
        EventsSession.deliveredAfter ⟨h, [], none⟩ turns) ↔
      req.publicTypes = some [] ∨ ∀ eventType ∈ h.conn.subs,
        (h.withTypes req.publicTypes).conn.streams eventType = h.conn.streams eventType := by
  rcases href.cases with ⟨hnone, rfl⟩ | ⟨hpublic, rfl⟩
  · exact iff_of_true (fun _ => rfl) (Or.inl hnone)
  · rw [or_iff_right hpublic]
    constructor
    · intro hsame eventType hsub
      exact streams_eq_of_deliveredAfter hsub (hsame _)
    · intro hsame turns
      have hrel : EventsSession.SameButTypes ⟨h.withTypes req.publicTypes, [], none⟩ ⟨h, [], none⟩ := by
        refine Or.inr ⟨req.publicTypes, rfl, ⟨fun _ _ _ hnone => ?_, ?_⟩⟩
        · cases hnone
        · rintro eventType (hsub | ⟨_, _, _, hmem, -⟩)
          · exact hsame eventType hsub
          · exact absurd hmem List.not_mem_nil
      exact map_runSteps_eq_of_related (fun _ _ turn hst => hst.step turn)
        (fun _ _ hst => hst.delivered_eq) hrel turns

/-- A request whose session cannot be bound is refused with its types set. -/
theorem move_typesSet_of_error {req : SubscribeRequest} {fresh : String} {h : StreamHost}
    {error : SessionPlaneError}
    (hresolve : req.resolveSession h.sessions h.conn.sessionId fresh = .error error) :
    SubscribeProc.typesSet.move req fresh h = some (h, .refused) := by
  simp only [SubscribeProc.move, hresolve]

/-- A closed session. -/
def closedSessions : SessionStore := SessionStore.empty.setEntry ⟨"sess-1", .closed, [], none, .empty⟩

/-- A connection with a handler for completed jobs. -/
def watchingHost : StreamHost where
  journal := .empty
  sessions := some closedSessions
  conn := ⟨some ["job.completed"], none, ["job.completed"], [], []⟩

/-- A request for changed resources in a session that is closed. -/
def closedRequest : SubscribeRequest where
  types := some ["resource.changed"]
  sessionId := some (some "sess-1")
  sinceOffset := .null
  limit := .null

/-- The session is closed, so the request is refused. -/
theorem refused_closedRequest : closedRequest.Refused "" watchingHost
    (watchingHost.withTypes closedRequest.publicTypes) := by
  refine Or.inr ⟨watchingHost.withTypes closedRequest.publicTypes, rfl, ?_⟩
  have hfails : (closedRequest.resolveSession (some closedSessions) none "").isOk = false := by
    decide +kernel
  obtain ⟨error, hresolve⟩ :
      ∃ error, closedRequest.resolveSession (some closedSessions) none "" = .error error := by
    cases hresolve : closedRequest.resolveSession (some closedSessions) none "" with
    | error error => exact ⟨error, rfl⟩
    | ok out =>
      rw [hresolve] at hfails
      cases hfails
  exact move_typesSet_of_error hresolve

/-- The handler for completed jobs is still attached, and passes none of them any more. -/
theorem refused_closedRequest_delivers :
    ¬∀ turns, EventsSession.deliveredAfter
        ⟨watchingHost.withTypes closedRequest.publicTypes, [], none⟩ turns =
      EventsSession.deliveredAfter ⟨watchingHost, [], none⟩ turns :=
  (refused_delivers_iff refused_closedRequest).not.mpr (by decide)

/-- A request that is refused may change what is delivered afterwards. -/
theorem refused_delivers_fails :
    ¬∀ (req : SubscribeRequest) (fresh : String) (h h' : StreamHost), req.Refused fresh h h' →
      ∀ turns, EventsSession.deliveredAfter ⟨h', [], none⟩ turns =
        EventsSession.deliveredAfter ⟨h, [], none⟩ turns := by
  intro hall
  have hattached : "job.completed" ∈ watchingHost.conn.subs := by decide
  have hsame := streams_eq_of_deliveredAfter hattached
    (hall closedRequest "" watchingHost _ refused_closedRequest _)
  exact absurd hsame (by decide)

end PalmEngine.Websocket
