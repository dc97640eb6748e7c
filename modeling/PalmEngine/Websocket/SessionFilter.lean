import PalmEngine.Websocket.EventStream

/-!
# The session filter of a connection

The handler of a connection tells the session of an event by its context and by its payload, the
catch-up by the payload alone. The two select the same events as long as the context tells nothing
of the session of the filter that the payload does not tell.
-/

namespace PalmEngine.Session

open PalmEngine.Lib PalmEngine.Events

namespace SessionStore

/-- The session that the payload of an event names or owns the instance of. -/
def payloadSession (s : SessionStore) (payload : Payload) : Option String :=
  (s.sessionOfKey payload).or <| (s.ownerOf (payload.str? "instance_id")).or <|
    s.ownerOf (payload.str? "instance")

/-- The payload names what is attached to the session. -/
def attaches (s : SessionStore) (sid : String) (payload : Payload) : Bool :=
  (s.get sid).any fun record => ["instance_id", "instance", "session_id"].any fun key =>
    (payload.str? key).any fun text => strip text ∈ record.instanceIds

/-- The context tells nothing of a session that the payload does not tell: a session that it names
is the one exactly if the payload tells so, and an instance that it names counts only if the payload
tells no session. -/
def AddsNothing (s : SessionStore) (sid : String) (payload : Payload)
    (context : Option EventContext) : Prop :=
  match (context.bind EventContext.sessionId).filter (· ≠ "") with
  | some named => strip named = sid ↔ s.payloadSession payload = some sid
  | none => (s.payloadSession payload).isSome = true ∨
      s.ownerOf (context.bind EventContext.instanceId) ≠ some sid

/-- Without a context an event is attributed by its payload. -/
theorem attributedSessionId_none (s : SessionStore) (payload : Payload) :
    s.attributedSessionId payload none = s.payloadSession payload := by
  simp [attributedSessionId, payloadSession, ownerOf]

/-- An event is attributed by its context, then by its payload, then by the context's instance. -/
theorem attributedSessionId_eq (s : SessionStore) (payload : Payload)
    (context : Option EventContext) :
    s.attributedSessionId payload context =
      match (context.bind EventContext.sessionId).filter (· ≠ "") with
      | some named => (some (strip named)).filter (· ≠ "")
      | none => (s.payloadSession payload).or (s.ownerOf (context.bind EventContext.instanceId)) := by
  unfold attributedSessionId payloadSession
  cases (context.bind EventContext.sessionId).filter (· ≠ "") with
  | some named => rfl
  | none => simp only [Option.or_assoc]

/-- An event belongs to the session that it is attributed to and to one it is attached to. -/
theorem eventMatches_iff {s : SessionStore} {sessionId : String} {payload : Payload}
    {context : Option EventContext} :
    s.eventMatches sessionId payload context = true ↔ strip sessionId ≠ "" ∧
      (s.attributedSessionId payload context = some (strip sessionId) ∨
        s.attaches (strip sessionId) payload = true) := by
  unfold eventMatches attaches
  by_cases hsid : strip sessionId = ""
  · simp [hsid]
  · cases hget : s.get (strip sessionId) <;> simp [hsid, hget]

/-- The payload alone tells whether an event belongs to a session if and only if it is attached to
it or the context adds nothing. -/
theorem eventMatches_none_iff (s : SessionStore) (sessionId : String) (payload : Payload)
    (context : Option EventContext) :
    (s.eventMatches sessionId payload none = true ↔ s.eventMatches sessionId payload context = true) ↔
      strip sessionId = "" ∨ s.attaches (strip sessionId) payload = true ∨
        s.AddsNothing (strip sessionId) payload context := by
  rw [eventMatches_iff, eventMatches_iff, attributedSessionId_none, attributedSessionId_eq]
  unfold AddsNothing
  by_cases hsid : strip sessionId = ""
  · simp [hsid]
  cases s.attaches (strip sessionId) payload with
  | true => simp
  | false =>
    cases (context.bind EventContext.sessionId).filter (· ≠ "") with
    | some named =>
      have hnamed : (some (strip named)).filter (· ≠ "") = some (strip sessionId) ↔
          strip named = strip sessionId := by
        simp only [Option.filter_eq_some_iff, Option.some.injEq, decide_eq_true_eq]
        exact ⟨fun h => h.1, fun h => ⟨h, hsid⟩⟩
      simp only [hsid, hnamed, Bool.false_eq_true, or_false, false_or, ne_eq, not_false_eq_true,
        true_and]
      exact iff_comm
    | none => cases s.payloadSession payload <;> simp [hsid]

end SessionStore

end PalmEngine.Session

namespace PalmEngine.Websocket

open PalmEngine.Lib PalmEngine.Events PalmEngine.Session

/-- The context of an event tells nothing of a session that its payload does not tell. Without a
session service it must not name the session unless the payload does. -/
def ToldByPayload (sessions : Option SessionStore) (sid : String) (payload : Payload)
    (context : Option EventContext) : Prop :=
  match sessions with
  | none => payload.textField "session_id" = sid ∨
      (context.bind EventContext.sessionId).getD "" ≠ sid
  | some s => strip sid = "" ∨ s.attaches (strip sid) payload = true ∨
      s.AddsNothing (strip sid) payload context

/-- The payload alone tells whether an event belongs to a session if and only if the context adds
nothing. -/
theorem eventMatchesSession_none_iff (sessions : Option SessionStore) {sid : String} (hsid : sid ≠ "")
    (payload : Payload) (context : Option EventContext) :
    (eventMatchesSession sessions sid payload none = true ↔
        eventMatchesSession sessions sid payload context = true) ↔
      ToldByPayload sessions sid payload context := by
  cases sessions with
  | some s => exact s.eventMatches_none_iff sid payload context
  | none =>
    unfold eventMatchesSession ToldByPayload
    simp only [Option.bind_none, Option.getD_none, Ne.symm hsid, or_false, decide_eq_true_eq]
    tauto

namespace EventsConnection

variable {c : EventsConnection} {sessions : Option SessionStore}

/-- The connection has queued something. -/
def Queues (c c' : EventsConnection) : Prop := c.outbound.length < c'.outbound.length

/-- The handler queues an event exactly if it passes the filter. -/
theorem queues_onLive_iff (event : Event) : c.Queues (c.onLive sessions event) ↔
    c.accepts sessions event.eventType event.payload event.context = true := by
  unfold onLive Queues
  split <;> simp_all [put]

/-- The catch-up queues an entry exactly if its payload passes the filter. -/
theorem queues_replay_iff (entry : JournalEntry) : c.Queues (c.replay sessions entry) ↔
    c.accepts sessions entry.eventType entry.payload none = true := by
  unfold replay Queues
  split <;> simp_all [put]

/-- The connection streams events of the type. -/
def streams (c : EventsConnection) (eventType : String) : Bool :=
  eventType ∈ publicEventTypes && c.types.all fun types => eventType ∈ types

/-- The catch-up selects the journaled copy of an event if and only if the handler selects the
event, exactly for an event of a type that is not streamed and for one whose payload tells what
there is to tell of the session of the filter. -/
theorem replay_agrees_iff (c : EventsConnection) (sessions : Option SessionStore) (p : Publication)
    (offset : ℕ) :
    (c.Queues (c.replay sessions (p.request.entry offset)) ↔
        c.Queues (c.onLive sessions p.event)) ↔
      (c.streams p.event.eventType = true → ∀ sid ∈ c.sessionId.filter (· ≠ ""),
        ToldByPayload sessions sid p.event.payload p.event.context) := by
  rw [queues_onLive_iff, queues_replay_iff]
  have haccepts : ∀ context, c.accepts sessions p.event.eventType p.event.payload context =
      (c.streams p.event.eventType && (c.sessionId.filter (· ≠ "")).all fun sid =>
        eventMatchesSession sessions sid p.event.payload context) := fun _ => rfl
  change (c.accepts sessions p.event.eventType p.event.payload none = true ↔ _) ↔ _
  rw [haccepts, haccepts]
  cases c.streams p.event.eventType with
  | false => simp
  | true =>
    cases hfilter : c.sessionId.filter (· ≠ "") with
    | none => simp
    | some sid =>
      have hsid : sid ≠ "" := by simpa using (Option.filter_eq_some_iff.mp hfilter).2
      have hiff := eventMatchesSession_none_iff sessions hsid p.event.payload p.event.context
      simpa using hiff

/-- An event that names its session in its context only is streamed and not caught up on. -/
theorem replay_agrees_fails :
    let c : EventsConnection := ⟨none, some "sess-1", [], [], []⟩
    let event : Event := { Event.bare "job.completed" "a" with
      context := some ⟨none, none, some "sess-1", none, none, .empty⟩ }
    c.Queues (c.onLive (some .empty) event) ∧
      ¬ c.Queues (c.replay (some .empty) ((Publication.mk event "" "").request.entry 1)) := by
  refine ⟨(queues_onLive_iff _).mpr (by decide +kernel), fun h => ?_⟩
  exact absurd ((queues_replay_iff _).mp h) (by decide +kernel)

end EventsConnection

end PalmEngine.Websocket
