import PalmEngine.Events.Engine
import PalmEngine.Session.Store

/-!
# The session of an event

An event belongs to the session that its context names, or that its payload names or owns the
instance of, and to every session that has an instance of its payload attached. Without a session
service the session ids of the payload and of the context are compared.
-/

namespace PalmEngine.Session

open PalmEngine.Lib PalmEngine.Events

namespace SessionStore

/-- The id of the session that owns the instance of a text. -/
def ownerOf (s : SessionStore) (text : Option String) : Option String :=
  (((text.map strip).filter (· ≠ "")).bind s.sessionIdForInstance).bind fun sid =>
    (s.get sid).map SessionRecord.sessionId

/-- The session that the payload names under its session key: a session id as it is, an instance by
its owner. -/
def sessionOfKey (s : SessionStore) (payload : Payload) : Option String :=
  match ((payload.str? "session_id").map strip).filter (· ≠ "") with
  | none => none
  | some text => if text.startsWith "sess-" then some text else s.ownerOf (some text)

/-- The session of an event: by its context, by its payload, by the instance of the payload and by
that of the context. -/
def attributedSessionId (s : SessionStore) (payload : Payload) (context : Option EventContext) :
    Option String :=
  match (context.bind EventContext.sessionId).filter (· ≠ "") with
  | some sid => (some (strip sid)).filter (· ≠ "")
  | none =>
    (s.sessionOfKey payload).or <| (s.ownerOf (payload.str? "instance_id")).or <|
      (s.ownerOf (payload.str? "instance")).or <| s.ownerOf (context.bind EventContext.instanceId)

/-- The event belongs to the session. -/
def eventMatches (s : SessionStore) (sessionId : String) (payload : Payload)
    (context : Option EventContext) : Bool :=
  let sid := strip sessionId
  if sid = "" then false
  else if s.attributedSessionId payload context = some sid then true
  else match s.get sid with
    | none => false
    | some record => ["instance_id", "instance", "session_id"].any fun key =>
        (payload.str? key).any fun text => strip text ∈ record.instanceIds

end SessionStore

/-- The event belongs to the session, as far as it can be told without a session service. -/
def eventMatchesSession (sessions : Option SessionStore) (sessionId : String) (payload : Payload)
    (context : Option EventContext) : Bool :=
  match sessions with
  | none => payload.textField "session_id" = sessionId ∨
      (context.bind EventContext.sessionId).getD "" = sessionId
  | some s => s.eventMatches sessionId payload context

end PalmEngine.Session
