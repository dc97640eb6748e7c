import PalmEngine.Context.State
import PalmEngine.Lib.Runs
import PalmEngine.Session.BoundSurface

/-!
# The binding of a connection

A connection holds a bound surface and mirrors of its session and instance. Clients say hello, bind
and dispatch; each of these may name a session, an instance or a flow, and the session service is
asked for a surface. What a dispatch answers names the session and the instance it was about, and
the connection takes them over.

A named session is of the system's shape, or it is taken for an instance. Without a service the
mirrors alone are set.
-/

namespace PalmEngine.Websocket

open Context Lib Session

/-- What a connection is bound to. -/
structure ConnectionState where
  bound : Option BoundSurface := none
  sessionId : Option String := none
  instanceId : Option String := none
  flowId : Option String := none
  sessionCreated : Bool := false
  transportSessionHint : Option String := none

namespace ConnectionState

variable (c : ConnectionState)

/-- Take over a bound surface. -/
def applyBound (bound : BoundSurface) (created : Bool) : ConnectionState :=
  { c with
    bound := some bound
    sessionId := some bound.sessionId
    instanceId := bound.instanceId.or c.instanceId
    sessionCreated := created }

/-- Drop everything, the hint of the transport included. -/
def clearBound (c : ConnectionState) : ConnectionState :=
  { c with
    bound := none
    sessionId := none
    instanceId := none
    flowId := none
    sessionCreated := false
    transportSessionHint := none }

/-- A new connection, which may have a session that the transport hints at. -/
def make (hint : Option String) : ConnectionState := { transportSessionHint := hint }

/-- What is reported of the binding. -/
def boundSnapshot : Option String × Option String × Option String × Option BoundSurface :=
  (c.sessionId, c.instanceId, c.flowId, c.bound)

end ConnectionState

/-- The session that the transport hints at: by a header, or else by a cookie. -/
def extractSystemSessionHint (header cookie : Option String) : Option String :=
  (given header).or (given cookie)

/-- A connection and the session service that its messages find, if there is one. -/
structure Binding where
  conn : ConnectionState
  door : Option SessionService

/-- What a client is answered. -/
inductive ServerFrame where
  | hello (bound : Option String × Option String × Option String × Option BoundSurface)
  | pong
  | bound (bound : Option String × Option String × Option String × Option BoundSurface)
    (created : Bool)
  | turn (bound : Option String × Option String × Option String × Option BoundSurface)
  | error (code : String)

/-- An error of the session plane. -/
def isPlaneError : BindError → Bool
  | .service (.plane _) => true
  | _ => false

/-- The session is not there or closed. -/
def isSessionGone : BindError → Bool
  | .service (.plane (.notFound _)) => true
  | .service (.plane (.closed _)) => true
  | _ => false

/-- The code that a client is told for an error of the session plane. -/
def bindErrorCode : BindError → String
  | .service (.plane (.closed _)) => "session_closed"
  | .service (.plane (.notFound _)) => "session_not_found"
  | _ => "session_bind"

namespace Binding

/-- Bind the connection to a session, or to a new one, by the session service. The instance is the
given one or the one of the connection. -/
def serviceBindInto (s : Binding) (sessionId : Option String) (create : Bool)
    (instanceId : Option String) (fresh : String) : Except BindError Unit × Binding :=
  match s.door with
  | none =>
    match sessionId.filter (· ≠ "") with
    | none => (.ok (), s)
    | some sid => (.ok (), { s with conn := { s.conn with
        sessionId := some sid
        sessionCreated := false
        instanceId := (instanceId.filter (· ≠ "")).or s.conn.instanceId } })
  | some svc =>
    let iid := instanceId.or s.conn.instanceId
    let hint := given sessionId
    let existed := looksLikeSystemSessionId hint && (hint.bind svc.get).isSome
    let via := (Dict.empty : Events.Payload).set "via" (.text "ws_bind")
    match svc.bindSurface hint create via (some "websocket") (some "websocket") iid iid.isNone
        fresh with
    | (.error e, svc) => (.error e, { s with door := some svc })
    | (.ok bound, svc) => (.ok (), ⟨s.conn.applyBound bound !existed, some svc⟩)

/-- Ensure that the connection has a session: its own if that is open, the one that the transport
hinted at, or a new one. -/
def ensureSystemSession (s : Binding) (create : Bool) (fresh : String) :
    Except BindError Unit × Binding :=
  match s.conn.sessionId.filter (· ≠ "") with
  | some sid =>
    match s.door with
    | none => (.ok (), s)
    | some svc =>
      match svc.bindSurface (some sid) false .empty (some "websocket") (some "websocket")
          s.conn.instanceId s.conn.instanceId.isNone fresh with
      | (.ok bound, svc) => (.ok (), ⟨s.conn.applyBound bound false, some svc⟩)
      | (.error e, svc) =>
        let s := { s with door := some svc }
        if isSessionGone e then
          if create then s.serviceBindInto none true none fresh else (.ok (), s)
        else (.error e, s)
  | none =>
    match s.conn.transportSessionHint.filter (· ≠ "") with
    | some hint =>
      match s.serviceBindInto (some hint) create none fresh with
      | (.ok (), s) =>
        if (s.conn.sessionId.filter (· ≠ "")).isSome || !create then (.ok (), s)
        else s.serviceBindInto none true none fresh
      | (.error e, s) =>
        if isPlaneError e && create then s.serviceBindInto none true none fresh else (.error e, s)
    | none => if create then s.serviceBindInto none true none fresh else (.ok (), s)

/-- Bring the bound surface in line with the mirrors: it is dropped if it has another session, and has
the instance of the mirror otherwise. -/
def alignBound (s : Binding) : Binding :=
  let bound := (s.conn.bound.filter fun b => b.sessionId = s.conn.sessionId.getD "").map
    fun b => b.withInstance s.conn.instanceId
  { s with conn := { s.conn with bound } }

/-- Bind the connection to its session again if it is not bound. An error of the service is passed
over. -/
def rebind (s : Binding) (sid fresh : String) : Binding :=
  if s.conn.bound.isNone then (s.serviceBindInto (some sid) false s.conn.instanceId fresh).2 else s

/-- Bring the bound surface in line with the mirrors, put the focus of the session on the instance, and
bind the connection again if that fails or there is no instance. -/
def syncBoundFromMirrors (s : Binding) (fresh : String) : Binding :=
  let s := s.alignBound
  match s.door, s.conn.sessionId.filter fun sid => looksLikeSystemSessionId (some sid) with
  | some svc, some sid =>
    match s.conn.instanceId.filter (· ≠ "") with
    | none => s.rebind sid fresh
    | some iid =>
      match svc.focus sid iid with
      | (.ok bound, svc) => ⟨s.conn.applyBound bound false, some svc⟩
      | (.error _, svc) => { s with door := some svc }.rebind sid fresh
  | _, _ => s

end Binding

/-- A connection that is served, for which a session is ensured before its first message. It is lost
if that fails. -/
def runAssistWebsocket (hint : Option String) (door : Option SessionService) (fresh : String) :
    Option ConnectionState :=
  match Binding.ensureSystemSession ⟨ConnectionState.make hint, door⟩ true fresh with
  | (.ok (), s) => some s.conn
  | (.error _, _) => none

section Messages

variable (shown : Value → String) (otherTruthy : ℕ → Bool)

/-- A field of a message: absent, without a text or with one. -/
def bindField (message : List (String × Value)) (name : String) : Option (Option String) :=
  (valueOf? name message).map fun v => if v.isNull then none else given (some (textOf shown v))

/-- Whether a message allows a session to be created. -/
def createFlag (message : List (String × Value)) : Bool :=
  match valueOf? "create" message with
  | some (.bool false) => false
  | some (.str "false") => false
  | some (.str "0") => false
  | some (.int 0) => false
  | _ => true

/-- Whether a message asks for everything to be dropped. -/
def clearFlag (message : List (String × Value)) : Bool :=
  match valueOf? "clear" message with
  | some (.bool true) => true
  | some (.str "true") => true
  | some (.str "1") => true
  | some (.int 1) => true
  | _ => false

/-- A value that is a list. -/
def isArray : Value → Bool
  | .list _ => true
  | _ => false

/-- The text of a value that is not null. -/
def valueText (v : Option Value) : Option String :=
  v.bind fun v => if v.isNull then none else some (textOf shown v)

/-- The references of an answer, if it has any. -/
def turnRefs (shaped : List (String × Value)) : Option (List (String × Value)) :=
  (valueOf? "refs" shaped).bind Value.asDict

/-- The session that an answer names, itself or by its references. -/
def turnSession (shaped : List (String × Value)) : Option String :=
  let told := valueText shown (valueOf? "session_id" shaped)
  let told :=
    if looksLikeSystemSessionId told then told
    else (turnRefs shaped).elim told fun refs => valueText shown (valueOf? "session_id" refs)
  (told.filter fun text => looksLikeSystemSessionId (some text)).map strip

/-- The instance that an answer names, itself or by its references. -/
def turnInstance (shaped : List (String × Value)) : Option String :=
  let names (v : Option Value) : Bool :=
    v.any (truthy otherTruthy) && !looksLikeSystemSessionId (valueText shown v)
  let told := valueOf? "instance_id" shaped
  let told := if names told then told else (turnRefs shaped).elim told (valueOf? "instance_id")
  if names told then valueText shown told else none

/-- What comes of a dispatch: the session service after it, and the code of an error or the answer
and the flow that it tells. -/
structure DispatchOutcome where
  door : Option SessionService
  turn : Except String (List (String × Value) × Option String)

namespace Binding

variable (s : Binding)

/-- Apply the session of a message: null drops the session, and the instance unless the message has
one. What has not the shape of a session is an instance. -/
def applySessionField (message : List (String × Value)) (create : Bool) (fresh : String) :
    Except BindError Unit × Binding :=
  match bindField shown message "session_id" with
  | none => (.ok (), s)
  | some none => (.ok (), { s with conn := { s.conn with
      bound := none
      sessionId := none
      sessionCreated := false
      instanceId :=
        if (bindField shown message "instance_id").isNone then none else s.conn.instanceId } })
  | some (some sid) =>
    if looksLikeSystemSessionId (some sid) then s.serviceBindInto (some sid) create none fresh
    else (.ok (), { s with conn := { s.conn with instanceId := some sid } })

/-- Apply the instance of a message to the mirror and to the bound surface. -/
def applyInstanceField (message : List (String × Value)) : Binding :=
  match bindField shown message "instance_id" with
  | none => s
  | some iid => { s with conn := { s.conn with
      instanceId := iid
      bound := s.conn.bound.map fun b => b.withInstance iid } }

/-- Apply the flow of a message. -/
def applyFlowField (message : List (String × Value)) : Binding :=
  match bindField shown message "flow_id" with
  | none => s
  | some fid => { s with conn := { s.conn with flowId := fid } }

/-- Apply the fields of a message, the session first. -/
def applyMessageBindFields (message : List (String × Value)) (create : Bool) (fresh : String) :
    Except BindError Unit × Binding :=
  match s.applySessionField shown message create fresh with
  | (.error e, s) => (.error e, s)
  | (.ok (), s) => (.ok (), (s.applyInstanceField shown message).applyFlowField shown message)

/-- Say hello: apply the fields and ensure a session. -/
def handleHello (message : List (String × Value)) (fresh : String) :
    Except BindError ServerFrame × Binding :=
  match s.applyMessageBindFields shown message true fresh with
  | (.error e, s) => (.error e, s)
  | (.ok (), s) =>
    match s.ensureSystemSession true fresh with
    | (.error e, s) => (.error e, s)
    | (.ok (), s) => (.ok (.hello s.conn.boundSnapshot), s)

/-- Bind: drop everything if that is asked for, apply the fields, and ensure a session if none was
named and one may be created. An error of the plane is answered. -/
def handleBind (message : List (String × Value)) (fresh : String) :
    Except BindError ServerFrame × Binding :=
  let s := if clearFlag message then { s with conn := s.conn.clearBound } else s
  match s.applyMessageBindFields shown message (createFlag message) fresh with
  | (.error e, s) => if isPlaneError e then (.ok (.error (bindErrorCode e)), s) else (.error e, s)
  | (.ok (), s) =>
    if s.conn.sessionId.isNone && (bindField shown message "session_id").isNone &&
        createFlag message then
      match s.ensureSystemSession true fresh with
      | (.error e, s) => (.error e, s)
      | (.ok (), s) => (.ok (.bound s.conn.boundSnapshot s.conn.sessionCreated), s)
    else (.ok (.bound s.conn.boundSnapshot s.conn.sessionCreated), s)

/-- Take over what a dispatch has answered: the session, if the answer or its references name one,
the instance, if they name one, and the flow. -/
def refreshFromTurn (shaped : List (String × Value)) (flow : Option String) (fresh : String) :
    Binding :=
  let s := { s with conn := { s.conn with
    sessionId := (turnSession shown shaped).or s.conn.sessionId
    instanceId := (turnInstance shown otherTruthy shaped).or s.conn.instanceId } }
  let s := s.syncBoundFromMirrors fresh
  { s with conn := { s.conn with flowId := (flow.filter (· ≠ "")).or s.conn.flowId } }

/-- Dispatch: ensure a session, and take over what is answered. An error of the plane before the
dispatch, and any error of the dispatch itself, is answered. -/
def handleDispatch (message : List (String × Value)) (hasContext : Bool) (fresh : String)
    (outcome : DispatchOutcome) : Except BindError ServerFrame × Binding :=
  if !hasContext then (.ok (.error "unavailable"), s)
  else if (valueOf? "params" message).any fun v => !v.isNull && v.asDict.isNone then
    (.ok (.error "validation"), s)
  else
    match s.ensureSystemSession true fresh with
    | (.error e, s) => if isPlaneError e then (.ok (.error "session_bind"), s) else (.error e, s)
    | (.ok (), s) =>
      if (valueOf? "path" message).any fun v => !v.isNull && !isArray v then
        (.ok (.error "validation"), s)
      else
        let s := { s with door := outcome.door }
        match outcome.turn with
        | .error code => (.ok (.error code), s)
        | .ok (shaped, flow) =>
          let s := s.refreshFromTurn shown otherTruthy shaped flow fresh
          (.ok (.turn s.conn.boundSnapshot), s)

end Binding

/-- A message with what it meets: the session service, whether there is a context, the id of a session
that is created, and what a dispatch answers. -/
structure ClientMessage where
  fields : List (String × Value)
  door : Option SessionService
  hasContext : Bool
  fresh : String
  outcome : DispatchOutcome

/-- Handle a message of a client. -/
def handleClientMessage (c : ConnectionState) (message : ClientMessage) :
    Except BindError ServerFrame × Binding :=
  let s : Binding := ⟨c, message.door⟩
  match (valueOf? "op" message.fields).bind Value.asStr with
  | some "hello" => s.handleHello shown message.fields message.fresh
  | some "ping" => (.ok .pong, s)
  | some "bind" => s.handleBind shown message.fields message.fresh
  | some "dispatch" => s.handleDispatch shown otherTruthy message.fields message.hasContext
      message.fresh message.outcome
  | _ => (.ok (.error "unknown_op"), s)

/-- The connection after a message that is answered. It is lost by any other. -/
def ConnectionState.step (c : ConnectionState) (message : ClientMessage) :
    Option ConnectionState :=
  match handleClientMessage shown otherTruthy c message with
  | (.ok _, s) => some s.conn
  | (.error _, _) => none

end Messages

end PalmEngine.Websocket
