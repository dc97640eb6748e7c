import PalmEngine.Events.Journal
import PalmEngine.Lib.Pool
import PalmEngine.Session.Attribution
import PalmEngine.Session.Plane

/-!
# The event stream of a connection

A connection that subscribes gets the events in the journal after an offset, and then the events
that are published. A publication appends its event to the journal, looks up the handlers of its
type and calls them; the handler of the connection queues the event if it passes the filter of the
connection. A subscribe request sets the filter, reads the journal up to a limit, queues the entries
that pass the filter, takes off the old handlers and attaches the new ones, one for each type. A
writer moves what is queued onto the wire.

Publications, the request and the writer take turns, each turn one step.
-/

namespace PalmEngine.Websocket

open PalmEngine.Lib PalmEngine.Events PalmEngine.Session

/-- The event types that may be streamed. -/
def publicEventTypes : List String :=
  ["resource.changed", "flow.session.succeeded", "flow.session.failed", "wizard.commit.succeeded",
    "wizard.commit.failed", "work.intent.enqueued", "work.intent.succeeded", "work.intent.failed",
    "job.completed", "job.status_changed", "inbound.received", "workload.ready", "workload.failed",
    "workload.completed"]

/-- The event types that go into the journal. -/
def journalEventTypes : List String :=
  ["resource.changed", "flow.session.succeeded", "flow.session.failed", "wizard.commit.succeeded",
    "wizard.commit.failed", "work.intent.enqueued", "work.intent.succeeded", "work.intent.failed",
    "job.completed", "job.status_changed"]

/-- The compaction key of a changed resource. -/
def compactKeyForResourceChanged (payload : Payload) : Option String :=
  let ref := payload.either "resource_ref" "definition_name"
  if ref.truthy then
    some ("resource.changed:" ++ ref.str ++ ":" ++ payload.textField "resource_id")
  else none

/-- An event to publish, with the time of its append and an id for an event that has none. -/
structure Publication where
  event : Event
  timestamp : String
  freshId : String

/-- What a publication appends to the journal. -/
def Publication.request (p : Publication) : AppendRequest where
  eventType := p.event.eventType
  payload := p.event.payload
  context := p.event.context.map EventContext.toDict
  timestamp := p.timestamp
  id := if p.event.id = "" then p.freshId else p.event.id
  compactKey :=
    if p.event.eventType = "resource.changed" then compactKeyForResourceChanged p.event.payload
    else none

/-- An event message to the client. -/
structure StreamItem where
  eventType : String
  payload : Payload
  offset : Option ℕ
  id : String
  ts : Option String
  live : Bool
  sessionId : Option String

/-- The message carries the event of a publication. -/
def StreamItem.Carries (item : StreamItem) (p : Publication) : Prop :=
  item.eventType = p.event.eventType ∧ item.payload = p.event.payload ∧
    (item.id = p.event.id ∨ item.id = p.request.id)

/-- A connection: its filter, the event types of its handlers, the messages that are queued and
those on the wire. -/
structure EventsConnection where
  types : Option (List String)
  sessionId : Option String
  subs : List String
  outbound : List StreamItem
  wire : List StreamItem

namespace EventsConnection

/-- The filter passes an event with this payload and context. An empty session id is no filter. -/
def accepts (c : EventsConnection) (sessions : Option SessionStore) (eventType : String)
    (payload : Payload) (context : Option EventContext) : Bool :=
  eventType ∈ publicEventTypes && c.types.all (fun types => eventType ∈ types) &&
    (c.sessionId.filter (· ≠ "")).all fun sid => eventMatchesSession sessions sid payload context

/-- Queue a message. -/
def put (c : EventsConnection) (item : StreamItem) : EventsConnection :=
  { c with outbound := c.outbound ++ [item] }

/-- The handler of the connection. -/
def onLive (c : EventsConnection) (sessions : Option SessionStore) (event : Event) :
    EventsConnection :=
  if c.accepts sessions event.eventType event.payload event.context then
    c.put ⟨event.eventType, event.payload, none, event.id, none, true, c.sessionId⟩
  else c

/-- Queue an entry of the journal, which is told apart by its payload alone. -/
def replay (c : EventsConnection) (sessions : Option SessionStore) (entry : JournalEntry) :
    EventsConnection :=
  if c.accepts sessions entry.eventType entry.payload none then
    c.put ⟨entry.eventType, entry.payload, some entry.offset, entry.id, some entry.timestamp, false,
      c.sessionId⟩
  else c

/-- The writer takes the next message. -/
def write (c : EventsConnection) : Option EventsConnection :=
  match c.outbound with
  | [] => none
  | item :: rest => some { c with outbound := rest, wire := c.wire ++ [item] }

end EventsConnection

/-- A subscribe request: the types and the session if they are there, and the values of the offset
and of the limit. -/
structure SubscribeRequest where
  types : Option (List String)
  sessionId : Option (Option String)
  sinceOffset : Value
  limit : Value

namespace SubscribeRequest

/-- The public types among those of the request. -/
def publicTypes (req : SubscribeRequest) : Option (List String) :=
  req.types.map fun types => types.filter (· ∈ publicEventTypes)

/-- The offset to go on from, zero if the value is not an integer, and none without a value. -/
def after (req : SubscribeRequest) : Option ℤ :=
  if req.sinceOffset = .null then none else some (req.sinceOffset.toInt?.getD 0)

/-- The number of entries to read, none if the value is not an integer. -/
def maxEntries (req : SubscribeRequest) : Option ℤ :=
  if req.limit.truthy then req.limit.toInt? else some 200

/-- The entries that the request reads: none without an offset or with a limit that raises. -/
def catchUp (req : SubscribeRequest) (j : EventJournal) : List JournalEntry :=
  match req.after, req.maxEntries with
  | some after, some limit => j.readAfter after.toNat limit.toNat none
  | _, _ => []

/-- What is told about a session that the request binds. -/
def bindMetadata (sid : String) : Payload :=
  let told : Payload := (Dict.empty.set "via" (.text "events_ws_subscribe")).set "origin"
    (.text "websocket-events")
  if sid.startsWith "sess-svc-" then told else told.set "kind" (.text "outside")

/-- The session of the filter: the one of the request or else that of the connection. A session id
is bound, an instance stands for its owner, and any other text for itself. -/
def resolveSession (req : SubscribeRequest) (sessions : Option SessionStore)
    (default : Option String) (fresh : String) :
    Except SessionPlaneError (Option SessionStore × Option String) :=
  match ((req.sessionId.getD default).map strip).filter (· ≠ "") with
  | none => .ok (sessions, none)
  | some text =>
    match sessions with
    | none => .ok (none, some text)
    | some s =>
      if text.startsWith "sess-" then
        (s.bind (some text) true (bindMetadata text) (some "websocket-events") fresh).map
          fun bound => (some bound.1, some bound.2.sessionId)
      else .ok (some s, some ((s.ownerOf (some text)).getD text))

end SubscribeRequest

/-- What the parties share: the journal, the sessions if there is a service, and the connection. -/
structure StreamHost where
  journal : EventJournal
  sessions : Option SessionStore
  conn : EventsConnection

/-- The filter of the connection passes the event of a publication. -/
def StreamHost.passes (h : StreamHost) (p : Publication) : Bool :=
  h.conn.accepts h.sessions p.event.eventType p.event.payload p.event.context

/-- A publication at one of its steps. The offset is none for a type that is not journaled. -/
inductive PublishProc where
  /-- It has not begun. -/
  | start (p : Publication)
  /-- It is about to look up the handlers. -/
  | appended (p : Publication) (offset : Option ℕ)
  /-- It is about to call handlers of the connection, so many of them. -/
  | dispatching (p : Publication) (offset : Option ℕ) (left : ℕ)
  /-- It has ended. -/
  | finished (p : Publication) (offset : Option ℕ)

namespace PublishProc

/-- The next step of a publication. -/
def move (h : StreamHost) : PublishProc → Option (StreamHost × PublishProc)
  | start p =>
    if p.event.eventType ∈ journalEventTypes then
      some ({ h with journal := h.journal.append p.request }, appended p (some (h.journal.seq + 1)))
    else some (h, appended p none)
  | appended p offset => some (h, dispatching p offset (h.conn.subs.count p.event.eventType))
  | dispatching p offset 0 => some (h, finished p offset)
  | dispatching p offset (left + 1) =>
    some ({ h with conn := h.conn.onLive h.sessions p.event }, dispatching p offset left)
  | finished _ _ => none

/-- The publication and the offset of its entry, once it is appended. -/
def stored : PublishProc → Option (Publication × ℕ)
  | start _ => none
  | appended p offset | dispatching p offset _ | finished p offset => offset.map (p, ·)

/-- A handler of the connection is going to be called, or it is not settled yet. -/
def awaits : PublishProc → Bool
  | start _ | appended _ _ => true
  | dispatching _ _ left => 0 < left
  | finished _ _ => false

end PublishProc

/-- A subscribe request at one of its steps. As history it keeps the head at its reading. -/
inductive SubscribeProc where
  /-- It has not begun. -/
  | start
  /-- It has set the types. -/
  | typesSet
  /-- It has set the session. -/
  | sessionSet
  /-- It is about to queue the entries that it has read. -/
  | replaying (head : ℕ) (left : List JournalEntry)
  /-- It is about to take off the old handlers. -/
  | detaching (head : ℕ)
  /-- It is about to attach handlers for these types. -/
  | attaching (head : ℕ) (left : List String)
  /-- It has ended. -/
  | subscribed (head : ℕ)
  /-- It was refused. -/
  | refused

namespace SubscribeProc

/-- The types to attach handlers for. -/
def watch (c : EventsConnection) : List String :=
  (c.types.getD publicEventTypes).dedup.insertionSort (· ≤ ·)

/-- The next step of a subscribe request. -/
def move (req : SubscribeRequest) (fresh : String) (h : StreamHost) :
    SubscribeProc → Option (StreamHost × SubscribeProc)
  | start =>
    if req.publicTypes = some [] then some (h, refused)
    else some ({ h with conn := { h.conn with types := req.publicTypes } }, typesSet)
  | typesSet =>
    match req.resolveSession h.sessions h.conn.sessionId fresh with
    | .error _ => some (h, refused)
    | .ok (sessions, sid) =>
      some ({ h with sessions := sessions, conn := { h.conn with sessionId := sid } }, sessionSet)
  | sessionSet => some (h, replaying h.journal.seq (req.catchUp h.journal))
  | replaying head [] => some (h, detaching head)
  | replaying head (entry :: left) =>
    some ({ h with conn := h.conn.replay h.sessions entry }, replaying head left)
  | detaching head =>
    match h.conn.subs with
    | [] => some (h, attaching head (watch h.conn))
    | _ :: subs => some ({ h with conn := { h.conn with subs := subs } }, detaching head)
  | attaching head [] => some (h, subscribed head)
  | attaching head (eventType :: left) =>
    some ({ h with conn := { h.conn with subs := h.conn.subs ++ [eventType] } }, attaching head left)
  | subscribed _ | refused => none

/-- The head at the reading of the journal, once it is read. -/
def readTo : SubscribeProc → Option ℕ
  | start | typesSet | sessionSet | refused => none
  | replaying head _ | detaching head | attaching head _ | subscribed head => some head

/-- The entries that are still to be queued. -/
def pending : SubscribeProc → List JournalEntry
  | replaying _ left => left
  | _ => []

/-- It is about to read the journal. -/
def reads : SubscribeProc → Bool
  | sessionSet => true
  | _ => false

/-- The head at the reading, while the handlers are not attached. -/
def unattached : SubscribeProc → Option ℕ
  | replaying head _ | detaching head | attaching head _ => some head
  | _ => none

end SubscribeProc

/-- A connection with its publications and its subscribe request. -/
structure EventStream where
  host : StreamHost
  publishes : List PublishProc
  subscribe : SubscribeProc

/-- A turn of a publication, of the request or of the writer. -/
inductive StreamTurn where
  | publish (i : ℕ)
  | subscribe
  | write

namespace EventStream

/-- The publications by themselves. -/
def publishPool (s : EventStream) : Pool StreamHost PublishProc := ⟨s.host, s.publishes⟩

variable (req : SubscribeRequest) (fresh : String)

/-- A party takes its turn. -/
def step (s : EventStream) : StreamTurn → Option EventStream
  | .publish i => (s.publishPool.step PublishProc.move i).map fun next =>
      ⟨next.shared, next.procs, s.subscribe⟩
  | .subscribe => (s.subscribe.move req fresh s.host).map fun next => ⟨next.1, s.publishes, next.2⟩
  | .write => s.host.conn.write.map fun conn => ⟨{ s.host with conn := conn }, s.publishes, s.subscribe⟩

/-- The request has not begun; a publication has not begun, or has ended and is in the journal if
its type is. -/
structure Starts (s : EventStream) : Prop where
  subscribe_eq : s.subscribe = .start
  offset_eq : ∀ offset entry, s.host.journal.entries.get? offset = some entry → entry.offset = offset
  publishes : ∀ proc ∈ s.publishes, (∃ p, proc = .start p) ∨ ∃ p offset, proc = .finished p offset ∧
    ∀ o ∈ offset, o ≤ s.host.journal.seq ∧
      s.host.journal.entries.get? o = some (p.request.entry o)

/-- The event of a publication is queued or on the wire. -/
def Delivered (s : EventStream) (p : Publication) : Prop :=
  ∃ item ∈ s.host.conn.wire ++ s.host.conn.outbound, item.Carries p

/-- A publication whose event passes the filter, with an offset after that of the request. -/
def Wanted (s : EventStream) (p : Publication) (offset : ℕ) : Prop :=
  (∃ after ∈ req.after, after < offset) ∧ s.host.passes p = true

instance (s : EventStream) (p : Publication) (offset : ℕ) : Decidable (s.Wanted req p offset) :=
  inferInstanceAs (Decidable (_ ∧ _))

/-- Every event that is wanted and whose publication has ended is queued or on the wire. -/
def CatchesUp (s : EventStream) : Prop :=
  ∀ p offset, .finished p (some offset) ∈ s.publishes → s.Wanted req p offset → s.Delivered p

/-- The request reads every wanted entry: they are among the first ones, as many as the limit, and
pass the filter by their payloads alone. -/
def ReadsWanted (s : EventStream) : Prop :=
  ∀ proc ∈ s.publishes, ∀ stored ∈ proc.stored, s.Wanted req stored.1 stored.2 →
    stored.2 ∈ (req.catchUp s.host.journal).map JournalEntry.offset ∧
      s.host.conn.accepts s.host.sessions stored.1.event.eventType stored.1.event.payload none = true

instance (s : EventStream) : Decidable (s.ReadsWanted req) :=
  inferInstanceAs (Decidable (∀ proc ∈ s.publishes, ∀ stored ∈ proc.stored, _ → _ ∧ _))

/-- A publication that looks up its handlers, is wanted and was not in the journal when it was read
finds a handler of the connection. -/
def FindsHandler (s : EventStream) : PublishProc → Prop
  | .appended p (some offset) => ∀ head ∈ s.subscribe.unattached, head < offset →
      s.Wanted req p offset → p.event.eventType ∈ s.host.conn.subs
  | _ => True

instance (s : EventStream) : ∀ proc, Decidable (s.FindsHandler req proc)
  | .appended p (some offset) => inferInstanceAs (Decidable (∀ head ∈ s.subscribe.unattached,
      head < offset → s.Wanted req p offset → p.event.eventType ∈ s.host.conn.subs))
  | .start _ | .appended _ none | .dispatching _ _ _ | .finished _ _ => .isTrue trivial

/-- The condition on a turn: the request reads every wanted entry, and from its reading on until its
handlers are attached no other wanted event looks for them in vain. -/
def Covered (s : EventStream) : StreamTurn → EventStream → Prop
  | .publish i, _ => ∀ proc ∈ s.publishes[i]?, s.FindsHandler req proc
  | .subscribe, _ => s.subscribe.reads → s.ReadsWanted req
  | .write, _ => True

instance (s : EventStream) : ∀ turn next, Decidable (s.Covered req turn next)
  | .publish i, _ => inferInstanceAs (Decidable (∀ proc ∈ s.publishes[i]?, s.FindsHandler req proc))
  | .subscribe, _ => inferInstanceAs (Decidable (s.subscribe.reads → s.ReadsWanted req))
  | .write, _ => .isTrue trivial

end EventStream

end PalmEngine.Websocket
