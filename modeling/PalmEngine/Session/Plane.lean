import PalmEngine.Session.Store

/-!
# The session plane

Sessions are opened, bound by surfaces, given instances, focused on one of them, closed and
deleted. An instance is attached to one session at a time. A closed session accepts no instance
and no focus, keeps those it has until they are detached, and is not opened again. Calls here
run one after the other.
-/

namespace PalmEngine.Session

open PalmEngine.Lib PalmEngine.Events

/-- Why a call of the plane fails. -/
inductive SessionPlaneError where
  /-- There is no session of this id. -/
  | notFound (sessionId : String)
  /-- The session is closed. -/
  | closed (sessionId : String)
  /-- The session to open exists and is closed. -/
  | existsClosed (sessionId : String)
  /-- A surface that may not create a session named none. -/
  | bindWithoutId
  /-- The instance id is empty. -/
  | instanceIdRequired
  /-- The instance belongs to another session. -/
  | alreadyAttached (instanceId owner : String)
  /-- The instance is not attached to the session. -/
  | notAttached (instanceId sessionId : String)
  deriving DecidableEq, Repr

/-- What a surface gets for its session. -/
structure SessionBind where
  sessionId : String
  status : SessionStatus
  created : Bool
  surface : Option String
  instanceIds : List String
  activeInstanceId : Option String

/-- The bind of a record. Without a surface it is the one that the record tells. -/
def SessionBind.fromRecord (r : SessionRecord) (created : Bool) (surface : Option String) :
    SessionBind where
  sessionId := r.sessionId
  status := r.status
  created := created
  surface := surface.or <|
    let told := r.metadata.either "surface" "last_surface"
    if told.truthy then some told.str else none
  instanceIds := r.instanceIds
  activeInstanceId := r.activeInstanceId

namespace SessionRecord

/-- The record with one more instance, which comes into focus; the first makes an open session
active. An instance that is there keeps the focus unless there is none. -/
def attach (r : SessionRecord) (i : String) : Option SessionRecord :=
  if i ∈ r.instanceIds then
    match r.activeInstanceId with
    | none => some { r with activeInstanceId := some i }
    | some active =>
      if active ∈ r.instanceIds then none else some { r with activeInstanceId := some i }
  else some { r with
    instanceIds := r.instanceIds ++ [i]
    activeInstanceId := some i
    status := if r.status = .opened then .active else r.status }

/-- The record without an instance. A focus that is not attached any more moves to the last
instance. -/
def detach (r : SessionRecord) (i : String) : Option SessionRecord :=
  if i ∉ r.instanceIds then none
  else
    let rest := r.instanceIds.filter (· ≠ i)
    some { r with
      instanceIds := rest
      activeInstanceId := match r.activeInstanceId with
        | none => none
        | some active => if active = i ∨ active ∉ rest then rest.getLast? else some active }

/-- What attaching writes: the instance, and no other but those listed. -/
theorem attach_spec {r r' : SessionRecord} {i : String} (h : r.attach i = some r') :
    r'.sessionId = r.sessionId ∧ i ∈ r'.instanceIds ∧
      ∀ j ∈ r'.instanceIds, j ∈ r.instanceIds ∨ j = i := by
  unfold attach at h
  split at h
  · rename_i hi
    split at h
    · cases h
      exact ⟨rfl, hi, fun _ => .inl⟩
    · split at h <;> cases h
      exact ⟨rfl, hi, fun _ => .inl⟩
  · cases h
    exact ⟨rfl, by simp, fun j hj => by simpa using hj⟩

/-- What detaching writes: none but those listed. -/
theorem detach_spec {r r' : SessionRecord} {i : String} (h : r.detach i = some r') :
    r'.sessionId = r.sessionId ∧ ∀ j ∈ r'.instanceIds, j ∈ r.instanceIds := by
  unfold detach at h
  split at h <;> cases h
  exact ⟨rfl, fun j hj => (List.mem_filter.mp hj).1⟩

/-- The record with its focus on an attached instance. -/
def focus (r : SessionRecord) (i : String) : Option SessionRecord :=
  if r.activeInstanceId = some i then none else some { r with activeInstanceId := some i }

/-- The record without focus. -/
def unfocus (r : SessionRecord) : Option SessionRecord :=
  if r.activeInstanceId = none then none else some { r with activeInstanceId := none }

/-- The record with metadata merged into its own. -/
def mergeMetadata (r : SessionRecord) (metadata : Payload) : Option SessionRecord :=
  let changed := metadata.entries.filter fun e => r.metadata.field e.1 ≠ e.2
  if changed.isEmpty then none
  else some { r with metadata := changed.foldl (fun d e => d.set e.1 e.2) r.metadata }

/-- The record closed. -/
def close (r : SessionRecord) : Option SessionRecord :=
  if r.status = .closed then none else some { r with status := .closed }

end SessionRecord

namespace SessionStore

/-- Write the changed record, if it has changed. -/
def putSome (s : SessionStore) (r : SessionRecord) : Option SessionRecord →
    SessionStore × SessionRecord
  | none => (s, r)
  | some changed => (s.put changed, changed)

/-- Read a record that must be there. -/
def require (s : SessionStore) (sid : String) : Except SessionPlaneError SessionRecord :=
  match s.get sid with
  | none => .error (.notFound sid)
  | some r => .ok r

/-- Read a record that must be there and not be closed. -/
def requireOpen (s : SessionStore) (sid : String) : Except SessionPlaneError SessionRecord :=
  match s.require sid with
  | .error error => .error error
  | .ok r => if r.status = .closed then .error (.closed sid) else .ok r

/-- Open a session with the given id, or a fresh one, unless it is there. -/
def openSession (s : SessionStore) (sessionId : Option String) (metadata : Payload)
    (fresh : String) : Except SessionPlaneError (SessionStore × SessionRecord) :=
  let given := strip (sessionId.getD "")
  let sid := if given = "" then fresh else given
  match s.get sid with
  | some existing =>
    if existing.status = .closed then .error (.existsClosed sid) else .ok (s, existing)
  | none =>
    let record := ⟨sid, .opened, [], none, metadata⟩
    .ok (s.put record, record)

/-- The metadata of a bind, with its surface. -/
def bindMetadata (metadata : Payload) : Option String → Payload
  | none => metadata
  | some surface => (metadata.setDefault "surface" (.text surface)).set "last_surface" (.text surface)

/-- Find or create the session of a surface. -/
def bind (s : SessionStore) (sessionId : Option String) (create : Bool) (metadata : Payload)
    (surface : Option String) (fresh : String) :
    Except SessionPlaneError (SessionStore × SessionBind) :=
  let surf := (surface.map strip).filter (· ≠ "")
  let told := bindMetadata metadata surf
  let created (sid : Option String) := (s.openSession sid told fresh).map fun (s, r) =>
    (s, SessionBind.fromRecord r true surf)
  match (sessionId.map strip).filter (· ≠ "") with
  | none => if create then created none else .error .bindWithoutId
  | some sid =>
    match s.get sid with
    | none => if create then created (some sid) else .error (.notFound sid)
    | some existing =>
      if existing.status = .closed then .error (.closed sid)
      else
        let (s, r) := s.putSome existing (existing.mergeMetadata told)
        .ok (s, SessionBind.fromRecord r false surf)

/-- Attach an instance to a session. -/
def attachInstance (s : SessionStore) (sid instanceId : String) :
    Except SessionPlaneError (SessionStore × SessionRecord) :=
  let iid := strip instanceId
  if iid = "" then .error .instanceIdRequired
  else match s.requireOpen sid with
    | .error error => .error error
    | .ok r =>
      match (s.sessionIdForInstance iid).filter (· ≠ r.sessionId) with
      | some owner => .error (.alreadyAttached iid owner)
      | none => .ok (s.putSome r (r.attach iid))

/-- Detach an instance from a session, which may be closed. -/
def detachInstance (s : SessionStore) (sid instanceId : String) :
    Except SessionPlaneError (SessionStore × SessionRecord) :=
  let iid := strip instanceId
  if iid = "" then .error .instanceIdRequired
  else (s.require sid).map fun r => s.putSome r (r.detach iid)

/-- Put the focus of a session on an attached instance. -/
def setActiveInstance (s : SessionStore) (sid instanceId : String) :
    Except SessionPlaneError (SessionStore × SessionRecord) :=
  let iid := strip instanceId
  if iid = "" then .error .instanceIdRequired
  else match s.requireOpen sid with
    | .error error => .error error
    | .ok r =>
      if iid ∉ r.instanceIds then .error (.notAttached iid sid)
      else .ok (s.putSome r (r.focus iid))

/-- Take the focus of a session off its instances. -/
def clearActiveInstance (s : SessionStore) (sid : String) :
    Except SessionPlaneError (SessionStore × SessionRecord) :=
  (s.requireOpen sid).map fun r => s.putSome r r.unfocus

/-- Close a session. -/
def close (s : SessionStore) (sid : String) :
    Except SessionPlaneError (SessionStore × SessionRecord) :=
  (s.require sid).map fun r => s.putSome r r.close

end SessionStore

/-- A call of the plane. An opening comes with the id it makes up if none is given. -/
inductive SessionOp where
  | openSession (sessionId : Option String) (metadata : Payload) (fresh : String)
  | bind (sessionId : Option String) (create : Bool) (metadata : Payload) (surface : Option String)
    (fresh : String)
  | attachInstance (sid instanceId : String)
  | detachInstance (sid instanceId : String)
  | setActiveInstance (sid instanceId : String)
  | clearActiveInstance (sid : String)
  | close (sid : String)
  | delete (sid : String)

/-- The store that a call leaves, which is the same if it fails. -/
def SessionStore.after {α : Type} (s : SessionStore) :
    Except SessionPlaneError (SessionStore × α) → SessionStore
  | .error _ => s
  | .ok p => p.1

/-- The store after a call. -/
def SessionOp.step (s : SessionStore) : SessionOp → SessionStore
  | openSession sid metadata fresh => s.after (s.openSession sid metadata fresh)
  | bind sid create metadata surface fresh => s.after (s.bind sid create metadata surface fresh)
  | attachInstance sid i => s.after (s.attachInstance sid i)
  | detachInstance sid i => s.after (s.detachInstance sid i)
  | setActiveInstance sid i => s.after (s.setActiveInstance sid i)
  | clearActiveInstance sid => s.after (s.clearActiveInstance sid)
  | close sid => s.after (s.close sid)
  | delete sid => s.delete sid

end PalmEngine.Session
