import PalmEngine.Session.Attribution
import PalmEngine.Session.Plane

/-!
# The session service

The product door of the session plane. An instance is continued, and a job cancelled, under a
session: the service finds the session and the instance that are meant, and asks the plane whether
the open session has the instance attached. Whether an instance has open waits, which job it runs
and which instance a job belongs to is told by the system, as well as it can.
-/

namespace PalmEngine.Session

open PalmEngine.Lib PalmEngine.Events

/-- Why a call of the session service fails. -/
inductive SessionServiceError where
  /-- The runtime has no session plane. -/
  | planeNotReady
  /-- The plane refuses the call. -/
  | plane (error : SessionPlaneError)
  /-- The session id is empty. -/
  | sessionIdRequired
  /-- The instance is not attached to the session, and maybe to another one. -/
  | notOwned (instanceId : String) (owner : Option String) (sessionId : String)
  /-- No session owns the instance that is to be continued. -/
  | unattributed (instanceId : String)
  /-- The instance of the job cannot be told. -/
  | unresolvedJob (jobId sessionId : String)
  /-- The session has no instance to cancel. -/
  | nothingToCancel (sessionId : String)
  deriving DecidableEq, Repr

/-- An argument without the blanks around it, none if nothing is left. -/
def given (argument : Option String) : Option String := (argument.map strip).filter (· ≠ "")

/-- What is given is trimmed and not empty. -/
theorem strip_of_given {argument : Option String} {text : String} (h : given argument = some text) :
    strip text = text ∧ text ≠ "" := by
  obtain ⟨hmap, hne⟩ := Option.filter_eq_some_iff.mp h
  obtain ⟨raw, -, rfl⟩ := Option.map_eq_some_iff.mp hmap
  exact ⟨strip_strip raw, by simpa using hne⟩

/-- What is given is given again. -/
theorem given_given {argument : Option String} {text : String} (h : given argument = some text) :
    given (some text) = some text := by
  obtain ⟨hstrip, hne⟩ := strip_of_given h
  simp [given, hstrip, hne]

/-- The text has the shape of a session id. -/
def looksLikeSystemSessionId (value : Option String) : Bool :=
  value.any fun text => (strip text).startsWith "sess-"

/-- What is waited for under a session: each of its instances as often as it has open waits. -/
def SessionRecord.listWaiting (r : SessionRecord) (openWaits : String → ℕ) : List String :=
  r.instanceIds.flatMap fun i => List.replicate (openWaits i) i

/-- The instance to go on with: the one in focus, the newest one that waits, or the last one. -/
def SessionRecord.continueInstance (r : SessionRecord) (openWaits : String → ℕ) : Option String :=
  (r.activeInstanceId.filter (· ∈ r.instanceIds)).or <|
    ((r.listWaiting openWaits).reverse.find? fun i => i ≠ "" ∧ i ∈ r.instanceIds).or
      r.instanceIds.getLast?

namespace SessionStore

/-- Both are named, and the session is there, is not closed and has the instance attached. -/
def ownsOpen (s : SessionStore) (sessionId instanceId : String) : Bool :=
  if strip sessionId = "" ∨ strip instanceId = "" then false
  else match s.requireOpen (strip sessionId) with
    | .error _ => false
    | .ok r => strip instanceId ∈ r.instanceIds

/-- The owner gate: the session is open and has the instance attached. -/
def requireOwnedInstance (s : SessionStore) (sessionId instanceId : String) :
    Except SessionServiceError SessionRecord :=
  let sid := strip sessionId
  let iid := strip instanceId
  if sid = "" then .error .sessionIdRequired
  else if iid = "" then .error (.plane .instanceIdRequired)
  else match s.requireOpen sid with
    | .error error => .error (.plane error)
    | .ok r =>
      if iid ∈ r.instanceIds then .ok r
      else .error (.notOwned iid ((s.sessionIdForInstance iid).filter (· ≠ sid)) sid)

/-- The session that may continue an instance: the given one if it owns the instance, and without a
session id the owner. -/
def requireContinueAttribution (s : SessionStore) (instanceId : String) (sessionId : Option String)
    (strict : Bool) : Except SessionServiceError (Option String) :=
  let iid := strip instanceId
  if iid = "" then .error (.plane .instanceIdRequired)
  else match (given sessionId).filter fun sid => looksLikeSystemSessionId (some sid) with
    | some sid => (s.requireOwnedInstance sid iid).map fun _ => some sid
    | none =>
      if strict then
        match s.ownerOf (some iid) with
        | none => .error (.unattributed iid)
        | some owner => (s.requireOwnedInstance owner iid).map fun _ => some owner
      else .ok none

/-- The instance of a session to go on with. -/
def resolveContinueInstance (s : SessionStore) (openWaits : String → ℕ) (sessionId : String) :
    Except SessionServiceError (Option String) :=
  match s.requireOpen sessionId with
  | .error error => .error (.plane error)
  | .ok r => .ok (r.continueInstance openWaits)

/-- The sessions that are not closed. -/
def listOpen (s : SessionStore) : List SessionRecord :=
  (s.index.items.filterMap s.get).filter fun r => r.status ≠ .closed

end SessionStore

/-- What is told of an instance: the job of the view and that of its metadata. -/
structure InstanceView where
  jobId : Option String
  metadataJobId : Option String

/-- What is told of a job: the instance of the view and that of its metadata. -/
structure JobView where
  instanceId : Option String
  metadataInstanceId : Option String

/-- The jobs that an instance's view names. -/
def InstanceView.jobs (view : InstanceView) : Option String :=
  (given view.jobId).or (given view.metadataJobId)

/-- The instances that a job's view names. -/
def JobView.instances (view : JobView) : Option String :=
  (given view.instanceId).or (given view.metadataInstanceId)

/-- The jobs of the system by their instances, and what is told of them: the views of instances and
jobs, none of what is not found, the job in the row of an instance on a journey, the open waits of
an instance, and whether a job is cancelled, none of one that is not found. What is told is so. -/
structure JobDirectory where
  instanceOf : String → Option String
  instanceView : String → Option InstanceView
  jobView : String → Option JobView
  rowJobId : String → Option String
  openWaits : String → ℕ
  cancelJob : String → Option Bool
  view_jobs : ∀ iid, ∀ view ∈ instanceView iid, ∀ jid ∈ view.jobs, instanceOf jid = some iid
  view_instances : ∀ jid, ∀ view ∈ jobView jid, ∀ iid ∈ view.instances, instanceOf jid = some iid
  row_job : ∀ iid, ∀ jid ∈ rowJobId iid, instanceOf (strip jid) = some iid

/-- The session service: its plane if the runtime is ready, what the system tells, and whether
continuing needs a session. -/
structure SessionService where
  plane : Option SessionStore
  jobs : JobDirectory
  strictAttribution : Bool

/-- The session and the instance to continue. -/
structure ContinueTarget where
  sessionId : Option String
  instanceId : Option String
  deriving DecidableEq, Repr

/-- What is reported of a cancellation. -/
structure CancelReport where
  sessionId : String
  instanceId : Option String
  jobId : Option String
  found : Bool
  cancelled : Bool
  deriving DecidableEq, Repr

namespace SessionService

/-- The plane, which must be there. -/
def requirePlane (svc : SessionService) : Except SessionServiceError SessionStore :=
  match svc.plane with
  | none => .error .planeNotReady
  | some s => .ok s

/-- The open session has the instance attached, as far as there is a plane. -/
def ownsOpen (svc : SessionService) (sessionId instanceId : String) : Bool :=
  svc.plane.any fun s => s.ownsOpen sessionId instanceId

/-- The system can see the instance. -/
def instanceKnown (svc : SessionService) (instanceId : String) : Bool :=
  (given (some instanceId)).any fun iid => (svc.jobs.instanceView iid).isSome

/-- The instance of a session to go on with. -/
def resolveContinueInstance (svc : SessionService) (sessionId : String) :
    Except SessionServiceError (Option String) := do
  let s ← svc.requirePlane
  s.resolveContinueInstance svc.jobs.openWaits sessionId

/-- The attribution gate: the session that continues the instance, none if it is not enforced. An
instance without an owner that the system does not know may be let through. -/
def gateBoundSessionOwns (svc : SessionService) (instanceId : String) (sessionId : Option String)
    (strict : Option Bool) (allowUnknown : Bool) : Except SessionServiceError (Option String) :=
  match svc.plane with
  | none => .ok none
  | some s =>
    let useStrict := strict.getD svc.strictAttribution
    let sid := if looksLikeSystemSessionId sessionId then sessionId.map strip else none
    if !useStrict && sid.isNone then .ok none
    else match s.requireContinueAttribution (strip instanceId) sid useStrict with
      | .error (.unattributed iid) =>
        if useStrict && sid.isNone && allowUnknown && !svc.instanceKnown (strip instanceId) then
          .ok none
        else .error (.unattributed iid)
      | answer => answer

/-- The instance that is meant under a session: without one, or with a session id in its place, the
one to go on with. -/
def instanceUnder (svc : SessionService) (sid : String) (iid : Option String) :
    Except SessionServiceError (Option String) :=
  if iid.isNone || looksLikeSystemSessionId iid then
    (svc.resolveContinueInstance sid).map fun resolved => resolved.filter (· ≠ "")
  else .ok iid

/-- The target under a session, whose instance passes the owner gate. -/
def targetUnder (svc : SessionService) (sid : String) (iid : Option String) (gate : Bool) :
    Except SessionServiceError ContinueTarget := do
  let meant ← svc.instanceUnder sid iid
  match meant, gate with
  | some i, true =>
    let s ← svc.requirePlane
    let _ ← s.requireOwnedInstance sid i
    pure ⟨some sid, some i⟩
  | _, _ => pure ⟨some sid, meant⟩

/-- Find the session and the instance to continue. -/
def continueTarget (svc : SessionService) (sessionId instanceId : Option String) (gate : Bool) :
    Except SessionServiceError ContinueTarget :=
  let sid := given sessionId
  let iid := given instanceId
  let swapped := looksLikeSystemSessionId iid && !looksLikeSystemSessionId sid
  let sid := if swapped then iid else sid
  let iid := if swapped then none else iid
  match sid.filter fun text => looksLikeSystemSessionId (some text) with
  | some text => svc.targetUnder text iid gate
  | none =>
    match iid with
    | none => .ok ⟨sid, none⟩
    | some i =>
      if looksLikeSystemSessionId (some i) then
        (svc.resolveContinueInstance i).map fun resolved => ⟨some i, resolved.filter (· ≠ "")⟩
      else if gate && svc.plane.isSome then
        (svc.gateBoundSessionOwns i none none false).map fun bound => ⟨bound, some i⟩
      else .ok ⟨sid, some i⟩

/-- The job of an instance: by its view, and else by its row on the journey of its owner. -/
def jobIdForInstance (svc : SessionService) (instanceId : String) : Option String :=
  (given (some instanceId)).bind fun iid =>
    ((svc.jobs.instanceView iid).bind InstanceView.jobs).or <|
      svc.plane.bind fun s => (s.ownerOf (some iid)).bind fun owner => (s.get owner).bind fun r =>
        r.instanceIds.findSome? fun i => if i = iid then given (svc.jobs.rowJobId i) else none

/-- The instance of a job: by its view, and else by the rows on the journeys of the open sessions. -/
def instanceIdForJob (svc : SessionService) (jobId : String) : Option String :=
  (given (some jobId)).bind fun jid =>
    ((svc.jobs.jobView jid).bind JobView.instances).or <|
      svc.plane.bind fun s => s.listOpen.findSome? fun r =>
        r.instanceIds.find? fun i => svc.jobs.rowJobId i = some jid ∧ i ≠ ""

/-- Cancel a job, if there is one, and report it. -/
def cancelReport (svc : SessionService) (sid iid : String) : Option String → CancelReport
  | none => ⟨sid, some iid, none, false, false⟩
  | some jid => ⟨sid, some iid, some jid, (svc.jobs.cancelJob jid).isSome,
      (svc.jobs.cancelJob jid).getD false⟩

/-- Cancel a job, if there is one, once its instance has passed the owner gate. -/
def cancelGated (svc : SessionService) (s : SessionStore) (sid iid : String) (jid : Option String) :
    Except SessionServiceError CancelReport :=
  (s.requireOwnedInstance sid iid).map fun _ => svc.cancelReport sid iid jid

/-- Cancel the job of an instance that the session owns: that of the given instance, the given job,
or that of the instance to go on with. -/
def cancelOwned (svc : SessionService) (sessionId : String) (instanceId jobId : Option String) :
    Except SessionServiceError CancelReport :=
  let sid := strip sessionId
  if sid = "" then .error .sessionIdRequired
  else do
    let s ← svc.requirePlane
    let _ ← (s.requireOpen sid).mapError SessionServiceError.plane
    match given instanceId, given jobId with
    | some iid, jid => svc.cancelGated s sid iid (jid.or (svc.jobIdForInstance iid))
    | none, some jid =>
      match svc.instanceIdForJob jid with
      | none => .error (.unresolvedJob jid sid)
      | some iid => svc.cancelGated s sid iid (some jid)
    | none, none =>
      match (← svc.resolveContinueInstance sid).filter (· ≠ "") with
      | none => .error (.nothingToCancel sid)
      | some iid => svc.cancelGated s sid iid (svc.jobIdForInstance iid)

/-- Cancel the jobs of all instances of a session, or of those that wait. A refusal is reported. -/
def cancelAllOwned (svc : SessionService) (sessionId : String) (onlyWaiting : Bool) :
    Except SessionServiceError (List CancelReport) := do
  let sid := strip sessionId
  let s ← svc.requirePlane
  let r ← (s.requireOpen sid).mapError SessionServiceError.plane
  let targets :=
    if onlyWaiting then ((r.listWaiting svc.jobs.openWaits).filter (· ≠ "")).eraseDups
    else r.instanceIds
  pure <| targets.map fun iid =>
    match svc.cancelOwned sid (some iid) none with
    | .ok report => report
    | .error _ => ⟨sid, some iid, none, false, false⟩

end SessionService

end PalmEngine.Session
