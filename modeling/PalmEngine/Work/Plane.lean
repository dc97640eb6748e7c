import PalmEngine.Lib.Runs
import PalmEngine.Work.Store
import PalmEngine.Work.Triggers

/-!
# The work plane between the bus and the orchestration engine

Events reach the trigger registry, the intents it raises are enqueued or dropped by depth, a
claimed intent is submitted as a job, and the job publishes events again. Each intent in the
store carries the length of its causal chain beside its payload, and each job the intent that
started it. No step reads either: they only record what caused what. Between the steps below
the threads of the plane and the publishers interleave freely.
-/

namespace PalmEngine.Work

open PalmEngine.Events PalmEngine.Lib

/-- A payload with the number of intents of its causal chain that events raised, this one
included. -/
structure Traced where
  payload : Payload
  chain : ℕ

/-- An intent with the length of its causal chain. -/
def WorkIntent.traced (intent : WorkIntent Payload) (chain : ℕ) : WorkIntent Traced :=
  { intent with payload := ⟨intent.payload, chain⟩ }

/-- A job with the intent that started it, if one did. -/
structure PlaneJob where
  metadata : Payload
  startedBy : Option (WorkIntent Traced) := none

/-- The length of the causal chain that led to a job. -/
def PlaneJob.chain (job : PlaneJob) : ℕ :=
  match job.startedBy with
  | none => 0
  | some intent => intent.payload.chain

/-- A claimed intent between its claim and its `ack` or `fail`. The outcome is missing until the
submission is over, and then holds the error, if there was one. -/
structure InHand where
  intent : WorkIntent Traced
  claimer : String
  outcome : Option (Option String) := none

/-- The work plane with the registered triggers, the store, the claimed intents its threads hold,
and the jobs of the orchestration engine. -/
structure Plane where
  maxDepth : ℤ
  triggers : TriggerRegistry := {}
  store : WorkIntentStore Traced := .empty
  droppedDepth : ℕ := 0
  inHand : List InHand := []
  jobs : String → Option PlaneJob := fun _ => none

/-- The plane as attached to an empty storage. -/
def Plane.attach (maxDepth : ℤ) : Plane := { maxDepth := max 1 maxDepth }

/-- The event types the plane subscribes to. -/
def startPathEvents : List String :=
  ["resource.changed", "flow.session.succeeded", "workload.started", "workload.ready",
    "workload.failed", "workload.stopped"]

/-- The plane after the engine registered a job. -/
def Plane.addJob (s : Plane) (id : String) (job : PlaneJob) : Plane :=
  { s with jobs := Function.update s.jobs id (some job) }

/-- Enqueue an intent, or drop it when it is too deep. -/
def Plane.enqueue (s : Plane) (intent : WorkIntent Traced) : Plane :=
  if s.maxDepth < intent.depth then { s with droppedDepth := s.droppedDepth + 1 }
  else { s with store := s.store.enqueue intent }

/-- An event on the bus, with the job that is bound while it is published, the instant, and what
the intents it raises draw. -/
structure Publication where
  job : Option String
  eventType : String
  payload : Payload
  now : Instant
  draw : ℕ → Defaults

/-- The payload that subscribers see: a job that is bound adds its context. -/
def Plane.seenPayload (s : Plane) (p : Publication) : Payload :=
  enrichedPayload p.payload
    (p.job.bind fun id => (s.jobs id).map fun j => eventContextFromJob id j.metadata)

/-- The length of the causal chain behind a publication. -/
def Plane.chainBehind (s : Plane) (p : Publication) : ℕ :=
  ((p.job.bind s.jobs).map PlaneJob.chain).getD 0

/-- The intents a publication raises, with the registry after it. The plane ignores event types it
has no subscription to, and the bus isolates a handler that fails. -/
def Plane.raised (s : Plane) (p : Publication) : List (WorkIntent Payload) × TriggerRegistry :=
  if p.eventType ∈ startPathEvents then
    (s.triggers.onEvent p.eventType (s.seenPayload p) p.now p.draw).getD ([], s.triggers)
  else ([], s.triggers)

/-- Deliver a publication to the plane: raise the intents, then enqueue each. -/
def Plane.publish (s : Plane) (p : Publication) : Plane :=
  let (raised, triggers) := s.raised p
  (raised.map (·.traced (s.chainBehind p + 1))).foldl Plane.enqueue { s with triggers := triggers }

/-- The publication of the engine when a job ends. -/
def flowSessionPublication (job : String) (metadata : Payload) (succeeded : Bool) (now : Instant)
    (draw : ℕ → Defaults) : Publication where
  job := some job
  eventType := if succeeded then "flow.session.succeeded" else "flow.session.failed"
  payload := flowSessionPayload job (if succeeded then "SUCCEEDED" else "FAILED") metadata
  now := now
  draw := draw

/-- The stable origin of an automated start without an inherited session. -/
def reactiveOrigin (flowId : String) (body : Payload) : String :=
  let trigger := ((body.textField "trigger").trimAscii.toString).toLower
  let fid := (if flowId = "" then body.textField "flow_name" else flowId).trimAscii.toString
  if trigger = "schedule" then if fid = "" then "schedule" else "schedule:" ++ fid
  else if trigger = "inbound" ∨ (body.field "inbound_resource").truthy then
    let resource := (Payload.textOr (body.field "inbound_resource")).trimAscii.toString
    "inbound:" ++ (if resource = "" then "inbound" else resource)
  else if fid = "" then "work-drain" else "work-drain:" ++ fid

/-- The first inherited system session of an intent payload. -/
def inheritedSession (body : Payload) : Option String :=
  [body.stripped? "session_id", body.stripped? "parent_session_id"].findSome? fun raw =>
    raw.filter fun s => "sess-".toList.isPrefixOf s.toList

/-- The intent payload with the session an automated start belongs to. `serviceSession` is what the
session plane answers for an origin, if there is one. -/
def attributeReactiveStart (flowId : String) (body : Payload)
    (serviceSession : String → Option String) : Payload :=
  let origin := reactiveOrigin flowId body
  match inheritedSession body with
  | some sid =>
    ((body.set "session_id" (.text sid)).set "session_attribution" (.text "inherit")).setDefault
      "session_origin" (.text origin)
  | none =>
    match (serviceSession origin).filter (· ≠ "") with
    | none => body
    | some sid =>
      ((body.set "session_id" (.text sid)).set "session_origin" (.text origin)).set
        "session_attribution" (.text "service")

/-- The flow a submission resolves to, with the metadata its pattern adds. -/
structure FlowFacts where
  name : String
  definitionId : Value
  pattern : String
  extra : List (String × Value) := []

/-- The metadata of a job that is submitted for a flow. -/
def prepareFlowMetadata (flow : FlowFacts) (metadata : Payload) (instanceId : Option String) :
    Payload :=
  let m := (((metadata.setDefault "definition_type" (.text "flow")).setDefault
    "flow" (.text flow.name)).setDefault "flow_id" flow.definitionId).setDefault
    "pattern" (.text flow.pattern)
  let m := flow.extra.foldl (fun m e => m.setDefault e.1 e.2) m
  (m.setSome "session_id" ((Payload.stripped? m "session_id").map .text)).setSome
    "instance_id" (instanceId.map .text)

/-- What the environment settles in a submission: the flow found, the session plane, and the ids
drawn. -/
structure Submission where
  flow : FlowFacts
  serviceSession : String → Option String
  instanceId : Option String
  jobId : String

/-- The metadata of the job that an intent starts. -/
def submittedMetadata (intent : WorkIntent Traced) (sub : Submission) : Payload :=
  prepareFlowMetadata sub.flow
    (attributeReactiveStart intent.target (intent.payload.payload.erase "_seed_state")
      sub.serviceSession) sub.instanceId

/-- The intent a due schedule enqueues, of depth zero. -/
def scheduleIntent (target id : String) (payload : Payload) (key : String) : WorkIntent Traced where
  kind := "run_flow"
  target := target
  id := id
  payload := ⟨payload.setDefault "trigger" (.text "schedule"), 0⟩
  coalesceKey := some key

/-- One step of the plane, of a publisher or of a caller. -/
inductive PlaneLabel where
  | reload (specs : List (String × TriggerSpec))
  | enqueue (intent : WorkIntent Payload)
  | schedule (target id : String) (payload : Payload) (key : String)
  | publish (p : Publication)
  | flowSession (job : String) (succeeded : Bool) (now : Instant) (draw : ℕ → Defaults)
  | submitFlow (metadata : Payload) (sub : Submission)
  | reclaim (now : Instant) (defaults : String → Defaults)
  | claim (c : WorkIntentStore.Claim)
  | submit (k : ℕ) (sub : Option Submission) (error : Option String)
  | settle (k : ℕ)

/-- The plane after a step, where the step is possible. -/
def Plane.step (s : Plane) : PlaneLabel → Option Plane
  | .reload specs => some { s with triggers := { s.triggers with specs := specs } }
  | .enqueue intent => some (s.enqueue (intent.traced 0))
  | .schedule target id payload key =>
    -- Schedules write to the store directly, past the check of the plane.
    some { s with store := s.store.enqueue (scheduleIntent target id payload key) }
  | .publish p => if p.job.any fun id => (s.jobs id).isNone then none else some (s.publish p)
  | .flowSession job succeeded now draw =>
    (s.jobs job).map fun j => s.publish (flowSessionPublication job j.metadata succeeded now draw)
  | .submitFlow metadata sub =>
    if (s.jobs sub.jobId).isSome then none
    else some (s.addJob sub.jobId { metadata := prepareFlowMetadata sub.flow metadata sub.instanceId })
  | .reclaim now defaults => some { s with store := (s.store.reclaimExpired now defaults).2 }
  | .claim c =>
    let (claimed, store) := s.store.claimDue c
    some { s with
      store := store
      inHand := s.inHand ++ claimed.map fun intent => { intent := intent, claimer := c.claimer } }
  | .submit k sub error =>
    match s.inHand[k]? with
    | some ⟨intent, claimer, none⟩ =>
      if intent.kind ≠ "run_flow" then
        some { s with inHand :=
          s.inHand.set k ⟨intent, claimer, some (some "unsupported work kind")⟩ }
      else match sub with
        | none => error.map fun e => { s with inHand := s.inHand.set k ⟨intent, claimer, some (some e)⟩ }
        | some sub =>
          if (s.jobs sub.jobId).isSome then none
          else some { s.addJob sub.jobId
              { metadata := submittedMetadata intent sub, startedBy := some intent } with
            inHand := s.inHand.set k ⟨intent, claimer, some error⟩ }
    | _ => none
  | .settle k =>
    match s.inHand[k]? with
    | some ⟨intent, claimer, some none⟩ =>
      some { s with
        store := (s.store.ack intent.id (some claimer)).2
        inHand := s.inHand.eraseIdx k }
    | some ⟨intent, claimer, some (some error)⟩ =>
      some { s with
        store := (s.store.fail intent.id error (some claimer)).2
        inHand := s.inHand.eraseIdx k }
    | _ => none

end PalmEngine.Work
