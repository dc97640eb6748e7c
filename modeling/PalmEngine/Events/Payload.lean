import PalmEngine.Lib.Dict

/-!
# Event payloads

The payload of an event is a dictionary of texts, integers and flat mappings. A subscriber
sees it merged with the correlation context of the job that was bound at the publication. The
payloads below are the ones the orchestration engine, the resource service and the workload
engine publish.
-/

namespace PalmEngine.Events

open PalmEngine.Lib

/-- A payload value: nothing, an integer, a text, or a mapping of texts with the text that shows
it. -/
inductive Value where
  | null
  | int (n : ℤ)
  | text (s : String)
  | mapping (entries : List (String × String)) (shown : String)
  deriving DecidableEq, Repr

/-- Nothing, zero and empty texts and mappings count as false. -/
def Value.truthy : Value → Bool
  | null => false
  | int n => n ≠ 0
  | text s => s ≠ ""
  | mapping entries _ => !entries.isEmpty

/-- The text that shows a value. -/
def Value.str : Value → String
  | null => "None"
  | int n => toString n
  | text s => s
  | mapping _ shown => shown

/-- The integer a text denotes: digits with an optional sign, between optional blanks. -/
def parseInt (s : String) : Option ℤ :=
  match s.trimAscii.toString.toList with
  | '-' :: digits => (String.ofList digits).toNat?.map fun n => -(n : ℤ)
  | '+' :: digits => (String.ofList digits).toNat?.map Int.ofNat
  | digits => (String.ofList digits).toNat?.map Int.ofNat

/-- The integer a value denotes, if any. -/
def Value.toInt? : Value → Option ℤ
  | int n => some n
  | text s => parseInt s
  | null | mapping _ _ => none

/-- The payload of an event or of a work intent, and the metadata of a job. -/
abbrev Payload := Dict String Value

namespace Payload

/-- The value of a key, nothing when it is missing. -/
def field (p : Payload) (k : String) : Value := (p.get? k).getD .null

/-- The first of two keys whose value counts as true, else the value of the second. -/
def either (p : Payload) (k k' : String) : Value :=
  if (p.field k).truthy then p.field k else p.field k'

/-- The text of a value, empty when the value counts as false. -/
def textOr (v : Value) : String := if v.truthy then v.str else ""

/-- The text of a key, empty when its value counts as false. -/
def textField (p : Payload) (k : String) : String := textOr (p.field k)

/-- The text of a value, none for nothing. -/
def shown? : Value → Option String
  | .null => none
  | v => some v.str

/-- The text of a key that has a value. -/
def str? (p : Payload) (k : String) : Option String := shown? (p.field k)

/-- The trimmed text of a key, if it is not empty. -/
def stripped? (p : Payload) (k : String) : Option String :=
  ((p.str? k).map fun s => s.trimAscii.toString).filter (· ≠ "")

/-- The entry of a mapping under a key. -/
def mappingEntry? (p : Payload) (k name : String) : Option String :=
  match p.field k with
  | .mapping entries _ => entries.lookup name
  | _ => none

end Payload

/-- The correlation context of a job, as the dictionary that subscribers see. -/
def eventContextFromJob (jobId : String) (metadata : Payload) : Payload :=
  let text (o : Option String) : Option Value := o.map .text
  ((((((Dict.empty.set "job_id" (.text jobId))
    |>.setSome "instance_id" (text (metadata.str? "instance_id")))
    |>.setSome "session_id" (text (metadata.stripped? "session_id")))
    |>.setSome "trace_id" (text (metadata.str? "trace_id")))
    |>.setSome "principal_id" (text (metadata.str? "principal_id")))
    |>.setSome "flow" (text (metadata.str? "flow")))
    |>.setSome "wizard" (text (metadata.mappingEntry? "wizard" "name"))

/-- A payload merged with the correlation context: its own keys win. -/
def enrichedPayload (payload : Payload) (context : Option Payload) : Payload :=
  ((context.map Dict.entries).getD []).foldl (fun merged e => merged.setDefault e.1 e.2) payload

/-- The payload of `flow.session.succeeded` and `flow.session.failed`. -/
def flowSessionPayload (jobId status : String) (metadata : Payload) : Payload :=
  let flow := (Payload.shown? (metadata.either "flow" "flow_name")).map Value.text
  (((((Dict.empty.set "job_id" (.text jobId)).set "status" (.text status))
    |>.setSome "flow_id" flow)
    |>.setSome "flow" flow)
    |>.setSome "instance_id" ((metadata.str? "instance_id").map .text))
    |>.setSome "session_id" ((metadata.stripped? "session_id").map .text)

/-- The payload of `resource.changed`. -/
def resourceChangedPayload (resourceRef action : String)
    (resourceId provider definitionName : Value) : Payload :=
  ((((Dict.empty.set "resource_ref" (.text resourceRef)).set "action" (.text action)).set
    "resource_id" resourceId).set "provider" provider).set "definition_name" definitionName

/-- What the workload engine tells about a workload. -/
structure WorkloadFacts where
  workloadId : String
  status : String
  runtime : String
  kind : String
  owner : Value
  labels : Value
  hostId : Option String := none
  exitCode : Option Value := none
  artifactRefs : Option Value := none

/-- The payload of the `workload.*` events. -/
def workloadPayload (w : WorkloadFacts) : Payload :=
  ((((((((Dict.empty.set "workload_id" (.text w.workloadId)).set "status" (.text w.status)).set
    "runtime" (.text w.runtime)).set "kind" (.text w.kind)).set "owner" w.owner).set
    "labels" w.labels)
    |>.setSome "host_id" (w.hostId.map .text))
    |>.setSome "exit_code" w.exitCode)
    |>.setSome "artifact_refs" w.artifactRefs

/-- A payload that tells no depth. -/
def Depthless (p : Payload) : Prop := p.get? "depth" = none ∧ p.get? "work_depth" = none

/-- The keys under which a depth is told. -/
def IsDepthKey (k : String) : Prop := k = "depth" ∨ k = "work_depth"

instance (k : String) : Decidable (IsDepthKey k) := inferInstanceAs (Decidable (_ ∨ _))

theorem depthless_empty : Depthless Dict.empty := ⟨rfl, rfl⟩

/-- Setting any other key tells no depth. -/
theorem Depthless.set {p : Payload} (h : Depthless p) {k : String} (v : Value)
    (hk : ¬ IsDepthKey k) : Depthless (p.set k v) := by
  rw [IsDepthKey, not_or] at hk
  exact ⟨(p.get?_set_ne v (Ne.symm hk.1)).trans h.1, (p.get?_set_ne v (Ne.symm hk.2)).trans h.2⟩

theorem Depthless.setSome {p : Payload} (h : Depthless p) {k : String} (v : Option Value)
    (hk : ¬ IsDepthKey k) : Depthless (p.setSome k v) := by
  cases v with
  | none => exact h
  | some v => exact h.set v hk

theorem Depthless.setDefault {p : Payload} (h : Depthless p) {k : String} (v : Value)
    (hk : ¬ IsDepthKey k) : Depthless (p.setDefault k v) := by
  unfold Dict.setDefault
  split
  · exact h
  · exact h.set v hk

/-- The context of a job tells no depth, whatever the metadata of the job says. -/
theorem eventContext_depthless (jobId : String) (metadata : Payload) :
    Depthless (eventContextFromJob jobId metadata) := by
  have hjob := depthless_empty.set (.text jobId) (by decide : ¬ IsDepthKey "job_id")
  exact (((((hjob.setSome _ (by decide)).setSome _ (by decide)).setSome _ (by decide)).setSome _
    (by decide)).setSome _ (by decide)).setSome _ (by decide)

/-- The terminal events of a job tell no depth, whatever the metadata of the job says. -/
theorem flowSessionPayload_depthless (jobId status : String) (metadata : Payload) :
    Depthless (flowSessionPayload jobId status metadata) := by
  have hjob := (depthless_empty.set (.text jobId) (by decide : ¬ IsDepthKey "job_id")).set
    (.text status) (by decide : ¬ IsDepthKey "status")
  exact (((hjob.setSome _ (by decide)).setSome _ (by decide)).setSome _ (by decide)).setSome _
    (by decide)

/-- A changed resource tells no depth. -/
theorem resourceChangedPayload_depthless (resourceRef action : String)
    (resourceId provider definitionName : Value) :
    Depthless (resourceChangedPayload resourceRef action resourceId provider definitionName) :=
  ((((depthless_empty.set _ (by decide)).set _ (by decide)).set _ (by decide)).set _
    (by decide)).set _ (by decide)

/-- A workload tells no depth. -/
theorem workloadPayload_depthless (w : WorkloadFacts) : Depthless (workloadPayload w) :=
  ((((((((depthless_empty.set _ (by decide)).set _ (by decide)).set _ (by decide)).set _
    (by decide)).set _ (by decide)).set _ (by decide)).setSome _ (by decide)).setSome _
    (by decide)).setSome _ (by decide)

/-- A payload and a context that tell no depth are merged into one that tells none. -/
theorem Depthless.enriched {p context : Payload} (h : Depthless p) (hcontext : Depthless context) :
    Depthless (enrichedPayload p (some context)) := by
  have hkeys : ∀ e ∈ context.entries, ¬ IsDepthKey e.1 := by
    rintro ⟨k, v⟩ he (rfl | rfl)
    · exact Option.some_ne_none v (((context.get?_eq_some_iff _ _).mpr he).symm.trans hcontext.1)
    · exact Option.some_ne_none v (((context.get?_eq_some_iff _ _).mpr he).symm.trans hcontext.2)
  change Depthless (context.entries.foldl _ p)
  generalize context.entries = entries at hkeys
  induction entries generalizing p with
  | nil => exact h
  | cons e rest ih =>
    exact ih (h.setDefault e.2 (hkeys e List.mem_cons_self))
      fun e' he' => hkeys e' (List.mem_cons_of_mem _ he')

end PalmEngine.Events
