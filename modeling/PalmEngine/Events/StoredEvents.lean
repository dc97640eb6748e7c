import PalmEngine.Context.PlainValues

/-!
# Events in the outbox

An event with a payload of any values becomes an entry of the outbox, the entry a dictionary, and
the way back. The context of an event is one dictionary in its entry, in which its identifiers and
the other values lie side by side. A decoder that raises returns nothing.
-/

namespace PalmEngine.Events.Stored

open PalmEngine.Lib

/-- Moments with the text that is stored for each. -/
structure Moments (T : Type) where
  isoformat : T → String
  fromIsoformat : String → Option T
  fromIsoformat_isoformat : ∀ t, fromIsoformat (isoformat t) = some t
  isoformat_ne : ∀ t, isoformat t ≠ ""

/-- Identifiers attached to an event, with other values. -/
structure EventContext (K V : Type) where
  jobId : Option String := none
  instanceId : Option String := none
  sessionId : Option String := none
  traceId : Option String := none
  principalId : Option String := none
  extra : Dict K V := .empty

/-- An event. -/
structure Event (K V T : Type) where
  eventType : String
  payload : Dict K V
  timestamp : T
  id : String
  context : Option (EventContext K V)

/-- A stored event that waits for delivery. -/
structure OutboxEntry (K V : Type) where
  id : String
  eventType : String
  payload : Dict K V
  context : Option (Dict K V)
  timestamp : String
  status : String
  attempts : ℤ
  lastError : V

/-- The names of the five identifiers. -/
def idNames : List String := ["job_id", "instance_id", "session_id", "trace_id", "principal_id"]

section Encode

variable {K V T : Type} [DecidableEq K] (ops : ScriptValues K V) (moments : Moments T)

namespace EventContext

/-- The identifiers that are there, as a dictionary. -/
def named (c : EventContext K V) : Dict K V :=
  ops.recordSome [("job_id", c.jobId.map ops.text), ("instance_id", c.instanceId.map ops.text),
    ("session_id", c.sessionId.map ops.text), ("trace_id", c.traceId.map ops.text),
    ("principal_id", c.principalId.map ops.text)]

/-- The context as a dictionary. -/
def toDict (c : EventContext K V) : Dict K V := (c.named ops).update c.extra

/-- The context of a dictionary, none of an empty one. The principal may go by a shorter name, and
this name is taken out either way. -/
def fromDict (data : Dict K V) : Option (EventContext K V) :=
  if data.entries = [] then none
  else
    let principal := (data.get? (ops.key "principal_id")).getD (ops.field data "principal")
    some {
      jobId := ops.strIfPresent (ops.field data "job_id")
      instanceId := ops.strIfPresent (ops.field data "instance_id")
      sessionId := ops.strIfPresent (ops.field data "session_id")
      traceId := ops.strIfPresent (ops.field data "trace_id")
      principalId := ops.strIfPresent principal
      extra := (["job_id", "instance_id", "session_id", "trace_id", "principal",
        "principal_id"].map ops.key).foldl Dict.erase data }

/-- None of the other values is under the name of an identifier. -/
def Apart (c : EventContext K V) : Prop := ∀ name ∈ idNames, ops.key name ∉ c.extra.keys

/-- There is neither an identifier nor another value. -/
def IsEmpty (c : EventContext K V) : Prop :=
  c.jobId = none ∧ c.instanceId = none ∧ c.sessionId = none ∧ c.traceId = none ∧
    c.principalId = none ∧ c.extra.entries = []

end EventContext

namespace OutboxEntry

/-- The entry of an event. -/
def fromEvent (event : Event K V T) : OutboxEntry K V where
  id := event.id
  eventType := event.eventType
  payload := event.payload
  context := event.context.map (EventContext.toDict ops)
  timestamp := moments.isoformat event.timestamp
  status := "pending"
  attempts := 0
  lastError := ops.null

/-- The entry as a dictionary. -/
def toDict (e : OutboxEntry K V) : Dict K V :=
  ops.record [("id", ops.text e.id), ("event_type", ops.text e.eventType),
    ("payload", ops.dict e.payload), ("context", ops.optDict e.context),
    ("timestamp", ops.text e.timestamp), ("status", ops.text e.status),
    ("attempts", ops.int e.attempts), ("last_error", e.lastError)]

/-- The entry of a dictionary. -/
def fromDict (data : Dict K V) : Option (OutboxEntry K V) := do
  let id ← data.get? (ops.key "id")
  let eventType ← data.get? (ops.key "event_type")
  let payload ← ops.dictOrEmpty (ops.field data "payload")
  let context ← ops.dictIfTrue (ops.field data "context")
  let attempts ← ops.intOr (ops.field data "attempts") 0
  return {
    id := ops.str id
    eventType := ops.str eventType
    payload
    context
    timestamp := ops.strOr (ops.field data "timestamp") ""
    status := ops.strOr (ops.field data "status") "pending"
    attempts
    lastError := ops.field data "last_error" }

/-- The event of an entry; one without a time is of now. -/
def toEvent (now : T) (e : OutboxEntry K V) : Option (Event K V T) := do
  let timestamp ← if e.timestamp ≠ "" then moments.fromIsoformat e.timestamp else some now
  return {
    id := e.id
    eventType := e.eventType
    payload := e.payload
    timestamp
    context := e.context.bind (EventContext.fromDict ops) }

end OutboxEntry

/-- The event that comes back from the dictionary of its entry. -/
def restoredEvent (now : T) (event : Event K V T) : Option (Event K V T) :=
  (OutboxEntry.fromDict ops ((OutboxEntry.fromEvent ops moments event).toDict ops)).bind
    (OutboxEntry.toEvent ops moments now)

end Encode

section RoundTrip

variable {K V T : Type} [DecidableEq K] {ops : ScriptValues K V} {moments : Moments T}

namespace EventContext

variable {c : EventContext K V}

/-- The keys of the identifiers are their names. -/
theorem mem_keys_named {k : K} (h : k ∈ (named ops c).keys) :
    ∃ name ∈ idNames, k = ops.key name := by
  obtain ⟨e, he, rfl⟩ := ops.mem_keys_recordSome h
  refine ⟨e.1, ?_, rfl⟩
  simp only [List.mem_cons, List.not_mem_nil, or_false] at he
  rcases he with rfl | rfl | rfl | rfl | rfl <;> simp [idNames]

/-- Each identifier is under its name. -/
theorem get?_named (ops : ScriptValues K V) (c : EventContext K V) :
    (named ops c).get? (ops.key "job_id") = c.jobId.map ops.text ∧
    (named ops c).get? (ops.key "instance_id") = c.instanceId.map ops.text ∧
    (named ops c).get? (ops.key "session_id") = c.sessionId.map ops.text ∧
    (named ops c).get? (ops.key "trace_id") = c.traceId.map ops.text ∧
    (named ops c).get? (ops.key "principal_id") = c.principalId.map ops.text := by
  refine ⟨?_, ?_, ?_, ?_, ?_⟩ <;> exact (ops.get?_recordSome (by simp) _).trans (by simp)

/-- The keys of the identifiers come before the others. -/
theorem keys_toDict (h : c.Apart ops) :
    (c.toDict ops).keys = (named ops c).keys ++ c.extra.keys := by
  have hentries := Dict.entries_update (d := named ops c) (e := c.extra) fun k hk hmem => by
    obtain ⟨name, hname, rfl⟩ := mem_keys_named hmem
    exact h name hname hk
  rw [Dict.keys, toDict]
  exact (congrArg (List.map Prod.fst) hentries).trans List.map_append

/-- An identifier is found under its name. -/
theorem get?_toDict_id (h : c.Apart ops) {name : String} (hname : name ∈ idNames) :
    (c.toDict ops).get? (ops.key name) = (named ops c).get? (ops.key name) := by
  have hnone : c.extra.get? (ops.key name) = none := by
    rw [Option.eq_none_iff_forall_ne_some]
    exact fun v hv => h name hname ((Dict.mem_keys_iff _ _).mpr ⟨v, hv⟩)
  rw [toDict, Dict.get?_update, hnone, Option.none_or]

/-- Another value is found under its key. -/
theorem get?_toDict_extra {k : K} (h : ∀ name ∈ idNames, k ≠ ops.key name) :
    (c.toDict ops).get? k = c.extra.get? k := by
  have hnone : (named ops c).get? k = none := by
    rw [Option.eq_none_iff_forall_ne_some]
    intro v hv
    obtain ⟨name, hname, heq⟩ := mem_keys_named ((Dict.mem_keys_iff _ _).mpr ⟨v, hv⟩)
    exact h name hname heq
  rw [toDict, Dict.get?_update]
  refine (congrArg (Option.or _) hnone).trans ?_
  rw [Option.or_none]

/-- An empty context has the empty dictionary, and no other one has. -/
theorem toDict_eq_nil_iff (h : c.Apart ops) : (c.toDict ops).entries = [] ↔ c.IsEmpty := by
  have hkeys : (c.toDict ops).entries = [] ↔ (named ops c).keys = [] ∧ c.extra.keys = [] := by
    rw [← List.append_eq_nil_iff, ← keys_toDict h, Dict.keys, List.map_eq_nil_iff]
  have hnamed : (named ops c).keys = [] ↔ ∀ name ∈ idNames, (named ops c).get? (ops.key name) =
      none := by
    constructor
    · intro hnil name _
      rw [Option.eq_none_iff_forall_ne_some]
      exact fun v hv => absurd ((Dict.mem_keys_iff _ _).mpr ⟨v, hv⟩) (by simp [hnil])
    · intro hnone
      rw [List.eq_nil_iff_forall_not_mem]
      intro k hk
      obtain ⟨name, hname, rfl⟩ := mem_keys_named hk
      obtain ⟨v, hv⟩ := (Dict.mem_keys_iff _ _).mp hk
      simp [hnone name hname] at hv
  obtain ⟨hjob, hinstance, hsession, htrace, hprincipal⟩ := get?_named ops c
  rw [hkeys, hnamed, IsEmpty, Dict.keys, List.map_eq_nil_iff]
  simp [idNames, hjob, hinstance, hsession, htrace, hprincipal, and_assoc]

/-- Taking the identifiers and the shorter name of the principal out leaves the other values. -/
theorem foldl_erase_toDict (h : c.Apart ops) :
    (["job_id", "instance_id", "session_id", "trace_id", "principal", "principal_id"].map
      ops.key).foldl Dict.erase (c.toDict ops) = c.extra.erase (ops.key "principal") := by
  have hremoved : ∀ k, k ∈ ["job_id", "instance_id", "session_id", "trace_id", "principal",
      "principal_id"].map ops.key ↔ (∃ name ∈ idNames, k = ops.key name) ∨
        k = ops.key "principal" := by
    intro k
    simp only [idNames, List.map_cons, List.map_nil, List.mem_cons, List.not_mem_nil, or_false,
      exists_eq_or_imp, exists_eq_left]
    tauto
  have hextra : ∀ k ∈ c.extra.keys, ¬∃ name ∈ idNames, k = ops.key name := by
    rintro k hk ⟨name, hname, rfl⟩
    exact h name hname hk
  refine Dict.eq_of_keys ?_ fun k => ?_
  · have hnamed : ∀ k ∈ (named ops c).keys, ∃ name ∈ idNames, k = ops.key name :=
      fun k hk => mem_keys_named hk
    have hsingle := Dict.keys_foldl_erase [ops.key "principal"] c.extra
    rw [List.foldl_cons, List.foldl_nil] at hsingle
    rw [Dict.keys_foldl_erase, keys_toDict h, List.filter_append, hsingle,
      List.filter_eq_nil_iff.mpr, List.nil_append]
    · refine List.filter_congr fun k hk => ?_
      rw [decide_eq_decide, hremoved, List.mem_singleton, or_iff_right (hextra k hk)]
    · intro k hk
      rw [decide_eq_true_iff, not_not, hremoved]
      exact .inl (hnamed k hk)
  · rw [Dict.get?_foldl_erase, Dict.get?_erase]
    by_cases hprincipal : k = ops.key "principal"
    · rw [if_pos ((hremoved k).mpr (.inr hprincipal)), if_pos hprincipal]
    · rw [if_neg hprincipal]
      split
      · next hmem =>
        have hid := ((hremoved k).mp hmem).resolve_right hprincipal
        symm
        rw [Option.eq_none_iff_forall_ne_some]
        exact fun v hv => hextra k ((Dict.mem_keys_iff _ _).mpr ⟨v, hv⟩) hid
      · next hmem =>
        refine get?_toDict_extra fun name hname heq => hmem ((hremoved k).mpr (.inl ?_))
        exact ⟨name, hname, heq⟩

/-- A context comes back from its dictionary, except for one that is empty and for the other value
under the shorter name of the principal. -/
theorem fromDict_toDict (h : c.Apart ops) (hne : ¬c.IsEmpty) :
    fromDict ops (c.toDict ops) = some { c with
      principalId := c.principalId.or (ops.strIfPresent (ops.field c.extra "principal"))
      extra := c.extra.erase (ops.key "principal") } := by
  have hid : ∀ name ∈ idNames, ops.field (c.toDict ops) name = ops.field (named ops c) name :=
    fun name hname => congrArg (Option.getD · ops.null) (get?_toDict_id h hname)
  have hprincipal : ops.field (c.toDict ops) "principal" = ops.field c.extra "principal" := by
    refine congrArg (Option.getD · ops.null) (get?_toDict_extra fun name hname heq => ?_)
    rw [ops.key_inj] at heq
    exact absurd (heq ▸ hname) (by decide)
  obtain ⟨hjob, hinstance, hsession, htrace, hpid⟩ := get?_named ops c
  have htext : ∀ s : Option String, ops.strIfPresent ((s.map ops.text).getD ops.null) = s := by
    intro s
    cases s <;> simp
  rw [fromDict, if_neg (mt (toDict_eq_nil_iff h).mp hne), foldl_erase_toDict h, hprincipal,
    get?_toDict_id h (by decide), hid _ (by decide), hid _ (by decide), hid _ (by decide),
    hid _ (by decide), hpid]
  simp only [ScriptValues.field, hjob, hinstance, hsession, htrace, htext]
  cases c.principalId <;> simp

/-- A context comes back unchanged exactly if it is not empty and has no other value under the
shorter name of the principal. -/
theorem bind_fromDict_eq_iff (h : c.Apart ops) :
    fromDict ops (c.toDict ops) = some c ↔ ¬c.IsEmpty ∧ ops.key "principal" ∉ c.extra.keys := by
  by_cases hempty : c.IsEmpty
  · rw [fromDict, if_pos ((toDict_eq_nil_iff h).mpr hempty)]
    simp [hempty]
  rw [fromDict_toDict h hempty]
  constructor
  · intro heq
    have hextra : c.extra.erase (ops.key "principal") = c.extra :=
      congrArg EventContext.extra (Option.some.inj heq)
    refine ⟨hempty, fun hmem => ?_⟩
    rw [← hextra, Dict.mem_keys_erase] at hmem
    exact hmem.1 rfl
  · rintro ⟨-, hfree⟩
    have hnone : c.extra.get? (ops.key "principal") = none := by
      rw [Option.eq_none_iff_forall_ne_some]
      exact fun v hv => hfree ((Dict.mem_keys_iff _ _).mpr ⟨v, hv⟩)
    rw [Dict.erase_of_not_mem hfree]
    simp [ScriptValues.field, hnone]

end EventContext

/-- An entry comes back from its dictionary, without an empty context. -/
theorem OutboxEntry.fromDict_toDict (e : OutboxEntry K V) (h : e.status ≠ "") :
    OutboxEntry.fromDict ops (e.toDict ops) =
      some { e with context := e.context.filter fun c => !c.entries.isEmpty } := by
  have hid : (e.toDict ops).get? (ops.key "id") = some (ops.text e.id) :=
    ops.get?_record (by simp) (by simp)
  have htype : (e.toDict ops).get? (ops.key "event_type") = some (ops.text e.eventType) :=
    ops.get?_record (by simp) (by simp)
  have hpayload : (e.toDict ops).get? (ops.key "payload") = some (ops.dict e.payload) :=
    ops.get?_record (by simp) (by simp)
  have hstored : (e.toDict ops).get? (ops.key "context") = some (ops.optDict e.context) :=
    ops.get?_record (by simp) (by simp)
  have htime : (e.toDict ops).get? (ops.key "timestamp") = some (ops.text e.timestamp) :=
    ops.get?_record (by simp) (by simp)
  have hstatus : (e.toDict ops).get? (ops.key "status") = some (ops.text e.status) :=
    ops.get?_record (by simp) (by simp)
  have hcount : (e.toDict ops).get? (ops.key "attempts") = some (ops.int e.attempts) :=
    ops.get?_record (by simp) (by simp)
  have herror : (e.toDict ops).get? (ops.key "last_error") = some e.lastError :=
    ops.get?_record (by simp) (by simp)
  simp only [fromDict, ScriptValues.field, hid, htype, hpayload, hstored, htime, hstatus, hcount,
    herror, Option.getD_some, ScriptValues.dictOrEmpty_dict, ops.dictIfTrue_optDict,
    ScriptValues.intOr_int_zero, ScriptValues.strOr_text_empty, ops.strOr_text h,
    Option.bind_eq_bind, Option.bind_some, Option.pure_def, ScriptValues.str_text]

/-- An event comes back from the outbox unchanged exactly if its context, if it has one, is not
empty and has no other value under the shorter name of the principal. -/
theorem restoredEvent_eq_iff (now : T) (event : Event K V T)
    (h : ∀ c, event.context = some c → c.Apart ops) :
    restoredEvent ops moments now event = some event ↔ ∀ c, event.context = some c →
      ¬c.IsEmpty ∧ ops.key "principal" ∉ c.extra.keys := by
  have hrestored : restoredEvent ops moments now event = some { event with
      context := event.context.bind fun c => EventContext.fromDict ops (c.toDict ops) } := by
    rw [restoredEvent, OutboxEntry.fromDict_toDict _ (by simp [OutboxEntry.fromEvent])]
    simp only [OutboxEntry.fromEvent, OutboxEntry.toEvent, Option.bind_some, ne_eq,
      moments.isoformat_ne, not_false_eq_true, if_true, moments.fromIsoformat_isoformat]
    cases event.context with
    | none => rfl
    | some c =>
      cases hentries : (c.toDict ops).entries with
      | nil => simp [hentries, EventContext.fromDict, Option.filter]
      | cons e rest => simp [hentries, Option.filter]
  rw [hrestored]
  cases hcontext : event.context with
  | none =>
    have hsame : { event with context := none } = event := by rw [← hcontext]
    simpa using hsame
  | some c =>
    rw [Option.bind_some]
    have hiff := EventContext.bind_fromDict_eq_iff (h c hcontext)
    constructor
    · intro heq c' hc'
      obtain rfl := Option.some.inj hc'
      refine hiff.mp ?_
      have := congrArg Event.context (Option.some.inj heq)
      rw [hcontext] at this
      exact this
    · intro hall
      rw [hiff.mpr (hall c rfl), ← hcontext]

end RoundTrip

section Plain

open PalmEngine.Context

/-- Moments that are written in decimals. -/
def plainMoments : Moments ℕ where
  isoformat n := String.ofList (List.replicate (n + 1) '0')
  fromIsoformat s := some (s.toList.length - 1)
  fromIsoformat_isoformat n := by simp
  isoformat_ne n h := by simpa using congrArg String.toList h

/-- An event with a job, an instance and another value in its context. -/
def correlatedEvent : Event String Context.Value ℕ where
  eventType := "job.completed"
  payload := .set .empty "job_id" (.str "j1")
  timestamp := 7
  id := "e1"
  context := some { jobId := some "j1", instanceId := some "i1", extra := .set .empty "flow" (.int 3) }

/-- The event comes back. -/
theorem restoredEvent_correlatedEvent :
    restoredEvent plainValues plainMoments 0 correlatedEvent = some correlatedEvent := by
  refine (restoredEvent_eq_iff 0 correlatedEvent fun c hc => ?_).mpr fun c hc => ?_
  · obtain rfl := Option.some.inj hc
    unfold EventContext.Apart
    decide
  · obtain rfl := Option.some.inj hc
    refine ⟨fun h => ?_, by decide⟩
    cases h.1

/-- An event whose context has another value under the shorter name of the principal comes back with
it as the principal. -/
theorem restoredEvent_fails :
    ¬∀ event : Event String Context.Value ℕ, (∀ c, event.context = some c → c.Apart plainValues) →
      restoredEvent plainValues plainMoments 0 event = some event := by
  intro h
  let event : Event String Context.Value ℕ :=
    ⟨"job.completed", .empty, 7, "e1", some { extra := .set .empty "principal" (.str "p1") }⟩
  have hapart : ∀ c, event.context = some c → c.Apart plainValues := by
    intro c hc
    obtain rfl := Option.some.inj hc
    unfold EventContext.Apart
    decide
  have hprincipal := congrArg (Option.map fun e : Event String Context.Value ℕ =>
    e.context.map EventContext.principalId) (h event hapart)
  revert hprincipal
  decide

end Plain

end PalmEngine.Events.Stored
