import PalmEngine.Events.Payload
import PalmEngine.Work.Intent

/-!
# Triggers

The registry of triggers that flow definitions declare, and the intents an event raises. An
intent is one deeper than the depth its event tells. Instants and debounce times are in
microseconds.
-/

namespace PalmEngine.Work

open PalmEngine.Events PalmEngine.Lib

/-- The kinds of triggers. -/
inductive TriggerKind where
  | schedule
  | onFlow
  | onResource
  | onWorkload
  deriving DecidableEq, Repr

/-- A trigger of a flow definition, as parsed. -/
structure TriggerSpec where
  kind : TriggerKind
  workFlowId : String
  coalesceKey : Option String := none
  sourceFlow : Option String := none
  when : String := "succeeded"
  resource : Option String := none
  actions : List String := []
  workloadWhen : String := "stopped"
  workloadLabels : List (String × String) := []
  workloadRuntime : Option String := none
  debounce : ℤ := 0
  deriving DecidableEq, Repr

/-- The registered triggers with the flows that own them, and the instant of the last intent under
each debounce key. -/
structure TriggerRegistry where
  specs : List (String × TriggerSpec) := []
  debounceLast : String → Option Instant := fun _ => none

/-- The depth an event tells: `depth`, else `work_depth`, else zero. Fails when the value does not
denote an integer. -/
def parentDepth (payload : Payload) : Option ℤ :=
  let v := payload.either "depth" "work_depth"
  if v.truthy then v.toInt? else some 0

/-- The system session an event names. -/
def systemSessionFromSignal (payload : Payload) : Option String :=
  (payload.stripped? "session_id").filter fun s => "sess-".toList.isPrefixOf s.toList

/-- A payload with the system session of the event, if it names one. -/
def withInheritedSession (base payload : Payload) : Payload :=
  base.setSome "session_id" ((systemSessionFromSignal payload).map .text)

/-- The events whose names already say that a flow succeeded. -/
def flowSuccessEvents : List String := ["flow.session.succeeded", "wizard.commit.succeeded"]

/-- The intent payload of an `on_resource` trigger, if it matches. -/
def matchResource (spec : TriggerSpec) (eventType : String) (payload : Payload) (depth : ℤ) :
    Option Payload :=
  let ref := payload.textField "resource_ref"
  let defName := payload.textField "definition_name"
  let want := spec.resource.getD ""
  let action := (payload.textField "action").toLower
  if eventType ≠ "resource.changed" then none
  else if want ≠ "" ∧ ref ≠ want ∧ defName ≠ want then none
  else if spec.actions ≠ [] ∧ action ∉ spec.actions then none
  else some (withInheritedSession
    (((((Dict.empty.set "trigger" (.text "on_resource")).set "resource_ref" (.text ref)).set
      "definition_name" (if defName = "" then .null else .text defName)).set
      "action" (.text action)).set "depth" (.int depth)) payload)

/-- The intent payload of an `on_flow` trigger, if it matches. -/
def matchFlow (spec : TriggerSpec) (eventType : String) (payload : Payload) (depth : ℤ) :
    Option Payload :=
  let flowId := Payload.textOr (payload.either "flow_id" "flow_name")
  if eventType ∉ flowSuccessEvents ∧ ¬ spec.when.toList <:+ eventType.toList then none
  else if flowId ≠ spec.sourceFlow.getD "" then none
  else if spec.when ≠ "" ∧ ¬ spec.when.toList <:+: eventType.toList ∧
      eventType ∉ flowSuccessEvents then none
  else some (withInheritedSession
    (((Dict.empty.set "trigger" (.text "on_flow")).set "source_flow" (.text flowId)).set
      "depth" (.int depth)) payload)

/-- The labels a workload event carries: a mapping, else none. -/
def labelsOf (payload : Payload) : List (String × String) × Value :=
  match payload.field "labels" with
  | .mapping (e :: rest) shown => (e :: rest, .mapping (e :: rest) shown)
  | _ => ([], .mapping [] "{}")

/-- The intent payload of an `on_workload` trigger, if it matches. -/
def matchWorkload (spec : TriggerSpec) (eventType : String) (payload : Payload) (depth : ℤ) :
    Option Payload :=
  let suffix := String.ofList (eventType.toList.drop "workload.".toList.length)
  let want := (if spec.workloadWhen = "" then "stopped" else spec.workloadWhen).toLower
  let (labels, shown) := labelsOf payload
  if ¬ "workload.".toList <+: eventType.toList then none
  else if want ∉ [suffix, eventType, "workload." ++ suffix] then none
  else if spec.workloadRuntime.any fun r => r ≠ "" && payload.textField "runtime" ≠ r then none
  else if spec.workloadLabels.any fun (k, v) => (labels.lookup k).getD "" ≠ v then none
  else some (withInheritedSession
    ((((((((Dict.empty.set "trigger" (.text "on_workload")).set "event_type" (.text eventType)).set
      "workload_id" (payload.field "workload_id")).set "status" (payload.field "status")).set
      "runtime" (payload.field "runtime")).set "exit_code" (payload.field "exit_code")).set
      "labels" shown).set "depth" (.int depth)) payload)

/-- The intent payload of a trigger, if the event matches it. -/
def matchSpec (spec : TriggerSpec) (eventType : String) (payload : Payload) (depth : ℤ) :
    Option Payload :=
  match spec.kind with
  | .onResource => matchResource spec eventType payload depth
  | .onFlow => matchFlow spec eventType payload depth
  | .onWorkload => matchWorkload spec eventType payload depth
  | .schedule => none

/-- The debounce key of a trigger. -/
def TriggerSpec.debounceKey (spec : TriggerSpec) : String :=
  match spec.coalesceKey.filter (· ≠ "") with
  | some k => k
  | none =>
    let kind := match spec.kind with
      | .schedule => "schedule"
      | .onFlow => "on_flow"
      | .onResource => "on_resource"
      | .onWorkload => "on_workload"
    kind ++ ":" ++ spec.workFlowId

/-- The trigger has no debounce time, or its last intent is at least that long ago. -/
def TriggerRegistry.debounceOpen (r : TriggerRegistry) (spec : TriggerSpec) (now : Instant) : Bool :=
  spec.debounce ≤ 0 || (r.debounceLast spec.debounceKey).all fun last => spec.debounce ≤ now - last

/-- Whether a trigger may raise an intent now; one with a debounce time remembers that it did. -/
def TriggerRegistry.debounceAllows (r : TriggerRegistry) (spec : TriggerSpec) (now : Instant) :
    Bool × TriggerRegistry :=
  if spec.debounce ≤ 0 then (true, r)
  else if r.debounceOpen spec now then
    (true, { r with debounceLast := Function.update r.debounceLast spec.debounceKey (some now) })
  else (false, r)

/-- The loop of `on_event` over the registered triggers. `draw` gives each new intent its id and
creation time. -/
def onEventLoop (eventType : String) (payload : Payload) (depth : ℤ) (now : Instant)
    (draw : ℕ → Defaults) :
    TriggerRegistry → List (String × TriggerSpec) → List (WorkIntent Payload) × TriggerRegistry
  | r, [] => ([], r)
  | r, (_, spec) :: rest =>
    match matchSpec spec eventType payload depth with
    | none => onEventLoop eventType payload depth now draw r rest
    | some body =>
      match r.debounceAllows spec now with
      | (false, r) => onEventLoop eventType payload depth now draw r rest
      | (true, r) =>
        let (raised, r) := onEventLoop eventType payload depth now draw r rest
        ({ kind := "run_flow"
           target := spec.workFlowId
           id := (draw rest.length).id
           createdAt := (draw rest.length).createdAt
           payload := body
           coalesceKey := spec.coalesceKey
           depth := depth } :: raised, r)

/-- The intents an event raises, or nothing when its depth does not denote an integer. -/
def TriggerRegistry.onEvent (r : TriggerRegistry) (eventType : String) (payload : Payload)
    (now : Instant) (draw : ℕ → Defaults) :
    Option (List (WorkIntent Payload) × TriggerRegistry) :=
  (parentDepth payload).map fun parent =>
    onEventLoop eventType payload (parent + 1) now draw r r.specs

/-- Some registered trigger matches the event and its debounce time is over. -/
def TriggerRegistry.Fires (r : TriggerRegistry) (eventType : String) (payload : Payload)
    (now : Instant) : Prop :=
  ∃ e ∈ r.specs, (matchSpec e.2 eventType payload 0).isSome ∧ r.debounceOpen e.2 now

/-- Whether a trigger matches does not depend on the depth. -/
theorem matchSpec_isSome (spec : TriggerSpec) (eventType : String) (payload : Payload)
    (depth depth' : ℤ) :
    (matchSpec spec eventType payload depth).isSome =
      (matchSpec spec eventType payload depth').isSome := by
  unfold matchSpec
  cases spec.kind with
  | schedule => rfl
  | onFlow => simp only [matchFlow, apply_ite Option.isSome, Option.isSome_some]
  | onResource => simp only [matchResource, apply_ite Option.isSome, Option.isSome_some]
  | onWorkload => simp only [matchWorkload, apply_ite Option.isSome, Option.isSome_some]

/-- A trigger is let through exactly when its debounce time is over. -/
theorem TriggerRegistry.debounceAllows_fst (r : TriggerRegistry) (spec : TriggerSpec)
    (now : Instant) : (r.debounceAllows spec now).1 = r.debounceOpen spec now := by
  unfold debounceAllows
  split
  · simp [debounceOpen, *]
  · split <;> simp [*]

/-- A trigger that is not let through leaves the registry. -/
theorem TriggerRegistry.debounceAllows_of_closed {r : TriggerRegistry} {spec : TriggerSpec}
    {now : Instant} (h : r.debounceOpen spec now = false) :
    r.debounceAllows spec now = (false, r) := by
  unfold debounceAllows
  split
  · simp [debounceOpen, *] at h
  · simp [h]

section Loop

variable {eventType : String} {payload : Payload} {depth : ℤ} {now : Instant} {draw : ℕ → Defaults}

/-- Every intent an event raises has the depth of the event. -/
theorem onEventLoop_depth (r : TriggerRegistry) (specs : List (String × TriggerSpec)) :
    ∀ intent ∈ (onEventLoop eventType payload depth now draw r specs).1, intent.depth = depth := by
  induction specs generalizing r with
  | nil => exact fun _ h => nomatch h
  | cons e rest ih =>
    unfold onEventLoop
    split
    · exact ih r
    · split
      · exact ih _
      · intro intent hintent
        rcases List.mem_cons.mp hintent with rfl | hrest
        · rfl
        · exact ih _ intent hrest

/-- The loop raises no intent exactly when every trigger that matches waits for its debounce
time. -/
theorem onEventLoop_eq_nil_iff (r : TriggerRegistry) (specs : List (String × TriggerSpec)) :
    (onEventLoop eventType payload depth now draw r specs).1 = [] ↔
      ∀ e ∈ specs, (matchSpec e.2 eventType payload depth).isSome → r.debounceOpen e.2 now = false := by
  induction specs with
  | nil => simp [onEventLoop]
  | cons e rest ih =>
    obtain ⟨owner, spec⟩ := e
    rw [List.forall_mem_cons, ← ih]
    cases hmatch : matchSpec spec eventType payload depth with
    | none => simp [onEventLoop, hmatch]
    | some body =>
      cases hopen : r.debounceOpen spec now with
      | false => simp [onEventLoop, hmatch, TriggerRegistry.debounceAllows_of_closed hopen]
      | true =>
        have hallows := (r.debounceAllows_fst spec now).trans hopen
        rcases hr : r.debounceAllows spec now with ⟨allowed, r'⟩
        rw [hr] at hallows
        simp only at hallows
        simp [onEventLoop, hmatch, hr, hallows]

end Loop

/-- An event whose depth reads raises an intent exactly when it fires some trigger. -/
theorem TriggerRegistry.onEvent_ne_nil_iff (r : TriggerRegistry) {eventType : String}
    {payload : Payload} {now : Instant} {draw : ℕ → Defaults} {parent : ℤ}
    (h : parentDepth payload = some parent) :
    ((r.onEvent eventType payload now draw).getD ([], r)).1 ≠ [] ↔
      r.Fires eventType payload now := by
  simp only [onEvent, h, Option.map_some, Option.getD_some, ne_eq, onEventLoop_eq_nil_iff, Fires,
    matchSpec_isSome _ _ _ (parent + 1) 0]
  simp only [not_forall, Bool.not_eq_false, exists_prop]

end PalmEngine.Work
