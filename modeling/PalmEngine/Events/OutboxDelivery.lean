import PalmEngine.Events.Outbox

/-!
# Delivery from the outbox

The attempt at an entry rebuilds its event, calls the hook that goes before the publication, and
publishes the event. It fails if one of these raises. The event engine isolates the errors of
handlers unless told otherwise, so that a publication whose handlers raise succeeds, and it only
queues handlers that are coroutine functions.

An attempt does what it should, which is to mark the entry published only if every handler
subscribed to its type returned and to count a failure otherwise, exactly when the event cannot
be published, every handler is called and returns, or a handler raises and errors are not
isolated.
-/

namespace PalmEngine.Events

open PalmEngine.Lib

/-- What an attempt works with: the engine, the context bound, the hook that goes before the
publication by the error it raises, the error of reading a time, and the time now. -/
structure DeliverySetup where
  engine : EventEngine
  bound : Option EventContext
  onBeforePublish : Option (Event → Option String)
  timeError : String → Option String
  now : String

namespace DeliverySetup

/-- The event of an entry, or the error of reading its time. -/
def toEvent (d : DeliverySetup) (e : OutboxEntry) : Except String Event :=
  match if e.timestamp = "" then none else d.timeError e.timestamp with
  | some error => .error error
  | none => .ok {
      eventType := e.eventType
      payload := e.payload
      timestamp := if e.timestamp = "" then d.now else e.timestamp
      id := e.id
      context := e.context.bind EventContext.fromDict }

/-- Rebuild the event of an entry and run the hook. -/
def prepare (d : DeliverySetup) (e : OutboxEntry) : Except String Event :=
  match d.toEvent e with
  | .error error => .error error
  | .ok event =>
    match d.onBeforePublish.bind fun hook => hook event with
    | some error => .error error
    | none => .ok event

/-- Attempt an entry with its handlers called again. -/
def deliver (d : DeliverySetup) (e : OutboxEntry) : Publication :=
  match d.prepare e with
  | .error error => ⟨[], some error⟩
  | .ok event => d.engine.publish d.bound .outbox event

/-- The error of an attempt. Without calling the handlers again nothing is published. -/
def attempt (d : DeliverySetup) (replayHandlers : Bool) (e : OutboxEntry) : Option String :=
  if replayHandlers then (d.deliver e).error
  else match d.prepare e with
    | .error error => some error
    | .ok _ => none

/-- Every handler subscribed to the type of the entry returned from its attempt. -/
def AllReturned (d : DeliverySetup) (e : OutboxEntry) : Prop :=
  ∀ h ∈ d.engine.handlersOf e.eventType, ∃ outcome, (h, outcome) ∈ (d.deliver e).log ∧
    outcome.hasReturned

/-- A batch that calls the handlers again marks the entry published only if all of them returned.
Otherwise it counts a failure, and the entry is pending until the fifth. -/
def AtLeastOnce (d : DeliverySetup) (limit : ℕ) (s : OutboxStore) (e : OutboxEntry) : Prop :=
  ∃ e', (processBatch (d.attempt true) limit s).2.entries.get? e.id = some e' ∧
    (e'.status = .published → d.AllReturned e) ∧
    (¬ d.AllReturned e → e'.status ≠ .published ∧ e'.attempts = e.attempts + 1 ∧
      (e'.status = .pending ↔ e'.attempts < 5))

/-- The event cannot be published, or every handler of the event is called and returns, or errors
are not isolated and a handler raises. -/
def Answers (d : DeliverySetup) (e : OutboxEntry) : Prop :=
  match d.prepare e with
  | .error _ => True
  | .ok event =>
    let resolved := EventEngine.resolveContext d.bound event
    (∀ h ∈ d.engine.handlersOf e.eventType, (h.invoke resolved).hasReturned) ∨
      d.engine.isolateHandlerErrors = false ∧
        ∃ h ∈ d.engine.handlersOf e.eventType, ∃ error, h.invoke resolved = .raised error

/-- The event of an entry has its type. -/
theorem eventType_of_prepare {d : DeliverySetup} {e : OutboxEntry} {event : Event}
    (h : d.prepare e = .ok event) : event.eventType = e.eventType := by
  unfold prepare toEvent at h
  grind

/-- An attempt at an entry whose event can be published calls its handlers. -/
theorem deliver_of_prepare {d : DeliverySetup} {e : OutboxEntry} {event : Event}
    (h : d.prepare e = .ok event) :
    d.deliver e = EventEngine.dispatch d.engine.isolateHandlerErrors
      (EventEngine.resolveContext d.bound event) (d.engine.handlersOf e.eventType) := by
  simp [deliver, h, EventEngine.publish, eventType_of_prepare h]

/-- After a publication without error the handlers that returned are those whose call does. -/
theorem allReturned_iff {d : DeliverySetup} {e : OutboxEntry} {event : Event}
    (h : d.prepare e = .ok event) (hnone : (d.deliver e).error = none) :
    d.AllReturned e ↔ ∀ h ∈ d.engine.handlersOf e.eventType,
      (h.invoke (EventEngine.resolveContext d.bound event)).hasReturned := by
  rw [deliver_of_prepare h] at hnone
  simp only [AllReturned, deliver_of_prepare h, EventEngine.log_dispatch hnone]
  refine forall₂_congr fun h hmem => ?_
  constructor
  · rintro ⟨outcome, hlog, hreturned⟩
    obtain ⟨h', -, heq⟩ := List.mem_map.mp hlog
    cases heq
    exact hreturned
  · exact fun hreturned => ⟨_, List.mem_map.mpr ⟨h, hmem, rfl⟩, hreturned⟩

/-- What a failed attempt makes of a pending entry. -/
theorem fail_spec {e : OutboxEntry} (hpending : e.status = .pending) (error : String) :
    (e.fail error).status ≠ .published ∧ (e.fail error).attempts = e.attempts + 1 ∧
      ((e.fail error).status = .pending ↔ (e.fail error).attempts < 5) := by
  simp only [OutboxEntry.fail, hpending]
  split <;> simp <;> omega

section Attempted

variable {d : DeliverySetup} {limit : ℕ} {s : OutboxStore} {e : OutboxEntry}

/-- What a batch leaves of an entry that it attempts. -/
theorem get?_attempted (he : e ∈ s.listPending limit) :
    (processBatch (d.attempt true) limit s).2.entries.get? e.id =
      some (e.settle (d.attempt true)) := by
  have hwaits : s.Waits limit e.id := List.mem_map_of_mem he
  rw [get?_processBatch, (OutboxStore.mem_listPending.mp he).2.1]
  simp [hwaits]

/-- An attempt that raises does what it should. -/
theorem atLeastOnce_of_error (he : e ∈ s.listPending limit) {error : String}
    (herror : (d.deliver e).error = some error) : d.AtLeastOnce limit s e := by
  have hsettle : e.settle (d.attempt true) = e.fail error := by
    simp [OutboxEntry.settle, attempt, herror]
  have hspec := fail_spec (OutboxStore.mem_listPending.mp he).2.2 error
  refine ⟨e.fail error, hsettle ▸ get?_attempted he, fun hstatus => ?_, fun _ => hspec⟩
  exact absurd hstatus hspec.1

/-- An attempt that does not raise does what it should exactly when all handlers returned. -/
theorem atLeastOnce_of_success (he : e ∈ s.listPending limit)
    (hnone : (d.deliver e).error = none) : d.AtLeastOnce limit s e ↔ d.AllReturned e := by
  have hsettle : e.settle (d.attempt true) = e.publish := by
    simp [OutboxEntry.settle, attempt, hnone]
  have hget := get?_attempted (d := d) he
  rw [hsettle] at hget
  constructor
  · rintro ⟨e', hget', hpublished, -⟩
    obtain rfl : e.publish = e' := Option.some.inj (hget.symm.trans hget')
    exact hpublished rfl
  · exact fun hall => ⟨e.publish, hget, fun _ => hall, fun hnot => absurd hall hnot⟩

end Attempted

end DeliverySetup

/-- A batch that calls the handlers again marks an entry published only if all of them returned,
and else counts a failure, exactly when the event cannot be published, every handler is called
and returns, or errors are not isolated and a handler raises. -/
theorem atLeastOnce_iff {d : DeliverySetup} {limit : ℕ} {s : OutboxStore} {e : OutboxEntry}
    (he : e ∈ s.listPending limit) : d.AtLeastOnce limit s e ↔ d.Answers e := by
  unfold DeliverySetup.Answers
  cases hprepare : d.prepare e with
  | error error =>
    have herror : (d.deliver e).error = some error := by simp [DeliverySetup.deliver, hprepare]
    exact iff_of_true (DeliverySetup.atLeastOnce_of_error he herror) trivial
  | ok event =>
    have hraises := EventEngine.error_dispatch d.engine.isolateHandlerErrors
      (EventEngine.resolveContext d.bound event) (d.engine.handlersOf e.eventType)
    rw [← DeliverySetup.deliver_of_prepare hprepare] at hraises
    cases herror : (d.deliver e).error with
    | some error =>
      have hraised := hraises.mp (by simp [herror])
      exact iff_of_true (DeliverySetup.atLeastOnce_of_error he herror) (.inr hraised)
    | none =>
      rw [herror] at hraises
      rw [DeliverySetup.atLeastOnce_of_success he herror,
        DeliverySetup.allReturned_iff hprepare herror]
      exact ⟨.inl, fun h => h.resolve_right fun hraised => absurd (hraises.mpr hraised) nofun⟩

/-- One handler, which raises. -/
def rejecting (isolate : Bool) : DeliverySetup where
  engine := ⟨Dict.empty.set "tick" [⟨1, ⟨false, fun _ => .error "no"⟩, 0⟩], [], isolate⟩
  bound := none
  onBeforePublish := none
  timeError _ := none
  now := ""

/-- An outbox with one entry. -/
def oneEntry : OutboxStore := OutboxStore.empty.enqueue (.bare "tick" "a")

/-- The entry waits for delivery. -/
theorem fromEvent_mem_oneEntry :
    .fromEvent (.bare "tick" "a") ∈ oneEntry.listPending 50 :=
  OutboxStore.mem_listPending.mpr ⟨by decide, OutboxStore.get?_enqueue_self _ _, rfl⟩

/-- A handler that raises where errors are not isolated. -/
theorem atLeastOnce_iff_raised :
    (rejecting false).AtLeastOnce 50 oneEntry (.fromEvent (.bare "tick" "a")) :=
  (atLeastOnce_iff fromEvent_mem_oneEntry).mpr
    (.inr ⟨rfl, _, List.mem_of_getElem? (i := 0) rfl, "no", rfl⟩)

/-- An engine that isolates errors hides a handler that raises. -/
theorem atLeastOnce_fails : ¬ ∀ (d : DeliverySetup) (limit : ℕ) (s : OutboxStore),
    ∀ e ∈ s.listPending limit, d.AtLeastOnce limit s e := by
  intro h
  have hall := (DeliverySetup.atLeastOnce_of_success fromEvent_mem_oneEntry rfl).mp
    (h (rejecting true) 50 oneEntry _ fromEvent_mem_oneEntry)
  have hreturned := (DeliverySetup.allReturned_iff rfl rfl).mp hall _
    (List.mem_of_getElem? (i := 0) rfl)
  cases hreturned

end PalmEngine.Events
