import PalmEngine.Events.Engine
import PalmEngine.Lib.Runs
import PalmEngine.Lib.StableSort

/-!
# Subscriptions and queued handlers

The engine keeps a bucket of handlers for each event type: subscribing appends to it and sorts it
again by priority, unsubscribing filters it. Over any calls a bucket is the list of those that are
subscribed, in the order of their subscription, sorted once. A subscription to the name that stands
for interceptors is never taken back.

A coroutine handler is queued at its publication. A drain takes the whole queue at its start and
runs it one by one, while others publish, drain and shut the engine down. Nothing that was queued
runs twice; it is lost only to a shutdown, or to a handler before it in its drain that raises in an
engine that does not isolate errors.
-/

namespace PalmEngine.Events

open PalmEngine.Lib

/-- The event type under which interceptors are subscribed. -/
def interceptorType : String := "__interceptor__"

/-- The handle of a subscription. -/
structure Subscription where
  eventType : String
  subscriptionId : ℕ
  deriving DecidableEq, Repr

/-- A handler that waits for a drain, with its event. -/
abbrev QueuedHandler := HandlerEntry × Event

/-- The event engine with its drains: those that run, by what they have still to run, and what was
queued, was run and was dropped so far. -/
structure EventBus where
  handlers : Dict String (List HandlerEntry) := .empty
  interceptors : List (ℕ × (Event → Option String)) := []
  nextSubscriptionId : ℕ := 1
  isolateHandlerErrors : Bool := true
  pendingAsync : List QueuedHandler := []
  draining : List (List QueuedHandler) := []
  queued : List QueuedHandler := []
  ran : List QueuedHandler := []
  dropped : List QueuedHandler := []

/-- One call of the engine, or a drain that goes on: whether its next handler raises. -/
inductive BusCall where
  | doInitialize (isolateHandlerErrors : Option Bool)
  | subscribe (eventType : String) (handler : Handler) (priority : ℤ)
  | addInterceptor (interceptor : Event → Option String)
  | unsubscribe (subscription : Subscription)
  | publish (bound : Option EventContext) (source : EventSource) (event : Event)
  | startDrain
  | drainNext (drain : ℕ) (raises : Bool)
  | shutdown

namespace EventBus

/-- The engine as a publication sees it. -/
def engine (s : EventBus) : EventEngine where
  handlers := s.handlers
  interceptors := s.interceptors.map Prod.snd
  isolateHandlerErrors := s.isolateHandlerErrors

/-- The bucket of an event type. -/
def bucket (s : EventBus) (eventType : String) : List HandlerEntry :=
  (s.handlers.get? eventType).getD []

/-- Subscribe a handler: its bucket is sorted by priority again. -/
def subscribe (s : EventBus) (eventType : String) (handler : Handler) (priority : ℤ) : EventBus :=
  let entry : HandlerEntry := ⟨s.nextSubscriptionId, handler, priority⟩
  { s with
    nextSubscriptionId := s.nextSubscriptionId + 1
    handlers := s.handlers.set eventType
      (sortDescending HandlerEntry.priority (s.bucket eventType ++ [entry])) }

/-- Take a subscription back. -/
def unsubscribe (s : EventBus) (subscription : Subscription) : EventBus :=
  if subscription.eventType = interceptorType then
    { s with interceptors := s.interceptors.filter (·.1 ≠ subscription.subscriptionId) }
  else
    { s with
      handlers := s.handlers.set subscription.eventType
        ((s.bucket subscription.eventType).filter
          (·.subscriptionId ≠ subscription.subscriptionId)) }

/-- The handlers that a publication queues. -/
def queuedBy (publication : Publication) (event : Event) : List QueuedHandler :=
  (publication.log.filter (·.2 = .queued)).map fun e => (e.1, event)

/-- Publish an event: the coroutine handlers are queued. -/
def publish (s : EventBus) (bound : Option EventContext) (source : EventSource) (event : Event) :
    EventBus :=
  let queued := queuedBy (s.engine.publish bound source event)
    (EventEngine.resolveContext bound event)
  { s with pendingAsync := s.pendingAsync ++ queued, queued := s.queued ++ queued }

/-- Start a drain: it takes all that waits. -/
def startDrain (s : EventBus) : EventBus :=
  { s with draining := s.draining ++ [s.pendingAsync], pendingAsync := [] }

/-- A drain runs its next handler. If that raises and errors are not isolated, the drain ends. -/
def drainNext (s : EventBus) (drain : ℕ) (raises : Bool) : EventBus :=
  match s.draining[drain]? with
  | some (next :: rest) =>
    if raises ∧ s.isolateHandlerErrors = false then
      { s with
        ran := s.ran ++ [next]
        dropped := s.dropped ++ rest
        draining := s.draining.set drain [] }
    else { s with ran := s.ran ++ [next], draining := s.draining.set drain rest }
  | _ => s

/-- Shut the engine down: subscriptions and what waits are dropped; running drains go on. -/
def shutdown (s : EventBus) : EventBus :=
  { s with
    handlers := .empty
    interceptors := []
    pendingAsync := []
    dropped := s.dropped ++ s.pendingAsync }

/-- The engine after a call. -/
def call (s : EventBus) : BusCall → EventBus
  | .doInitialize isolate => { s with isolateHandlerErrors := isolate.getD s.isolateHandlerErrors }
  | .subscribe eventType handler priority => s.subscribe eventType handler priority
  | .addInterceptor interceptor =>
    { s with
      nextSubscriptionId := s.nextSubscriptionId + 1
      interceptors := s.interceptors ++ [(s.nextSubscriptionId, interceptor)] }
  | .unsubscribe subscription => s.unsubscribe subscription
  | .publish bound source event => s.publish bound source event
  | .startDrain => s.startDrain
  | .drainNext drain raises => s.drainNext drain raises
  | .shutdown => s.shutdown

/-- The engine after some calls. -/
def after (calls : List BusCall) : EventBus := calls.foldl call {}

end EventBus

/-- Who is subscribed, in the order of subscription. -/
structure Subscribers where
  next : ℕ := 1
  live : List (String × HandlerEntry) := []
  interceptors : List (ℕ × (Event → Option String)) := []

namespace Subscribers

/-- Who is subscribed after a call. -/
def call (s : Subscribers) : BusCall → Subscribers
  | .subscribe eventType handler priority =>
    { s with next := s.next + 1, live := s.live ++ [(eventType, ⟨s.next, handler, priority⟩)] }
  | .addInterceptor interceptor =>
    { s with next := s.next + 1, interceptors := s.interceptors ++ [(s.next, interceptor)] }
  | .unsubscribe ⟨eventType, id⟩ =>
    if eventType = interceptorType then
      { s with interceptors := s.interceptors.filter (·.1 ≠ id) }
    else
      { s with live := s.live.filter fun e => ¬(e.1 = eventType ∧ e.2.subscriptionId = id) }
  | .shutdown => { s with live := [], interceptors := [] }
  | _ => s

/-- Who is subscribed after some calls. -/
def after (calls : List BusCall) : Subscribers := calls.foldl call {}

/-- Who is subscribed to an event type, the higher priorities first and then the older ones. -/
def byPriority (s : Subscribers) (eventType : String) : List HandlerEntry :=
  sortDescending HandlerEntry.priority ((s.live.filter (·.1 = eventType)).map Prod.snd)

/-- Publish an event to those who are subscribed to its type, and then to those who are subscribed
to all. -/
def publish (s : Subscribers) (isolate : Bool) (bound : Option EventContext) (source : EventSource)
    (event : Event) : Publication :=
  let resolved := EventEngine.resolveContext bound event
  let intercepted :=
    if source = .outbox then none
    else (s.interceptors.map Prod.snd).findSome? fun interceptor => interceptor resolved
  match intercepted with
  | some error => ⟨[], some error⟩
  | none =>
    EventEngine.dispatch isolate resolved (s.byPriority event.eventType ++ s.byPriority "*")

end Subscribers

namespace EventBus

/-- The buckets are those who are subscribed, each sorted by priority. -/
structure Holds (s : EventBus) (t : Subscribers) : Prop where
  next : s.nextSubscriptionId = t.next
  interceptors : s.interceptors = t.interceptors
  buckets : ∀ eventType, s.bucket eventType = t.byPriority eventType

/-- A bucket after one is replaced. -/
private theorem bucket_set {s u : EventBus} {eventType : String} {entries : List HandlerEntry}
    (h : u.handlers = s.handlers.set eventType entries) (other : String) :
    u.bucket other = if other = eventType then entries else s.bucket other := by
  unfold bucket
  rw [h]
  by_cases hother : other = eventType
  · subst hother
    simp
  · rw [Dict.get?_set_ne _ _ hother, if_neg hother]

/-- Sorting once more after each subscription is sorting once. -/
private theorem sortDescending_append (l : List HandlerEntry) (entry : HandlerEntry) :
    sortDescending HandlerEntry.priority
        (sortDescending HandlerEntry.priority l ++ [entry]) =
      sortDescending HandlerEntry.priority (l ++ [entry]) := by
  refine sortDescending_eq_iff.mpr fun k => ?_
  rw [List.filter_append, List.filter_append, filter_sortDescending]

/-- Leaving members out of a sorted list is sorting what is left. -/
private theorem filter_sort_comm (l : List HandlerEntry) (p : HandlerEntry → Bool) :
    (sortDescending HandlerEntry.priority l).filter p =
      sortDescending HandlerEntry.priority (l.filter p) := by
  have hsorted := (pairwise_sortDescending HandlerEntry.priority l).filter p
  rw [← sortDescending_of_pairwise hsorted]
  refine sortDescending_filter_eq ?_ p
  exact sortDescending_of_pairwise (pairwise_sortDescending HandlerEntry.priority l)

/-- Each call keeps the buckets those who are subscribed. -/
theorem Holds.call {s : EventBus} {t : Subscribers} (h : Holds s t) (c : BusCall) :
    Holds (s.call c) (t.call c) := by
  cases c with
  | doInitialize isolate => exact ⟨h.next, h.interceptors, h.buckets⟩
  | subscribe eventType handler priority =>
    refine ⟨congrArg (· + 1) h.next, h.interceptors, fun other => ?_⟩
    have hbus := bucket_set (s := s) (u := s.call (.subscribe eventType handler priority)) rfl other
    rw [hbus, h.buckets eventType, h.buckets other, h.next]
    unfold Subscribers.byPriority Subscribers.call
    by_cases hother : other = eventType
    · subst hother
      rw [if_pos rfl, sortDescending_append]
      simp
    · have hne : eventType ≠ other := Ne.symm hother
      simp [hother, hne]
  | addInterceptor interceptor =>
    exact ⟨congrArg (· + 1) h.next, by
      simp only [EventBus.call, Subscribers.call, h.next, h.interceptors], h.buckets⟩
  | unsubscribe subscription =>
    obtain ⟨eventType, id⟩ := subscription
    by_cases htype : eventType = interceptorType
    · refine ⟨?_, ?_, fun other => ?_⟩
      · simp [EventBus.call, EventBus.unsubscribe, Subscribers.call, htype, h.next]
      · simp [EventBus.call, EventBus.unsubscribe, Subscribers.call, htype, h.interceptors]
      · have hbucket := h.buckets other
        simpa [EventBus.call, EventBus.unsubscribe, Subscribers.call, htype, bucket,
          Subscribers.byPriority] using hbucket
    · refine ⟨?_, ?_, fun other => ?_⟩
      · simp [EventBus.call, EventBus.unsubscribe, Subscribers.call, htype, h.next]
      · simp [EventBus.call, EventBus.unsubscribe, Subscribers.call, htype, h.interceptors]
      · have hbus : s.call (.unsubscribe ⟨eventType, id⟩) = { s with
            handlers := s.handlers.set eventType
              ((s.bucket eventType).filter (·.subscriptionId ≠ id)) } := if_neg htype
        have hsubs : t.call (.unsubscribe ⟨eventType, id⟩) = { t with
            live := t.live.filter fun e => ¬(e.1 = eventType ∧ e.2.subscriptionId = id) } :=
          if_neg htype
        rw [hbus, hsubs, bucket_set rfl, h.buckets eventType, h.buckets other]
        unfold Subscribers.byPriority
        by_cases hother : other = eventType
        · subst hother
          rw [if_pos rfl, filter_sort_comm, List.filter_map, List.filter_filter, List.filter_filter]
          congr 3
          funext e
          by_cases he : e.1 = other
          · simp [he]
          · simp [he]
        · rw [if_neg hother, List.filter_filter]
          congr 3
          funext e
          by_cases he : e.1 = other
          · simp [he, hother]
          · simp [he]
  | publish bound source event => exact ⟨h.next, h.interceptors, h.buckets⟩
  | startDrain => exact ⟨h.next, h.interceptors, h.buckets⟩
  | drainNext drain raises =>
    have hsame : (s.drainNext drain raises).handlers = s.handlers ∧
        (s.drainNext drain raises).interceptors = s.interceptors ∧
        (s.drainNext drain raises).nextSubscriptionId = s.nextSubscriptionId := by
      unfold drainNext
      split
      · split
        · exact ⟨rfl, rfl, rfl⟩
        · exact ⟨rfl, rfl, rfl⟩
      · exact ⟨rfl, rfl, rfl⟩
    refine ⟨hsame.2.2.trans h.next, hsame.2.1.trans h.interceptors, fun eventType => ?_⟩
    change bucket (s.drainNext drain raises) eventType = _
    rw [bucket, hsame.1]
    exact h.buckets eventType
  | shutdown => exact ⟨h.next, rfl, fun _ => rfl⟩

/-- Over any calls the buckets are those who are subscribed. -/
theorem holds_after (calls : List BusCall) : Holds (after calls) (Subscribers.after calls) := by
  have hrun (calls : List BusCall) (s : EventBus) (t : Subscribers) (h : Holds s t) :
      Holds (calls.foldl call s) (calls.foldl Subscribers.call t) := by
    induction calls generalizing s t with
    | nil => exact h
    | cons c rest ih => exact ih _ _ (h.call c)
  exact hrun calls {} {} ⟨rfl, rfl, fun _ => rfl⟩

/-- After any calls, whatever was subscribed and taken back in between, a publication runs the
interceptors that are left in the order of their adding, and then the handlers that are subscribed
to its type and those that are subscribed to all, each the higher priorities first and then the
older ones. -/
theorem publish_after (calls : List BusCall) (bound : Option EventContext) (source : EventSource)
    (event : Event) : (after calls).engine.publish bound source event =
      (Subscribers.after calls).publish (after calls).isolateHandlerErrors bound source event := by
  obtain ⟨-, hinterceptors, hbuckets⟩ := holds_after calls
  have hhandlers (eventType : String) : (after calls).engine.handlersOf eventType =
      (Subscribers.after calls).byPriority eventType ++
        (Subscribers.after calls).byPriority "*" := by
    rw [← hbuckets, ← hbuckets]
    rfl
  have hintercept : (after calls).engine.interceptors =
      (Subscribers.after calls).interceptors.map Prod.snd :=
    congrArg (List.map Prod.snd) hinterceptors
  unfold EventEngine.publish Subscribers.publish
  dsimp only
  rw [hintercept, hhandlers, EventEngine.eventType_resolveContext]
  rfl

/-- The call loses handlers that wait: a shutdown while some do, or a handler that raises in an
engine that does not isolate errors, with others after it in its drain. -/
def Drops (s : EventBus) : BusCall → Prop
  | .shutdown => s.pendingAsync ≠ []
  | .drainNext drain raises => (raises = true ∧ s.isolateHandlerErrors = false) ∧
    ∃ next rest, s.draining[drain]? = some (next :: rest) ∧ rest ≠ []
  | _ => False

/-- Where everything that was queued is: run, in a drain, waiting, or dropped. -/
private def held (s : EventBus) : Multiset QueuedHandler :=
  (s.ran : Multiset QueuedHandler) + s.draining.flatten + s.pendingAsync + s.dropped

/-- A drain that is taken out takes what it has still to run. -/
private theorem flatten_set {drains : List (List QueuedHandler)} {i : ℕ} {l : List QueuedHandler}
    (h : drains[i]? = some l) (rest : List QueuedHandler) :
    ((drains.set i rest).flatten : Multiset QueuedHandler) + l =
      (drains.flatten : Multiset QueuedHandler) + rest := by
  induction drains generalizing i with
  | nil => simp at h
  | cons first drains ih =>
    cases i with
    | zero =>
      obtain rfl : first = l := by simpa using h
      simp only [List.set_cons_zero, List.flatten_cons, ← Multiset.coe_add]
      abel
    | succ i =>
      have hrest := ih (by simpa using h)
      simp only [List.set_cons_succ, List.flatten_cons, ← Multiset.coe_add]
      rw [add_assoc, hrest, add_assoc]

/-- What a drain does with its next handler. -/
private theorem drainNext_spec (s : EventBus) (drain : ℕ) (raises : Bool) :
    ((s.drainNext drain raises).held = s.held ∧ (s.drainNext drain raises).queued = s.queued) ∧
      ((s.drainNext drain raises).dropped = [] ↔
        s.dropped = [] ∧ ¬s.Drops (.drainNext drain raises)) := by
  unfold drainNext Drops
  cases hdrain : s.draining[drain]? with
  | none => simp [hdrain]
  | some l =>
    cases l with
    | nil => simp [hdrain]
    | cons next rest =>
      have hflat (kept : List QueuedHandler) := flatten_set hdrain kept
      have hcons : ((next :: rest : List QueuedHandler) : Multiset QueuedHandler) =
          ([next] : List QueuedHandler) + (rest : Multiset QueuedHandler) := rfl
      dsimp only
      split
      · rename_i hraises
        refine ⟨⟨?_, rfl⟩, ?_⟩
        · have hnone := hflat []
          simp only [held, ← Multiset.coe_add, Multiset.coe_nil, add_zero] at hnone ⊢
          rw [← hnone, hcons]
          abel
        · have hrest (l : List QueuedHandler) : s.dropped ++ l = [] ↔ s.dropped = [] ∧ l = [] :=
            List.append_eq_nil_iff
          simp [hraises, hdrain, hrest]
      · rename_i hraises
        refine ⟨⟨?_, rfl⟩, ?_⟩
        · have hrest := hflat rest
          rw [hcons, ← add_assoc] at hrest
          have hkept := add_right_cancel hrest
          simp only [held, ← Multiset.coe_add]
          rw [← hkept]
          abel
        · simp [hraises]

/-- Each call keeps account of what was queued, and drops something exactly if it loses it. -/
private theorem call_spec {s : EventBus} (h : s.held = s.queued) (c : BusCall) :
    (s.call c).held = (s.call c).queued ∧
      ((s.call c).dropped = [] ↔ s.dropped = [] ∧ ¬s.Drops c) := by
  cases c with
  | doInitialize isolate => exact ⟨h, by simp [call, Drops]⟩
  | subscribe eventType handler priority => exact ⟨h, by simp [call, subscribe, Drops]⟩
  | addInterceptor interceptor => exact ⟨h, by simp [call, Drops]⟩
  | unsubscribe subscription =>
    by_cases htype : subscription.eventType = interceptorType
    · rw [show s.call (.unsubscribe subscription) = _ from if_pos htype]
      exact ⟨h, by simp [Drops]⟩
    · rw [show s.call (.unsubscribe subscription) = _ from if_neg htype]
      exact ⟨h, by simp [Drops]⟩
  | publish bound source event =>
    refine ⟨?_, by simp [call, publish, Drops]⟩
    simp only [held, call, publish, ← Multiset.coe_add] at h ⊢
    rw [← h]
    abel
  | startDrain =>
    refine ⟨?_, by simp [call, startDrain, Drops]⟩
    simp only [held, call, startDrain, List.flatten_append, List.flatten_cons, List.flatten_nil,
      List.append_nil, ← Multiset.coe_add, Multiset.coe_nil, add_zero] at h ⊢
    rw [← h]
    abel
  | drainNext drain raises =>
    obtain ⟨⟨hheld, hqueued⟩, hdropped⟩ := drainNext_spec s drain raises
    exact ⟨hheld.trans (h.trans (congrArg _ hqueued.symm)), hdropped⟩
  | shutdown =>
    refine ⟨?_, by simp [call, shutdown, Drops]⟩
    simp only [held, call, shutdown, ← Multiset.coe_add, Multiset.coe_nil, add_zero] at h ⊢
    rw [← h]
    abel

/-- Over any calls, with any number of drains in between each other, what was queued is each once
either run, in a drain, waiting or dropped; and nothing is dropped as long as no call loses it. -/
theorem async_conserved (calls : List BusCall) :
    ((after calls).ran ++ (after calls).draining.flatten ++ (after calls).pendingAsync ++
        (after calls).dropped).Perm (after calls).queued ∧
      ((after calls).dropped = [] ↔
        ∀ before c later, calls = before ++ c :: later → ¬(after before).Drops c) := by
  induction calls using List.reverseRecOn with
  | nil => exact ⟨.refl _, by simp [after]⟩
  | append_singleton calls c ih =>
    obtain ⟨hperm, hdropped⟩ := ih
    have hheld : (after calls).held = (after calls).queued := by
      rw [← Multiset.coe_eq_coe] at hperm
      simpa only [held, ← Multiset.coe_add] using hperm
    have hafter : after (calls ++ [c]) = (after calls).call c := by
      simp [after]
    obtain ⟨hcall, hcallDropped⟩ := call_spec hheld c
    rw [hafter]
    refine ⟨?_, ?_⟩
    · rw [← Multiset.coe_eq_coe]
      simpa only [held, ← Multiset.coe_add] using hcall
    · rw [hcallDropped, hdropped]
      constructor
      · rintro ⟨hbefore, hlast⟩ before d later hsplit
        rcases List.eq_nil_or_concat later with rfl | ⟨later, e, rfl⟩
        · obtain ⟨rfl, hd⟩ := List.append_inj' hsplit rfl
          obtain rfl : c = d := by simpa using hd
          exact hlast
        · have hsplit' : calls ++ [c] = (before ++ d :: later) ++ [e] := by simpa using hsplit
          obtain ⟨hcalls, -⟩ := List.append_inj' hsplit' rfl
          exact hbefore before d later hcalls
      · intro hall
        refine ⟨fun before d later hsplit => ?_, hall calls c [] rfl⟩
        exact hall before d (later ++ [c]) (by simp [hsplit])

end EventBus

end PalmEngine.Events
