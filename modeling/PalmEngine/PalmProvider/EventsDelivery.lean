import PalmEngine.PalmProvider.EventsClient

/-!
# What the client of an event stream delivers

Between two frames a client is where it can go on after a time out, so as long as all of them come
there, what it has yielded, what it has parked and what it has not yet read make up the events that
were sent.
-/

namespace PalmEngine.PalmProvider

open Lib Websocket
open Context (Value)

/-- What arrives of frames, with interruptions between them. -/
def arrivalsOf (items : List (Option Frame)) : List (Arrival UInt8) :=
  items.flatMap fun item => item.elim [.timeout] fun f => f.encodeFrame.map .item

/-- The messages that are events. -/
def eventMessages (messages : List Message) : List Message := messages.filter (·.isOp "event")

/-- A fault of reading, as it is received. -/
def Received.ofFault : ReadFault → Received
  | .timeout => .timeout
  | .closed => .closed

/-- The events among what was received. -/
def Received.events : Received → List Message
  | .message m => eventMessages [m]
  | _ => []

/-- An event that was received. -/
theorem events_of_event {m : Message} (h : m.isOp "event" = true) :
    (Received.message m).events = [m] := by
  simp [Received.events, eventMessages, h]

/-- A message that is no event. -/
theorem events_of_not_event {m : Message} (h : ¬m.isOp "event" = true) :
    (Received.message m).events = [] := by
  simp [Received.events, eventMessages, h]

variable {σ : Type} (S : InterruptedSource σ UInt8) (loads : List UInt8 → Option Value)

/-- The events of a frame. -/
def eventsOf (f : Frame) : List Message := (receivedAs loads f.contents).elim [] Received.events

/-- The events of frames. -/
def sentEvents (frames : List Frame) : List Message := frames.flatMap (eventsOf loads)

/-- No event follows a frame that closes. -/
def ClosesLast (frames : List Frame) : Prop :=
  ∀ front f back, frames = front ++ f :: back → f.opcode = opClose → sentEvents loads back = []

/-- A subscription is made while no events are parked, and a generator that has begun to read is
advanced then only. -/
def ClientCall.Ordered (s : ClientRun σ) : ClientCall → Prop
  | .subscribe _ => s.client.pending = []
  | .events => True
  | .next g _ => s.generators[g]? = some .receiving → s.client.pending = []

/-- The events of the frames are yielded in order and none of them twice, and all of them if nothing
is left to arrive and nothing is parked. Unless all were yielded or a time out is to come, a generator
that is advanced before its deadline has something to yield. -/
structure Delivers (frames : List Frame) (s : ClientRun σ) : Prop where
  inOrder : eventMessages s.yielded <+: sentEvents loads frames
  complete : s.client.reader.arrivals S = [] → s.client.pending = [] →
    eventMessages s.yielded = sentEvents loads frames
  progress : ∀ g phase, s.generators[g]? = some phase → phase ≠ .finished →
    (ClientCall.next g fun _ => false).Ordered s → .timeout ∉ s.client.reader.arrivals S →
      ∀ s', s.step S loads (.next g fun _ => false) = some s' →
        s.yielded.length < s'.yielded.length ∨
          eventMessages s'.yielded = sentEvents loads frames

variable {S loads}

/-- At a time out that comes between two frames reading a frame is interrupted. -/
theorem readFrame_timeout {r : PrefixedReader σ} {items : List (Option Frame)}
    (h : r.arrivals S = arrivalsOf (none :: items)) :
    ∃ r', readFrame S r = (.error .timeout, r') ∧ r'.arrivals S = arrivalsOf items := by
  obtain ⟨r', hread, hrest⟩ :=
    InterruptedSource.readExact_timeout (S := PrefixedReader.source S) (n := 1) h one_pos
  exact ⟨r', InterruptedSource.bind_error hread _, hrest⟩

/-- When nothing more arrives, reading a frame finds the connection closed. -/
theorem readFrame_end {r : PrefixedReader σ} (h : r.arrivals S = []) :
    ∃ r', readFrame S r = (.error .closed, r') ∧ r'.arrivals S = [] := by
  obtain ⟨r', hread, hrest⟩ :=
    InterruptedSource.readExact_end (S := PrefixedReader.source S) (n := 1) h one_pos
  exact ⟨r', InterruptedSource.bind_error hread _, hrest⟩

/-- A frame that arrives is read. -/
theorem readFrame_frame {r : PrefixedReader σ} {f : Frame} {items : List (Option Frame)}
    (h : r.arrivals S = arrivalsOf (some f :: items)) :
    ∃ r', readFrame S r = (.ok f.contents, r') ∧ r'.arrivals S = arrivalsOf items := by
  have hparse := parseFrame_encodeFrame f []
  rw [List.append_nil] at hparse
  obtain ⟨r', hread, hrest⟩ :=
    follows_readFrameWith (PrefixedReader.source S) r f.encodeFrame (arrivalsOf items) _ _ h hparse
  exact ⟨r', hread, hrest⟩

/-- A fault of reading a frame is received as such. -/
theorem recvJson_error {r r' : PrefixedReader σ} {fault : ReadFault}
    (h : readFrame S r = (.error fault, r')) :
    recvJson S loads r = (.ofFault fault, r') := by
  rw [recvJson]
  split
  case h_3 hread =>
    rw [h] at hread
    cases hread
  all_goals
    next hread =>
      rw [h] at hread
      cases hread
      rfl

/-- A frame is received as what it is, or skipped. -/
theorem recvJson_ok {r r' : PrefixedReader σ} {contents : ℕ × List UInt8}
    (h : readFrame S r = (.ok contents, r')) :
    recvJson S loads r =
      (receivedAs loads contents).elim (recvJson S loads r') fun received => (received, r') := by
  rw [recvJson]
  split
  case h_3 contents' r'' hread =>
    rw [h] at hread
    cases hread
    cases receivedAs loads contents <;> rfl
  all_goals
    next hread =>
      rw [h] at hread
      cases hread

/-- An interruption is one of those that come between the frames. -/
theorem timeout_mem_arrivalsOf {items : List (Option Frame)} :
    .timeout ∈ arrivalsOf items ↔ none ∈ items := by
  simp only [arrivalsOf, List.mem_flatMap]
  constructor
  · rintro ⟨_ | f, hitem, h⟩
    · exact hitem
    · simp at h
  · exact fun h => ⟨none, h, List.mem_singleton_self _⟩

/-- A frame is not received as a time out, and as the end only if it closes. -/
theorem receivedAs_cases {contents : ℕ × List UInt8} {received : Received}
    (h : receivedAs loads contents = some received) :
    received ≠ .timeout ∧ (received = .closed → contents.1 = opClose) := by
  unfold receivedAs at h
  split at h
  · next hclose =>
    cases h
    exact ⟨by simp, fun _ => hclose⟩
  · split at h
    · cases h
    · obtain ⟨v, -, rfl⟩ := Option.map_eq_some_iff.mp h
      cases v.asDict <;> simp

/-- The last frames close last if all do. -/
theorem ClosesLast.suffix {frames left : List Frame} (h : ClosesLast loads frames)
    (hsuffix : left <:+ frames) : ClosesLast loads left := by
  obtain ⟨before, rfl⟩ := hsuffix
  intro front f back heq
  exact h (before ++ front) f back (by rw [heq, List.append_assoc])

/-- What is received is the first event of the frames, if it is an event, and the other events are
those of the frames that are left. A time out is one of those that come between them, and after a
frame that closes or the end there are none. -/
theorem recvJson_spec {items : List (Option Frame)} :
    ∀ {r : PrefixedReader σ}, r.arrivals S = arrivalsOf items →
      ∃ left, (recvJson S loads r).2.arrivals S = arrivalsOf left ∧ left <:+ items ∧
        sentEvents loads items.reduceOption =
          (recvJson S loads r).1.events ++ sentEvents loads left.reduceOption ∧
        ((recvJson S loads r).1 = .timeout → none ∈ items) ∧
        ((recvJson S loads r).1 = .closed → ClosesLast loads items.reduceOption →
          sentEvents loads left.reduceOption = []) := by
  induction items with
  | nil =>
    intro r h
    obtain ⟨r', hread, hrest⟩ := readFrame_end (by simpa [arrivalsOf] using h)
    rw [recvJson_error hread]
    exact ⟨[], hrest, List.suffix_rfl, rfl, (fun h => by cases h), fun _ _ => rfl⟩
  | cons item items ih =>
    intro r h
    cases item with
    | none =>
      obtain ⟨r', hread, hrest⟩ := readFrame_timeout h
      rw [recvJson_error hread]
      exact ⟨items, hrest, List.suffix_cons .., rfl, fun _ => List.mem_cons_self,
        fun h => by cases h⟩
    | some f =>
      obtain ⟨r', hread, hrest⟩ := readFrame_frame h
      rw [recvJson_ok hread, List.reduceOption_cons_of_some]
      simp only [sentEvents, List.flatMap_cons, eventsOf]
      cases hreceived : receivedAs loads f.contents with
      | some received =>
        obtain ⟨hvalue, hclose⟩ := receivedAs_cases hreceived
        exact ⟨items, hrest, List.suffix_cons .., rfl, fun h => absurd h hvalue,
          fun h hlast => hlast [] f _ rfl (hclose h)⟩
      | none =>
        obtain ⟨left, harrivals, hsuffix, hevents, htimeout, hclosed⟩ := ih hrest
        exact ⟨left, harrivals, hsuffix.trans (List.suffix_cons ..), hevents,
          fun h => List.mem_cons_of_mem _ (htimeout h), 
          fun h hlast => hclosed h (hlast.suffix (List.suffix_cons ..))⟩

namespace EventsClient

/-- The events that a client has not yet read. A client that is closed has read all. -/
def Unread (S : InterruptedSource σ UInt8) (loads : List UInt8 → Option Value)
    (c : EventsClient σ) (unread : List Message) : Prop :=
  ∃ items, c.reader.arrivals S = arrivalsOf items ∧ ClosesLast loads items.reduceOption ∧
    unread = sentEvents loads items.reduceOption ∧ (c.closed = true → unread = [])

variable {c c' : EventsClient σ} {unread : List Message} {received : Received}

/-- What is received is the first unread event, if it is an event, and nothing else changes. -/
theorem Unread.receive (h : c.Unread S loads unread)
    (hreceive : c.receive S loads = (received, c')) :
    c'.pending = c.pending ∧
      (.timeout ∈ c'.reader.arrivals S ∨ received = .timeout → .timeout ∈ c.reader.arrivals S) ∧
      ∃ left, c'.Unread S loads left ∧ unread = received.events ++ left ∧
        (received = .closed → left = []) := by
  obtain ⟨items, harrivals, hlast, rfl, hclosed⟩ := h
  obtain ⟨rfl, rfl⟩ := Prod.mk.inj hreceive
  obtain ⟨left, hleft, hsuffix, hevents, htimeout, hend⟩ := recvJson_spec harrivals
  refine ⟨rfl, ?_, sentEvents loads left.reduceOption, ⟨left, hleft, ?_, rfl, ?_⟩, hevents,
    fun h => hend h hlast⟩
  · rw [harrivals, timeout_mem_arrivalsOf]
    rintro (h | h)
    · exact hsuffix.subset (timeout_mem_arrivalsOf.mp (hleft ▸ h))
    · exact htimeout h
  · exact hlast.suffix (hsuffix.filterMap id)
  · simp only [Bool.or_eq_true]
    rintro (h | h)
    · exact (List.append_eq_nil_iff.mp (hevents.symm.trans (hclosed h))).2
    · refine hend ?_ hlast
      split at h
      · assumption
      · cases h

/-- If what is received is no event, the unread events stay. -/
theorem Unread.receive_of_no_event (h : c.Unread S loads unread)
    (hreceive : c.receive S loads = (received, c')) (hevents : received.events = []) :
    c'.Unread S loads unread ∧ c'.pending = c.pending := by
  obtain ⟨hpending, -, left, hleft, heq, -⟩ := h.receive hreceive
  rw [hevents, List.nil_append] at heq
  exact ⟨heq ▸ hleft, hpending⟩

/-- A message is one operation at most. -/
theorem events_of_isOp {m : Message} {op : String} (h : m.isOp op = true) (hne : op ≠ "event") :
    (Received.message m).events = [] := by
  have hnot : ¬m.isOp "event" = true := by
    simp only [Message.isOp, decide_eq_true_eq] at h ⊢
    rw [h]
    simpa using hne
  exact events_of_not_event hnot

/-- Waiting for a confirmation parks the events that are read. -/
theorem Unread.awaitSubscribed (late : ℕ → Bool) (n : ℕ) (c : EventsClient σ) :
    ∀ {unread}, c.Unread S loads unread → (∀ m ∈ c.pending, m.isOp "event" = true) →
      let c' := (c.awaitSubscribed S loads late n).2
      ∃ left, c'.Unread S loads left ∧ c.pending ++ unread = c'.pending ++ left ∧
        ∀ m ∈ c'.pending, m.isOp "event" = true := by
  fun_induction EventsClient.awaitSubscribed S loads late n c with
  | case1 => exact fun h hpending => ⟨_, h, rfl, hpending⟩
  | case2 n c _ c' hreceive | case3 n c _ c' hreceive =>
    intro unread h hpending
    obtain ⟨hleft, heq⟩ := h.receive_of_no_event hreceive rfl
    exact ⟨unread, hleft, by rw [heq], by rwa [heq]⟩
  | case4 n c _ c' hreceive ih =>
    intro unread h hpending
    obtain ⟨hleft, heq⟩ := h.receive_of_no_event hreceive rfl
    obtain ⟨left, hend, hevents, hparked⟩ := ih hleft (by rwa [heq])
    exact ⟨left, hend, heq ▸ hevents, hparked⟩
  | case5 n c _ m c' hreceive herror =>
    intro unread h hpending
    obtain ⟨hleft, heq⟩ := h.receive_of_no_event hreceive (events_of_isOp herror (by decide))
    exact ⟨unread, hleft, by rw [heq], by rwa [heq]⟩
  | case6 n c _ m c' hreceive _ hevent ih =>
    intro unread h hpending
    obtain ⟨heq, -, left, hleft, rfl, -⟩ := h.receive hreceive
    have hparked : ∀ m' ∈ c'.pending ++ [m], m'.isOp "event" = true := by
      rw [heq]
      intro m' hm'
      rcases List.mem_append.mp hm' with hm' | hm'
      · exact hpending m' hm'
      · rwa [List.mem_singleton.mp hm']
    obtain ⟨left', hend, hevents, hparked'⟩ := ih hleft hparked
    refine ⟨left', hend, ?_, hparked'⟩
    rw [← hevents, heq, List.append_assoc, events_of_event hevent]
  | case7 n c _ m c' hreceive _ _ hsubscribed =>
    intro unread h hpending
    obtain ⟨hleft, heq⟩ := h.receive_of_no_event hreceive (events_of_isOp hsubscribed (by decide))
    exact ⟨unread, hleft, by rw [heq], by rwa [heq]⟩
  | case8 n c _ m c' hreceive _ hevent _ ih =>
    intro unread h hpending
    obtain ⟨hleft, heq⟩ := h.receive_of_no_event hreceive (events_of_not_event hevent)
    obtain ⟨left, hend, hevents, hparked⟩ := ih hleft (by rwa [heq])
    exact ⟨left, hend, heq ▸ hevents, hparked⟩

/-- What a generator reads to yield are the first unread events. Before its deadline it reads nothing
to yield only if there are no unread events or it is interrupted. -/
theorem Unread.nextReceived (late : ℕ → Bool) (n : ℕ) (c : EventsClient σ) :
    ∀ {unread}, c.Unread S loads unread →
      let out := c.nextReceived S loads late n
      out.2.2.pending = c.pending ∧ ∃ left, out.2.2.Unread S loads left ∧
        unread = eventMessages out.1.toList ++ left ∧
        (out.1 = none → (∀ n, late n = false) → .timeout ∉ c.reader.arrivals S → left = []) := by
  fun_induction EventsClient.nextReceived S loads late n c with
  | case1 n c hends =>
    intro unread h
    refine ⟨rfl, unread, h, rfl, fun _ hlate _ => ?_⟩
    obtain ⟨items, -, -, -, hclosed⟩ := h
    exact hclosed (by simpa [hlate] using hends)
  | case2 n c _ c' hreceive =>
    intro unread h
    obtain ⟨hpending, htimeout, left, hleft, hevents, -⟩ := h.receive hreceive
    exact ⟨hpending, left, hleft, hevents, fun _ _ hnone => absurd (htimeout (Or.inr rfl)) hnone⟩
  | case3 n c _ c' hreceive =>
    intro unread h
    obtain ⟨hpending, -, left, hleft, hevents, hend⟩ := h.receive hreceive
    exact ⟨hpending, left, hleft, hevents, fun _ _ _ => hend rfl⟩
  | case4 n c _ c' hreceive ih =>
    intro unread h
    obtain ⟨hpending, htimeout, left, hleft, rfl, -⟩ := h.receive hreceive
    obtain ⟨hsame, left', hleft', hevents, hend⟩ := ih hleft
    exact ⟨hsame.trans hpending, left', hleft', hevents, fun hnone hlate hno =>
      hend hnone hlate fun hmem => hno (htimeout (Or.inl hmem))⟩
  | case5 n c _ m c' hreceive _ =>
    intro unread h
    obtain ⟨hpending, -, left, hleft, hevents, -⟩ := h.receive hreceive
    exact ⟨hpending, left, hleft, hevents, fun hnone => absurd hnone (by simp)⟩
  | case6 n c _ m c' hreceive hnot ih =>
    intro unread h
    obtain ⟨hpending, htimeout, left, hleft, rfl, -⟩ := h.receive hreceive
    rw [events_of_not_event fun hevent => hnot (by rw [hevent, Bool.true_or])]
    obtain ⟨hsame, left', hleft', hevents, hend⟩ := ih hleft
    exact ⟨hsame.trans hpending, left', hleft', hevents, fun hnone hlate hno =>
      hend hnone hlate fun hmem => hno (htimeout (Or.inl hmem))⟩

/-- What a generator yields is the first of the events that are parked or unread. -/
theorem Unread.next {phase : EventsPhase} (late : ℕ → Bool) (h : c.Unread S loads unread)
    (hpending : ∀ m ∈ c.pending, m.isOp "event" = true)
    (hordered : phase = .receiving → c.pending = []) :
    let out := c.next S loads phase late
    (∀ m ∈ out.2.2.pending, m.isOp "event" = true) ∧ ∃ left, out.2.2.Unread S loads left ∧
      c.pending ++ unread = eventMessages out.1.toList ++ (out.2.2.pending ++ left) ∧
      (out.1 = none → phase ≠ .finished → (∀ n, late n = false) →
        .timeout ∉ c.reader.arrivals S → out.2.2.pending ++ left = []) := by
  have hread : c.pending = [] → let out := c.nextReceived S loads late 0
      (∀ m ∈ out.2.2.pending, m.isOp "event" = true) ∧ ∃ left, out.2.2.Unread S loads left ∧
        c.pending ++ unread = eventMessages out.1.toList ++ (out.2.2.pending ++ left) ∧
        (out.1 = none → phase ≠ .finished → (∀ n, late n = false) →
          .timeout ∉ c.reader.arrivals S → out.2.2.pending ++ left = []) := by
    intro hnone
    obtain ⟨hsame, left, hleft, hevents, hend⟩ := Unread.nextReceived late 0 c h
    refine ⟨by rwa [hsame], left, hleft, ?_, ?_⟩
    · rw [hsame, hnone, hevents]
      rfl
    · rw [hsame, hnone]
      exact fun hyield _ => hend hyield
  unfold EventsClient.next
  split
  · next m rest heq =>
    rw [heq] at hpending
    refine ⟨fun m' hm' => hpending m' (List.mem_cons_of_mem m hm'), unread, ?_, ?_, ?_⟩
    · exact h
    · rw [heq]
      exact congrArg (· ++ (rest ++ unread)) (events_of_event (hpending m List.mem_cons_self)).symm
    · exact fun hyield => absurd hyield (by simp)
  · next heq => exact hread heq
  · exact hread (hordered rfl)
  · exact ⟨hpending, unread, h, rfl, fun _ hphase => absurd rfl hphase⟩

end EventsClient

namespace ClientRun

variable {s t : ClientRun σ} {frames : List Frame} {call : ClientCall}

/-- What was yielded, what is parked and what is unread are the events of the frames. -/
def Accounts (S : InterruptedSource σ UInt8) (loads : List UInt8 → Option Value)
    (frames : List Frame) (s : ClientRun σ) : Prop :=
  (∀ m ∈ s.client.pending, m.isOp "event" = true) ∧ ∃ unread, s.client.Unread S loads unread ∧
    eventMessages s.yielded ++ (s.client.pending ++ unread) = sentEvents loads frames

/-- Messages that are yielded after others are events after those. -/
theorem eventMessages_append (front back : List Message) :
    eventMessages (front ++ back) = eventMessages front ++ eventMessages back :=
  List.filter_append ..

/-- The events are accounted for after each call. -/
theorem Accounts.step (h : s.Accounts S loads frames) (hordered : call.Ordered s)
    (hstep : s.step S loads call = some t) : t.Accounts S loads frames := by
  obtain ⟨hpending, unread, hunread, hevents⟩ := h
  cases call with
  | subscribe late =>
    obtain rfl := Option.some.inj hstep
    have hnone : s.client.pending = [] := hordered
    have hstart : EventsClient.Unread S loads { s.client with pending := [] } unread := hunread
    obtain ⟨left, hleft, heq, hparked⟩ :=
      hstart.awaitSubscribed late 0 _ fun m hm => absurd hm List.not_mem_nil
    refine ⟨hparked, left, hleft, ?_⟩
    rw [← hevents, hnone]
    exact congrArg (eventMessages s.yielded ++ ·) heq.symm
  | events =>
    obtain rfl := Option.some.inj hstep
    exact ⟨hpending, unread, hunread, hevents⟩
  | next g late =>
    obtain ⟨phase, hphase, rfl⟩ := Option.map_eq_some_iff.mp hstep
    obtain ⟨hparked, left, hleft, heq, -⟩ :=
      hunread.next late hpending fun hreceiving => hordered (hreceiving ▸ hphase)
    refine ⟨hparked, left, hleft, ?_⟩
    rw [← hevents, heq, eventMessages_append, List.append_assoc]

end ClientRun

end PalmEngine.PalmProvider
