import PalmEngine.Context.State
import PalmEngine.Lib.InterruptedSource
import PalmEngine.Lib.Runs
import PalmEngine.Websocket.Frames

/-!
# The client of an event stream

A client reads frames from a stream of which it has the first bytes since the handshake. What is no
text with a document is skipped. While it waits for its subscription to be confirmed it parks the
events that arrive; the generators that its calls give out yield the parked events first and then
what they read, until a deadline, an interruption or the end.

A time out in the middle of a frame loses what was read of it, and a subscription drops the events
that are parked.
-/

namespace PalmEngine.PalmProvider

open Context Lib Websocket

/-- A document that was received. -/
abbrev Message := List (String × Value)

/-- Whether a message is an operation. -/
def Message.isOp (m : Message) (op : String) : Bool := (valueOf? "op" m).bind Value.asStr = some op

/-- Bytes that are left over and what they are the first bytes of. -/
structure PrefixedReader (σ : Type) where
  leftover : List UInt8
  inner : σ

section Reader

variable {σ : Type} (S : InterruptedSource σ UInt8)

/-- Read at most so many bytes, those that are left over first. -/
def PrefixedReader.read (n : ℕ) (r : PrefixedReader σ) :
    Except ReadFault (List UInt8) × PrefixedReader σ :=
  if r.leftover = [] then
    let out := S.read n r.inner
    (out.1, { r with inner := out.2 })
  else if r.leftover.length ≤ n then
    let out := S.read (n - r.leftover.length) r.inner
    (out.1.map (r.leftover ++ ·), { leftover := [], inner := out.2 })
  else (.ok (r.leftover.take n), { r with leftover := r.leftover.drop n })

/-- What is still to arrive at a reader. -/
def PrefixedReader.arrivals (r : PrefixedReader σ) : List (Arrival UInt8) :=
  r.leftover.map .item ++ S.arrivals r.inner

variable {S}

/-- Bytes that have arrived are read. -/
theorem PrefixedReader.read_available {n : ℕ} {r : PrefixedReader σ} {available : List UInt8}
    {rest : List (Arrival UInt8)} (h : r.arrivals S = available.map .item ++ rest)
    (hle : n ≤ available.length) :
    ∃ r', r.read S n = (.ok (available.take n), r') ∧
      r'.arrivals S = (available.drop n).map .item ++ rest := by
  obtain ⟨leftover, inner⟩ := r
  simp only [arrivals] at h
  unfold read
  split
  · next hnil =>
    subst hnil
    obtain ⟨inner', hread, hleft⟩ := S.read_available (by simpa using h) hle
    exact ⟨⟨[], inner'⟩, by rw [hread], by simpa [arrivals] using hleft⟩
  · split
    · next hall =>
      obtain ⟨more, rfl, hinner⟩ := eq_append_of_map_item h (hall.trans hle)
      obtain ⟨inner', hread, hleft⟩ := S.read_available (n := n - leftover.length) hinner
        (by rw [List.length_append] at hle; omega)
      refine ⟨⟨[], inner'⟩, ?_, ?_⟩
      · rw [hread, List.take_append, List.take_of_length_le hall]
        rfl
      · rw [List.drop_append, List.drop_of_length_le hall]
        simpa [arrivals] using hleft
    · next hsome =>
      have hlength : (leftover.take n).length = n := List.length_take_of_le (not_le.mp hsome).le
      rw [← List.take_append_drop n leftover, List.map_append, List.append_assoc] at h
      obtain ⟨more, rfl, hrest⟩ := eq_append_of_map_item h (hlength.trans_le hle)
      refine ⟨⟨leftover.drop n, inner⟩, ?_, ?_⟩
      · rw [List.take_append_of_le_length hlength.ge, List.take_of_length_le hlength.le]
      · rw [List.drop_append_of_le_length hlength.ge, List.drop_of_length_le hlength.le]
        exact hrest

/-- Without bytes that are left over the stream is read. -/
theorem PrefixedReader.read_of_leftover_eq_nil {n : ℕ} {r : PrefixedReader σ}
    (h : r.leftover = []) :
    r.read S n = ((S.read n r.inner).1, { leftover := [], inner := (S.read n r.inner).2 }) := by
  unfold read
  rw [if_pos h, ← h]

/-- A read takes the bytes that it returns. -/
theorem PrefixedReader.length_read {n : ℕ} {r r' : PrefixedReader σ} {chunk : List UInt8}
    (h : r.read S n = (.ok chunk, r')) :
    (r'.arrivals S).length + chunk.length ≤ (r.arrivals S).length := by
  simp only [arrivals, List.length_append, List.length_map]
  unfold read at h
  split at h
  · rcases hread : S.read n r.inner with ⟨result, inner⟩
    rw [hread] at h
    obtain ⟨rfl, rfl⟩ := Prod.mk.inj h
    have hinner := S.length_read hread
    simp only
    omega
  · split at h
    · rcases hread : S.read (n - r.leftover.length) r.inner with ⟨e | more, inner⟩
      · rw [hread] at h
        cases h
      · rw [hread] at h
        cases h
        have hinner := S.length_read hread
        simp only [List.length_append, List.length_nil]
        omega
    · obtain ⟨hresult, rfl⟩ := Prod.mk.inj h
      cases hresult
      simp only [List.length_take, List.length_drop]
      omega

/-- A stream with its first bytes left over is a source, if the stream is. -/
def PrefixedReader.source (S : InterruptedSource σ UInt8) :
    InterruptedSource (PrefixedReader σ) UInt8 where
  arrivals := arrivals S
  read := read S
  read_available := read_available
  read_timeout {n r rest} h hpos := by
    obtain ⟨leftover, inner⟩ := r
    cases leftover with
    | cons b leftover => cases h
    | nil =>
      obtain ⟨inner', hread, hrest⟩ := S.read_timeout (by simpa [arrivals] using h) hpos
      rw [read_of_leftover_eq_nil rfl, hread]
      exact ⟨_, rfl, by simpa [arrivals] using hrest⟩
  read_end {n r} h hpos := by
    obtain ⟨leftover, inner⟩ := r
    cases leftover with
    | cons b leftover => cases h
    | nil =>
      obtain ⟨inner', hread, hrest⟩ := S.read_end (by simpa [arrivals] using h) hpos
      rw [read_of_leftover_eq_nil rfl, hread]
      exact ⟨_, rfl, by simpa [arrivals] using hrest⟩
  length_read := length_read

/-- Read a frame. -/
def readFrame (S : InterruptedSource σ UInt8) : TimedReader (PrefixedReader σ) (ℕ × List UInt8) :=
  readFrameWith (PrefixedReader.source S).readExact

/-- Reading a length follows reading it from the bytes. -/
theorem follows_readLength (S : InterruptedSource σ UInt8) (length : ℕ) :
    S.Follows (readLength S.readExact length) (readLength takeExact length) := by
  unfold readLength
  split
  · exact (S.follows_readExact 2).bind fun _ => S.follows_pure _
  · split
    · exact (S.follows_readExact 8).bind fun _ => S.follows_pure _
    · exact S.follows_pure length

/-- Reading bytes that may not be there follows. -/
theorem follows_readIf (S : InterruptedSource σ UInt8) (present : Bool) (n : ℕ) :
    S.Follows (readIf S.readExact present n) (readIf takeExact present n) := by
  unfold readIf
  split
  · exact S.follows_readExact n
  · exact S.follows_pure []

/-- Reading a frame from a stream follows reading it from the bytes. -/
theorem follows_readFrameWith (S : InterruptedSource σ UInt8) :
    S.Follows (readFrameWith S.readExact) parseFrame :=
  (S.follows_readExact 1).bind fun _ => (S.follows_readExact 1).bind fun _ =>
    (follows_readLength S _).bind fun length => (follows_readIf S _ 4).bind fun _ =>
      (follows_readIf S _ length).bind fun _ => S.follows_pure _

/-- Reading a length leaves no more arrivals. -/
theorem shrinks_readLength (S : InterruptedSource σ UInt8) (length : ℕ) :
    S.Shrinks 0 (readLength S.readExact length) := by
  unfold readLength
  split
  · exact ((S.shrinks_readExact 2).bind fun _ => S.shrinks_pure _).zero
  · split
    · exact ((S.shrinks_readExact 8).bind fun _ => S.shrinks_pure _).zero
    · exact S.shrinks_pure length

/-- Reading bytes that may not be there leaves no more arrivals. -/
theorem shrinks_readIf (S : InterruptedSource σ UInt8) (present : Bool) (n : ℕ) :
    S.Shrinks 0 (readIf S.readExact present n) := by
  unfold readIf
  split
  · exact (S.shrinks_readExact n).zero
  · exact S.shrinks_pure []

/-- A frame that is read takes two arrivals at least. -/
theorem shrinks_readFrameWith (S : InterruptedSource σ UInt8) :
    S.Shrinks 2 (readFrameWith S.readExact) :=
  (S.shrinks_readExact 1).bind fun _ => (S.shrinks_readExact 1).bind fun _ =>
    (shrinks_readLength S _).bind fun length => (shrinks_readIf S _ 4).bind fun _ =>
      (shrinks_readIf S _ length).bind fun _ => S.shrinks_pure _

end Reader

/-- The opcode of a frame with a text. -/
def opText : ℕ := 0x1

/-- The opcode of a frame that closes. -/
def opClose : ℕ := 0x8

/-- What a call that waits for a document has received: a document, a value that is none, a time
out, or that the connection is closed. -/
inductive Received where
  | message (m : Message)
  | noDocument
  | timeout
  | closed

/-- How a subscription ends. -/
inductive SubscribeOutcome where
  | subscribed (m : Message)
  | refused (m : Message)
  | timeout
  | closed
  | expired

/-- How far a generator of events has come. -/
inductive EventsPhase where
  | draining
  | receiving
  | finished
  deriving DecidableEq, Repr

/-- A client that is connected. -/
structure EventsClient (σ : Type) where
  reader : PrefixedReader σ
  pending : List Message := []
  closed : Bool := false

section Client

variable {σ : Type} (S : InterruptedSource σ UInt8) (loads : List UInt8 → Option Value)

/-- What the contents of a frame are received as. A frame is skipped if it is a ping, which is
answered, or a pong, if it has no text, or if its text cannot be decoded. -/
def receivedAs (contents : ℕ × List UInt8) : Option Received :=
  if contents.1 = opClose then some .closed
  else if contents.1 ≠ opText then none
  else (loads contents.2).map fun v => v.asDict.elim .noDocument .message

/-- Read frames until one is received as something. -/
def recvJson (r : PrefixedReader σ) : Received × PrefixedReader σ :=
  match _h : readFrame S r with
  | (.error .timeout, r') => (.timeout, r')
  | (.error .closed, r') => (.closed, r')
  | (.ok contents, r') =>
    match receivedAs loads contents with
    | some received => (received, r')
    | none => recvJson r'
termination_by (r.arrivals S).length
decreasing_by
  have hshrinks := shrinks_readFrameWith (PrefixedReader.source S) _ _ _ _h
  exact Nat.lt_of_lt_of_le (Nat.lt_add_of_pos_right two_pos) hshrinks

/-- A value that is received takes some arrivals. -/
theorem length_recvJson (r : PrefixedReader σ) {received : Received} {r' : PrefixedReader σ}
    (h : recvJson S loads r = (received, r'))
    (hvalue : received ≠ .timeout ∧ received ≠ .closed) :
    (r'.arrivals S).length < (r.arrivals S).length := by
  fun_induction recvJson S loads r with
  | case1 | case2 =>
    cases h
    simp at hvalue
  | case3 r contents mid hread received' hreceived =>
    cases h
    have hshrinks := shrinks_readFrameWith (PrefixedReader.source S) _ _ _ hread
    exact Nat.lt_of_lt_of_le (Nat.lt_add_of_pos_right two_pos) hshrinks
  | case4 r contents mid hread hreceived ih =>
    have hshrinks := shrinks_readFrameWith (PrefixedReader.source S) _ _ _ hread
    exact (ih h).trans (Nat.lt_of_lt_of_le (Nat.lt_add_of_pos_right two_pos) hshrinks)

namespace EventsClient

variable (c : EventsClient σ)

/-- Receive something. The client is closed if the connection is. -/
def receive : Received × EventsClient σ :=
  let out := recvJson S loads c.reader
  (out.1, { c with reader := out.2, closed := c.closed || out.1 matches .closed })

/-- A client that receives a value has fewer arrivals ahead. -/
theorem length_receive {c : EventsClient σ} {received : Received} {c' : EventsClient σ}
    (h : c.receive S loads = (received, c'))
    (hvalue : received ≠ .timeout ∧ received ≠ .closed) :
    (c'.reader.arrivals S).length < (c.reader.arrivals S).length := by
  obtain ⟨rfl, rfl⟩ := Prod.mk.inj h
  exact length_recvJson S loads c.reader rfl hvalue

/-- Wait for the confirmation of a subscription, given whether the deadline has passed each time it
is looked at. -/
def awaitSubscribed (late : ℕ → Bool) (n : ℕ) (c : EventsClient σ) :
    SubscribeOutcome × EventsClient σ :=
  if late n then (.expired, c)
  else
    match _h : c.receive S loads with
    | (.timeout, c') => (.timeout, c')
    | (.closed, c') => (.closed, c')
    | (.noDocument, c') => awaitSubscribed late (n + 1) c'
    | (.message m, c') =>
      if m.isOp "error" then (.refused m, c')
      else if m.isOp "event" then
        awaitSubscribed late (n + 1) { c' with pending := c'.pending ++ [m] }
      else if m.isOp "subscribed" then (.subscribed m, c')
      else awaitSubscribed late (n + 1) c'
termination_by (c.reader.arrivals S).length
decreasing_by all_goals exact length_receive S loads _h (by simp)

/-- Subscribe: no events are parked from here on until some arrive. -/
def subscribe (late : ℕ → Bool) : SubscribeOutcome × EventsClient σ :=
  awaitSubscribed S loads late 0 { c with pending := [] }

/-- Read until there is something to yield, given whether the deadline has passed each time it is
looked at. -/
def nextReceived (late : ℕ → Bool) (n : ℕ) (c : EventsClient σ) :
    Option Message × EventsPhase × EventsClient σ :=
  if c.closed || late n then (none, .finished, c)
  else
    match _h : c.receive S loads with
    | (.timeout, c') => (none, .finished, c')
    | (.closed, c') => (none, .finished, c')
    | (.noDocument, c') => nextReceived late (n + 1) c'
    | (.message m, c') =>
      if m.isOp "event" || m.isOp "error" then (some m, .receiving, c')
      else nextReceived late (n + 1) c'
termination_by (c.reader.arrivals S).length
decreasing_by all_goals exact length_receive S loads _h (by simp)

/-- Advance a generator. -/
def next (phase : EventsPhase) (late : ℕ → Bool) : Option Message × EventsPhase × EventsClient σ :=
  match phase, c.pending with
  | .draining, m :: pending => (some m, .draining, { c with pending })
  | .draining, [] => c.nextReceived S loads late 0
  | .receiving, _ => c.nextReceived S loads late 0
  | .finished, _ => (none, .finished, c)

end EventsClient

/-- A client, the generators that it has given out, and what they have yielded. -/
structure ClientRun (σ : Type) where
  client : EventsClient σ
  generators : List EventsPhase := []
  yielded : List Message := []

/-- A client that has just been connected. -/
def ClientRun.start (r : PrefixedReader σ) : ClientRun σ := { client := { reader := r } }

/-- What is done with a client: a subscription, a call that gives out a generator, or that one of
the generators is advanced. -/
inductive ClientCall where
  | subscribe (late : ℕ → Bool)
  | events
  | next (g : ℕ) (late : ℕ → Bool)

/-- Execute a call. A generator that is advanced has been given out. -/
def ClientRun.step (s : ClientRun σ) : ClientCall → Option (ClientRun σ)
  | .subscribe late => some { s with client := (s.client.subscribe S loads late).2 }
  | .events => some { s with generators := s.generators ++ [.draining] }
  | .next g late => s.generators[g]?.map fun phase =>
    let out := s.client.next S loads phase late
    { client := out.2.2
      generators := s.generators.set g out.2.1
      yielded := s.yielded ++ out.1.toList }

end Client

end PalmEngine.PalmProvider
