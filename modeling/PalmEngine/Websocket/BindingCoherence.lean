import PalmEngine.Websocket.ConnectionBinding

/-!
# The bound surface and its mirrors

The surface that a connection is bound to and its mirrors agree after a message if the message went
to both, and an instance stays with its session if the session is not changed under it. A message
that names an instance as a session, one that names another session and no instance, and an answer
that does so are those that break this, and so does a session that is replaced because it is gone.
-/

namespace PalmEngine.Websocket

open Context Lib Session

namespace ConnectionState

/-- The bound surface is absent, or it has the session and the instance of the mirrors. -/
def Coherent (c : ConnectionState) : Prop :=
  ∀ b ∈ c.bound, c.sessionId = some b.sessionId ∧ c.instanceId = b.instanceId

/-- The ids of the mirrors and of the hint are trimmed and not empty. -/
structure Trimmed (c : ConnectionState) : Prop where
  session : given c.sessionId = c.sessionId
  focus : given c.instanceId = c.instanceId
  hint : given c.transportSessionHint = c.transportSessionHint

/-- When the session changes, the instance does not stay, unless there is a reason for it. -/
def KeptApart (before after : ConnectionState) (reason : String → Prop) : Prop :=
  ∀ a b i, before.sessionId = some a → after.sessionId = some b → a ≠ b →
    before.instanceId = some i → ¬reason i → after.instanceId ≠ some i

/-- A connection before its first message: it is served, or it is new. -/
def Opened (c : ConnectionState) : Prop :=
  ∃ header cookie, let hint := extractSystemSessionHint header cookie
    c = make hint ∨ ∃ door fresh, runAssistWebsocket hint door fresh = some c

end ConnectionState

section Messages

variable (shown : Value → String) (otherTruthy : ℕ → Bool)

namespace ClientMessage

variable (m : ClientMessage)

/-- The operation of a message. -/
def op : Option String := (valueOf? "op" m.fields).bind Value.asStr

/-- The session of a message. -/
def session : Option (Option String) := bindField shown m.fields "session_id"

/-- The instance of a message. -/
def focus : Option (Option String) := bindField shown m.fields "instance_id"

/-- A message that carries fields of a binding. -/
def Binds : Prop := m.op = some "hello" ∨ m.op = some "bind"

/-- The connection that the fields of a message are applied to. -/
def base (c : ConnectionState) : ConnectionState :=
  if m.op = some "bind" ∧ clearFlag m.fields = true then c.clearBound else c

/-- Whether a session that the message names may be created. -/
def creates : Bool := m.op = some "hello" || createFlag m.fields

/-- The connection after a session was ensured for a dispatch. -/
def ensured (c : ConnectionState) : ConnectionState :=
  (Binding.ensureSystemSession ⟨c, m.door⟩ true m.fresh).2.conn

/-- The message drops the instance: with everything, with the session or by itself. -/
def Drops : Prop :=
  m.op = some "bind" ∧ clearFlag m.fields = true ∨ m.session shown = some none ∨
    m.focus shown = some none

/-- The message names an instance, if need be as its session. -/
def Names (i : String) : Prop :=
  m.focus shown = some (some i) ∨
    m.session shown = some (some i) ∧ looksLikeSystemSessionId (some i) = false

/-- No instance of an earlier session is presented under another one: for a dispatch neither when a
session is ensured nor when the answer is taken over. -/
def KeepsApart (c t : ConnectionState) : Prop :=
  if m.op = some "dispatch" then
    t = c ∨ c.KeptApart (m.ensured c) (fun _ => False) ∧
      (m.ensured c).KeptApart t fun i => ∃ answer, m.outcome.turn = .ok answer ∧
        turnInstance shown otherTruthy answer.1 = some i
  else c.KeptApart t fun i => m.Drops shown ∨ m.Names shown i

/-- None of the branches that go wrong is taken. -/
structure Sound (c : ConnectionState) : Prop where
  /-- An instance in the place of a session is that of the bound surface, unless the message has the
  instance, too, or a hello binds the connection again. -/
  misplaced : m.Binds → ∀ x, m.session shown = some (some x) →
    looksLikeSystemSessionId (some x) = false → m.focus shown = none →
      m.door = none ∨ m.op = some "bind" → ∀ b ∈ (m.base c).bound, b.instanceId = some x
  /-- Without a service no other session is named than that of the bound surface. -/
  unwired : m.Binds → ∀ sid, m.session shown = some (some sid) →
    looksLikeSystemSessionId (some sid) = true → m.door = none →
      ∀ b ∈ (m.base c).bound, b.sessionId = sid
  /-- Another session is named with an instance, or there was none, or the session is refused. -/
  rebound : m.Binds → ∀ sid a, m.session shown = some (some sid) →
    looksLikeSystemSessionId (some sid) = true → m.focus shown = none →
      (m.base c).sessionId = some a → a ≠ sid →
        (∀ svc ∈ m.door, svc.Accepts sid m.creates) → (m.base c).instanceId = none
  /-- The session that is ensured with an instance is open. -/
  replaced : m.op = some "dispatch" ∨
      m.op = some "hello" ∧ m.session shown = none ∧ m.focus shown = none →
    ∀ a, c.sessionId = some a → c.instanceId ≠ none → ∀ svc ∈ m.door, ∀ s ∈ svc.plane,
      ∃ r, s.requireOpen a = .ok r
  /-- An answer that names another session names an instance, or there was none. -/
  turned : m.op = some "dispatch" → ∀ answer, m.outcome.turn = .ok answer →
    ∀ a b, turnSession shown answer.1 = some b → (m.ensured c).sessionId = some a → a ≠ b →
      turnInstance shown otherTruthy answer.1 = none → (m.ensured c).instanceId = none
  /-- The instance that an answer names is trimmed. -/
  trimmed : m.op = some "dispatch" → ∀ answer, m.outcome.turn = .ok answer →
    given (turnInstance shown otherTruthy answer.1) = turnInstance shown otherTruthy answer.1

end ClientMessage

end Messages

namespace ConnectionState

variable {c : ConnectionState} {b : BoundSurface}

/-- A bound surface that has the instance of the mirror, if there is one, is taken over as a whole. -/
theorem applyBound_spec (htrimmed : c.Trimmed) (created : Bool)
    (hinstance : ∀ i, c.instanceId = some i → b.instanceId = some i) :
    (c.applyBound b created).Trimmed ∧ (c.applyBound b created).Coherent ∧
      ∀ i, c.instanceId = some i → (c.applyBound b created).instanceId = some i := by
  have hsame : (c.applyBound b created).instanceId = b.instanceId := by
    cases hc : c.instanceId with
    | none => exact (congrArg b.instanceId.or hc).trans (Option.or_none ..)
    | some i =>
      change b.instanceId.or c.instanceId = b.instanceId
      rw [hinstance i hc, Option.some_or]
  refine ⟨⟨b.given_sessionId, by rw [hsame, b.named], htrimmed.hint⟩, ?_, fun i hi => hsame.trans (hinstance i hi)⟩
  intro b' hb'
  cases hb'
  exact ⟨rfl, hsame⟩

end ConnectionState

namespace Binding

variable {s s' : Binding} {sid : Option String} {create : Bool} {arg : Option String}
  {fresh : String}

/-- A connection that could not be bound by the service is as it was. -/
theorem serviceBindInto_error {e : BindError}
    (h : s.serviceBindInto sid create arg fresh = (.error e, s')) :
    s'.conn = s.conn ∧ ∃ svc, s'.door = some svc := by
  unfold serviceBindInto at h
  split at h
  · split at h <;> cases h
  · simp only [] at h
    split at h <;> cases h
    exact ⟨rfl, _, rfl⟩

/-- A connection that is bound by the service keeps its instance, agrees with its mirrors and has
the session that was named, which is open. -/
theorem serviceBindInto_ok {svc : SessionService} (hdoor : s.door = some svc)
    (htrimmed : s.conn.Trimmed) (harg : arg.or s.conn.instanceId = s.conn.instanceId)
    (h : s.serviceBindInto sid create arg fresh = (.ok (), s')) :
    s'.conn.Trimmed ∧ s'.conn.Coherent ∧
      (∀ i, s.conn.instanceId = some i → s'.conn.instanceId = some i) ∧
      ∃ svc', s'.door = some svc' ∧ ∀ text, given sid = some text →
        s'.conn.sessionId = some text ∧ svc.Accepts text create ∧
          ∃ st r, svc'.plane = some st ∧ st.requireOpen text = .ok r := by
  unfold serviceBindInto at h
  simp only [hdoor, harg] at h
  split at h
  · cases h
  · next bound svc' hbind =>
    cases h
    obtain ⟨hsession, hinstance⟩ := SessionService.bindSurface_eq_ok hbind
    obtain ⟨htrimmed', hcoherent, hkeeps⟩ := ConnectionState.applyBound_spec htrimmed
      (!(looksLikeSystemSessionId (given sid) && ((given sid).bind svc.get).isSome))
      fun i hi => hinstance i (htrimmed.focus.trans hi)
    refine ⟨htrimmed', hcoherent, hkeeps, svc', rfl, fun text htext => ?_⟩
    have hagain := given_given htext
    obtain ⟨heq, st, r, hplane, hopen⟩ := hsession text (by rw [htext, hagain])
    rw [htext] at hbind
    exact ⟨congrArg some heq, SessionService.accepts_of_bindSurface hbind hagain, st, r, hplane,
      hopen⟩

/-- Without a service a session that is named is mirrored. -/
theorem serviceBindInto_unwired (hdoor : s.door = none) {text : String} (hne : text ≠ "")
    (h : s.serviceBindInto (some text) create none fresh = (.ok (), s')) :
    s'.door = none ∧ s'.conn = { s.conn with sessionId := some text, sessionCreated := false } := by
  unfold serviceBindInto at h
  simp only [hdoor, show (some text).filter (· ≠ "") = some text by simp [Option.filter, hne]] at h
  cases h
  exact ⟨rfl, rfl⟩

/-- A connection is in order, and where there is no service it is not bound. -/
structure Settled (s : Binding) : Prop where
  trimmed : s.conn.Trimmed
  unbound : s.door = none → s.conn.bound = none

/-- A connection without a bound surface agrees with its mirrors. -/
theorem coherent_of_bound_eq_none {c : ConnectionState} (h : c.bound = none) : c.Coherent := by
  intro b hb
  rw [h] at hb
  cases hb

/-- A connection that is in order is so after it was bound, and it agrees with its mirrors. -/
theorem Settled.serviceBindInto (hs : s.Settled) (hsid : given sid = sid)
    (h : s.serviceBindInto sid create none fresh = (.ok (), s')) :
    s'.Settled ∧ s'.conn.Coherent ∧
      ∀ i, s.conn.instanceId = some i → s'.conn.instanceId = some i := by
  cases hdoor : s.door with
  | some svc =>
    obtain ⟨htrimmed, hcoherent, hkeeps, svc', hdoor', -⟩ :=
      serviceBindInto_ok hdoor hs.trimmed (Option.none_or ..) h
    exact ⟨⟨htrimmed, fun hnone => by rw [hdoor'] at hnone; cases hnone⟩, hcoherent, hkeeps⟩
  | none =>
    have hunbound := hs.unbound hdoor
    cases hsid' : sid with
    | none =>
      rw [hsid', Binding.serviceBindInto, hdoor] at h
      cases h
      exact ⟨hs, coherent_of_bound_eq_none hunbound, fun _ => id⟩
    | some text =>
      rw [hsid'] at h hsid
      obtain ⟨hdoor', hconn⟩ := serviceBindInto_unwired hdoor (strip_of_given hsid).2 h
      have hunbound' : s'.conn.bound = none := by
        rw [hconn]
        exact hunbound
      refine ⟨⟨?_, fun _ => hunbound'⟩, coherent_of_bound_eq_none hunbound', fun i hi => ?_⟩
      · rw [hconn]
        exact ⟨hsid, hs.trimmed.focus, hs.trimmed.hint⟩
      · rw [hconn]
        exact hi

/-- A session that is ensured is bound by the service, if there is one, and then the connection
agrees with its mirrors. The instance is kept. -/
theorem ensureSystemSession_ok (htrimmed : s.conn.Trimmed)
    (hcoherent : s.door = none → s.conn.Coherent)
    (h : s.ensureSystemSession true fresh = (.ok (), s')) :
    s'.conn.Trimmed ∧ s'.conn.Coherent ∧
      ∀ i, s.conn.instanceId = some i → s'.conn.instanceId = some i := by
  unfold ensureSystemSession at h
  split at h
  · next a hsession =>
    split at h
    · next hdoor =>
      cases h
      exact ⟨htrimmed, hcoherent hdoor, fun _ => id⟩
    · next svc hdoor =>
      split at h
      · next bound svc' hbind =>
        cases h
        obtain ⟨-, hinstance⟩ := SessionService.bindSurface_eq_ok hbind
        exact ConnectionState.applyBound_spec htrimmed false
          fun i hi => hinstance i (htrimmed.focus.trans hi)
      · next e svc' hbind =>
        simp only [if_true] at h
        split at h
        · obtain ⟨htrimmed', hcoherent', hkeeps, -⟩ := serviceBindInto_ok
            (s := { s with door := some svc' }) rfl htrimmed (Option.none_or ..) h
          exact ⟨htrimmed', hcoherent', hkeeps⟩
        · cases h
  · next hnone =>
    have hunbound : s.door = none → s.conn.bound = none := by
      intro hdoor
      cases hbound : s.conn.bound with
      | none => rfl
      | some b =>
        have hsession := (hcoherent hdoor b hbound).1
        rw [hsession] at hnone
        have hne := (strip_of_given b.given_sessionId).2
        simp [Option.filter, hne] at hnone
    have hs : s.Settled := ⟨htrimmed, hunbound⟩
    split at h
    · next hint hhint =>
      have hgiven : given (some hint) = some hint := by
        obtain ⟨hmem, -⟩ := Option.filter_eq_some_iff.mp hhint
        rw [← hmem]
        exact htrimmed.hint
      split at h
      · next s1 hbind =>
        obtain ⟨hs1, hcoherent1, hkeeps1⟩ := hs.serviceBindInto hgiven hbind
        split at h
        · cases h
          exact ⟨hs1.trimmed, hcoherent1, hkeeps1⟩
        · obtain ⟨hs2, hcoherent2, hkeeps2⟩ := hs1.serviceBindInto rfl h
          exact ⟨hs2.trimmed, hcoherent2, fun i hi => hkeeps2 i (hkeeps1 i hi)⟩
      · next e s1 hbind =>
        obtain ⟨hconn, svc', hdoor'⟩ := serviceBindInto_error hbind
        split at h
        · have hs1 : s1.Settled := ⟨hconn ▸ htrimmed, fun hnone => by rw [hdoor'] at hnone; cases hnone⟩
          obtain ⟨hs2, hcoherent2, hkeeps2⟩ := hs1.serviceBindInto rfl h
          exact ⟨hs2.trimmed, hcoherent2, hconn ▸ hkeeps2⟩
        · cases h
    · simp only [if_true] at h
      obtain ⟨hs', hcoherent', hkeeps⟩ := hs.serviceBindInto rfl h
      exact ⟨hs'.trimmed, hcoherent', hkeeps⟩

/-- If no session can be ensured, the connection is as it was. -/
theorem ensureSystemSession_error {e : BindError} (htrimmed : s.conn.Trimmed)
    (h : s.ensureSystemSession true fresh = (.error e, s')) : s'.conn = s.conn := by
  unfold ensureSystemSession at h
  split at h
  · split at h
    · cases h
    · split at h
      · cases h
      · simp only [if_true] at h
        split at h
        · exact (serviceBindInto_error h).1
        · cases h
          rfl
  · split at h
    · next hint hhint =>
      have hgiven : given (some hint) = some hint := by
        obtain ⟨hmem, -⟩ := Option.filter_eq_some_iff.mp hhint
        rw [← hmem]
        exact htrimmed.hint
      split at h
      · next s1 hbind =>
        have hnamed : s1.conn.sessionId = some hint := by
          cases hdoor : s.door with
          | some svc =>
            obtain ⟨-, -, -, svc', -, hbound⟩ :=
              serviceBindInto_ok hdoor htrimmed (Option.none_or ..) hbind
            exact (hbound hint hgiven).1
          | none => rw [(serviceBindInto_unwired hdoor (strip_of_given hgiven).2 hbind).2]
        simp [hnamed, Option.filter, (strip_of_given hgiven).2] at h
      · next e1 s1 hbind =>
        split at h
        · exact (serviceBindInto_error h).1.trans (serviceBindInto_error hbind).1
        · cases h
          exact (serviceBindInto_error hbind).1
    · simp only [if_true] at h
      exact (serviceBindInto_error h).1

/-- A session that is open, or has no instance with it, is not replaced. -/
theorem sessionId_ensureSystemSession {a : String} (hsession : s.conn.sessionId = some a)
    (htrimmed : s.conn.Trimmed)
    (hopen : ∀ svc ∈ s.door, ∀ st ∈ svc.plane, ∃ r, st.requireOpen a = .ok r) :
    (s.ensureSystemSession create fresh).2.conn.sessionId = some a := by
  have hgiven : given (some a) = some a := hsession ▸ htrimmed.session
  have hnonempty : (some a).filter (· ≠ "") = some a := by
    simp [Option.filter, (strip_of_given hgiven).2]
  unfold ensureSystemSession
  simp only [hsession, hnonempty]
  cases hdoor : s.door with
  | none => exact hsession
  | some svc =>
    rcases hbind : svc.bindSurface (some a) false .empty (some "websocket") (some "websocket")
        s.conn.instanceId s.conn.instanceId.isNone fresh with ⟨e | bound, svc'⟩
    · have hgone : isSessionGone e = false := by
        cases hplane : svc.plane with
        | none =>
          simp only [SessionService.bindSurface, hplane] at hbind
          cases hbind
          rfl
        | some st =>
          obtain ⟨r, hr⟩ := hopen svc hdoor st hplane
          rw [SessionService.bindSurface_of_open hplane hr hgiven hbind]
          rfl
      simp only [hbind, hgone]
      exact hsession
    · simp only [hbind]
      obtain ⟨hbound, -⟩ := SessionService.bindSurface_eq_ok hbind
      exact congrArg some (hbound a hgiven).1

/-- What applying the session of a message does: nothing, dropping it, taking it for an instance, or
binding to it, with or without a service. -/
inductive SessionApplied (s s' : Binding) (create : Bool) : Option (Option String) → Prop where
  | absent (hsame : s' = s) : SessionApplied s s' create none
  | dropped (hbound : s'.conn.bound = none) (hsession : s'.conn.sessionId = none)
    (hdoor : s'.door = s.door) : SessionApplied s s' create (some none)
  | misplaced {x : String} (hshape : looksLikeSystemSessionId (some x) = false)
    (hconn : s' = { s with conn := { s.conn with instanceId := some x } }) :
    SessionApplied s s' create (some (some x))
  | wired {sid : String} {svc svc' : SessionService} {st : SessionStore} {r : SessionRecord}
    (hshape : looksLikeSystemSessionId (some sid) = true) (hdoor : s.door = some svc)
    (haccepts : svc.Accepts sid create) (hdoor' : s'.door = some svc')
    (hplane : svc'.plane = some st) (hopen : st.requireOpen sid = .ok r)
    (hcoherent : s'.conn.Coherent) (hsession : s'.conn.sessionId = some sid)
    (hkeeps : ∀ i, s.conn.instanceId = some i → s'.conn.instanceId = some i) :
    SessionApplied s s' create (some (some sid))
  | unwired {sid : String} (hshape : looksLikeSystemSessionId (some sid) = true)
    (hdoor : s.door = none) (hdoor' : s'.door = none)
    (hconn : s'.conn = { s.conn with sessionId := some sid, sessionCreated := false }) :
    SessionApplied s s' create (some (some sid))

/-- Without a service afterwards there was none before. -/
theorem SessionApplied.door_eq_none {field : Option (Option String)}
    (h : SessionApplied s s' create field) (hdoor : s'.door = none) : s.door = none := by
  cases h with
  | absent hsame => exact hsame ▸ hdoor
  | dropped _ _ hsame => exact hsame ▸ hdoor
  | misplaced _ hconn =>
    rw [hconn] at hdoor
    exact hdoor
  | wired _ _ _ hdoor' =>
    rw [hdoor'] at hdoor
    cases hdoor
  | unwired _ hnone => exact hnone

/-- The text of a field is trimmed and not empty. -/
theorem given_of_bindField {shown : Value → String} {message : List (String × Value)}
    {name : String} {iid : Option String} (h : bindField shown message name = some iid) :
    given iid = iid := by
  obtain ⟨v, -, hv⟩ := Option.map_eq_some_iff.mp h
  cases hiid : iid with
  | none => rfl
  | some text =>
    split at hv
    · rw [hiid] at hv
      cases hv
    · exact given_given (hv.trans hiid)

/-- What applying the session of a message does, if it does not fail. -/
theorem applySessionField_spec {shown : Value → String} {message : List (String × Value)}
    (htrimmed : s.conn.Trimmed)
    (h : s.applySessionField shown message create fresh = (.ok (), s')) :
    s'.conn.Trimmed ∧ SessionApplied s s' create (bindField shown message "session_id") := by
  unfold applySessionField at h
  split at h
  · next hnone =>
    cases h
    exact ⟨htrimmed, hnone ▸ .absent rfl⟩
  · next hnull =>
    cases h
    refine ⟨⟨rfl, ?_, htrimmed.hint⟩, hnull ▸ .dropped rfl rfl rfl⟩
    simp only []
    split
    · rfl
    · exact htrimmed.focus
  · next sid hsid =>
    have hgiven := given_of_bindField hsid
    split at h
    · next hshape =>
      cases hdoor : s.door with
      | some svc =>
        obtain ⟨htrimmed', hcoherent, hkeeps, svc', hdoor', hbound⟩ :=
          serviceBindInto_ok hdoor htrimmed (Option.none_or ..) h
        obtain ⟨hsession, haccepts, st, r, hplane, hopen⟩ := hbound sid hgiven
        exact ⟨htrimmed', hsid ▸ .wired hshape hdoor haccepts hdoor' hplane hopen hcoherent hsession
          hkeeps⟩
      | none =>
        obtain ⟨hdoor', hconn⟩ := serviceBindInto_unwired hdoor (strip_of_given hgiven).2 h
        refine ⟨?_, hsid ▸ .unwired hshape hdoor hdoor' hconn⟩
        rw [hconn]
        exact ⟨hgiven, htrimmed.focus, htrimmed.hint⟩
    · next hshape =>
      cases h
      exact ⟨⟨htrimmed.session, hgiven, htrimmed.hint⟩,
        hsid ▸ .misplaced (by simpa using hshape) rfl⟩

/-- What applying the fields of a message leaves: the session as it was applied, and the instance of
the message in the mirror and in the bound surface, if the message has one. -/
theorem applyMessageBindFields_ok {shown : Value → String} {message : List (String × Value)}
    (htrimmed : s.conn.Trimmed)
    (h : s.applyMessageBindFields shown message create fresh = (.ok (), s')) :
    ∃ s1, SessionApplied s s1 create (bindField shown message "session_id") ∧
      s'.conn.Trimmed ∧ s'.door = s1.door ∧ s'.conn.sessionId = s1.conn.sessionId ∧
      (bindField shown message "instance_id" = none →
        s'.conn.instanceId = s1.conn.instanceId ∧ s'.conn.bound = s1.conn.bound) ∧
      ∀ iid, bindField shown message "instance_id" = some iid →
        s'.conn.instanceId = iid ∧ s'.conn.bound = s1.conn.bound.map fun b => b.withInstance iid := by
  unfold applyMessageBindFields at h
  split at h
  · cases h
  · next s1 hfield =>
    obtain ⟨htrimmed1, happlied⟩ := applySessionField_spec htrimmed hfield
    have hflow : ∀ s : Binding, (s.applyFlowField shown message).door = s.door ∧
        (s.applyFlowField shown message).conn.sessionId = s.conn.sessionId ∧
        (s.applyFlowField shown message).conn.instanceId = s.conn.instanceId ∧
        (s.applyFlowField shown message).conn.bound = s.conn.bound ∧
        (s.applyFlowField shown message).conn.transportSessionHint =
          s.conn.transportSessionHint := by
      intro s
      unfold applyFlowField
      split <;> exact ⟨rfl, rfl, rfl, rfl, rfl⟩
    obtain ⟨hdoor, hsession, hinstance, hbound, hhint⟩ :=
      hflow (s1.applyInstanceField shown message)
    cases h
    cases hfocus : bindField shown message "instance_id" with
    | none =>
      have hsame : s1.applyInstanceField shown message = s1 := by
        rw [applyInstanceField, hfocus]
      rw [hsame] at hdoor hsession hinstance hbound hhint ⊢
      refine ⟨s1, happlied, ⟨?_, ?_, ?_⟩, hdoor, hsession, fun _ => ⟨hinstance, hbound⟩, ?_⟩
      · rw [hsession, htrimmed1.session]
      · rw [hinstance, htrimmed1.focus]
      · rw [hhint, htrimmed1.hint]
      · exact fun _ h => absurd h (by simp)
    | some iid =>
      have hset : s1.applyInstanceField shown message = { s1 with conn := { s1.conn with
          instanceId := iid, bound := s1.conn.bound.map fun b => b.withInstance iid } } := by
        rw [applyInstanceField, hfocus]
      rw [hset] at hdoor hsession hinstance hbound hhint ⊢
      refine ⟨s1, happlied, ⟨?_, ?_, ?_⟩, hdoor, hsession, fun h => absurd h (by simp), ?_⟩
      · rw [hsession, htrimmed1.session]
      · rw [hinstance, given_of_bindField hfocus]
      · rw [hhint, htrimmed1.hint]
      · intro iid' heq
        obtain rfl := Option.some.inj heq
        exact ⟨hinstance, hbound⟩

/-- A connection that agrees with its mirrors does so after the fields of a message, if an instance in
the place of a session and a session without a service are those of the bound surface. -/
theorem coherent_applyMessageBindFields {shown : Value → String}
    {message : List (String × Value)} (htrimmed : s.conn.Trimmed) (hcoherent : s.conn.Coherent)
    (hmisplaced : ∀ x, bindField shown message "session_id" = some (some x) →
      looksLikeSystemSessionId (some x) = false → bindField shown message "instance_id" = none →
        ∀ b ∈ s.conn.bound, b.instanceId = some x)
    (hunwired : ∀ sid, bindField shown message "session_id" = some (some sid) →
      looksLikeSystemSessionId (some sid) = true → s.door = none →
        ∀ b ∈ s.conn.bound, b.sessionId = sid)
    (h : s.applyMessageBindFields shown message create fresh = (.ok (), s')) :
    s'.conn.Coherent := by
  obtain ⟨s1, happlied, htrimmed', -, hsession, hnone, hsome⟩ :=
    applyMessageBindFields_ok htrimmed h
  generalize hfield : bindField shown message "session_id" = field at happlied
  have hsession1 : ∀ b ∈ s1.conn.bound, s1.conn.sessionId = some b.sessionId := by
    intro b hb
    cases happlied with
    | absent hsame =>
      rw [hsame] at hb ⊢
      exact (hcoherent b hb).1
    | dropped hbound =>
      rw [hbound] at hb
      cases hb
    | misplaced _ hconn =>
      rw [hconn] at hb ⊢
      exact (hcoherent b hb).1
    | wired _ _ _ _ _ _ hcoherent1 => exact (hcoherent1 b hb).1
    | unwired hshape hdoor _ hconn =>
      rw [hconn] at hb ⊢
      rw [hunwired _ hfield hshape hdoor b hb]
  cases hfocus : bindField shown message "instance_id" with
  | none =>
    obtain ⟨hinstance, hbound⟩ := hnone hfocus
    intro b hb
    rw [hbound] at hb
    rw [hsession, hinstance]
    refine ⟨hsession1 b hb, ?_⟩
    cases happlied with
    | absent hsame =>
      rw [hsame] at hb ⊢
      exact (hcoherent b hb).2
    | dropped hbound1 =>
      rw [hbound1] at hb
      cases hb
    | misplaced hshape hconn =>
      rw [hconn] at hb ⊢
      exact (hmisplaced _ hfield hshape hfocus b hb).symm
    | wired _ _ _ _ _ _ hcoherent1 => exact (hcoherent1 b hb).2
    | unwired _ _ _ hconn =>
      rw [hconn] at hb ⊢
      exact (hcoherent b hb).2
  | some iid =>
    obtain ⟨hinstance, hbound⟩ := hsome iid hfocus
    intro b hb
    rw [hbound] at hb
    obtain ⟨b1, hb1, rfl⟩ := Option.map_eq_some_iff.mp hb
    refine ⟨hsession.trans (hsession1 b1 hb1), hinstance.trans ?_⟩
    exact (given_of_bindField hfocus).symm

/-- If neither the session nor the instance is dropped and the instance is not named, either it is
another one afterwards, or the session is the same and is open if it was bound to. -/
theorem kept_applyMessageBindFields {shown : Value → String} {message : List (String × Value)}
    {a i : String} (htrimmed : s.conn.Trimmed) (hsession : s.conn.sessionId = some a)
    (hinstance : s.conn.instanceId = some i)
    (hdropped : bindField shown message "session_id" ≠ some none ∧
      bindField shown message "instance_id" ≠ some none)
    (hnamed : bindField shown message "instance_id" ≠ some (some i) ∧
      ¬(bindField shown message "session_id" = some (some i) ∧
        looksLikeSystemSessionId (some i) = false))
    (hrebound : ∀ sid, bindField shown message "session_id" = some (some sid) →
      looksLikeSystemSessionId (some sid) = true → bindField shown message "instance_id" = none →
        a ≠ sid → ¬∀ svc ∈ s.door, svc.Accepts sid create)
    (h : s.applyMessageBindFields shown message create fresh = (.ok (), s')) :
    ∃ j, s'.conn.instanceId = some j ∧ (j = i → s'.conn.sessionId = some a ∧
      (bindField shown message "session_id" = none ∧ bindField shown message "instance_id" = none ∧
          s'.door = s.door ∨
        ∀ svc ∈ s'.door, ∀ st ∈ svc.plane, ∃ r, st.requireOpen a = .ok r)) := by
  obtain ⟨s1, happlied, -, hdoor, hsession', hnone, hsome⟩ := applyMessageBindFields_ok htrimmed h
  generalize hfield : bindField shown message "session_id" = field at *
  cases hfocus : bindField shown message "instance_id" with
  | some iid =>
    obtain ⟨hinstance', -⟩ := hsome iid hfocus
    rw [hfocus] at hdropped hnamed
    cases iid with
    | none => exact absurd rfl hdropped.2
    | some j => exact ⟨j, hinstance', fun heq => absurd (congrArg (some ∘ some) heq) hnamed.1⟩
  | none =>
    rw [(hnone hfocus).1, hsession', hdoor]
    cases happlied with
    | absent hsame =>
      rw [hsame]
      exact ⟨i, hinstance, fun _ => ⟨hsession, Or.inl ⟨rfl, rfl, rfl⟩⟩⟩
    | dropped => exact absurd rfl hdropped.1
    | @misplaced x hshape hconn =>
      rw [hconn]
      refine ⟨x, rfl, ?_⟩
      rintro rfl
      exact absurd ⟨rfl, hshape⟩ hnamed.2
    | @wired sid svc svc' st r hshape hsvc haccepts hsvc' hplane hopen _ hbound hkeeps =>
      obtain rfl : a = sid := by
        by_contra hne
        refine hrebound sid rfl hshape hfocus hne fun svc1 hsvc1 => ?_
        rwa [Option.some.inj (hsvc1.symm.trans hsvc)]
      refine ⟨i, hkeeps i hinstance, fun _ => ⟨hbound, Or.inr fun svc1 hsvc1 st1 hst1 => ⟨r, ?_⟩⟩⟩
      obtain rfl := Option.some.inj (hsvc1.symm.trans hsvc')
      rwa [Option.some.inj (hst1.symm.trans hplane)]
    | @unwired sid hshape hnodoor hnodoor' hconn =>
      obtain rfl : a = sid := by
        by_contra hne
        refine hrebound sid rfl hshape hfocus hne fun svc1 hsvc1 => ?_
        rw [hnodoor] at hsvc1
        cases hsvc1
      rw [hconn, hnodoor']
      exact ⟨i, hinstance, fun _ => ⟨rfl, Or.inr fun svc1 hsvc1 => by cases hsvc1⟩⟩

/-- If the fields of a message fail, the connection is as it was. -/
theorem applyMessageBindFields_error {shown : Value → String} {message : List (String × Value)}
    {e : BindError} (h : s.applyMessageBindFields shown message create fresh = (.error e, s')) :
    s'.conn = s.conn := by
  unfold applyMessageBindFields at h
  split at h
  · next e1 s1 hfield =>
    cases h
    unfold applySessionField at hfield
    split at hfield
    · cases hfield
    · cases hfield
    · split at hfield
      · exact (serviceBindInto_error hfield).1
      · cases hfield
  · cases h

/-- A connection with trimmed ids agrees with its mirrors when its bound surface is in line. -/
theorem coherent_alignBound (htrimmed : s.conn.Trimmed) : s.alignBound.conn.Coherent := by
  intro b hb
  obtain ⟨b1, hb1, rfl⟩ := Option.map_eq_some_iff.mp hb
  obtain ⟨-, hsame⟩ := Option.filter_eq_some_iff.mp hb1
  refine ⟨?_, htrimmed.focus.symm⟩
  change s.conn.sessionId = some b1.sessionId
  cases hsession : s.conn.sessionId with
  | none =>
    rw [hsession] at hsame
    exact absurd (by simpa using hsame) (strip_of_given b1.given_sessionId).2
  | some a =>
    rw [hsession] at hsame
    exact congrArg some (show b1.sessionId = a by simpa using hsame).symm

/-- A connection that is bound again agrees with its mirrors. The session stays, and the instance does
if there is one. -/
theorem rebind_spec {svc : SessionService} {a : String} (fresh : String) (hdoor : s.door = some svc)
    (htrimmed : s.conn.Trimmed) (hcoherent : s.conn.Coherent)
    (hsession : s.conn.sessionId = some a) :
    let t := s.rebind a fresh
    t.conn.Trimmed ∧ t.conn.Coherent ∧ t.conn.sessionId = some a ∧
      ∀ i, s.conn.instanceId = some i → t.conn.instanceId = some i := by
  unfold rebind
  split
  · rcases hbind : s.serviceBindInto (some a) false s.conn.instanceId fresh with ⟨e | _, t⟩
    · obtain ⟨hconn, -⟩ := serviceBindInto_error hbind
      simp only [hconn]
      exact ⟨htrimmed, hcoherent, hsession, fun _ => id⟩
    · obtain ⟨htrimmed', hcoherent', hkeeps, svc', -, hbound⟩ :=
        serviceBindInto_ok hdoor htrimmed (Option.or_self ..) hbind
      exact ⟨htrimmed', hcoherent', (hbound a (hsession ▸ htrimmed.session)).1, hkeeps⟩
  · exact ⟨htrimmed, hcoherent, hsession, fun _ => id⟩

/-- Synchronizing makes a connection with trimmed ids agree with its mirrors. The session stays, and
the instance does if there is one. -/
theorem syncBoundFromMirrors_spec (fresh : String) (htrimmed : s.conn.Trimmed) :
    let t := s.syncBoundFromMirrors fresh
    t.conn.Trimmed ∧ t.conn.Coherent ∧ t.conn.sessionId = s.conn.sessionId ∧
      ∀ i, s.conn.instanceId = some i → t.conn.instanceId = some i := by
  have haligned : s.alignBound.conn.Trimmed := ⟨htrimmed.session, htrimmed.focus, htrimmed.hint⟩
  have hcoherent := coherent_alignBound htrimmed
  unfold syncBoundFromMirrors
  simp only []
  split
  · next svc sid hdoor hsid =>
    have hsession : s.conn.sessionId = some sid := (Option.filter_eq_some_iff.mp hsid).1
    have hgiven : given (some sid) = some sid := hsession ▸ htrimmed.session
    split
    · have hrebind := rebind_spec fresh hdoor haligned hcoherent hsession
      rwa [hsession]
    · next iid hiid =>
      have hinstance : s.conn.instanceId = some iid := (Option.filter_eq_some_iff.mp hiid).1
      have hgiven' : given (some iid) = some iid := hinstance ▸ htrimmed.focus
      split
      · next bound svc' hfocus =>
        obtain ⟨hsession', hinstance'⟩ := SessionService.focus_eq_ok hfocus
        obtain ⟨htrimmed', hcoherent', hkeeps⟩ := ConnectionState.applyBound_spec haligned false
          (b := bound) fun i hi => (hinstance'.trans hgiven').trans (hinstance.symm.trans hi)
        refine ⟨htrimmed', hcoherent', ?_, hkeeps⟩
        rw [hsession]
        exact congrArg some (hsession'.trans (strip_of_given hgiven).1)
      · next e svc' hfocus =>
        have hrebind := rebind_spec (s := { s.alignBound with door := some svc' }) fresh rfl
          haligned hcoherent hsession
        rwa [hsession]
  · exact ⟨haligned, hcoherent, rfl, fun _ => id⟩

end Binding

section Messages

variable {shown : Value → String} {otherTruthy : ℕ → Bool} {c t : ConnectionState}
  {m : ClientMessage}

/-- The session that an answer names is trimmed and not empty. -/
theorem given_turnSession (shaped : List (String × Value)) :
    given (turnSession shown shaped) = turnSession shown shaped := by
  cases htold : turnSession shown shaped with
  | none => rfl
  | some a =>
    obtain ⟨text, htext, rfl⟩ := Option.map_eq_some_iff.mp htold
    have hshape : looksLikeSystemSessionId (some text) = true :=
      (Option.filter_eq_some_iff.mp htext).2
    have hne : strip text ≠ "" := by
      intro hempty
      simp only [looksLikeSystemSessionId, Option.any_some, hempty] at hshape
      exact absurd hshape (by decide +kernel)
    simp [given, hne]

/-- After an answer was taken over the connection agrees with its mirrors. It has the session and the
instance of the answer, or those it had. -/
theorem Binding.refreshFromTurn_spec {s : Binding} {shaped : List (String × Value)}
    (flow : Option String) (fresh : String) (htrimmed : s.conn.Trimmed)
    (hanswer : given (turnInstance shown otherTruthy shaped) =
      turnInstance shown otherTruthy shaped) :
    let t := s.refreshFromTurn shown otherTruthy shaped flow fresh
    t.conn.Trimmed ∧ t.conn.Coherent ∧
      t.conn.sessionId = (turnSession shown shaped).or s.conn.sessionId ∧
      ∀ i, (turnInstance shown otherTruthy shaped).or s.conn.instanceId = some i →
        t.conn.instanceId = some i := by
  have hor : ∀ {o o' : Option String}, given o = o → given o' = o' → given (o.or o') = o.or o' := by
    intro o o' ho ho'
    cases o with
    | none => exact ho'
    | some x => exact ho
  have htaken : ConnectionState.Trimmed { s.conn with
      sessionId := (turnSession shown shaped).or s.conn.sessionId
      instanceId := (turnInstance shown otherTruthy shaped).or s.conn.instanceId } :=
    ⟨hor (given_turnSession shaped) htrimmed.session, hor hanswer htrimmed.focus, htrimmed.hint⟩
  obtain ⟨htrimmed', hcoherent, hsession, hkeeps⟩ :=
    syncBoundFromMirrors_spec (s := ⟨_, s.door⟩) fresh htaken
  exact ⟨⟨htrimmed'.session, htrimmed'.focus, htrimmed'.hint⟩, hcoherent, hsession, hkeeps⟩

/-- A hello keeps the connection in agreement with its mirrors, and instances with their sessions. -/
theorem step_hello {s' : Binding} {frame : ServerFrame} (hop : m.op = some "hello")
    (htrimmed : c.Trimmed) (hcoherent : c.Coherent) (hsound : m.Sound shown otherTruthy c)
    (h : Binding.handleHello shown ⟨c, m.door⟩ m.fields m.fresh = (.ok frame, s')) :
    s'.conn.Trimmed ∧ s'.conn.Coherent ∧ m.KeepsApart shown otherTruthy c s'.conn := by
  have hbase : m.base c = c := if_neg fun hbind => by simp [hop] at hbind
  have hcreates : m.creates = true := by simp [ClientMessage.creates, hop]
  unfold Binding.handleHello at h
  split at h
  · cases h
  · next s1 hfields =>
    split at h
    · cases h
    · next s2 hensure =>
      obtain ⟨-, rfl⟩ := Prod.mk.inj h
      obtain ⟨_, happlied, htrimmed1, hdoor1, -⟩ :=
        Binding.applyMessageBindFields_ok (s := ⟨c, m.door⟩) htrimmed hfields
      have hcoherent1 : s1.door = none → s1.conn.Coherent := by
        intro hnone
        have hnodoor : m.door = none := happlied.door_eq_none (hdoor1.symm.trans hnone)
        refine Binding.coherent_applyMessageBindFields (s := ⟨c, m.door⟩) htrimmed hcoherent
          (fun x hx hshape hfocus => ?_) (fun sid hsid hshape hdoor => ?_) hfields
        · exact hbase ▸ hsound.misplaced (Or.inl hop) x hx hshape hfocus (Or.inl hnodoor)
        · exact hbase ▸ hsound.unwired (Or.inl hop) sid hsid hshape hdoor
      obtain ⟨htrimmed2, hcoherent2, hkeeps⟩ :=
        Binding.ensureSystemSession_ok htrimmed1 hcoherent1 hensure
      refine ⟨htrimmed2, hcoherent2, ?_⟩
      rw [ClientMessage.KeepsApart, if_neg (by simp [hop])]
      intro a b i ha hb hne hi hreason hsame
      have hrebound : ∀ sid, m.session shown = some (some sid) →
          looksLikeSystemSessionId (some sid) = true → m.focus shown = none → a ≠ sid →
            ¬∀ svc ∈ m.door, svc.Accepts sid true := by
        intro sid hsid hshape hfocus hother haccepts
        have hnone := hsound.rebound (Or.inl hop) sid a hsid hshape hfocus (hbase.symm ▸ ha) hother
          (hcreates.symm ▸ haccepts)
        rw [hbase, hi] at hnone
        cases hnone
      obtain ⟨j, hj, hsession⟩ := Binding.kept_applyMessageBindFields (s := ⟨c, m.door⟩) htrimmed ha hi
        ⟨fun h => hreason (Or.inl (Or.inr (Or.inl h))), fun h => hreason (Or.inl (Or.inr (Or.inr h)))⟩
        ⟨fun h => hreason (Or.inr (Or.inl h)), fun h => hreason (Or.inr (Or.inr h))⟩ hrebound hfields
      obtain rfl : j = i := Option.some.inj ((hkeeps j hj).symm.trans hsame)
      obtain ⟨ha1, hopen⟩ := hsession rfl
      have hopen1 : ∀ svc ∈ s1.door, ∀ st ∈ svc.plane, ∃ r, st.requireOpen a = .ok r := by
        intro svc hsvc st hst
        rcases hopen with ⟨hnosession, hnofocus, hdoor⟩ | hopen
        · exact hsound.replaced (Or.inr ⟨hop, hnosession, hnofocus⟩) a ha (by simp [hi]) svc
            (hdoor.symm.trans hsvc) st hst
        · exact hopen svc hsvc st hst
      have hstays : (s1.ensureSystemSession true m.fresh).2.conn.sessionId = some a :=
        Binding.sessionId_ensureSystemSession ha1 htrimmed1 hopen1
      rw [hensure] at hstays
      exact hne (Option.some.inj (hstays.symm.trans hb))

/-- A connection whose session does not change keeps instances with their sessions. -/
theorem ConnectionState.keptApart_of_session_eq {reason : String → Prop}
    (h : t.sessionId = c.sessionId) : c.KeptApart t reason := by
  intro a b i ha hb hne
  exact absurd (Option.some.inj (ha.symm.trans (h.symm.trans hb))) hne

/-- A binding keeps the connection in agreement with its mirrors, and instances with their sessions. -/
theorem step_bind {s' : Binding} {frame : ServerFrame} (hop : m.op = some "bind")
    (htrimmed : c.Trimmed) (hcoherent : c.Coherent) (hsound : m.Sound shown otherTruthy c)
    (h : Binding.handleBind shown ⟨c, m.door⟩ m.fields m.fresh = (.ok frame, s')) :
    s'.conn.Trimmed ∧ s'.conn.Coherent ∧ m.KeepsApart shown otherTruthy c s'.conn := by
  have hcreates : m.creates = createFlag m.fields := by simp [ClientMessage.creates, hop]
  have hstart : (if clearFlag m.fields then { conn := c.clearBound, door := m.door }
      else { conn := c, door := m.door } : Binding) = ⟨m.base c, m.door⟩ := by
    unfold ClientMessage.base
    rw [hop]
    split <;> simp_all
  have hbase : (m.base c).Trimmed ∧ (m.base c).Coherent := by
    unfold ClientMessage.base
    split
    · exact ⟨⟨rfl, rfl, rfl⟩, Binding.coherent_of_bound_eq_none rfl⟩
    · exact ⟨htrimmed, hcoherent⟩
  have hkept : (m.base c = c → ∀ a b i, c.sessionId = some a → s'.conn.sessionId = some b →
      a ≠ b → c.instanceId = some i → ¬(m.Drops shown ∨ m.Names shown i) →
        s'.conn.instanceId ≠ some i) → m.KeepsApart shown otherTruthy c s'.conn := by
    intro hkeeps
    rw [ClientMessage.KeepsApart, if_neg (by simp [hop])]
    intro a b i ha hb hne hi hreason
    have hnoclear : ¬(m.op = some "bind" ∧ clearFlag m.fields = true) :=
      fun hclear => hreason (Or.inl (Or.inl hclear))
    exact hkeeps (if_neg hnoclear) a b i ha hb hne hi hreason
  unfold Binding.handleBind at h
  simp only [hstart] at h
  split at h
  · next e s1 hfields =>
    have hconn : s1.conn = m.base c := Binding.applyMessageBindFields_error hfields
    split at h
    · cases h
      refine ⟨hconn ▸ hbase.1, hconn ▸ hbase.2, hkept fun hsame a b i ha hb hne => ?_⟩
      rw [hconn, hsame, ha] at hb
      exact absurd (Option.some.inj hb) hne
    · cases h
  · next s1 hfields =>
    have hcoherent1 : s1.conn.Coherent := by
      refine Binding.coherent_applyMessageBindFields (s := ⟨m.base c, m.door⟩) hbase.1 hbase.2
        (fun x hx hshape hfocus => ?_) (fun sid hsid hshape hdoor => ?_) hfields
      · exact hsound.misplaced (Or.inr hop) x hx hshape hfocus (Or.inr hop)
      · exact hsound.unwired (Or.inr hop) sid hsid hshape hdoor
    obtain ⟨s0, happlied, htrimmed1, -, hsession1, -⟩ :=
      Binding.applyMessageBindFields_ok (s := ⟨m.base c, m.door⟩) hbase.1 hfields
    split at h
    · next hensures =>
      simp only [Bool.and_eq_true, Option.isNone_iff_eq_none] at hensures
      obtain ⟨⟨hnosession, hnofield⟩, -⟩ := hensures
      split at h
      · cases h
      · next s2 hensure =>
        cases h
        obtain ⟨htrimmed2, hcoherent2, -⟩ :=
          Binding.ensureSystemSession_ok htrimmed1 (fun _ => hcoherent1) hensure
        refine ⟨htrimmed2, hcoherent2, hkept fun hsame a b i ha => ?_⟩
        rw [hnofield] at happlied
        cases happlied with
        | absent hfirst =>
          rw [hsession1, hfirst, hsame, ha] at hnosession
          cases hnosession
    · cases h
      refine ⟨htrimmed1, hcoherent1, hkept fun hsame a b i ha hb hne hi hreason hleft => ?_⟩
      have hrebound : ∀ sid, m.session shown = some (some sid) →
          looksLikeSystemSessionId (some sid) = true → m.focus shown = none → a ≠ sid →
            ¬∀ svc ∈ m.door, svc.Accepts sid (createFlag m.fields) := by
        intro sid hsid hshape hfocus hother haccepts
        have hnone := hsound.rebound (Or.inr hop) sid a hsid hshape hfocus (hsame.symm ▸ ha) hother
          (hcreates.symm ▸ haccepts)
        rw [hsame, hi] at hnone
        cases hnone
      obtain ⟨j, hj, hstays⟩ := Binding.kept_applyMessageBindFields (s := ⟨m.base c, m.door⟩)
        hbase.1 (by rwa [hsame]) (by rwa [hsame])
        ⟨fun h => hreason (Or.inl (Or.inr (Or.inl h))), fun h => hreason (Or.inl (Or.inr (Or.inr h)))⟩
        ⟨fun h => hreason (Or.inr (Or.inl h)), fun h => hreason (Or.inr (Or.inr h))⟩ hrebound hfields
      obtain rfl : j = i := Option.some.inj (hj.symm.trans hleft)
      exact hne (Option.some.inj ((hstays rfl).1.symm.trans hb))

/-- A dispatch keeps the connection in agreement with its mirrors, and instances with their
sessions. -/
theorem step_dispatch {s' : Binding} {frame : ServerFrame} (hop : m.op = some "dispatch")
    (htrimmed : c.Trimmed) (hcoherent : c.Coherent) (hsound : m.Sound shown otherTruthy c)
    (h : Binding.handleDispatch shown otherTruthy ⟨c, m.door⟩ m.fields m.hasContext m.fresh
      m.outcome = (.ok frame, s')) :
    s'.conn.Trimmed ∧ s'.conn.Coherent ∧ m.KeepsApart shown otherTruthy c s'.conn := by
  have hunchanged : s'.conn = c →
      s'.conn.Trimmed ∧ s'.conn.Coherent ∧ m.KeepsApart shown otherTruthy c s'.conn := by
    intro hsame
    rw [hsame, ClientMessage.KeepsApart, if_pos hop]
    exact ⟨htrimmed, hcoherent, Or.inl rfl⟩
  unfold Binding.handleDispatch at h
  split at h
  · cases h
    exact hunchanged rfl
  split at h
  · cases h
    exact hunchanged rfl
  split at h
  · next e s1 hensure =>
    have hconn := Binding.ensureSystemSession_error htrimmed hensure
    split at h
    · cases h
      exact hunchanged hconn
    · cases h
  · next s1 hensure =>
    have hensured : m.ensured c = s1.conn := by rw [ClientMessage.ensured, hensure]
    obtain ⟨htrimmed1, hcoherent1, -⟩ :=
      Binding.ensureSystemSession_ok htrimmed (fun _ => hcoherent) hensure
    have hreplaced : c.KeptApart (m.ensured c) fun _ => False := by
      intro a b i ha hb hne hi
      have hstays : (m.ensured c).sessionId = some a :=
        Binding.sessionId_ensureSystemSession ha htrimmed
          (hsound.replaced (Or.inl hop) a ha (by simp [hi]))
      exact absurd (Option.some.inj (hstays.symm.trans hb)) hne
    have hanswered : s'.conn.Trimmed ∧ s'.conn.Coherent ∧ (m.ensured c).KeptApart s'.conn (fun i =>
        ∃ answer, m.outcome.turn = .ok answer ∧
          turnInstance shown otherTruthy answer.1 = some i) := by
      split at h
      · cases h
        exact ⟨htrimmed1, hcoherent1, ConnectionState.keptApart_of_session_eq (by rw [hensured])⟩
      · simp only [] at h
        split at h
        · cases h
          exact ⟨htrimmed1, hcoherent1, ConnectionState.keptApart_of_session_eq (by rw [hensured])⟩
        · next shaped flow hturn =>
          cases h
          obtain ⟨htrimmed2, hcoherent2, hsession, hkeeps⟩ := Binding.refreshFromTurn_spec
            (s := ⟨s1.conn, m.outcome.door⟩) flow m.fresh htrimmed1 (hsound.trimmed hop _ hturn)
          refine ⟨htrimmed2, hcoherent2, fun a b i ha hb hne hi hreason => ?_⟩
          have htold : turnSession shown shaped = some b := by
            cases htold : turnSession shown shaped with
            | some x => rwa [hsession, htold] at hb
            | none =>
              rw [hsession, htold, Option.none_or, ← hensured, ha] at hb
              exact absurd (Option.some.inj hb) hne
          cases hfocus : turnInstance shown otherTruthy shaped with
          | none =>
            have hnone := hsound.turned hop _ hturn a b htold ha hne hfocus
            rw [hi] at hnone
            cases hnone
          | some j =>
            rw [hkeeps j (by rw [hfocus, Option.some_or])]
            intro hsame
            obtain rfl := Option.some.inj hsame
            exact hreason ⟨_, hturn, hfocus⟩
    obtain ⟨htrimmed2, hcoherent2, hapart⟩ := hanswered
    refine ⟨htrimmed2, hcoherent2, ?_⟩
    rw [ClientMessage.KeepsApart, if_pos hop]
    exact Or.inr ⟨hreplaced, hapart⟩

/-- A message that is answered keeps the connection in agreement with its mirrors, and instances with
their sessions. -/
theorem step_coherent (htrimmed : c.Trimmed) (hcoherent : c.Coherent)
    (hsound : m.Sound shown otherTruthy c) (h : c.step shown otherTruthy m = some t) :
    t.Trimmed ∧ t.Coherent ∧ m.KeepsApart shown otherTruthy c t := by
  have hunchanged : m.op ≠ some "dispatch" →
      c.Trimmed ∧ c.Coherent ∧ m.KeepsApart shown otherTruthy c c := by
    intro hop
    rw [ClientMessage.KeepsApart, if_neg hop]
    exact ⟨htrimmed, hcoherent, ConnectionState.keptApart_of_session_eq rfl⟩
  unfold ConnectionState.step at h
  split at h
  · next frame s' hhandled =>
    cases h
    unfold handleClientMessage at hhandled
    simp only [] at hhandled
    split at hhandled
    · next hop => exact step_hello hop htrimmed hcoherent hsound hhandled
    · next hop =>
      cases hhandled
      exact hunchanged (by simp [ClientMessage.op, hop])
    · next hop => exact step_bind hop htrimmed hcoherent hsound hhandled
    · next hop => exact step_dispatch hop htrimmed hcoherent hsound hhandled
    · next hop =>
      cases hhandled
      exact hunchanged hop
  · cases h

/-- Before its first message a connection agrees with its mirrors. -/
theorem ConnectionState.Opened.coherent (h : c.Opened) : c.Trimmed ∧ c.Coherent := by
  obtain ⟨header, cookie, hopened⟩ := h
  have hmade : (make (extractSystemSessionHint header cookie)).Trimmed := by
    refine ⟨rfl, rfl, ?_⟩
    change given ((given header).or (given cookie)) = (given header).or (given cookie)
    cases hheader : given header with
    | some hint => exact given_given hheader
    | none =>
      cases hcookie : given cookie with
      | some hint => exact given_given hcookie
      | none => rfl
  rcases hopened with rfl | ⟨door, fresh, hserved⟩
  · exact ⟨hmade, Binding.coherent_of_bound_eq_none rfl⟩
  · unfold runAssistWebsocket at hserved
    split at hserved
    · next s hensure =>
      cases hserved
      obtain ⟨htrimmed, hcoherent, -⟩ := Binding.ensureSystemSession_ok hmade
        (fun _ => Binding.coherent_of_bound_eq_none rfl) hensure
      exact ⟨htrimmed, hcoherent⟩
    · cases hserved

/-- A connection agrees with its mirrors after every message and keeps instances with their sessions,
if none of the messages takes a branch that goes wrong. -/
theorem run_coherent (hopened : c.Opened) (messages : List ClientMessage)
    (hsound : AllSteps (ConnectionState.step shown otherTruthy)
      (fun c m _ => m.Sound shown otherTruthy c) c messages) :
    AllSteps (ConnectionState.step shown otherTruthy)
      (fun c m t => t.Coherent ∧ m.KeepsApart shown otherTruthy c t) c messages := by
  refine hsound.imp (fun c => c.Trimmed ∧ c.Coherent) (fun c m t hc ht hm => ?_) hopened.coherent
  obtain ⟨htrimmed, hcoherent, hapart⟩ := step_coherent hc.1 hc.2 hm ht
  exact ⟨⟨hcoherent, hapart⟩, htrimmed, hcoherent⟩

/-- A binding that names an instance takes none of the branches that go wrong where there is a
service. -/
theorem ClientMessage.sound_of_focus {svc : SessionService} {iid : Option String}
    (hop : m.op = some "bind") (hdoor : m.door = some svc)
    (hfocus : m.focus shown = some iid) : m.Sound shown otherTruthy c where
  misplaced _ _ _ _ hnone := absurd (hfocus.symm.trans hnone) (by simp)
  unwired _ _ _ _ hnone := absurd (hdoor.symm.trans hnone) (by simp)
  rebound _ _ _ _ _ hnone := absurd (hfocus.symm.trans hnone) (by simp)
  replaced h := absurd h (by simp [hop])
  turned h := absurd (hop.symm.trans h) (by simp)
  trimmed h := absurd (hop.symm.trans h) (by simp)

end Messages

/-- A service without sessions. -/
def freshService : SessionService where
  plane := some .empty
  jobs := {
    instanceOf := fun _ => none
    instanceView := fun _ => none
    jobView := fun _ => none
    rowJobId := fun _ => none
    openWaits := fun _ => 0
    cancelJob := fun _ => none
    view_jobs := fun _ _ h => (nomatch h)
    view_instances := fun _ _ h => (nomatch h)
    row_job := fun _ _ h => (nomatch h) }
  strictAttribution := false

/-- A binding with the given fields. -/
def bindMessage (door : Option SessionService) (fields : List (String × Value)) : ClientMessage where
  fields := ("op", .str "bind") :: fields
  door := door
  hasContext := true
  fresh := "sess-fresh"
  outcome := ⟨door, .error "unavailable"⟩

/-- A binding to a session and an instance. -/
def bindBoth : ClientMessage :=
  bindMessage (some freshService) [("session_id", .str "sess-a"), ("instance_id", .str "inst-1")]

/-- The service after that binding of a new connection. -/
def serviceAfter : Option SessionService :=
  (handleClientMessage (fun _ => "") (fun _ => true) (.make none) bindBoth).2.door

/-- A binding to another session and another instance. -/
def bindOthers : ClientMessage :=
  bindMessage serviceAfter [("session_id", .str "sess-b"), ("instance_id", .str "inst-2")]

/-- A binding to another session. -/
def bindAnother : ClientMessage := bindMessage serviceAfter [("session_id", .str "sess-b")]

/-- A binding with an instance in the place of the session. -/
def bindMisplaced : ClientMessage := bindMessage serviceAfter [("session_id", .str "inst-2")]

/-- A connection that is bound to one session and instance and then to others. -/
theorem run_coherent_bound :
    AllSteps (ConnectionState.step (fun _ => "") fun _ => true)
      (fun c m t => t.Coherent ∧ m.KeepsApart (fun _ => "") (fun _ => true) c t)
      (.make none) [bindBoth, bindOthers] := by
  have hafter : serviceAfter.isSome = true := by decide +kernel
  obtain ⟨svc, hsvc⟩ := Option.isSome_iff_exists.mp hafter
  refine run_coherent ⟨none, none, Or.inl rfl⟩ _ fun t _ => ⟨?_, fun _ _ => ⟨?_, trivial⟩⟩
  · have hfocus : bindBoth.focus (fun _ => "") = some (some "inst-1") := by decide +kernel
    exact ClientMessage.sound_of_focus rfl rfl hfocus
  · have hfocus : bindOthers.focus (fun _ => "") = some (some "inst-2") := by decide +kernel
    exact ClientMessage.sound_of_focus rfl hsvc hfocus

/-- An instance in the place of a session changes the mirror only, and a binding to another session
presents the instance of the earlier one there. -/
theorem coherent_mirrored_fails :
    ¬AllSteps (ConnectionState.step (fun _ => "") fun _ => true) (fun _ _ t => t.Coherent)
        (.make none) [bindBoth, bindMisplaced] ∧
      ¬AllSteps (ConnectionState.step (fun _ => "") fun _ => true)
        (fun c m t => m.KeepsApart (fun _ => "") (fun _ => true) c t)
        (.make none) [bindBoth, bindAnother] := by
  constructor
  · intro hall
    have hrun : (runSteps (ConnectionState.step (fun _ => "") fun _ => true) (.make none)
        [bindBoth, bindMisplaced]).map (fun t => (t.instanceId, t.bound.map (·.instanceId))) =
          some (some "inst-2", some (some "inst-1")) := by decide +kernel
    obtain ⟨u, hu, hshown⟩ := Option.map_eq_some_iff.mp hrun
    obtain ⟨c, hc, hrest⟩ := runSteps_cons hu
    obtain ⟨t, ht, hend⟩ := runSteps_cons hrest
    obtain rfl : t = u := Option.some.inj hend
    obtain ⟨hinstance, hbound⟩ := Prod.mk.inj hshown
    obtain ⟨b, hb, hother⟩ := Option.map_eq_some_iff.mp hbound
    have hsame := (((hall c hc).2 t ht).1 b hb).2
    rw [hinstance, hother] at hsame
    exact absurd hsame (by decide)
  · intro hall
    have hfirst : ((ConnectionState.make none).step (fun _ => "") (fun _ => true) bindBoth).map
        (fun t => (t.sessionId, t.instanceId)) = some (some "sess-a", some "inst-1") := by
      decide +kernel
    have hrun : (runSteps (ConnectionState.step (fun _ => "") fun _ => true) (.make none)
        [bindBoth, bindAnother]).map (fun t => (t.sessionId, t.instanceId)) =
          some (some "sess-b", some "inst-1") := by decide +kernel
    obtain ⟨u, hu, hshown⟩ := Option.map_eq_some_iff.mp hrun
    obtain ⟨c, hc, hrest⟩ := runSteps_cons hu
    obtain ⟨t, ht, hend⟩ := runSteps_cons hrest
    obtain rfl : t = u := Option.some.inj hend
    rw [hc] at hfirst
    obtain ⟨hsession, hinstance⟩ := Prod.mk.inj (Option.some.inj hfirst)
    obtain ⟨hsession', hinstance'⟩ := Prod.mk.inj hshown
    have hapart : bindAnother.KeepsApart (fun _ => "") (fun _ => true) c t := ((hall c hc).2 t ht).1
    have hop : bindAnother.op ≠ some "dispatch" := by decide +kernel
    rw [ClientMessage.KeepsApart, if_neg hop] at hapart
    refine hapart "sess-a" "sess-b" "inst-1" hsession hsession' (by decide) hinstance ?_ hinstance'
    unfold ClientMessage.Drops ClientMessage.Names
    decide +kernel

end PalmEngine.Websocket
