import PalmEngine.Session.Exclusive
import PalmEngine.Session.Service

/-!
# Bound surfaces

A surface holds the session that it is bound to and the instance it goes on with there. The session
service makes a bound surface of a session that is open: with the instance it is given, or with the
one of the session to go on with. A focus is set by the plane before.
-/

namespace PalmEngine.Session

open PalmEngine.Lib PalmEngine.Events

/-- Why binding a surface fails: the service refuses, or the session has no proper id. -/
inductive BindError where
  | service (error : SessionServiceError)
  | improperSession
  deriving DecidableEq, Repr

/-- The session of a surface, whose id is of the system's shape, and the instance in focus. -/
structure BoundSurface where
  sessionId : String
  instanceId : Option String
  stripped : strip sessionId = sessionId
  shaped : looksLikeSystemSessionId (some sessionId) = true
  named : given instanceId = instanceId

namespace BoundSurface

/-- The surface of a session, if its id is of the system's shape. -/
def make (sessionId : String) (instanceId : Option String) : Except BindError BoundSurface :=
  if h : looksLikeSystemSessionId (some (strip sessionId)) = true then .ok {
    sessionId := strip sessionId
    instanceId := given instanceId
    stripped := strip_strip sessionId
    shaped := h
    named := by
      cases hgiven : given instanceId with
      | none => rfl
      | some i => exact given_given hgiven }
  else .error .improperSession

/-- The surface with another instance in focus. -/
def withInstance (b : BoundSurface) (instanceId : Option String) : BoundSurface :=
  { b with
    instanceId := given instanceId
    named := by
      cases hgiven : given instanceId with
      | none => rfl
      | some i => exact given_given hgiven }

/-- The surface of a record, with the given instance or the one in focus. -/
def fromRecord (r : SessionRecord) (instanceId : Option String) : Except BindError BoundSurface :=
  make r.sessionId (instanceId.or (given r.activeInstanceId))

end BoundSurface

namespace SessionService

variable (svc : SessionService)

/-- A session that is stored, if there is a plane. -/
def get (sessionId : String) : Option SessionRecord := svc.plane.bind fun s => s.get sessionId

/-- The surface of an open session: with the given instance, or with the one to go on with if that
is asked for. -/
def surfaceFromSession (sessionId : String) (instanceId : Option String) (resolve : Bool) :
    Except BindError BoundSurface :=
  match svc.plane with
  | none => .error (.service .planeNotReady)
  | some s =>
    match s.requireOpen sessionId with
    | .error error => .error (.service (.plane error))
    | .ok r =>
      if (given instanceId).isNone && resolve then
        match svc.resolveContinueInstance r.sessionId with
        | .ok resolved => BoundSurface.fromRecord r (resolved.filter (· ≠ ""))
        | .error _ => BoundSurface.fromRecord r r.activeInstanceId
      else BoundSurface.fromRecord r (given instanceId)

/-- The metadata of a binding: its origin, and its kind unless it is that of a service. -/
def bindingMetadata (metadata : Payload) (origin sessionId : Option String) : Payload :=
  let told := origin.elim metadata fun text => metadata.setDefault "origin" (.text (strip text))
  if sessionId.any fun text => text.startsWith "sess-svc-" then told
  else told.setDefault "kind" (.text "outside")

/-- Bind a surface to a session, which may be created. What is written stays when the surface cannot
be made. -/
def bindSurface (sessionId : Option String) (create : Bool) (metadata : Payload)
    (surface origin instanceId : Option String) (resolve : Bool) (fresh : String) :
    Except BindError BoundSurface × SessionService :=
  match svc.plane with
  | none => (.error (.service .planeNotReady), svc)
  | some s =>
    let told := bindingMetadata metadata (origin.filter (· ≠ "")) (given sessionId)
    match s.bind (given sessionId) create told surface fresh with
    | .error error => (.error (.service (.plane error)), svc)
    | .ok (s', b) =>
      let bound := { svc with plane := some s' }
      (bound.surfaceFromSession b.sessionId instanceId resolve, bound)

/-- Put the focus of a session on one of its instances. -/
def focus (sessionId instanceId : String) : Except BindError BoundSurface × SessionService :=
  match svc.plane with
  | none => (.error (.service .planeNotReady), svc)
  | some s =>
    match s.setActiveInstance sessionId instanceId with
    | .error error => (.error (.service (.plane error)), svc)
    | .ok (s', _) =>
      let focused := { svc with plane := some s' }
      (focused.surfaceFromSession sessionId none true, focused)

end SessionService

/-- The surface of a session and an instance, if it can be made. -/
theorem BoundSurface.make_eq_ok {sid : String} {iid : Option String} {b : BoundSurface}
    (h : make sid iid = .ok b) : b.sessionId = strip sid ∧ b.instanceId = given iid := by
  unfold make at h
  split at h
  · cases h
    exact ⟨rfl, rfl⟩
  · cases h

/-- The id of a bound surface is trimmed and not empty. -/
theorem BoundSurface.given_sessionId (b : BoundSurface) :
    given (some b.sessionId) = some b.sessionId := by
  have hne : b.sessionId ≠ "" := by
    intro hempty
    have hshaped := b.shaped
    rw [hempty] at hshaped
    exact absurd hshaped (by decide +kernel)
  simp [given, b.stripped, hne]

/-- Only of an improper session no surface can be made. -/
theorem BoundSurface.make_eq_error {sid : String} {iid : Option String} {e : BindError}
    (h : make sid iid = .error e) : e = .improperSession := by
  unfold make at h
  split at h
  · cases h
  · cases h
    rfl

namespace SessionStore

variable {s s' : SessionStore} {sid : String} {r : SessionRecord}

/-- A record is stored under its id. -/
theorem sessionId_of_get (h : s.get sid = some r) : r.sessionId = sid := by
  obtain ⟨r', hentry, rfl⟩ := Option.map_eq_some_iff.mp h
  exact s.id_eq sid r' hentry

/-- An open session is stored and not closed. -/
theorem requireOpen_eq_ok_iff : s.requireOpen sid = .ok r ↔
    s.get sid = some r ∧ r.status ≠ .closed := by
  unfold requireOpen require
  cases s.get sid with
  | none => simp
  | some r' =>
    simp only [Option.some.injEq]
    split
    · next hclosed =>
      simp only [reduceCtorEq, false_iff, not_and, not_not]
      rintro rfl
      exact hclosed
    · next hopen =>
      rw [Except.ok.injEq]
      constructor
      · rintro rfl
        exact ⟨rfl, hopen⟩
      · exact And.left

/-- A record that is written is read back as from its document. -/
theorem get_put (s : SessionStore) (r : SessionRecord) :
    (s.put r).get r.sessionId = some r.fromDict := by
  rw [get, entries_put, Dict.get?_set_self, Option.map_some]

/-- Merging metadata keeps the id. -/
theorem sessionId_of_mergeMetadata {r' : SessionRecord} {metadata : Payload}
    (h : r.mergeMetadata metadata = some r') : r'.sessionId = r.sessionId := by
  unfold SessionRecord.mergeMetadata at h
  simp only [] at h
  split at h
  · cases h
  · cases h
    rfl

/-- A session that is opened with an id has it. -/
theorem sessionId_of_openSession {sid : Option String} {metadata : Payload} {fresh text : String}
    (h : s.openSession sid metadata fresh = .ok (s', r)) (hgiven : given sid = some text) :
    r.sessionId = text := by
  have hid : (if strip (sid.getD "") = "" then fresh else strip (sid.getD "")) = text := by
    obtain ⟨hmap, hne⟩ := Option.filter_eq_some_iff.mp hgiven
    obtain ⟨raw, rfl, rfl⟩ := Option.map_eq_some_iff.mp hmap
    exact if_neg (by simpa using hne)
  unfold openSession at h
  simp only [hid] at h
  split at h
  · next existing hget =>
    split at h
    · cases h
    · cases h
      exact sessionId_of_get hget
  · cases h
    rfl

/-- A surface that names a session is bound to that one. -/
theorem sessionId_of_bind {sid : Option String} {create : Bool} {metadata : Payload}
    {surface : Option String} {fresh : String} {b : SessionBind}
    (h : s.bind sid create metadata surface fresh = .ok (s', b)) {text : String}
    (hgiven : given sid = some text) : b.sessionId = text := by
  unfold bind at h
  simp only [show (sid.map strip).filter (· ≠ "") = some text from hgiven] at h
  generalize bindMetadata metadata ((surface.map strip).filter (· ≠ "")) = told at h
  split at h
  · split at h
    · rcases hopen : s.openSession (some text) told fresh with e | ⟨s'', r⟩
      · rw [hopen] at h
        cases h
      · rw [hopen] at h
        cases h
        exact sessionId_of_openSession hopen (given_given hgiven)
    · cases h
  · next existing hget =>
    split at h
    · cases h
    · cases h
      cases hmerge : existing.mergeMetadata told with
      | none => exact sessionId_of_get hget
      | some changed => exact (sessionId_of_mergeMetadata hmerge).trans (sessionId_of_get hget)

/-- A focus that is set is that of the record, which is open. -/
theorem requireOpen_of_setActiveInstance {iid : String} {r : SessionRecord}
    (h : s.setActiveInstance sid iid = .ok (s', r)) : ∃ r', s'.requireOpen sid = .ok r' ∧
      ∃ i ∈ r'.instanceIds, r'.activeInstanceId = some i ∧ given (some iid) = some i := by
  unfold setActiveInstance at h
  simp only [] at h
  split at h
  · cases h
  · next hne =>
    have hgiven : given (some iid) = some (strip iid) := by simp [given, hne]
    split at h
    · cases h
    · next existing hopen =>
      split at h
      · cases h
      · next hmem =>
        rw [not_not] at hmem
        obtain ⟨hget, hstatus⟩ := requireOpen_eq_ok_iff.mp hopen
        rw [Except.ok.injEq] at h
        cases hfocus : existing.focus (strip iid) with
        | none =>
          rw [hfocus] at h
          cases h
          refine ⟨r, hopen, strip iid, hmem, ?_, hgiven⟩
          unfold SessionRecord.focus at hfocus
          split at hfocus
          · next hactive => exact hactive
          · cases hfocus
        | some changed =>
          rw [hfocus] at h
          cases h
          have hchanged : r = { existing with activeInstanceId := some (strip iid) } := by
            unfold SessionRecord.focus at hfocus
            split at hfocus <;> cases hfocus
            rfl
          have hid : r.sessionId = sid := by
            rw [hchanged]
            exact (sessionId_of_get hget : existing.sessionId = sid)
          have hread : r.fromDict = r := by
            rw [hchanged]
            simp [SessionRecord.fromDict, hmem, hne, Option.filter]
          refine ⟨r, requireOpen_eq_ok_iff.mpr ⟨?_, ?_⟩, strip iid, ?_, ?_, hgiven⟩
          · have hput := get_put s r
            rwa [hid, hread] at hput
          · rw [hchanged]
            exact hstatus
          · rw [hchanged]
            exact hmem
          · rw [hchanged]

/-- An open session whose metadata are merged into stays open under its id. -/
theorem requireOpen_putSome {metadata : Payload} (h : s.requireOpen sid = .ok r)
    {put : SessionStore × SessionRecord} (hput : s.putSome r (r.mergeMetadata metadata) = put) :
    put.2.sessionId = sid ∧ ∃ r', put.1.requireOpen sid = .ok r' := by
  obtain ⟨hget, hstatus⟩ := requireOpen_eq_ok_iff.mp h
  have hid := sessionId_of_get hget
  subst hput
  cases hmerge : r.mergeMetadata metadata with
  | none => exact ⟨hid, r, h⟩
  | some changed =>
    have hsame := (sessionId_of_mergeMetadata hmerge).trans hid
    refine ⟨hsame, changed.fromDict, requireOpen_eq_ok_iff.mpr ⟨?_, ?_⟩⟩
    · have hread := get_put s changed
      rwa [hsame] at hread
    · unfold SessionRecord.mergeMetadata at hmerge
      simp only [] at hmerge
      split at hmerge <;> cases hmerge
      exact hstatus

end SessionStore

namespace SessionService

variable {svc svc' : SessionService} {b : BoundSurface}

/-- The surface of a session is made of an open one and has the instance that is given. -/
theorem surfaceFromSession_eq_ok {sid : String} {iid : Option String} {resolve : Bool}
    (h : svc.surfaceFromSession sid iid resolve = .ok b) :
    ∃ s r, svc.plane = some s ∧ s.requireOpen sid = .ok r ∧ b.sessionId = strip sid ∧
      (∀ i, given iid = some i → b.instanceId = some i) ∧
      (given iid = none → resolve = true →
        ∀ i ∈ r.instanceIds, r.activeInstanceId = some i → given (some i) = some i →
          b.instanceId = some i) := by
  unfold surfaceFromSession at h
  split at h
  · cases h
  · next s hplane =>
    split at h
    · cases h
    · next r hopen =>
      have hid : r.sessionId = sid :=
        SessionStore.sessionId_of_get (SessionStore.requireOpen_eq_ok_iff.mp hopen).1
      have hmade : ∀ {x : Option String}, BoundSurface.fromRecord r x = .ok b →
          b.sessionId = strip sid ∧ ∀ i, x = some i → given (some i) = some i →
            b.instanceId = some i := by
        intro x hx
        obtain ⟨hsession, hinstance⟩ := BoundSurface.make_eq_ok hx
        refine ⟨hid ▸ hsession, ?_⟩
        rintro i rfl hi
        exact hinstance.trans hi
      refine ⟨s, r, hplane, hopen, ?_⟩
      split at h
      · next hresolve =>
        have hnone : given iid = none := by
          simpa using (Bool.and_eq_true_iff.mp hresolve).1
        have hcontinue : svc.resolveContinueInstance r.sessionId =
            .ok (r.continueInstance svc.jobs.openWaits) := by
          simp only [resolveContinueInstance, requirePlane, hplane, hid]
          change s.resolveContinueInstance svc.jobs.openWaits sid = _
          rw [SessionStore.resolveContinueInstance, hopen]
        rw [hcontinue] at h
        obtain ⟨hsession, hinstance⟩ := hmade h
        refine ⟨hsession, fun i hi => absurd (hnone.symm.trans hi) (by simp),
          fun _ _ i hi hactive hgiven => ?_⟩
        refine hinstance i ?_ hgiven
        rw [SessionRecord.continueInstance, hactive]
        have hne := (strip_of_given hgiven).2
        simp [Option.filter, hi, hne]
      · next hgiven =>
        obtain ⟨hsession, hinstance⟩ := hmade h
        refine ⟨hsession, fun i hi => hinstance i hi (given_given hi), fun hnone hresolve => ?_⟩
        rw [hnone, hresolve] at hgiven
        exact absurd rfl hgiven

/-- A surface is bound to the session that is named, which is open from then on, and has the instance
that is given. -/
theorem bindSurface_eq_ok {sid surface origin iid : Option String} {create resolve : Bool}
    {metadata : Payload} {fresh : String}
    (h : svc.bindSurface sid create metadata surface origin iid resolve fresh = (.ok b, svc')) :
    (∀ text, given sid = some text → b.sessionId = text ∧
      ∃ s r, svc'.plane = some s ∧ s.requireOpen text = .ok r) ∧
      ∀ i, given iid = some i → b.instanceId = some i := by
  unfold bindSurface at h
  split at h
  · cases h
  · next s hplane =>
    simp only [] at h
    split at h
    · cases h
    · next s' bind hbind =>
      obtain ⟨hsurface, rfl⟩ := Prod.mk.inj h
      obtain ⟨s'', r, hplane', hopen, hsession, hinstance, -⟩ := surfaceFromSession_eq_ok hsurface
      refine ⟨fun text htext => ?_, hinstance⟩
      have hbound := SessionStore.sessionId_of_bind hbind
        (show given (given sid) = some text by rw [htext, given_given htext])
      rw [hbound] at hsession hopen
      exact ⟨hsession.trans (strip_of_given htext).1, s'', r, hplane', hopen⟩

/-- A surface on whose instance the focus is put is bound to the session and has the instance. -/
theorem focus_eq_ok {sid iid : String} (h : svc.focus sid iid = (.ok b, svc')) :
    b.sessionId = strip sid ∧ b.instanceId = given (some iid) := by
  unfold focus at h
  split at h
  · cases h
  · split at h
    · cases h
    · next s' r hactive =>
      obtain ⟨hsurface, rfl⟩ := Prod.mk.inj h
      obtain ⟨s'', r', hplane, hopen, hsession, -, hresolved⟩ := surfaceFromSession_eq_ok hsurface
      obtain ⟨r'', hopen', i, hmem, hactive, hgiven⟩ :=
        SessionStore.requireOpen_of_setActiveInstance hactive
      obtain rfl : s' = s'' := Option.some.inj hplane
      obtain rfl : r'' = r' := Except.ok.inj (hopen'.symm.trans hopen)
      refine ⟨hsession, ?_⟩
      rw [hgiven]
      exact hresolved rfl rfl i hmem hactive (given_given hgiven)

/-- A session can be bound to: it is open, or it is not there and may be created. -/
def Accepts (svc : SessionService) (sid : String) (create : Bool) : Prop :=
  ∃ s, svc.plane = some s ∧ ((∃ r, s.requireOpen sid = .ok r) ∨ s.get sid = none ∧ create = true)

/-- A session that a surface is bound to can be bound to. -/
theorem accepts_of_bindSurface {text : String} {surface origin iid : Option String}
    {create resolve : Bool} {metadata : Payload} {fresh : String}
    (h : svc.bindSurface (some text) create metadata surface origin iid resolve fresh = (.ok b, svc'))
    (hgiven : given (some text) = some text) : svc.Accepts text create := by
  unfold bindSurface at h
  split at h
  · cases h
  · next s hplane =>
    simp only [] at h
    split at h
    · cases h
    · next s' bind hbind =>
      refine ⟨s, hplane, ?_⟩
      rw [hgiven] at hbind
      simp only [SessionStore.bind,
        show ((some text).map strip).filter (· ≠ "") = some text from hgiven] at hbind
      split at hbind
      · next hget =>
        split at hbind
        · next hcreate => exact Or.inr ⟨hget, hcreate⟩
        · cases hbind
      · next r hget =>
        split at hbind
        · cases hbind
        · next hopen => exact Or.inl ⟨r, SessionStore.requireOpen_eq_ok_iff.mpr ⟨hget, hopen⟩⟩

/-- If a session is open, binding to it does not fail in the plane. -/
theorem bindSurface_of_open {s : SessionStore} {text : String} {r : SessionRecord}
    (hplane : svc.plane = some s) (hopen : s.requireOpen text = .ok r)
    (hgiven : given (some text) = some text) {surface origin iid : Option String}
    {create resolve : Bool} {metadata : Payload} {fresh : String} {e : BindError}
    (h : svc.bindSurface (some text) create metadata surface origin iid resolve fresh =
      (.error e, svc')) : e = .improperSession := by
  obtain ⟨hget, hstatus⟩ := SessionStore.requireOpen_eq_ok_iff.mp hopen
  simp only [bindSurface, hplane, hgiven] at h
  generalize bindingMetadata metadata (origin.filter (· ≠ "")) (some text) = told at h
  simp only [SessionStore.bind, show ((some text).map strip).filter (· ≠ "") = some text from hgiven,
    hget, hstatus, if_false] at h
  generalize hs' : (s.putSome r (r.mergeMetadata (SessionStore.bindMetadata told
    ((surface.map strip).filter (· ≠ ""))))) = put at h
  obtain ⟨hid, r', hopen'⟩ := SessionStore.requireOpen_putSome hopen hs'
  obtain ⟨hsurface, -⟩ := Prod.mk.inj h
  simp only [SessionBind.fromRecord, hid, surfaceFromSession, hopen'] at hsurface
  split at hsurface
  · split at hsurface <;> exact BoundSurface.make_eq_error hsurface
  · exact BoundSurface.make_eq_error hsurface

end SessionService

end PalmEngine.Session
