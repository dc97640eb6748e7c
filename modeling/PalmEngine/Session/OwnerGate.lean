import PalmEngine.Lib.Fallible
import PalmEngine.Session.Service

/-!
# The owner gate of the session service

Whatever ids a caller gives, the instance to continue is attached to the open session that is
returned with it. A cancellation stays inside the session unless an instance and a job are both
given: then the instance is checked and the job is cancelled, of whatever instance it is.
-/

namespace PalmEngine.Session

open PalmEngine.Lib PalmEngine.Events

namespace SessionStore

variable {s : SessionStore} {sid i : String}

@[simp] theorem ownsOpen_strip_session (s : SessionStore) (sid i : String) :
    s.ownsOpen (strip sid) i = s.ownsOpen sid i := by
  simp [ownsOpen]

@[simp] theorem ownsOpen_strip_instance (s : SessionStore) (sid i : String) :
    s.ownsOpen sid (strip i) = s.ownsOpen sid i := by
  simp [ownsOpen]

/-- The owner gate lets through what the open session owns. -/
theorem requireOwnedInstance_ok_iff :
    (∃ r, s.requireOwnedInstance sid i = .ok r) ↔ s.ownsOpen sid i = true := by
  unfold requireOwnedInstance ownsOpen
  by_cases hsid : strip sid = ""
  · simp [hsid]
  by_cases hi : strip i = ""
  · simp [hsid, hi]
  cases hopen : s.requireOpen (strip sid) with
  | error error => simp [hsid, hi, hopen]
  | ok r => by_cases hmem : strip i ∈ r.instanceIds <;> simp [hsid, hi, hopen, hmem]

/-- What passes the owner gate is owned. -/
theorem ownsOpen_of_requireOwnedInstance {r : SessionRecord}
    (h : s.requireOwnedInstance sid i = .ok r) : s.ownsOpen sid i = true :=
  requireOwnedInstance_ok_iff.mp ⟨r, h⟩

/-- Under strict attribution the session that may continue an instance owns it. -/
theorem ownsOpen_of_requireContinueAttribution {sessionId bound : Option String}
    (h : s.requireContinueAttribution i sessionId true = .ok bound) :
    ∃ owner, bound = some owner ∧ s.ownsOpen owner i = true := by
  unfold requireContinueAttribution at h
  by_cases hi : strip i = ""
  · simp [hi] at h
  have hgate : ∀ {owner : String} {bound : Option String},
      ((s.requireOwnedInstance owner (strip i)).map fun _ => some owner) = .ok bound →
        ∃ owner, bound = some owner ∧ s.ownsOpen owner i = true := by
    intro owner bound hmap
    cases hgated : s.requireOwnedInstance owner (strip i) with
    | error error =>
      rw [hgated] at hmap
      cases hmap
    | ok r =>
      rw [hgated] at hmap
      cases hmap
      exact ⟨owner, rfl, by simpa using ownsOpen_of_requireOwnedInstance hgated⟩
  simp only [if_neg hi] at h
  split at h
  · exact hgate h
  · simp only [if_true] at h
    split at h
    · cases h
    · exact hgate h

end SessionStore

namespace SessionService

variable {svc : SessionService} {s : SessionStore}

/-- A target under a session with an instance has passed the owner gate. -/
theorem targetUnder_owned {sid i : String} {iid : Option String} {target : ContinueTarget}
    (hplane : svc.plane = some s) (h : svc.targetUnder sid iid true = .ok target)
    (hi : target.instanceId = some i) : target.sessionId = some sid ∧ s.ownsOpen sid i = true := by
  unfold targetUnder at h
  obtain ⟨meant, -, h⟩ := except_bind_eq_ok_iff.mp h
  cases meant with
  | none =>
    obtain rfl := except_pure_eq_ok_iff.mp h
    cases hi
  | some j =>
    obtain ⟨plane, hrequire, h⟩ := except_bind_eq_ok_iff.mp h
    obtain ⟨r, hgated, h⟩ := except_bind_eq_ok_iff.mp h
    obtain rfl := except_pure_eq_ok_iff.mp h
    obtain rfl : s = plane := by simpa [requirePlane, hplane] using hrequire
    obtain rfl := Option.some.inj hi
    exact ⟨rfl, SessionStore.ownsOpen_of_requireOwnedInstance hgated⟩

/-- Under strict attribution the gate binds an instance, known or not, to a session that owns it. -/
theorem gateBoundSessionOwns_owned {i : String} {bound : Option String}
    (hplane : svc.plane = some s) (hstrict : svc.strictAttribution = true)
    (h : svc.gateBoundSessionOwns i none none false = .ok bound) :
    ∃ owner, bound = some owner ∧ s.ownsOpen owner i = true := by
  have hattributed : s.requireContinueAttribution (strip i) none true = .ok bound := by
    unfold gateBoundSessionOwns at h
    simp only [hplane, hstrict, Option.getD_none, looksLikeSystemSessionId, Option.any_none,
      Bool.false_eq_true, if_false, Bool.not_true, Bool.false_and, Bool.and_false] at h
    cases hcall : s.requireContinueAttribution (strip i) none true with
    | ok answer => simpa [hcall] using h
    | error error => cases error <;> simp [hcall] at h
  simpa using SessionStore.ownsOpen_of_requireContinueAttribution hattributed

/-- With the plane ready and under strict attribution, the instance to continue is attached to the
open session that is returned with it, whatever the two arguments are. -/
theorem continueTarget_owned (s : SessionStore) (jobs : JobDirectory)
    (sessionId instanceId : Option String) (target : ContinueTarget)
    (h : (SessionService.mk (some s) jobs true).continueTarget sessionId instanceId true = .ok target)
    (i : String) (hi : target.instanceId = some i) :
    ∃ sid, target.sessionId = some sid ∧ s.ownsOpen sid i = true := by
  unfold continueTarget at h
  simp only at h
  generalize given sessionId = sid at h
  generalize given instanceId = iid at h
  split at h
  · -- a session id is there, in its own place or in that of the instance
    obtain ⟨htarget, howned⟩ := targetUnder_owned rfl h hi
    exact ⟨_, htarget, howned⟩
  · rename_i hsession
    split at h
    · cases h
      cases hi
    · rename_i j hj
      have hplain : looksLikeSystemSessionId (some j) = false := by
        cases sid <;> cases iid <;> grind [looksLikeSystemSessionId]
      simp only [hplain, Bool.false_eq_true, if_false, Option.isSome_some, Bool.and_self,
        if_true] at h
      cases hgate : (SessionService.mk (some s) jobs true).gateBoundSessionOwns j none none false with
      | error error =>
        rw [hgate] at h
        cases h
      | ok bound =>
        rw [hgate] at h
        cases h
        obtain rfl := Option.some.inj hi
        exact gateBoundSessionOwns_owned rfl rfl hgate

/-- Two open sessions with an instance each. -/
def twoSessions : SessionStore :=
  [SessionOp.openSession (some "sess-1") .empty "", .attachInstance "sess-1" "i1",
    .openSession (some "sess-2") .empty "", .attachInstance "sess-2" "i2"].foldl SessionOp.step .empty

/-- A job of each of two instances, which can be cancelled, and of which nothing is told. -/
def twoJobs : JobDirectory where
  instanceOf jid := if jid = "j1" then some "i1" else if jid = "j2" then some "i2" else none
  instanceView _ := none
  jobView _ := none
  rowJobId _ := none
  openWaits _ := 0
  cancelJob jid := if jid = "j1" ∨ jid = "j2" then some true else none
  view_jobs _ _ h := by cases h
  view_instances _ _ h := by cases h
  row_job _ _ h := by cases h

/-- An instance that is given alone is continued under its owner. -/
theorem continueTarget_owned_alone :
    ∃ sid, some "sess-1" = some sid ∧ twoSessions.ownsOpen sid "i1" = true :=
  continueTarget_owned twoSessions twoJobs none (some " i1 ") ⟨some "sess-1", some "i1"⟩
    (by decide +kernel) "i1" rfl

/-- The session owns the instance of the job. -/
def ownsJob (svc : SessionService) (sessionId jid : String) : Bool :=
  (svc.jobs.instanceOf jid).any fun iid => svc.ownsOpen sessionId iid

/-- What was cancelled, if anything, is a job of the session. -/
def StaysInside (svc : SessionService) (sessionId : String) (report : CancelReport) : Prop :=
  report.cancelled = true → ∃ jid, report.jobId = some jid ∧ svc.ownsJob sessionId jid = true

/-- A job found for an instance is a job of it. -/
theorem instanceOf_of_jobIdForInstance {i jid : String} (h : svc.jobIdForInstance i = some jid) :
    svc.jobs.instanceOf jid = some (strip i) := by
  obtain ⟨iid, hgiven, h⟩ := Option.bind_eq_some_iff.mp h
  obtain rfl : strip i = iid := by
    obtain ⟨hmap, -⟩ := Option.filter_eq_some_iff.mp hgiven
    simpa using hmap
  rcases Option.or_eq_some_iff.mp h with hview | ⟨-, hrow⟩
  · obtain ⟨view, hview, hjob⟩ := Option.bind_eq_some_iff.mp hview
    exact svc.jobs.view_jobs _ view hview jid hjob
  · obtain ⟨s, -, hrow⟩ := Option.bind_eq_some_iff.mp hrow
    obtain ⟨owner, -, hrow⟩ := Option.bind_eq_some_iff.mp hrow
    obtain ⟨r, -, hrow⟩ := Option.bind_eq_some_iff.mp hrow
    obtain ⟨i', -, hfound⟩ := List.exists_of_findSome?_eq_some hrow
    split at hfound
    · rename_i hi
      obtain ⟨hmap, -⟩ := Option.filter_eq_some_iff.mp hfound
      obtain ⟨raw, hraw, rfl⟩ := Option.map_eq_some_iff.mp hmap
      exact hi ▸ svc.jobs.row_job i' raw hraw
    · cases hfound

/-- A job is a job of the instance found for it. -/
theorem instanceOf_of_instanceIdForJob {i jid : String} (h : svc.instanceIdForJob jid = some i) :
    svc.jobs.instanceOf (strip jid) = some i := by
  obtain ⟨text, hgiven, h⟩ := Option.bind_eq_some_iff.mp h
  obtain rfl : strip jid = text := by
    obtain ⟨hmap, -⟩ := Option.filter_eq_some_iff.mp hgiven
    simpa using hmap
  rcases Option.or_eq_some_iff.mp h with hview | ⟨-, hrow⟩
  · obtain ⟨view, hview, hinstance⟩ := Option.bind_eq_some_iff.mp hview
    exact svc.jobs.view_instances _ view hview i hinstance
  · obtain ⟨s, -, hrow⟩ := Option.bind_eq_some_iff.mp hrow
    obtain ⟨r, -, hfound⟩ := List.exists_of_findSome?_eq_some hrow
    have hjob := List.find?_some hfound
    simp only [decide_eq_true_eq] at hjob
    simpa using svc.jobs.row_job i (strip jid) hjob.1

/-- The report on a job of an owned instance stays inside. -/
theorem cancelReport_staysInside {sessionId sid iid : String} {jid : Option String}
    (howns : svc.ownsOpen sessionId iid = true)
    (hjob : ∀ j ∈ jid, ∃ i, svc.jobs.instanceOf j = some i ∧ strip i = strip iid) :
    svc.StaysInside sessionId (svc.cancelReport sid iid jid) := by
  intro hcancelled
  cases jid with
  | none => cases hcancelled
  | some j =>
    refine ⟨j, rfl, ?_⟩
    obtain ⟨i, hi, hstrip⟩ := hjob j rfl
    obtain ⟨s, hplane, howns⟩ := (Option.any_eq_true _ _).mp howns
    rw [← s.ownsOpen_strip_instance, ← hstrip] at howns
    simpa [ownsJob, hi, ownsOpen, hplane] using howns

/-- A report behind the gate is on an owned instance. -/
theorem cancelGated_ok {sessionId iid : String} {jid : Option String} {report : CancelReport}
    (hplane : svc.plane = some s)
    (h : svc.cancelGated s (strip sessionId) iid jid = .ok report) :
    svc.ownsOpen sessionId iid = true ∧ report = svc.cancelReport (strip sessionId) iid jid := by
  unfold cancelGated at h
  cases hgated : s.requireOwnedInstance (strip sessionId) iid with
  | error error =>
    rw [hgated] at h
    cases h
  | ok r =>
    rw [hgated] at h
    cases h
    refine ⟨?_, rfl⟩
    simpa [ownsOpen, hplane] using SessionStore.ownsOpen_of_requireOwnedInstance hgated

/-- The instance of a report is owned; its job is the given one if there is a given instance too, or
it is a job of that instance. -/
theorem cancelOwned_ok {sessionId : String} {instanceId jobId : Option String}
    {report : CancelReport} (h : svc.cancelOwned sessionId instanceId jobId = .ok report) :
    ∃ iid jid, svc.ownsOpen sessionId iid = true ∧
      report = svc.cancelReport (strip sessionId) iid jid ∧
      ((given instanceId = some iid ∧ jid.isSome ∧ given jobId = jid) ∨
        ∀ j ∈ jid, ∃ i, svc.jobs.instanceOf j = some i ∧ strip i = strip iid) := by
  unfold cancelOwned at h
  simp only at h
  split at h
  · cases h
  obtain ⟨s, hrequire, h⟩ := except_bind_eq_ok_iff.mp h
  obtain ⟨r, -, h⟩ := except_bind_eq_ok_iff.mp h
  have hplane : svc.plane = some s := by
    unfold requirePlane at hrequire
    cases hplane : svc.plane <;> simp_all
  split at h
  · rename_i iid hinstance
    obtain ⟨howns, rfl⟩ := cancelGated_ok hplane h
    refine ⟨iid, _, howns, rfl, ?_⟩
    cases hjob : given jobId with
    | some jid => exact .inl ⟨hinstance, by simp, by simp⟩
    | none =>
      refine .inr fun j hj => ⟨_, instanceOf_of_jobIdForInstance ?_, strip_strip iid⟩
      simpa [hjob] using hj
  · rename_i jid hinstance hjob
    split at h
    · cases h
    · rename_i iid hfound
      obtain ⟨howns, rfl⟩ := cancelGated_ok hplane h
      refine ⟨iid, some jid, howns, rfl, .inr fun j hj => ⟨iid, ?_, rfl⟩⟩
      obtain rfl := Option.some.inj hj
      simpa [(strip_of_given hjob).1] using instanceOf_of_instanceIdForJob hfound
  · obtain ⟨found, -, h⟩ := except_bind_eq_ok_iff.mp h
    split at h
    · cases h
    · rename_i iid hiid
      obtain ⟨howns, rfl⟩ := cancelGated_ok hplane h
      exact ⟨iid, _, howns, rfl, .inr fun j hj =>
        ⟨_, instanceOf_of_jobIdForInstance hj, strip_strip iid⟩⟩

/-- Of an owned instance and a job that are both given, the job is cancelled. -/
theorem cancelOwned_both {sessionId iid jid : String} {instanceId jobId : Option String}
    (hinstance : given instanceId = some iid) (hjob : given jobId = some jid)
    (howns : svc.ownsOpen sessionId iid = true) :
    svc.cancelOwned sessionId instanceId jobId =
      .ok (svc.cancelReport (strip sessionId) iid (some jid)) := by
  obtain ⟨s, hplane, howns⟩ := (Option.any_eq_true _ _).mp howns
  have hsid : strip sessionId ≠ "" := by
    intro hsid
    simp [SessionStore.ownsOpen, hsid] at howns
  obtain ⟨r, hgated⟩ := SessionStore.requireOwnedInstance_ok_iff.mpr
    ((s.ownsOpen_strip_session sessionId iid).trans howns)
  obtain ⟨r', hopen⟩ : ∃ r', s.requireOpen (strip sessionId) = .ok r' := by
    cases hopen : s.requireOpen (strip sessionId) with
    | error error => simp [SessionStore.ownsOpen, hopen] at howns
    | ok r' => exact ⟨r', rfl⟩
  unfold cancelOwned
  simp only [if_neg hsid, hinstance, hjob]
  refine except_bind_eq_ok_iff.mpr ⟨s, by simp [requirePlane, hplane], ?_⟩
  refine except_bind_eq_ok_iff.mpr ⟨r', by rw [hopen]; rfl, ?_⟩
  simp [cancelGated, hgated, Except.map]

/-- A cancellation of all that the session owns, or of what waits, stays inside. -/
theorem cancelAllOwned_staysInside {sessionId : String} {onlyWaiting : Bool}
    {reports : List CancelReport} (h : svc.cancelAllOwned sessionId onlyWaiting = .ok reports) :
    ∀ report ∈ reports, svc.StaysInside sessionId report := by
  unfold cancelAllOwned at h
  obtain ⟨s, -, h⟩ := except_bind_eq_ok_iff.mp h
  obtain ⟨r, -, h⟩ := except_bind_eq_ok_iff.mp h
  obtain rfl := except_pure_eq_ok_iff.mp h
  intro report hreport
  obtain ⟨iid, -, rfl⟩ := List.mem_map.mp hreport
  cases hcancel : svc.cancelOwned (strip sessionId) (some iid) none with
  | error error => exact fun hcancelled => by cases hcancelled
  | ok report =>
    obtain ⟨i, jid, howns, rfl, ⟨-, hjid, hnone⟩ | hjob⟩ := cancelOwned_ok hcancel
    · rw [← hnone] at hjid
      cases hjid
    · simp only [strip_strip]
      refine cancelReport_staysInside ?_ hjob
      simpa [ownsOpen] using howns

/-- What is cancelled for a session, one by one or all at once, are jobs of the session if and only
if a job that is cancelled along with an owned instance is a job of the session too. -/
theorem cancelOwned_staysInside_iff (svc : SessionService) (sessionId : String)
    (instanceId jobId : Option String) :
    ((∀ report, svc.cancelOwned sessionId instanceId jobId = .ok report →
        svc.StaysInside sessionId report) ∧
      ∀ onlyWaiting reports, svc.cancelAllOwned sessionId onlyWaiting = .ok reports →
        ∀ report ∈ reports, svc.StaysInside sessionId report) ↔
    ∀ iid ∈ given instanceId, ∀ jid ∈ given jobId, svc.ownsOpen sessionId iid = true →
      svc.jobs.cancelJob jid = some true → svc.ownsJob sessionId jid = true := by
  constructor
  · rintro ⟨hinside, -⟩ iid hinstance jid hjob howns hcancel
    obtain ⟨j, hj, hjob⟩ := hinside _ (cancelOwned_both hinstance hjob howns)
      (by simp [cancelReport, hcancel])
    exact Option.some.inj hj ▸ hjob
  · refine fun hgiven => ⟨fun report hreport => ?_, fun _ _ => cancelAllOwned_staysInside⟩
    obtain ⟨iid, jid, howns, rfl, ⟨hinstance, hjid, hjob⟩ | hjob⟩ := cancelOwned_ok hreport
    · obtain ⟨j, rfl⟩ := Option.isSome_iff_exists.mp hjid
      intro hcancelled
      have hcancel : (svc.jobs.cancelJob j).getD false = true := hcancelled
      refine ⟨j, rfl, hgiven iid hinstance j hjob howns ?_⟩
      cases hanswer : svc.jobs.cancelJob j with
      | none => simp [hanswer] at hcancel
      | some answer => simpa [hanswer] using hcancel
    · exact cancelReport_staysInside howns hjob

/-- A job of another session is cancelled along with an owned instance. -/
theorem cancelOwned_staysInside_fails :
    ∃ report, (SessionService.mk (some twoSessions) twoJobs true).cancelOwned "sess-1" (some "i1")
        (some "j2") = .ok report ∧
      ¬ (SessionService.mk (some twoSessions) twoJobs true).StaysInside "sess-1" report :=
  ⟨⟨"sess-1", some "i1", some "j2", true, true⟩, by decide +kernel, fun hinside => by
    obtain ⟨jid, hjid, hjob⟩ := hinside rfl
    obtain rfl := Option.some.inj hjid
    exact absurd hjob (by decide +kernel)⟩

end SessionService

end PalmEngine.Session
