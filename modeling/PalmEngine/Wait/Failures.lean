import PalmEngine.Wait.Matcher

/-!
# Failures while a signal is handled

An owner that fails publishes its own end, and the matcher handles it before it goes on, so
one failure may fail further owners. However deep this goes, jobs only end, interests only
close, nobody is resumed and no resumption is remembered. Every nested failure ends another
job, so the bound on the nesting is never reached.
-/

namespace PalmEngine.Wait

open PalmEngine.Events PalmEngine.Lib PalmEngine.Orchestration

namespace WaitPlane

/-- The matcher remembers that it resumed the owner on the target. -/
def Remembered (s : WaitPlane) (owner : String) (target : Target) : Prop :=
  actedKey owner target .resumeOwner ∈ s.acted

/-- The engine has the job, and it has ended. -/
def Ended (s : WaitPlane) (id : String) : Prop :=
  ∃ job, s.jobs.get? id = some job ∧ job.status.isTerminal = true

/-- The job ended between two states, and no interest was opened on it. -/
def EndedSince (s t : WaitPlane) (id : String) : Prop :=
  ∃ job job', s.jobs.get? id = some job ∧ t.jobs.get? id = some job' ∧
    job'.status.isTerminal = true ∧
      ∀ target, job.waits.get? target = none → job'.waits.get? target = none

/-- What failing jobs does, nested reactions included: jobs are as before or have ended, nobody is
resumed, and the memory gains no resumption. -/
structure OnlyFails (s t : WaitPlane) : Prop where
  able : t.able = s.able
  resumed : t.resumed = s.resumed
  keys : t.jobs.keys = s.jobs.keys
  remembered : ∀ owner target, t.Remembered owner target → s.Remembered owner target
  job : ∀ id, t.jobs.get? id = s.jobs.get? id ∨ EndedSince s t id

theorem OnlyFails.refl (s : WaitPlane) : OnlyFails s s :=
  ⟨rfl, rfl, rfl, fun _ _ h => h, fun _ => .inl rfl⟩

theorem OnlyFails.trans {s t u : WaitPlane} (h : OnlyFails s t) (h' : OnlyFails t u) :
    OnlyFails s u := by
  refine ⟨h'.able.trans h.able, h'.resumed.trans h.resumed, h'.keys.trans h.keys,
    fun owner target hu => h.remembered owner target (h'.remembered owner target hu), fun id => ?_⟩
  rcases h'.job id with heq | ⟨job, job', hjob, hjob', hended, hclosed⟩
  · rcases h.job id with heq₀ | ⟨job, job', hjob, hjob', hrest⟩
    · exact .inl (heq.trans heq₀)
    · exact .inr ⟨job, job', hjob, heq.trans hjob', hrest⟩
  · rcases h.job id with heq₀ | ⟨job₀, job₁, hjob₀, hjob₁, -, hclosed₀⟩
    · exact .inr ⟨job, job', heq₀.symm.trans hjob, hjob', hended, hclosed⟩
    · cases Option.some.inj (hjob.symm.trans hjob₁)
      exact .inr ⟨job₀, job', hjob₀, hjob', hended, fun target hnone =>
        hclosed target (hclosed₀ target hnone)⟩

/-- An ended job stays ended. -/
theorem OnlyFails.ended {s t : WaitPlane} (h : OnlyFails s t) {id : String} (hs : s.Ended id) :
    t.Ended id := by
  obtain ⟨job, hjob, hended⟩ := hs
  rcases h.job id with heq | ⟨-, job', -, hjob', hended', -⟩
  · exact ⟨job, heq.trans hjob, hended⟩
  · exact ⟨job', hjob', hended'⟩

/-- Changing only other fields than the jobs, the log of resumptions and the memory fails nothing. -/
theorem onlyFails_of_eq {s t : WaitPlane} (hable : t.able = s.able)
    (hresumed : t.resumed = s.resumed) (hjobs : t.jobs = s.jobs) (hacted : t.acted = s.acted) :
    OnlyFails s t :=
  ⟨hable, hresumed, by rw [hjobs], fun _ _ h => by rwa [Remembered, hacted] at h,
    fun _ => .inl (by rw [hjobs])⟩

/-- Remembering a failed owner gains no resumption. -/
private theorem onlyFails_add (s : WaitPlane) (owner : String) (target : Target) :
    OnlyFails s { s with acted := (s.acted.add (actedKey owner target .failOwner)).2 } := by
  refine ⟨rfl, rfl, rfl, fun owner' target' h => ?_, fun _ => .inl rfl⟩
  rcases Recent.mem_of_mem_add h with heq | hold
  · exact (actedKey_fail_ne_resume owner owner' target target' heq.symm).elim
  · exact hold

/-- Changing a job that ends, or had ended, without opening an interest only fails it. -/
private theorem onlyFails_modify (s : WaitPlane) (id : String) (f : WaitJob → WaitJob)
    (hended : ∀ job, s.jobs.get? id = some job → (f job).status.isTerminal = true)
    (hclosed : ∀ job target, job.waits.get? target = none → (f job).waits.get? target = none) :
    OnlyFails s (s.modifyJob id f) := by
  refine ⟨rfl, rfl, Dict.keys_modify _ _ _, fun _ _ h => h, fun i => ?_⟩
  change (s.jobs.modify id f).get? i = _ ∨ _
  rw [Dict.get?_modify]
  by_cases hi : i = id
  · subst hi
    cases hjob : s.jobs.get? i with
    | none => simp
    | some job =>
      refine .inr ⟨job, f job, hjob, ?_, hended job hjob, hclosed job⟩
      change (s.jobs.modify i f).get? i = _
      simp [Dict.get?_modify, hjob]
  · simp [hi]

/-- Closing an interest of an ended job only fails. -/
theorem onlyFails_closeInterest {s : WaitPlane} {owner : String} (target : Target)
    (h : s.Ended owner) : OnlyFails s (s.closeInterest owner target) := by
  have hunregister : OnlyFails s (s.unregister owner target) := onlyFails_of_eq rfl rfl rfl rfl
  refine hunregister.trans (onlyFails_modify _ _ _ (fun job hjob => ?_) fun job i hnone => ?_)
  · obtain ⟨job', hjob', hended⟩ := h
    cases Option.some.inj (hjob.symm.trans hjob')
    exact hended
  · rw [Dict.get?_erase]
    split
    · rfl
    · exact hnone

/-- What a way to fail a job that has not ended does: it ends, and nothing else happens than other
failures. -/
def FailsJob (fail : WaitPlane → String → WaitPlane) : Prop :=
  ∀ s id status, s.status? id = some status → status.isTerminal = false →
    OnlyFails s (fail s id) ∧ (fail s id).Ended id

/-- A job with a status is ended, or has a status that is not final. -/
theorem ended_of_status {s : WaitPlane} {id : String} {status : JobStatus}
    (h : s.status? id = some status) (hended : status.isTerminal = true) : s.Ended id := by
  obtain ⟨job, hjob, rfl⟩ := Option.map_eq_some_iff.mp h
  exact ⟨job, hjob, hended⟩

/-- An owner with an open interest has a status. -/
theorem status_of_open {s : WaitPlane} {id : String} {target : Target} {interest : WaitInterest}
    (h : s.openInterest? id target = some interest) : ∃ status, s.status? id = some status := by
  obtain ⟨job, hjob, -⟩ := Option.bind_eq_some_iff.mp h
  exact ⟨job.status, by rw [status?, hjob]; rfl⟩

/-- The events of a failed job announce a failure, if anything. -/
private theorem outcome_of_failedEvent {eventType : String} (h : eventType ∈ failedEvents)
    {id : String} {signal : TargetSignal}
    (hsignal : extractTargetSignal eventType (jobPayload id .failed) = some signal) :
    signal.outcome = .failed := by
  have hstatus : statusOutcome ((jobPayload id .failed).str? "status") = some .failed := by
    have hget : (jobPayload id .failed).get? "status" = some (.text "FAILED") :=
      Dict.get?_set_self _ _ _
    simp only [Payload.str?, Payload.field, hget]
    decide
  have hjob {status : Option String}
      (hj : jobSignal eventType (jobPayload id .failed) .failed status = some signal) :
      signal.outcome = .failed := by
    simp only [jobSignal] at hj
    split at hj <;> cases hj
    rfl
  simp only [failedEvents, List.mem_cons, List.not_mem_nil, or_false] at h
  rcases h with rfl | rfl | rfl
  · simp only [extractTargetSignal, hstatus, Option.bind_some] at hsignal
    exact hjob hsignal
  · simp only [extractTargetSignal, hstatus, Option.bind_some] at hsignal
    exact hjob hsignal
  · exact hjob hsignal

/-- A negative signal fails the owner, if it does anything. -/
private theorem action_of_negative {signal : TargetSignal} (hneg : signal.outcome.isPositive = false)
    {interest : WaitInterest} (h : ¬ resolveWaitAction interest signal = .noop) :
    resolveWaitAction interest signal = .failOwner := by
  unfold resolveWaitAction at h ⊢
  rw [if_neg (by simp [hneg])] at h ⊢
  split at h
  · exact (h rfl).elim
  · rw [if_neg ‹_›]

section Failures

variable {fail : WaitPlane → String → WaitPlane} {resume : Resume} (hfail : FailsJob fail)

include hfail

/-- Failing an owner that the engine has ends it. -/
private theorem failOwner_fails {s : WaitPlane} {owner : String} {status : JobStatus}
    (h : s.status? owner = some status) :
    OnlyFails s (failOwner fail s owner) ∧ (failOwner fail s owner).Ended owner := by
  simp only [failOwner, h]
  split
  · exact ⟨.refl s, ended_of_status h ‹_›⟩
  · exact hfail s owner status h (by simpa using ‹¬ status.isTerminal = true›)

/-- The reaction of one owner to a negative signal only fails jobs. -/
private theorem matchOneOwner_negative {signal : TargetSignal} (hneg : signal.outcome.isPositive = false)
    (s : WaitPlane) (owner : String) :
    OnlyFails s (matchOneOwner fail resume signal s owner) := by
  unfold matchOneOwner
  split
  · exact onlyFails_of_eq rfl rfl rfl rfl
  · rename_i interest hopen
    dsimp only
    split
    · exact .refl s
    · rename_i hact
      rw [action_of_negative hneg hact]
      have hadd := onlyFails_add s owner signal.target
      split
      · obtain ⟨status, hstatus⟩ := status_of_open hopen
        obtain ⟨hfails, hended⟩ := failOwner_fails hfail
          (s := { s with acted := (s.acted.add (actedKey owner signal.target .failOwner)).2 }) hstatus
        exact hadd.trans (hfails.trans (onlyFails_closeInterest signal.target hended))
      · exact hadd

/-- Handling a negative signal only fails jobs. -/
private theorem handleSignalWith_negative {signal : TargetSignal}
    (hneg : signal.outcome.isPositive = false) (s : WaitPlane) :
    OnlyFails s (handleSignalWith fail resume s signal) := by
  unfold handleSignalWith
  generalize s.owners signal.target = owners
  induction owners generalizing s with
  | nil => exact .refl s
  | cons owner rest ih => exact (matchOneOwner_negative hfail hneg s owner).trans (ih _)

/-- Handling an event of a failed job only fails jobs. -/
private theorem handleEventWith_failed {eventType : String} (h : eventType ∈ failedEvents)
    (s : WaitPlane) (eventId : Option String) (id : String) :
    OnlyFails s (handleEventWith fail resume s eventId eventType (jobPayload id .failed)) := by
  have hneg (signal : TargetSignal) :
      extractTargetSignal eventType (jobPayload id .failed) = some signal →
        signal.outcome.isPositive = false := by
    intro hsignal
    rw [outcome_of_failedEvent h hsignal]
    rfl
  have hhandle (u : WaitPlane) (signal : TargetSignal) (hu : OnlyFails s u)
      (hsignal : extractTargetSignal eventType (jobPayload id .failed) = some signal) :
      OnlyFails s (handleSignalWith fail resume u signal) :=
    hu.trans (handleSignalWith_negative hfail (hneg signal hsignal) u)
  have hseen (seen : Recent String maxSeenEventIds) : OnlyFails s { s with seen := seen } :=
    onlyFails_of_eq rfl rfl rfl rfl
  unfold handleEventWith
  cases eventId with
  | none =>
    dsimp only
    split
    · exact .refl s
    · exact hhandle s _ (.refl s) ‹_›
  | some i =>
    dsimp only
    split
    · split
      · exact hseen _
      · exact hhandle _ _ (hseen _) ‹_›
    · exact hseen _

/-- Publishing one event of a failed job only fails jobs. -/
private theorem publishOne_onlyFails {eventType : String} (h : eventType ∈ failedEvents)
    (s : WaitPlane) (id : String) :
    OnlyFails s (publishOne (handleEventWith fail resume) id s eventType) := by
  have hcount : OnlyFails s { s with published := s.published + 1 } := onlyFails_of_eq rfl rfl rfl rfl
  exact hcount.trans (handleEventWith_failed hfail h _ _ _)

/-- Publishing that a job failed only fails jobs. -/
private theorem publishFailed_onlyFails (s : WaitPlane) (id : String) :
    OnlyFails s (publishFailed (handleEventWith fail resume) s id) := by
  have hfold (types : List String) (h : ∀ eventType ∈ types, eventType ∈ failedEvents)
      (s : WaitPlane) :
      OnlyFails s (types.foldl (publishOne (handleEventWith fail resume) id) s) := by
    induction types generalizing s with
    | nil => exact .refl s
    | cons eventType rest ih =>
      exact (publishOne_onlyFails hfail (h eventType List.mem_cons_self) s id).trans
        (ih (fun e he => h e (List.mem_cons_of_mem _ he)) _)
  exact hfold failedEvents (fun _ h => h) s

end Failures

/-- The status change of a failed result ends its job. -/
private theorem setFailed_fails {s : WaitPlane} {id : String} {status : JobStatus}
    (h : s.status? id = some status) :
    OnlyFails s (s.setFailed id) ∧ (s.setFailed id).Ended id := by
  refine ⟨onlyFails_modify _ _ _ (fun _ _ => rfl) fun _ _ hnone => hnone, ?_⟩
  obtain ⟨job, hjob, -⟩ := Option.map_eq_some_iff.mp h
  refine ⟨{ job with status := .failed }, ?_, rfl⟩
  change (s.jobs.modify id _).get? id = _
  rw [Dict.get?_modify, if_pos rfl, hjob]
  rfl

/-- Failing a job ends it, whatever the nesting, and only fails others. -/
theorem failJob_fails (resume : Resume) (fuel : ℕ) : FailsJob (failJob resume fuel) := by
  induction fuel with
  | zero => exact fun s id status h _ => setFailed_fails h
  | succ fuel ih =>
    intro s id status h _
    obtain ⟨hfails, hended⟩ := setFailed_fails h
    have hpublish : OnlyFails (s.setFailed id)
        (publishFailed (handleEventWith (failJob resume fuel) resume) (s.setFailed id) id) :=
      publishFailed_onlyFails ih (s.setFailed id) id
    exact ⟨hfails.trans hpublish, hpublish.ended hended⟩

/-- Applying a failed result ends the job and only fails others. -/
theorem applyFailed_fails (resume : Resume) : FailsJob (applyFailed resume) :=
  fun s id status h hlive => failJob_fails resume s.jobs.keys.length s id status h hlive

section Nesting

variable {f g : WaitPlane → String → WaitPlane} {resume : Resume} {P : WaitPlane → Prop}
  (hfail : FailsJob f) (hok : ∀ s t, P s → OnlyFails s t → P t)
  (hagree : ∀ s id status, P s → s.status? id = some status → status.isTerminal = false →
    g s id = f s id)

include hok hagree

/-- Two ways to fail a job that agree in a region closed under failures make one owner react
alike to a negative signal. -/
private theorem matchOneOwner_congr {signal : TargetSignal}
    (hneg : signal.outcome.isPositive = false) {s : WaitPlane} (hs : P s) (owner : String) :
    matchOneOwner g resume signal s owner = matchOneOwner f resume signal s owner := by
  unfold matchOneOwner
  cases hopen : s.openInterest? owner signal.target with
  | none => rfl
  | some interest =>
    dsimp only
    by_cases hact : resolveWaitAction interest signal = .noop
    · rw [if_pos hact, if_pos hact]
    · rw [if_neg hact, if_neg hact, action_of_negative hneg hact]
      obtain ⟨status, hstatus⟩ := status_of_open hopen
      let added : WaitPlane :=
        { s with acted := (s.acted.add (actedKey owner signal.target .failOwner)).2 }
      have hadded : P added := hok s added hs (onlyFails_add s owner signal.target)
      have hfailOwner : failOwner g added owner = failOwner f added owner := by
        have hstatus : added.status? owner = some status := hstatus
        simp only [failOwner, hstatus]
        split
        · rfl
        · exact hagree added owner status hadded hstatus (by simpa using ‹¬ status.isTerminal = true›)
      rw [hfailOwner]

include hfail

/-- Two such ways handle a negative signal alike. -/
private theorem handleSignalWith_congr {signal : TargetSignal}
    (hneg : signal.outcome.isPositive = false) {s : WaitPlane} (hs : P s) :
    handleSignalWith g resume s signal = handleSignalWith f resume s signal := by
  unfold handleSignalWith
  generalize s.owners signal.target = owners
  induction owners generalizing s with
  | nil => rfl
  | cons owner rest ih =>
    rw [List.foldl_cons, List.foldl_cons, matchOneOwner_congr hok hagree hneg hs]
    exact ih (hok _ _ hs (matchOneOwner_negative hfail hneg s owner))

/-- Two such ways publish an event of a failed job alike. -/
private theorem publishOne_congr {eventType : String} (h : eventType ∈ failedEvents) {s : WaitPlane}
    (hs : P s) (id : String) : publishOne (handleEventWith g resume) id s eventType =
      publishOne (handleEventWith f resume) id s eventType := by
  simp only [publishOne, handleEventWith]
  split
  · cases hsignal : extractTargetSignal eventType (jobPayload id .failed) with
    | none => rfl
    | some signal =>
      refine handleSignalWith_congr hfail hok hagree ?_ (hok s _ hs (onlyFails_of_eq rfl rfl rfl rfl))
      rw [outcome_of_failedEvent h hsignal]
      rfl
  · rfl

/-- Two such ways publish a failure alike. -/
private theorem publishFailed_congr {s : WaitPlane} (hs : P s) (id : String) :
    publishFailed (handleEventWith g resume) s id =
      publishFailed (handleEventWith f resume) s id := by
  have hfold (types : List String) (h : ∀ eventType ∈ types, eventType ∈ failedEvents)
      (s : WaitPlane) (hs : P s) : types.foldl (publishOne (handleEventWith g resume) id) s =
        types.foldl (publishOne (handleEventWith f resume) id) s := by
    induction types generalizing s with
    | nil => rfl
    | cons eventType rest ih =>
      have hmem := h eventType List.mem_cons_self
      rw [List.foldl_cons, List.foldl_cons, publishOne_congr hfail hok hagree hmem hs]
      exact ih (fun e he => h e (List.mem_cons_of_mem _ he)) _
        (hok _ _ hs (publishOne_onlyFails hfail hmem s id))
  exact hfold failedEvents (fun _ h => h) s hs

end Nesting

/-- The jobs that have not ended. -/
def liveJobs (s : WaitPlane) : List String :=
  s.jobs.keys.filter fun id => (s.status? id).any (!·.isTerminal)

/-- Failures only take jobs from those that have not ended. -/
theorem OnlyFails.liveJobs {s t : WaitPlane} (h : OnlyFails s t) :
    t.liveJobs.Sublist s.liveJobs := by
  rw [WaitPlane.liveJobs, WaitPlane.liveJobs, h.keys]
  refine List.monotone_filter_right _ fun id hlive => ?_
  rcases h.job id with heq | ⟨-, job', -, hjob', hended, -⟩
  · rwa [status?, heq] at hlive
  · simp [status?, hjob', hended] at hlive

/-- A job that has not ended is among them. -/
private theorem mem_liveJobs {s : WaitPlane} {id : String} {status : JobStatus}
    (hstatus : s.status? id = some status) (hlive : status.isTerminal = false) :
    id ∈ s.liveJobs := by
  obtain ⟨job, hjob, -⟩ := Option.map_eq_some_iff.mp hstatus
  exact List.mem_filter.mpr ⟨(s.jobs.mem_keys_iff id).mpr ⟨job, hjob⟩, by simp [hstatus, hlive]⟩

/-- A job that fails is one job less that has not ended. -/
private theorem liveJobs_lt {s t : WaitPlane} {id : String} (h : OnlyFails s t)
    (hmem : id ∈ s.liveJobs) (hended : t.Ended id) : t.liveJobs.length < s.liveJobs.length := by
  have hnot : id ∉ t.liveJobs := by
    obtain ⟨job, hjob, hterminal⟩ := hended
    intro hin
    have := (List.mem_filter.mp hin).2
    simp [status?, hjob, hterminal] at this
  refine lt_of_le_of_ne h.liveJobs.length_le fun heq => hnot ?_
  rwa [h.liveJobs.eq_of_length heq]

/-- Once the bound on the nesting reaches the number of jobs that have not ended, it makes no
difference. -/
theorem failJob_bound (resume : Resume) {fuel : ℕ} {s : WaitPlane} {id : String} {status : JobStatus}
    (hstatus : s.status? id = some status) (hlive : status.isTerminal = false)
    (h : s.liveJobs.length ≤ fuel) : failJob resume (fuel + 1) s id = failJob resume fuel s id := by
  have hmem := mem_liveJobs hstatus hlive
  induction fuel generalizing s id status with
  | zero =>
    rw [List.length_eq_zero_iff.mp (Nat.le_zero.mp h)] at hmem
    cases hmem
  | succ fuel ih =>
    obtain ⟨hfails, hended⟩ := setFailed_fails hstatus
    refine publishFailed_congr (P := fun u => u.liveJobs.length ≤ fuel) (failJob_fails resume fuel)
      (fun u t hu hut => hut.liveJobs.length_le.trans hu) (fun u i status' hu hstatus' hlive' => ?_)
      (Nat.le_of_lt_succ ((liveJobs_lt hfails hmem hended).trans_le h)) id
    exact ih hstatus' hlive' hu (mem_liveJobs hstatus' hlive')

/-- Applying a failed result changes the status and publishes it; the failures nested in that are
applied the same way. -/
theorem applyFailed_eq (resume : Resume) {s : WaitPlane} {id : String} {status : JobStatus}
    (hstatus : s.status? id = some status) (hlive : status.isTerminal = false) :
    applyFailed resume s id =
      publishFailed (handleEventWith (applyFailed resume) resume) (s.setFailed id) id := by
  rw [applyFailed, ← failJob_bound resume hstatus hlive (List.length_filter_le _ _), failJob]
  refine (publishFailed_congr (P := fun u => u.jobs.keys.length = s.jobs.keys.length)
    (failJob_fails resume s.jobs.keys.length) (fun u t hu hut => by rw [hut.keys, hu])
    (fun u i _ hu _ _ => ?_) ?_ id).symm
  · rw [applyFailed, hu]
  · rw [(setFailed_fails hstatus).1.keys]

/-- Two jobs that wait for each other. -/
def waitingCycle : WaitPlane where
  jobs := .set (.set .empty "a" ⟨.waitingForInput, .set .empty ("job", "b") {}⟩) "b"
    ⟨.waitingForInput, .set .empty ("job", "a") {}⟩

theorem applyFailed_eq_cycle :
    applyFailed enqueueWork waitingCycle "a" =
        publishFailed (handleEventWith (applyFailed enqueueWork) enqueueWork)
          (waitingCycle.setFailed "a") "a" ∧
      (applyFailed enqueueWork waitingCycle "a").status? "b" = some .failed :=
  ⟨applyFailed_eq enqueueWork (by rfl) (by rfl), by decide +kernel⟩

end WaitPlane

end PalmEngine.Wait
