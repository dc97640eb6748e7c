import PalmEngine.Orchestration.Projections

/-!
# Convergence of the status projections

A projection is right about a job, or some call is still going to tell it the present status. A
change of status puts the call that makes it in charge, and a call that is in charge builds its
payload from the live job. So the projections converge unless an event that is out of date arrives
when no call is in charge any more.
-/

namespace PalmEngine.Orchestration

open PalmEngine.Lib

/-- The publication tells the board the status of its job. -/
def EventKind.tellsJob (status : JobStatus) : EventKind → Bool
  | jobStatusChanged => true
  | jobCompleted => status.isTerminal
  | instanceStatusChanged | instanceCreated => false

/-- The publication tells the index the status of its job. -/
def EventKind.tellsInstance : EventKind → Bool
  | instanceStatusChanged | instanceCreated => true
  | jobStatusChanged | jobCompleted => false

namespace StatusCall

/-- The call is going to tell the board this status of the job. -/
def tellsJob (id : String) (status : JobStatus) : StatusCall → Bool
  | building other todo => other = id && todo.any (EventKind.tellsJob status)
  | emitting other event todo =>
    (match event with
      | .jobStatus told status' _ => told = id && status' = status
      | _ => false) || (other = id && todo.any (EventKind.tellsJob status))
  | _ => false

/-- The call is going to tell the index this job and status of the instance. -/
def tellsInstance (i id : String) (status : JobStatus) : StatusCall → Bool
  | building other todo => other = id && todo.any EventKind.tellsInstance
  | emitting other event todo =>
    event = .instanceStatus i id status || event = .instanceCreated i id status ||
      (other = id && todo.any EventKind.tellsInstance)
  | _ => false

/-- The call is going to tell the index this step of the instance. -/
def tellsStep (i slug : String) : StatusCall → Bool
  | emitting _ event _ => event = .step i slug
  | _ => false

end StatusCall

namespace StatusPool

/-- What the event tells of the instance is its last transition, or a call is going to tell it. -/
def TimelyInstance (pool next : StatusPool) (i id : String) (status : JobStatus) : Prop :=
  ∀ last ∈ pool.shared.transitions.get? i, last = (id, status) ∨
    ∃ call ∈ next.procs, call.tellsInstance i last.1 last.2 = true

/-- What the event tells is up to date, or a call is going to tell what is. For a created instance
this includes the step that the store tells; and a step needs a row. -/
def TimelyEvent (pool next : StatusPool) : StatusEvent → Prop
  | .jobSubmitted _ _ => True
  | .jobStatus id status _ => ∀ tracked ∈ pool.shared.jobs.get? id, status = tracked.job.status ∨
      ∃ call ∈ next.procs, call.tellsJob id tracked.job.status = true
  | .instanceStatus i id status => pool.TimelyInstance next i id status
  | .instanceCreated i id status => pool.TimelyInstance next i id status ∧
      ∀ slug ∈ pool.shared.steps.get? i,
        (∀ told ∈ (pool.shared.records.get? i).bind InstanceDetails.step, told = slug) ∨
          ∃ call ∈ next.procs, call.tellsStep i slug = true
  | .step i slug => ∀ last ∈ pool.shared.steps.get? i,
      (slug = last ∧ (pool.shared.index.get? i).isSome) ∨
        ∃ call ∈ next.procs, call.tellsStep i last = true

instance (pool next : StatusPool) (i id : String) (status : JobStatus) :
    Decidable (pool.TimelyInstance next i id status) :=
  inferInstanceAs (Decidable (∀ last ∈ pool.shared.transitions.get? i, last = (id, status) ∨
    ∃ call ∈ next.procs, call.tellsInstance i last.1 last.2 = true))

instance (pool next : StatusPool) : ∀ event, Decidable (pool.TimelyEvent next event)
  | .jobSubmitted _ _ => .isTrue trivial
  | .jobStatus id status _ => inferInstanceAs (Decidable (∀ tracked ∈ pool.shared.jobs.get? id,
      status = tracked.job.status ∨
        ∃ call ∈ next.procs, call.tellsJob id tracked.job.status = true))
  | .instanceStatus i id status =>
    inferInstanceAs (Decidable (pool.TimelyInstance next i id status))
  | .instanceCreated i id status => inferInstanceAs (Decidable (
      pool.TimelyInstance next i id status ∧ ∀ slug ∈ pool.shared.steps.get? i,
        (∀ told ∈ (pool.shared.records.get? i).bind InstanceDetails.step, told = slug) ∨
          ∃ call ∈ next.procs, call.tellsStep i slug = true))
  | .step i slug => inferInstanceAs (Decidable (∀ last ∈ pool.shared.steps.get? i,
      (slug = last ∧ (pool.shared.index.get? i).isSome) ∨
        ∃ call ∈ next.procs, call.tellsStep i last = true))

/-- The condition on the call that takes its turn. -/
def TimelyCall (pool next : StatusPool) : StatusCall → Prop
  | .emitting _ event _ => pool.TimelyEvent next event
  | _ => True

instance (pool next : StatusPool) : ∀ call, Decidable (pool.TimelyCall next call)
  | .emitting _ event _ => inferInstanceAs (Decidable (pool.TimelyEvent next event))
  | .submit _ _ _ _ | .applyResult _ _ _ | .stepTo _ _ | .building _ _ | .returned => .isTrue trivial

/-- The condition on a turn: no event that is out of date arrives when no call is going to tell what
is up to date. -/
def Timely (pool : StatusPool) : StatusTurn → StatusPool → Prop
  | .call i, next => ∀ call ∈ pool.procs[i]?, pool.TimelyCall next call
  | .save _ _, _ => True

instance (pool : StatusPool) : ∀ turn next, Decidable (pool.Timely turn next)
  | .call i, next => inferInstanceAs (Decidable (∀ call ∈ pool.procs[i]?, pool.TimelyCall next call))
  | .save _ _, _ => .isTrue trivial

/-- The board has the status of the job. -/
def BoardHas (s : StatusPlane) (id : String) (status : JobStatus) : Prop :=
  ∃ row, s.board.get? id = some row ∧ row.status = status.value

/-- The index has the job and the status of the instance. -/
def IndexHas (s : StatusPlane) (i id : String) (status : JobStatus) : Prop :=
  ∃ row, s.index.get? i = some row ∧ row.jobId = id ∧ row.status = status.value

/-- The index has the step of the instance. -/
def StepHas (s : StatusPlane) (i slug : String) : Prop :=
  ∃ row, s.index.get? i = some row ∧ row.currentStepSlug = some slug

/-- The invariant: the last transition of an instance is the status of its job, and what the
projections do not have a call is going to tell them. -/
structure Sound (pool : StatusPool) : Prop where
  ids_ne : ∀ id tracked, pool.shared.jobs.get? id = some tracked → id ≠ ""
  linked : ∀ i id status, pool.shared.transitions.get? i = some (id, status) → i ≠ "" ∧
    ∃ tracked, pool.shared.jobs.get? id = some tracked ∧ tracked.instanceId = some i ∧
      tracked.job.status = status
  steps_ne : ∀ i slug, pool.shared.steps.get? i = some slug → i ≠ "" ∧ slug ≠ ""
  board : ∀ id tracked, pool.shared.jobs.get? id = some tracked → tracked.job.status ≠ .pending →
    BoardHas pool.shared id tracked.job.status ∨
      ∃ call ∈ pool.procs, call.tellsJob id tracked.job.status = true
  index : ∀ i id status, pool.shared.transitions.get? i = some (id, status) →
    IndexHas pool.shared i id status ∨ ∃ call ∈ pool.procs, call.tellsInstance i id status = true
  steps : ∀ i slug, pool.shared.steps.get? i = some slug →
    StepHas pool.shared i slug ∨ ∃ call ∈ pool.procs, call.tellsStep i slug = true

variable {pool pool' : StatusPool} {i : ℕ} {call call' : StatusCall} {s : StatusPlane}

/-- A turn that changes neither the engine nor the projections, after which the call is going to
tell what it was. -/
theorem Sound.quiet (h : pool.Sound) (hcall : pool.procs[i]? = some call)
    (hjob : ∀ id tracked, pool.shared.jobs.get? id = some tracked →
      call.tellsJob id tracked.job.status = true → call'.tellsJob id tracked.job.status = true)
    (hinstance : ∀ j id tracked, pool.shared.jobs.get? id = some tracked →
      tracked.instanceId = some j → call.tellsInstance j id tracked.job.status = true →
        call'.tellsInstance j id tracked.job.status = true)
    (hstep : ∀ j slug, call.tellsStep j slug = true → call'.tellsStep j slug = true) :
    Sound ⟨pool.shared, pool.procs.set i call'⟩ where
  ids_ne := h.ids_ne
  linked := h.linked
  steps_ne := h.steps_ne
  board id tracked htracked hne := (h.board id tracked htracked hne).imp_right
    (Pool.exists_mem_set hcall (hjob id tracked htracked))
  index j id status hlast := by
    obtain ⟨-, tracked, htracked, hj, rfl⟩ := h.linked j id status hlast
    exact (h.index j id _ hlast).imp_right
      (Pool.exists_mem_set hcall (hinstance j id tracked htracked hj))
  steps j slug hslug := (h.steps j slug hslug).imp_right (Pool.exists_mem_set hcall (hstep j slug))

/-- A submission keeps the invariant. -/
theorem Sound.submit (h : pool.Sound) {id : String} {isPattern : Bool} {instanceId : Option String}
    {hook : Bool} (hcall : pool.procs[i]? = some (.submit id isPattern instanceId hook))
    (hid : id ≠ "") (hnew : pool.shared.jobs.get? id = none) :
    Sound ⟨{ pool.shared with
        jobs := pool.shared.jobs.set id ⟨{ id := id, isPattern := isPattern }, instanceId⟩ },
      pool.procs.set i (.emitting id (.jobSubmitted id instanceId)
        (if hook then [.instanceCreated] else []))⟩ where
  ids_ne other tracked hother := by
    by_cases heq : other = id
    · exact heq ▸ hid
    · exact h.ids_ne other tracked ((Dict.get?_set_ne _ _ heq).symm.trans hother)
  linked j other status hlast := by
    obtain ⟨hj, tracked, htracked, hrest⟩ := h.linked j other status hlast
    have hne : other ≠ id := by
      rintro rfl
      cases hnew.symm.trans htracked
    exact ⟨hj, tracked, (Dict.get?_set_ne _ _ hne).trans htracked, hrest⟩
  steps_ne := h.steps_ne
  board other tracked hother hne := by
    by_cases heq : other = id
    · subst heq
      obtain rfl := Option.some.inj ((Dict.get?_set_self _ _ _).symm.trans hother)
      exact absurd rfl hne
    · refine (h.board other tracked ((Dict.get?_set_ne _ _ heq).symm.trans hother) hne).imp_right ?_
      exact Pool.exists_mem_set hcall fun htells => by cases htells
  index j other status hlast := (h.index j other status hlast).imp_right <|
    Pool.exists_mem_set hcall fun htells => by cases htells
  steps j slug hslug := (h.steps j slug hslug).imp_right <|
    Pool.exists_mem_set hcall fun htells => by cases htells

/-- The last transition of an instance after a result is applied: that of the job if it changed its
status, else what it was. -/
theorem get?_transitions_setJob (s : StatusPlane) (id : String) (old : TrackedJob) (job : Job)
    (j : String) (last : String × JobStatus)
    (h : (s.setJob id old job).transitions.get? j = some last) :
    (last = (id, job.status) ∧ j ≠ "" ∧ old.instanceId = some j) ∨
    (s.transitions.get? j = some last ∧
      (job.status = old.job.status ∨ old.instanceId ≠ some j ∨ j = "")) := by
  simp only [StatusPlane.setJob] at h
  split at h
  · next i hi =>
    obtain ⟨hi, hne⟩ := Option.filter_eq_some_iff.mp hi
    split at h
    · next hsame => exact .inr ⟨h, .inl hsame⟩
    · by_cases heq : j = i
      · subst heq
        rw [Dict.get?_set_self] at h
        exact .inl ⟨(Option.some.inj h).symm, by simpa using hne, hi⟩
      · rw [Dict.get?_set_ne _ _ heq] at h
        refine .inr ⟨h, .inr (.inl fun hj => heq ?_)⟩
        exact Option.some.inj (hj.symm.trans hi)
  · next hnone =>
    refine .inr ⟨h, ?_⟩
    by_cases hj : old.instanceId = some j
    · rw [hj] at hnone
      exact .inr (.inr (by simpa [Option.filter] using hnone))
    · exact .inr (.inl hj)

/-- Applying a result keeps the invariant: the call is going to tell the new status. -/
theorem Sound.applied (h : pool.Sound) {id : String} {result : RunResult} {hook : Bool}
    {old : TrackedJob} {job : Job} (hcall : pool.procs[i]? = some (.applyResult id result hook))
    (hold : pool.shared.jobs.get? id = some old) :
    Sound ⟨pool.shared.setJob id old job,
      pool.procs.set i (.building id (StatusCall.publications hook))⟩ where
  ids_ne other tracked hother := by
    by_cases heq : other = id
    · exact heq ▸ h.ids_ne id old hold
    · exact h.ids_ne other tracked ((Dict.get?_set_ne _ _ heq).symm.trans hother)
  linked j other status hlast := by
    rcases get?_transitions_setJob _ _ _ _ _ _ hlast with ⟨heq, hj, hinstance⟩ | ⟨hlast, hkeep⟩
    · cases heq
      exact ⟨hj, _, Dict.get?_set_self _ _ _, hinstance, rfl⟩
    · obtain ⟨hj, tracked, htracked, hinstance, hstatus⟩ := h.linked j other status hlast
      refine ⟨hj, ?_⟩
      by_cases heq : other = id
      · subst heq
        obtain rfl : old = tracked := Option.some.inj (hold.symm.trans htracked)
        have hsame : job.status = old.job.status := by
          rcases hkeep with hsame | hne | hempty
          · exact hsame
          · exact absurd hinstance hne
          · exact absurd hempty hj
        exact ⟨_, Dict.get?_set_self _ _ _, hinstance, hsame.trans hstatus⟩
      · exact ⟨tracked, (Dict.get?_set_ne _ _ heq).trans htracked, hinstance, hstatus⟩
  steps_ne := h.steps_ne
  board other tracked hother hne := by
    by_cases heq : other = id
    · subst heq
      exact .inr ⟨_, Pool.mem_set_self hcall, by simp [StatusCall.tellsJob,
        StatusCall.publications, EventKind.tellsJob]⟩
    · refine (h.board other tracked ((Dict.get?_set_ne _ _ heq).symm.trans hother) hne).imp_right ?_
      exact Pool.exists_mem_set hcall fun htells => by cases htells
  index j other status hlast := by
    rcases get?_transitions_setJob _ _ _ _ _ _ hlast with ⟨heq, -, -⟩ | ⟨hlast, -⟩
    · cases heq
      exact .inr ⟨_, Pool.mem_set_self hcall, by simp [StatusCall.tellsInstance,
        StatusCall.publications, EventKind.tellsInstance]⟩
    · exact (h.index j other status hlast).imp_right <|
        Pool.exists_mem_set hcall fun htells => by cases htells
  steps j slug hslug := (h.steps j slug hslug).imp_right <|
    Pool.exists_mem_set hcall fun htells => by cases htells

/-- A step of a wizard keeps the invariant: the call is going to tell it. -/
theorem Sound.stepTo (h : pool.Sound) {id j slug : String}
    (hcall : pool.procs[i]? = some (.stepTo id slug)) (hj : j ≠ "") (hslug : slug ≠ "") :
    Sound ⟨{ pool.shared with steps := pool.shared.steps.set j slug },
      pool.procs.set i (.emitting id (.step j slug) [])⟩ where
  ids_ne := h.ids_ne
  linked := h.linked
  steps_ne k other hother := by
    by_cases heq : k = j
    · subst heq
      obtain rfl : slug = other := Option.some.inj ((Dict.get?_set_self _ _ _).symm.trans hother)
      exact ⟨hj, hslug⟩
    · exact h.steps_ne k other ((Dict.get?_set_ne _ _ heq).symm.trans hother)
  board other tracked hother hne := (h.board other tracked hother hne).imp_right <|
    Pool.exists_mem_set hcall fun htells => by cases htells
  index k other status hlast := (h.index k other status hlast).imp_right <|
    Pool.exists_mem_set hcall fun htells => by cases htells
  steps k other hother := by
    by_cases heq : k = j
    · subst heq
      obtain rfl : slug = other := Option.some.inj ((Dict.get?_set_self _ _ _).symm.trans hother)
      exact .inr ⟨_, Pool.mem_set_self hcall, by simp [StatusCall.tellsStep]⟩
    · exact (h.steps k other ((Dict.get?_set_ne _ _ heq).symm.trans hother)).imp_right <|
        Pool.exists_mem_set hcall fun htells => by cases htells

/-- A call that has built its next event is going to tell what that event or the rest tells. -/
theorem tellsJob_built {id : String} {status : JobStatus} {todo : List EventKind}
    {built : Option StatusEvent} (h : (∃ j, built = some (.jobStatus id status j)) ∨
      todo.any (EventKind.tellsJob status) = true) :
    (StatusCall.built id todo built).tellsJob id status = true := by
  rcases h with ⟨j, rfl⟩ | h
  · simp [StatusCall.built, StatusCall.tellsJob]
  · cases built <;> simp [StatusCall.built, StatusCall.tellsJob, h]

/-- A call that has built its next event is going to tell what that event or the rest tells. -/
theorem tellsInstance_built {j id : String} {status : JobStatus} {todo : List EventKind}
    {built : Option StatusEvent} (h : built = some (.instanceStatus j id status) ∨
      built = some (.instanceCreated j id status) ∨ todo.any EventKind.tellsInstance = true) :
    (StatusCall.built id todo built).tellsInstance j id status = true := by
  rcases h with rfl | rfl | h
  · simp [StatusCall.built, StatusCall.tellsInstance]
  · simp [StatusCall.built, StatusCall.tellsInstance]
  · cases built <;> simp [StatusCall.built, StatusCall.tellsInstance, h]

/-- Building the next event keeps the invariant. -/
theorem Sound.build (h : pool.Sound) {id : String} {kind : EventKind} {todo : List EventKind}
    (hcall : pool.procs[i]? = some (.building id (kind :: todo))) :
    Sound ⟨pool.shared, pool.procs.set i
      (.built id todo ((pool.shared.jobs.get? id).bind fun tracked => kind.build id tracked))⟩ := by
  refine h.quiet hcall (fun other tracked htracked htells => ?_)
    (fun j other tracked htracked hinstance htells => ?_) fun j slug htells => by cases htells
  · simp only [StatusCall.tellsJob, List.any_cons, Bool.and_eq_true, Bool.or_eq_true,
      decide_eq_true_eq] at htells
    obtain ⟨rfl, hkind | htodo⟩ := htells
    · refine tellsJob_built (.inl ⟨tracked.instanceId, ?_⟩)
      rw [htracked]
      cases kind with
      | jobStatusChanged => rfl
      | jobCompleted => exact if_pos hkind
      | instanceStatusChanged | instanceCreated => cases hkind
    · exact tellsJob_built (.inr htodo)
  · simp only [StatusCall.tellsInstance, List.any_cons, Bool.and_eq_true, Bool.or_eq_true,
      decide_eq_true_eq] at htells
    obtain ⟨rfl, hkind | htodo⟩ := htells
    · rw [htracked]
      cases kind with
      | instanceStatusChanged =>
        exact tellsInstance_built (.inl (by simp [EventKind.build, hinstance]))
      | instanceCreated =>
        exact tellsInstance_built (.inr (.inl (by simp [EventKind.build, hinstance])))
      | jobStatusChanged | jobCompleted => cases hkind
    · exact tellsInstance_built (.inr (.inr htodo))

/-- What a call that emits is going to tell it tells by the event or by the rest. -/
theorem tellsJob_emitting {id other : String} {status : JobStatus} {event : StatusEvent}
    {todo : List EventKind} (h : (StatusCall.emitting id event todo).tellsJob other status = true) :
    (∃ j, event = .jobStatus other status j) ∨
      (StatusCall.building id todo).tellsJob other status = true := by
  rcases (Bool.or_eq_true _ _).mp h with hevent | htodo
  · cases event with
    | jobStatus told status' j =>
      obtain ⟨rfl, rfl⟩ : told = other ∧ status' = status := by simpa using hevent
      exact .inl ⟨j, rfl⟩
    | jobSubmitted _ _ | instanceCreated _ _ _ | instanceStatus _ _ _ | step _ _ => cases hevent
  · exact .inr htodo

/-- What a call that emits is going to tell it tells by the event or by the rest. -/
theorem tellsInstance_emitting {id j other : String} {status : JobStatus} {event : StatusEvent}
    {todo : List EventKind}
    (h : (StatusCall.emitting id event todo).tellsInstance j other status = true) :
    (event = .instanceStatus j other status ∨ event = .instanceCreated j other status) ∨
      (StatusCall.building id todo).tellsInstance j other status = true := by
  rcases (Bool.or_eq_true _ _).mp h with hevent | htodo
  · exact .inl (by simpa using hevent)
  · exact .inr htodo

/-- The invariant after an emission, from what has become of each row: what was right or is told by
the event is right, or a call is going to tell it. -/
theorem Sound.emit (h : pool.Sound) {id : String} {event : StatusEvent} {todo : List EventKind}
    (board : JobStatusBoard) (index : InstanceIndex)
    (hcall : pool.procs[i]? = some (.emitting id event todo))
    (hboard : ∀ other tracked, pool.shared.jobs.get? other = some tracked →
      (BoardHas pool.shared other tracked.job.status ∨
        ∃ j, event = .jobStatus other tracked.job.status j) →
      BoardHas { pool.shared with board := board, index := index } other tracked.job.status ∨
        ∃ call ∈ pool.procs.set i (.building id todo), call.tellsJob other tracked.job.status = true)
    (hindex : ∀ j other status, pool.shared.transitions.get? j = some (other, status) →
      (IndexHas pool.shared j other status ∨
        (event = .instanceStatus j other status ∨ event = .instanceCreated j other status)) →
      IndexHas { pool.shared with board := board, index := index } j other status ∨
        ∃ call ∈ pool.procs.set i (.building id todo), call.tellsInstance j other status = true)
    (hsteps : ∀ j slug, pool.shared.steps.get? j = some slug →
      (StepHas pool.shared j slug ∨ event = .step j slug) →
      StepHas { pool.shared with board := board, index := index } j slug ∨
        ∃ call ∈ pool.procs.set i (.building id todo), call.tellsStep j slug = true) :
    Sound ⟨{ pool.shared with board := board, index := index },
      pool.procs.set i (.building id todo)⟩ where
  ids_ne := h.ids_ne
  linked := h.linked
  steps_ne := h.steps_ne
  board other tracked htracked hne := by
    rcases h.board other tracked htracked hne with hhas | hex
    · exact hboard other tracked htracked (.inl hhas)
    · rcases Pool.exists_mem_set_or hcall tellsJob_emitting hex with htold | hex
      · exact hboard other tracked htracked (.inr htold)
      · exact .inr hex
  index j other status hlast := by
    rcases h.index j other status hlast with hhas | hex
    · exact hindex j other status hlast (.inl hhas)
    · rcases Pool.exists_mem_set_or hcall tellsInstance_emitting hex with htold | hex
      · exact hindex j other status hlast (.inr htold)
      · exact .inr hex
  steps j slug hslug := by
    rcases h.steps j slug hslug with hhas | hex
    · exact hsteps j slug hslug (.inl hhas)
    · have htold : (StatusCall.emitting id event todo).tellsStep j slug = true →
          event = .step j slug ∨ (StatusCall.building id todo).tellsStep j slug = true :=
        fun htells => .inl (of_decide_eq_true htells)
      rcases Pool.exists_mem_set_or hcall htold hex with htold | hex
      · exact hsteps j slug hslug (.inr htold)
      · exact .inr hex

/-- The emission of a submission keeps the invariant. -/
theorem Sound.emit_submitted (h : pool.Sound) {id jobId : String} {todo : List EventKind}
    {instanceId : Option String}
    (hcall : pool.procs[i]? = some (.emitting id (.jobSubmitted jobId instanceId) todo)) :
    Sound ⟨pool.shared.apply (.jobSubmitted jobId instanceId),
      pool.procs.set i (.building id todo)⟩ := by
  refine h.emit _ pool.shared.index hcall (fun other tracked _ hbefore => ?_)
    (fun j other status _ hbefore => ?_) fun j slug _ hbefore => ?_
  · rcases hbefore with ⟨row, hrow, hstatus⟩ | ⟨j, hevent⟩
    · obtain ⟨row', hrow', hsame⟩ := JobStatusBoard.get?_apply_submitted hrow jobId instanceId
      exact .inl ⟨row', hrow', hsame.trans hstatus⟩
    · cases hevent
  · rcases hbefore with hhas | hevent | hevent
    · exact .inl hhas
    · cases hevent
    · cases hevent
  · exact .inl (hbefore.resolve_right fun hevent => by cases hevent)

/-- The emission of a job event that is up to date, or behind another, keeps the invariant. -/
theorem Sound.emit_jobStatus (h : pool.Sound) {id jobId : String} {todo : List EventKind}
    {status : JobStatus} {instanceId : Option String}
    (hcall : pool.procs[i]? = some (.emitting id (.jobStatus jobId status instanceId) todo))
    (hok : ∀ tracked ∈ pool.shared.jobs.get? jobId, status = tracked.job.status ∨
      ∃ call ∈ pool.procs.set i (.building id todo), call.tellsJob jobId tracked.job.status = true) :
    Sound ⟨pool.shared.apply (.jobStatus jobId status instanceId),
      pool.procs.set i (.building id todo)⟩ := by
  refine h.emit _ pool.shared.index hcall (fun other tracked htracked hbefore => ?_)
    (fun j other status _ hbefore => ?_) fun j slug _ hbefore => ?_
  · by_cases heq : other = jobId
    · subst heq
      rcases hok tracked htracked with rfl | hex
      · exact .inl (JobStatusBoard.get?_apply_self _ (h.ids_ne other tracked htracked) _ _)
      · exact .inr hex
    · rcases hbefore with ⟨row, hrow, hstatus⟩ | ⟨j, hevent⟩
      · exact .inl ⟨row, (JobStatusBoard.get?_apply_ne _ heq _ _).trans hrow, hstatus⟩
      · cases hevent
        exact absurd rfl heq
  · rcases hbefore with hhas | hevent | hevent
    · exact .inl hhas
    · cases hevent
    · cases hevent
  · exact .inl (hbefore.resolve_right fun hevent => by cases hevent)

/-- The emission of a step that is up to date and has a row, or is behind another, keeps the
invariant. -/
theorem Sound.emit_step (h : pool.Sound) {id j slug : String} {todo : List EventKind}
    (hcall : pool.procs[i]? = some (.emitting id (.step j slug) todo))
    (hok : ∀ last ∈ pool.shared.steps.get? j, (slug = last ∧ (pool.shared.index.get? j).isSome) ∨
      ∃ call ∈ pool.procs.set i (.building id todo), call.tellsStep j last = true) :
    Sound ⟨pool.shared.apply (.step j slug), pool.procs.set i (.building id todo)⟩ := by
  refine h.emit pool.shared.board _ hcall (fun other tracked _ hbefore => ?_)
    (fun k other status _ hbefore => ?_) fun k last hlast hbefore => ?_
  · refine .inl (hbefore.resolve_right ?_)
    rintro ⟨_, hevent⟩
    cases hevent
  · rcases hbefore with ⟨row, hrow, hjob, hstatus⟩ | hevent | hevent
    · obtain ⟨row', hrow', hjob', hstatus', -⟩ := InstanceIndex.get?_applyStep hrow j slug
      exact .inl ⟨row', hrow', hjob'.trans hjob, hstatus'.trans hstatus⟩
    · cases hevent
    · cases hevent
  · by_cases heq : k = j
    · subst heq
      rcases hok last hlast with ⟨rfl, hrow⟩ | hex
      · obtain ⟨hk, hslug⟩ := h.steps_ne k slug hlast
        exact .inl (InstanceIndex.get?_applyStep_self hk hslug hrow)
      · exact .inr hex
    · rcases hbefore with ⟨row, hrow, hstep⟩ | hevent
      · obtain ⟨row', hrow', -, -, hsame⟩ := InstanceIndex.get?_applyStep hrow j slug
        exact .inl ⟨row', hrow', (hsame heq).trans hstep⟩
      · cases hevent
        exact absurd rfl heq

/-- The emission of an instance event that is up to date, or behind another, keeps the invariant. -/
theorem Sound.emit_instance (h : pool.Sound) {id j jobId : String} {todo : List EventKind}
    {event : StatusEvent} {status : JobStatus} {details : Option InstanceDetails}
    (hcall : pool.procs[i]? = some (.emitting id event todo))
    (hevent : event = .instanceStatus j jobId status ∨ event = .instanceCreated j jobId status)
    (hok : ∀ last ∈ pool.shared.transitions.get? j, last = (jobId, status) ∨
      ∃ call ∈ pool.procs.set i (.building id todo), call.tellsInstance j last.1 last.2 = true)
    (hstep : ∀ slug ∈ pool.shared.steps.get? j,
      (∀ told ∈ details.bind InstanceDetails.step, told = slug) ∨
        ∃ call ∈ pool.procs.set i (.building id todo), call.tellsStep j slug = true) :
    Sound ⟨{ pool.shared with index := pool.shared.index.applyStatus j jobId status details },
      pool.procs.set i (.building id todo)⟩ := by
  refine h.emit pool.shared.board _ hcall (fun other tracked _ hbefore => ?_)
    (fun k other last hlast hbefore => ?_) fun k slug hslug hbefore => ?_
  · refine .inl (hbefore.resolve_right ?_)
    rintro ⟨_, rfl⟩
    rcases hevent with hevent | hevent <;> cases hevent
  · by_cases heq : k = j
    · subst heq
      rcases hok _ hlast with hsame | hex
      · cases hsame
        obtain ⟨hk, tracked, htracked, -⟩ := h.linked k jobId status hlast
        obtain ⟨row, hrow, hjob, hstatus, -⟩ := InstanceIndex.get?_applyStatus_self
          pool.shared.index hk (h.ids_ne jobId tracked htracked) status details
        exact .inl ⟨row, hrow, hjob, hstatus⟩
      · exact .inr hex
    · rcases hbefore with ⟨row, hrow, hrest⟩ | htold
      · exact .inl ⟨row, (InstanceIndex.get?_applyStatus_ne _ heq _ _ _).trans hrow, hrest⟩
      · rcases hevent with rfl | rfl <;> rcases htold with htold | htold <;> cases htold <;>
          exact absurd rfl heq
  · rcases hbefore with ⟨row, hrow, hslug'⟩ | htold
    · by_cases hother : ∀ told ∈ details.bind InstanceDetails.step, j = k → told = slug
      · obtain ⟨row', hrow', hsame⟩ := InstanceIndex.step_applyStatus hrow
          (fun heq told htold => hslug'.trans (congrArg some (hother told htold heq).symm)) jobId status
        exact .inl ⟨row', hrow', hsame.trans hslug'⟩
      · have heq : j = k := by
          by_contra hne
          exact hother fun _ _ heq => absurd heq hne
        subst heq
        refine .inr ((hstep slug hslug).resolve_left fun hall => hother fun told htold _ => ?_)
        exact hall told htold
    · rcases hevent with rfl | rfl <;> cases htold

/-- A turn of a call that meets the condition keeps the invariant. -/
theorem Sound.call_turn {maxConcurrentJobs : ℕ} (h : pool.Sound)
    (hstep : pool.step (StatusCall.move maxConcurrentJobs) i = some pool')
    (hok : ∀ call ∈ pool.procs[i]?, pool.TimelyCall pool' call) : pool'.Sound := by
  obtain ⟨call, s, call', hcall, hmove, rfl⟩ := Pool.step_cases hstep
  have hreturned : (∀ id status, call.tellsJob id status = false) →
      (∀ j id status, call.tellsInstance j id status = false) →
      (∀ j slug, call.tellsStep j slug = false) →
      Sound ⟨pool.shared, pool.procs.set i .returned⟩ := by
    intro hjob hinstance hstep
    refine h.quiet hcall (fun id tracked _ htells => ?_) (fun j id tracked _ _ htells => ?_)
      fun j slug htells => ?_
    · cases (hjob id tracked.job.status).symm.trans htells
    · cases (hinstance j id tracked.job.status).symm.trans htells
    · cases (hstep j slug).symm.trans htells
  cases call with
  | submit id isPattern instanceId hook =>
    simp only [StatusCall.move] at hmove
    split at hmove
    · cases hmove
      exact hreturned (fun _ _ => rfl) (fun _ _ _ => rfl) fun _ _ => rfl
    · next hnew =>
      cases hmove
      simp only [not_or, Option.not_isSome_iff_eq_none] at hnew
      exact h.submit hcall hnew.1 hnew.2.2
  | applyResult id result hook =>
    simp only [StatusCall.move] at hmove
    split at hmove
    · cases hmove
      exact hreturned (fun _ _ => rfl) (fun _ _ _ => rfl) fun _ _ => rfl
    · next tracked hold =>
      split at hmove
      · cases hmove
        exact hreturned (fun _ _ => rfl) (fun _ _ _ => rfl) fun _ _ => rfl
      · cases hmove
        exact hreturned (fun _ _ => rfl) (fun _ _ _ => rfl) fun _ _ => rfl
      · cases hmove
        exact h.applied hcall hold
  | stepTo id slug =>
    simp only [StatusCall.move] at hmove
    split at hmove
    · cases hmove
      exact hreturned (fun _ _ => rfl) (fun _ _ _ => rfl) fun _ _ => rfl
    · split at hmove
      · cases hmove
        exact hreturned (fun _ _ => rfl) (fun _ _ _ => rfl) fun _ _ => rfl
      · next hne =>
        cases hmove
        obtain ⟨hj, hslug⟩ := not_or.mp hne
        exact h.stepTo hcall hj hslug
  | building id todo =>
    cases todo with
    | nil =>
      cases hmove
      exact hreturned (fun _ _ => Bool.and_false _) (fun _ _ _ => Bool.and_false _) fun _ _ => rfl
    | cons kind todo =>
      cases hmove
      exact h.build hcall
  | emitting id event todo =>
    cases hmove
    have hok : pool.TimelyEvent _ event := hok _ hcall
    cases event with
    | jobSubmitted jobId instanceId => exact h.emit_submitted hcall
    | jobStatus jobId status instanceId => exact h.emit_jobStatus hcall hok
    | instanceStatus j jobId status =>
      refine h.emit_instance hcall (.inl rfl) hok fun slug _ => .inl fun told htold => ?_
      cases htold
    | instanceCreated j jobId status => exact h.emit_instance hcall (.inr rfl) hok.1 hok.2
    | step j slug => exact h.emit_step hcall hok
  | returned => cases hmove

/-- A turn that meets the condition keeps the invariant. -/
theorem Sound.turn {maxConcurrentJobs : ℕ} {t : StatusTurn} (h : pool.Sound)
    (hstep : pool.turn maxConcurrentJobs t = some pool') (hok : pool.Timely t pool') :
    pool'.Sound := by
  cases t with
  | call i => exact h.call_turn hstep hok
  | save j details =>
    cases hstep
    exact ⟨h.ids_ne, h.linked, h.steps_ne, h.board, h.index, h.steps⟩

/-- At the start no job has changed its status. -/
theorem start_sound (records : Dict String InstanceDetails) (board : JobStatusBoard)
    (index : InstanceIndex) (calls : List StatusCall) : (start records board index calls).Sound where
  ids_ne id tracked htracked := by cases htracked
  linked j id status hlast := by cases hlast
  steps_ne j slug hslug := by cases hslug
  board id tracked htracked := by cases htracked
  index j id status hlast := by cases hlast
  steps j slug hslug := by cases hslug

end StatusPool

end PalmEngine.Orchestration
