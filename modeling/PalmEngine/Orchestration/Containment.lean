import PalmEngine.Lib.Runs
import PalmEngine.Orchestration.Machine

/-!
# Drive failures and the worker that meets them

While the scheduler is up, a worker's loop should outlive whatever a slice does, the slice
should release its drive slot, and the job should be left where something picks it up again.
`drive_job` always releases the slot. Its exceptions, however, are caught by no one: a hook
that raises, a budget below one and an error that `apply_result` propagates each end the
thread. A slice that used up its budget leaves the job running with nothing queued.

Runs without a shutdown are followed here, from the construction of the engine on.
-/

namespace PalmEngine.Orchestration

open PalmEngine.Lib

/-- The job is over, parked for input, or has a work item that will drive it again. -/
def Settled (s : State) (j : JobId) : Prop :=
  ∃ job, s.jobs j = some job ∧
    (job.isTerminal = true ∨ job.status = .waitingForInput ∨ Outstanding s j)

/-- Every claimed drive slot belongs to a worker that is inside a slice of that job. -/
def SlotsOwned (s : State) : Prop :=
  ∀ (j : JobId) (t : ℕ), s.driving j = some t → ∃ ph, s.workers[t]? = some (.slice j ph)

/-- After a step no worker has exited and no slot outlives its slice; if the step was the end of a
slice, its job is settled. -/
structure Contained (s : State) (l : Label) (u : State) : Prop where
  alive : Pc.exited ∉ u.workers
  slots : SlotsOwned u
  settled : ∀ (t : ℕ) (j : JobId) (raised : Option PyError), l = .worker t .go →
    s.workers[t]? = some (.slice j (.ending raised)) → Settled u j

/-- The step of a slice that lets an exception out of `drive_job`: a hook raises, the budget is
below one, or a recorded error is propagated. -/
def raisesOut (cfg : Config) (s : State) : Pc → Outcome → Bool
  | .slice _ _, .raised _ => true
  | .slice j .run, .go =>
    cfg.budget < 1 && (s.jobs j).any fun job => !job.isTerminal && job.isPattern
  | .slice _ (.publish r _), .go => r.propagate && r.error.isSome
  | _, _ => false

/-- The end of a slice whose budget ran out, unless a delivering call has queued the job again. -/
def leavesRunning (s : State) : Pc → Outcome → Bool
  | .slice j (.ending _), .go =>
    (s.jobs j).any (fun job => job.status = .running) && ¬ Outstanding s j
  | _, _ => false

/-- The step takes one of the branches in which a slice's failure is not contained. -/
def Uncontained (cfg : Config) (s : State) : Label → Bool
  | .worker t o => s.workers[t]?.any fun pc => raisesOut cfg s pc o || leavesRunning s pc o
  | _ => false

/-- A position of a worker that no exception and no sentinel is about to end, and whose pending
result, if any, is not a return to pending. -/
def Pc.sound : Pc → Bool
  | .sentinel | .exited => false
  | .finish _ raised | .slice _ (.ending raised) => raised.isNone
  | .slice _ (.apply r _) => r.status ≠ .pending
  | _ => true

/-- The positions of a slice after its result was applied. -/
def Phase.applied : Phase → Bool
  | .publish _ _ | .after _ | .ending _ => true
  | _ => false

/-- What holds while the scheduler is up and every failure so far was contained. -/
structure Upright (s : State) : Prop where
  stop : s.stop = false
  control : ∀ left, s.control ≠ .stopping left
  queue : QItem.sentinel ∉ s.queue
  sound : ∀ (i : ℕ) (pc : Pc), s.workers[i]? = some pc → pc.sound = true
  slots : SlotsOwned s
  applied : ∀ (i : ℕ) (j : JobId) (ph : Phase), s.workers[i]? = some (.slice j ph) →
    ph.applied = true → ∃ job, s.jobs j = some job ∧ job.status ≠ .pending

/-- The transition table refuses only a return to pending. -/
private theorem status_of_invalid {job : Job} {r : RunResult} {e : PyError}
    (h : applyLocked job r = .invalid e) : r.status = .pending := by
  unfold applyLocked Job.transitionTo at h
  cases hj : job.status <;> cases hr : r.status <;>
    simp_all [Job.isTerminal, JobStatus.isTerminal, isValidTransition, JobStatus.allowed]

/-- A runner never answers with a pending status. -/
private theorem tickResult_ne_pending {o : TickOutcome} {r : RunResult} (h : tickResult o = some r) :
    r.status ≠ .pending := by
  cases o <;> simp only [tickResult, Option.some.injEq, reduceCtorEq] at h <;>
    (subst h; simp)

/-- Once a job has left pending, no applied result brings it back. -/
private theorem setJob_ne_pending {s : State} {i j : JobId} {job job' : Job}
    (hne : job'.status ≠ .pending) (hi : s.jobs i = some job) (hstatus : job.status ≠ .pending) :
    ∃ job, (s.setJob j job').jobs i = some job ∧ job.status ≠ .pending := by
  by_cases hij : i = j
  · subst hij
    exact ⟨job', by simp [State.setJob], hne⟩
  · exact ⟨job, by simpa [State.setJob, hij] using hi, hstatus⟩

/-- The new position of a worker is sound, if the step let no exception out. -/
private theorem Move.sound {cfg : Config} {s s' : State} {t : ℕ} {pc pc' : Pc} {o : Outcome}
    (h : Move cfg s t pc o pc' s') (hs : Upright s) (hpc : pc.sound = true)
    (hok : raisesOut cfg s pc o = false) : pc'.sound = true := by
  cases h with
  | check_stop hstop => rw [hs.stop] at hstop; cases hstop
  | get_sentinel rest hqueue => exact (hs.queue (by simp [hqueue])).elim
  | run_returned j job r hjob hstart =>
    have hterm := runnerStart_returned hstart
    have hne : r.status ≠ .pending := by rintro heq; rw [heq] at hterm; cases hterm
    simpa [Pc.sound] using hne
  | run_raised j job e hjob hstart =>
    obtain ⟨hlive, hpattern, hbudget⟩ := runnerStart_raised hstart
    simp [raisesOut, hjob, hlive, hpattern, hbudget] at hok
  | tick_exhausted j logical =>
    by_cases hrun : logical = .running <;> simp [Pc.sound, exhaustedResult, hrun]
  | tick_result j left logical o r hr => simpa [Pc.sound] using tickResult_ne_pending hr
  | apply_ignored j job r o => cases o <;> rfl
  | apply_invalid j job r o e hjob happly =>
    simp [Pc.sound, status_of_invalid happly] at hpc
  | publish_propagate j r o e hprop herr => simp [raisesOut, hprop, herr] at hok
  | publish_done j r o => cases o <;> rfl
  | finish j raised =>
    have hnone : raised = none := by simpa [Pc.sound] using hpc
    simp [hnone, Pc.sound]
  | sentinel => cases hpc
  | before_raised | publish_raised | after_raised => cases hok
  | _ => first | rfl | exact hpc

/-- A worker's move changes drive slots only to claim one for its own slice, or to release it. -/
private theorem Move.slots {cfg : Config} {s s' : State} {t : ℕ} {pc pc' : Pc} {o : Outcome}
    (h : Move cfg s t pc o pc' s') (hown : ∀ j, s.driving j = some t → ∃ ph, pc = .slice j ph)
    {j : JobId} {i : ℕ} (hj : s'.driving j = some i) :
    (i ≠ t ∧ s.driving j = some i) ∨ (i = t ∧ ∃ ph, pc' = .slice j ph) := by
  have hstay (hdriving : s.driving j = some i) (hslice : (∃ ph, pc = .slice j ph) →
      ∃ ph, pc' = .slice j ph) :
      (i ≠ t ∧ s.driving j = some i) ∨ (i = t ∧ ∃ ph, pc' = .slice j ph) := by
    by_cases hit : i = t
    · subst hit
      exact .inr ⟨rfl, hslice (hown j hdriving)⟩
    · exact .inl ⟨hit, hdriving⟩
  cases h with
  | begin_claim k =>
    by_cases hjk : j = k
    · subst hjk
      simp only [State.setDriving, Function.update_self, Option.some.injEq] at hj
      exact .inr ⟨hj.symm, _, rfl⟩
    · refine hstay (by simpa [State.setDriving, hjk] using hj) ?_
      rintro ⟨ph, hpc⟩
      cases hpc
  | ending k =>
    by_cases hjk : j = k
    · subst hjk
      simp [State.setDriving] at hj
    · refine hstay (by simpa [State.setDriving, hjk] using hj) ?_
      rintro ⟨ph, hpc⟩
      cases hpc
      exact (hjk rfl).elim
  | finish => exact hstay hj fun ⟨ph, hpc⟩ => nomatch hpc
  | apply_ignored k job r origin =>
    refine hstay hj fun ⟨ph, hpc⟩ => ?_
    cases hpc
    exact ⟨_, rfl⟩
  | _ => exact hstay hj fun ⟨ph, hpc⟩ => by cases hpc <;> exact ⟨_, rfl⟩

/-- When a slice's result has been applied its job is known and no longer pending. -/
private theorem Move.applied {cfg : Config} {s s' : State} {t : ℕ} {pc pc' : Pc} {o : Outcome}
    (h : Move cfg s t pc o pc' s') (hpc : pc.sound = true) (hpc' : pc'.sound = true)
    (happlied : ∀ (j : JobId) (ph : Phase), pc = .slice j ph → ph.applied = true →
      ∃ job, s.jobs j = some job ∧ job.status ≠ .pending)
    {j : JobId} {ph : Phase} (heq : pc' = .slice j ph) (hph : ph.applied = true) :
    ∃ job, s'.jobs j = some job ∧ job.status ≠ .pending := by
  cases h with
  | apply_ignored k job r origin hjob happly =>
    have hkj : k = j := by cases origin <;> cases heq <;> rfl
    subst hkj
    refine ⟨job, hjob, fun hpending => ?_⟩
    have hterm := (applyLocked_ignored happly).1
    rw [Job.isTerminal, hpending] at hterm
    cases hterm
  | apply_applied k job job' r origin hjob happly =>
    cases heq
    refine ⟨job', by simp [State.setJob], ?_⟩
    rw [(applyLocked_applied happly).1]
    simpa [Pc.sound] using hpc
  | publish_done k r origin =>
    have hkj : k = j := by cases origin <;> cases heq <;> rfl
    exact hkj ▸ happlied k (.publish r origin) rfl rfl
  | after_go k r =>
    cases heq
    exact happlied j (.after r) rfl rfl
  | before_raised | run_raised | apply_invalid | publish_propagate | publish_raised | after_raised =>
    cases hpc'
  | finish k raised => cases raised <;> cases heq
  | _ => cases heq <;> cases hph

/-- A job that is past pending stays so when a worker moves. -/
private theorem Move.ne_pending {cfg : Config} {s s' : State} {t : ℕ} {pc pc' : Pc} {o : Outcome}
    (h : Move cfg s t pc o pc' s') (hpc : pc.sound = true) {j : JobId}
    (hj : ∃ job, s.jobs j = some job ∧ job.status ≠ .pending) :
    ∃ job, s'.jobs j = some job ∧ job.status ≠ .pending := by
  cases h with
  | apply_applied k job job' r origin hjob happly =>
    obtain ⟨other, hother, hne⟩ := hj
    refine setJob_ne_pending ?_ hother hne
    rw [(applyLocked_applied happly).1]
    simpa [Pc.sound] using hpc
  | _ => exact hj

/-- What a worker's contained step keeps. -/
theorem Upright.worker {cfg : Config} {s u : State} {t : ℕ} {o : Outcome} (hs : Upright s)
    (h : step cfg s (.worker t o) = some u) (hok : Uncontained cfg s (.worker t o) = false) :
    Upright u := by
  obtain ⟨pc, pc', s', hpc, hmove, rfl⟩ := worker_move h
  obtain ⟨hworkers, -, hcontrol, hstop, -⟩ := hmove.frame
  simp only [Uncontained, hpc, Option.any_some, Bool.or_eq_false_iff] at hok
  have hsound := hs.sound t pc hpc
  have hsound' := hmove.sound hs hsound hok.1
  refine ⟨hstop.trans hs.stop, fun left => hcontrol ▸ hs.control left, ?_, ?_, ?_, ?_⟩
  · intro hmem
    refine hs.queue ?_
    change QItem.sentinel ∈ s'.queue at hmem
    cases hmove with
    | get_sentinel rest hqueue => simp [hqueue]
    | get_work j rest hqueue => simpa [hqueue] using hmem
    | _ => exact hmem
  · intro i q hi
    rcases getElem?_setPc hi with ⟨rfl, rfl⟩ | ⟨-, hi⟩
    · exact hsound'
    · exact hs.sound i q (hworkers ▸ hi)
  · intro j i hj
    have hown (k : JobId) (hk : s.driving k = some t) : ∃ ph, pc = .slice k ph := by
      obtain ⟨ph, hph⟩ := hs.slots k t hk
      exact ⟨ph, Option.some.inj (hpc.symm.trans hph)⟩
    rcases hmove.slots hown hj with ⟨hit, hj⟩ | ⟨rfl, ph, rfl⟩
    · rw [getElem?_setPc_ne hit, hworkers]
      exact hs.slots j i hj
    · exact ⟨ph, getElem?_setPc_self (hworkers ▸ hpc) _⟩
  · intro i j ph hi hph
    rcases getElem?_setPc hi with ⟨rfl, heq⟩ | ⟨-, hi⟩
    · refine hmove.applied hsound hsound' (fun k qh hk hqh => ?_) heq.symm hph
      exact hs.applied i k qh (hk ▸ hpc) hqh
    · exact hmove.ne_pending hsound (hs.applied i j ph (hworkers ▸ hi) hph)

/-- No client call returns a job to pending. -/
private theorem clientStep_ne_pending {cfg : Config} {s u : State} {l : ClientLabel}
    (h : step cfg s (.client l) = some u) {i : JobId}
    (hi : ∃ job, s.jobs i = some job ∧ job.status ≠ .pending) :
    ∃ job, u.jobs i = some job ∧ job.status ≠ .pending := by
  change clientStep cfg s l = some u at h
  cases l with
  | submit j isPattern =>
    simp only [clientStep] at h
    split at h <;> cases h
    rename_i hcond
    obtain ⟨job, hjob, hne⟩ := hi
    have hij : i ≠ j := by
      rintro rfl
      exact Option.some_ne_none job (hjob.symm.trans hcond.2.1)
    exact ⟨job, by simpa [State.setJob, hij] using hjob, hne⟩
  | enqueue j =>
    simp only [clientStep] at h
    split at h <;> cases h
    exact hi
  | deliver j | resume j =>
    obtain ⟨job, -, rfl⟩ := Option.map_eq_some_iff.mp h
    exact hi
  | advance c =>
    obtain ⟨call, -, h⟩ := Option.bind_eq_some_iff.mp h
    unfold State.advanceCall at h
    split at h
    · cases h; exact hi
    · obtain ⟨job, -, rfl⟩ := Option.map_eq_some_iff.mp h
      split <;> exact hi
  | abort c =>
    obtain ⟨call, -, h⟩ := Option.bind_eq_some_iff.mp h
    split at h <;> cases h
    exact hi
  | cancel j | failOwner j e =>
    obtain ⟨job, -, h⟩ := Option.bind_eq_some_iff.mp h
    split at h <;> cases h
    rename_i happly
    obtain ⟨other, hother, hne⟩ := hi
    refine setJob_ne_pending ?_ hother hne
    rw [(applyLocked_applied happly).1]
    simp

/-- What a client's step keeps. -/
theorem Upright.client {cfg : Config} {s u : State} {l : ClientLabel} (hs : Upright s)
    (h : step cfg s (.client l) = some u) : Upright u := by
  have hframe := clientStep_frame h
  refine ⟨hframe.stop.trans hs.stop, fun left => hframe.control ▸ hs.control left, ?_, ?_, ?_, ?_⟩
  · rcases hframe.queue with ⟨hqueue, -⟩ | ⟨j, hqueue, -⟩ <;> rw [hqueue]
    · exact hs.queue
    · simpa using hs.queue
  · exact fun i pc hi => hs.sound i pc (hframe.workers ▸ hi)
  · rw [SlotsOwned, hframe.workers, hframe.driving]
    exact hs.slots
  · intro i j ph hi hph
    exact clientStep_ne_pending h (hs.applied i j ph (hframe.workers ▸ hi) hph)

/-- What the thread that starts the scheduler keeps. -/
theorem Upright.control_step {cfg : Config} {s u : State} {l : ControlLabel} (hs : Upright s)
    (h : step cfg s (.control l) = some u) (hl : l ≠ .shutdown) : Upright u := by
  obtain ⟨-, -, hjobs, hdriving, hworkers⟩ := controlStep_frame h
  have hwork {i : ℕ} {pc : Pc} (hi : u.workers[i]? = some pc) := controlStep_worker h hi
  have hflags : u.stop = false ∧ (∀ left, u.control ≠ .stopping left) ∧ u.queue = s.queue := by
    change controlStep cfg s l = some u at h
    cases l with
    | shutdown => exact (hl rfl).elim
    | start | started =>
      simp only [controlStep] at h
      split at h <;> cases h
      simp [hs.stop]
    | spawn =>
      simp only [controlStep] at h
      split at h <;> cases h
      simp [hs.stop]
    | putSentinel =>
      simp only [controlStep] at h
      split at h <;> cases h
      exact (hs.control _ ‹_›).elim
    | joined =>
      simp only [controlStep] at h
      split at h <;> cases h
      exact (hs.control _ ‹_›).elim
  refine ⟨hflags.1, hflags.2.1, hflags.2.2 ▸ hs.queue, fun i pc hi => ?_, fun j t hj => ?_,
    fun i j ph hi hph => ?_⟩
  · rcases hwork hi with hi | rfl
    · exact hs.sound i pc hi
    · rfl
  · rw [hdriving] at hj
    obtain ⟨ph, hph⟩ := hs.slots j t hj
    refine ⟨ph, ?_⟩
    rcases hworkers with hw | hw <;> rw [hw]
    · exact hph
    · exact (List.getElem?_append_left (List.getElem?_eq_some_iff.mp hph).1).trans hph
  · rw [hjobs]
    rcases hwork hi with hi | hpc
    · exact hs.applied i j ph hi hph
    · cases hpc

/-- A contained step of a run without a shutdown keeps everything that holds while the scheduler
is up. -/
theorem Upright.step {cfg : Config} {s u : State} {l : Label} (hs : Upright s)
    (h : step cfg s l = some u) (hl : l ≠ .control .shutdown)
    (hok : Uncontained cfg s l = false) : Upright u := by
  cases l with
  | client l => exact hs.client h
  | control l => exact hs.control_step h fun heq => hl (heq ▸ rfl)
  | worker t o => exact hs.worker h hok

/-- The end of a slice after an applied result settles its job, unless its budget ran out. -/
theorem Upright.settled {cfg : Config} {s u : State} {t : ℕ} {j : JobId} {raised : Option PyError}
    (hs : Upright s) (h : Orchestration.step cfg s (.worker t .go) = some u)
    (hpc : s.workers[t]? = some (.slice j (.ending raised)))
    (hok : Uncontained cfg s (.worker t .go) = false) : Settled u j := by
  obtain ⟨pc, pc', s', hpc', hmove, rfl⟩ := worker_move h
  cases Option.some.inj (hpc'.symm.trans hpc)
  obtain ⟨job, hjob, hne⟩ := hs.applied t j _ hpc rfl
  have hlast : job.status = .running → Outstanding s j := by
    intro hrunning
    by_contra hnone
    simp [Uncontained, hpc, leavesRunning, hjob, hrunning, hnone] at hok
  cases hmove
  refine ⟨job, hjob, ?_⟩
  cases hstatus : job.status with
  | pending => exact (hne hstatus).elim
  | waitingForInput => exact .inr (.inl rfl)
  | succeeded | failed | cancelled => exact .inl (by simp [Job.isTerminal, hstatus, JobStatus.isTerminal])
  | running =>
    refine .inr (.inr ((hlast hstatus).imp_right ?_))
    rintro ⟨i, pc, hi, hholds⟩
    have hit : i ≠ t := by
      rintro rfl
      cases Option.some.inj (hpc.symm.trans hi)
      cases hholds
    exact ⟨i, pc, (getElem?_setPc_ne hit _).trans hi, hholds⟩

/-- Everything that holds while the scheduler is up contains the step just taken. -/
theorem Upright.contained {cfg : Config} {s u : State} {l : Label} (hs : Upright s)
    (hu : Upright u) (h : Orchestration.step cfg s l = some u) (hok : Uncontained cfg s l = false) :
    Contained s l u := by
  refine ⟨fun hmem => ?_, hu.slots, fun t j raised hl hpc => ?_⟩
  · obtain ⟨i, hi⟩ := List.mem_iff_getElem?.mp hmem
    exact absurd (hu.sound i _ hi) (by simp [Pc.sound])
  · subst hl
    exact hs.settled h hpc hok

/-- A constructed scheduler has no thread and an empty queue. -/
theorem Upright.initial : Upright State.initial :=
  ⟨rfl, fun _ h => (nomatch h), fun h => (nomatch h), fun _ _ hi => (nomatch hi),
    fun _ _ hj => (nomatch hj), fun _ _ _ hi => (nomatch hi)⟩

/-- In every run without a shutdown whose steps stay out of the uncontained branches, no worker
ever exits, every claimed slot is inside its slice, and every slice ends with its job settled. -/
theorem contained_run (cfg : Config) (labels : List Label)
    (hup : Label.control .shutdown ∉ labels)
    (hok : AllSteps (step cfg) (fun s l _ => Uncontained cfg s l = false) .initial labels) :
    AllSteps (step cfg) Contained .initial labels := by
  have hboth := hok.and_labels (· ≠ .control .shutdown)
    fun l hl heq => hup (heq ▸ hl)
  refine hboth.imp Upright (fun s l u hs hstep ⟨hl, hcontained⟩ => ?_) .initial
  have hu := hs.step hstep hl hcontained
  exact ⟨hs.contained hu hstep hcontained, hu⟩

/-- An exception let out of `drive_job` puts its slice on the way out. -/
theorem raisesOut_ending {cfg : Config} {s u : State} {t : ℕ} {pc : Pc} {o : Outcome}
    (h : step cfg s (.worker t o) = some u) (hpc : s.workers[t]? = some pc)
    (hraises : raisesOut cfg s pc o = true) :
    ∃ j e, u.workers[t]? = some (.slice j (.ending (some e))) := by
  obtain ⟨pc', next, s', hpc', hmove, rfl⟩ := worker_move h
  cases Option.some.inj (hpc'.symm.trans hpc)
  rw [getElem?_setPc_self (hmove.frame.1 ▸ hpc)]
  cases hmove with
  | before_raised j e | publish_raised j _ _ e | after_raised j _ e | run_raised j _ e
  | publish_propagate j _ _ e => exact ⟨j, _, rfl⟩
  | run_returned j job r hjob hstart =>
    simp only [raisesOut, hjob, Option.any_some, Bool.and_eq_true, decide_eq_true_eq,
      Bool.not_eq_true'] at hraises
    simp [runnerStart, hraises] at hstart
  | run_ticking j job left logical hjob hstart =>
    simp only [raisesOut, hjob, Option.any_some, Bool.and_eq_true, decide_eq_true_eq,
      Bool.not_eq_true'] at hraises
    simp [runnerStart, hraises] at hstart
  | publish_done j r origin hdone => rcases hdone with hp | he <;> simp [raisesOut, *] at hraises
  | _ => cases hraises

/-- Two more steps of a worker on its way out of `drive_job` end its thread, so no step that lets
an exception out could be left out of the condition. -/
theorem ending_exits {cfg : Config} {s : State} {t : ℕ} {j : JobId} {e : PyError}
    (h : s.workers[t]? = some (.slice j (.ending (some e)))) :
    ∃ u, runSteps (step cfg) s [.worker t .go, .worker t .go] = some u ∧
      u.workers[t]? = some .exited := by
  have hfinish : (s.setPc t (.finish j (some e))).workers[t]? = some (.finish j (some e)) :=
    getElem?_setPc_self h _
  refine ⟨(((s.setDriving j none).setPc t (.finish j (some e))).taskDone).setPc t .exited, ?_,
    getElem?_setPc_self (s := ((s.setDriving j none).setPc t (.finish j (some e))).taskDone)
      hfinish _⟩
  have hfirst : step cfg s (.worker t .go) =
      some ((s.setDriving j none).setPc t (.finish j (some e))) := by
    simp [step, h, workerStep, sliceStep]
  have hsecond : step cfg ((s.setDriving j none).setPc t (.finish j (some e))) (.worker t .go) =
      some ((((s.setDriving j none).setPc t (.finish j (some e))).taskDone).setPc t .exited) := by
    change (((s.setPc t (.finish j (some e))).workers[t]?).bind _) = _
    simp [hfinish, workerStep]
  simp [runSteps, hfirst, hsecond]

/-- The end of a slice which leaves its job running with no other item does not settle it. -/
theorem leavesRunning_not_settled {cfg : Config} {s u : State} {t : ℕ} {j : JobId}
    {raised : Option PyError} (h : step cfg s (.worker t .go) = some u)
    (hpc : s.workers[t]? = some (.slice j (.ending raised)))
    (hleaves : leavesRunning s (.slice j (.ending raised)) .go = true) : ¬ Settled u j := by
  obtain ⟨pc, pc', s', hpc', hmove, rfl⟩ := worker_move h
  cases Option.some.inj (hpc'.symm.trans hpc)
  obtain ⟨hrunning, hnone⟩ := Bool.and_eq_true_iff.mp hleaves
  obtain ⟨job, hjob, hstatus⟩ := (Option.any_eq_true _ _).mp hrunning
  simp only [decide_eq_true_eq] at hnone hstatus
  cases hmove
  rintro ⟨other, hother, hsettled⟩
  cases Option.some.inj (hjob.symm.trans hother)
  rcases hsettled with hterm | hwait | hout
  · simp [Job.isTerminal, hstatus, JobStatus.isTerminal] at hterm
  · simp [hstatus] at hwait
  · refine hnone (hout.imp_right ?_)
    rintro ⟨i, pc, hi, hholds⟩
    rcases getElem?_setPc hi with ⟨rfl, rfl⟩ | ⟨-, hi⟩
    · cases hholds
    · exact ⟨i, pc, hi, hholds⟩

/-- One worker starts, takes a submitted job and reaches its tick loop. -/
def firstSlice : List Label :=
  [.control .start, .control .spawn, .control .started, .client (.submit "j" true),
    .client (.enqueue "j"), .worker 0 .go, .worker 0 .go, .worker 0 .go, .worker 0 .go,
    .worker 0 .go, .worker 0 .go]

/-- The rest of a slice after its last tick. -/
def restOfSlice : List Label :=
  [.worker 0 .go, .worker 0 .go, .worker 0 .go, .worker 0 .go, .worker 0 .go]

/-- A slice that parks its job for input and the next one, which ends it, meet the condition. -/
theorem contained_run_parked :
    AllSteps (step ⟨1, 10000, 128, by decide⟩) Contained .initial
      (firstSlice ++ .worker 0 (.tick .waiting) :: restOfSlice) :=
  contained_run _ _ (by decide) (by decide)

/-- A pattern that raises ends the only worker, and a slice out of budget leaves its job running
with nothing queued. -/
theorem contained_run_fails :
    ¬ ∀ (cfg : Config) (labels : List Label), Label.control .shutdown ∉ labels →
      AllSteps (step cfg) Contained .initial labels := by
  intro h
  have halive : AllSteps (step ⟨1, 10000, 128, by decide⟩) (fun _ _ u => Pc.exited ∉ u.workers)
      .initial (firstSlice ++ .worker 0 (.tick (.raised "boom")) :: restOfSlice) :=
    (h _ _ (by decide)).mono fun _ _ _ hc => hc.alive
  revert halive
  decide

end PalmEngine.Orchestration
