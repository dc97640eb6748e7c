import PalmEngine.Orchestration.Containment

/-!
# The limit on concurrent jobs

A submission raises when the registry of the engine has as many jobs as the limit allows. No step
of a run takes a job out of the registry, whatever becomes of the job, so the limit is one on all
jobs that were submitted. It agrees with the number of unfinished jobs only as long as the
registry is below the limit or the unfinished jobs alone have reached it.

The shutdown that empties the registry ends a run.
-/

namespace PalmEngine.Orchestration

open PalmEngine.Lib

/-- Why a submission raises. -/
inductive SubmitError where
  | maximumReached (limit : ℕ)
  | alreadyExists (j : JobId)
  deriving DecidableEq, Repr

/-- The checks of a submission under the lock, in their order. -/
def submitError (cfg : Config) (s : State) (j : JobId) : Option SubmitError :=
  if cfg.maxConcurrentJobs ≤ s.jobCount then some (.maximumReached cfg.maxConcurrentJobs)
  else if (s.jobs j).isSome then some (.alreadyExists j)
  else none

/-- A submission is a step of the engine exactly when no check raises. -/
theorem submitError_eq_none_iff (cfg : Config) (s : State) {j : JobId} (hj : j ≠ "")
    (isPattern : Bool) :
    submitError cfg s j = none ↔ (step cfg s (.client (.submit j isPattern))).isSome := by
  change _ ↔ (clientStep cfg s (.submit j isPattern)).isSome
  by_cases hlimit : cfg.maxConcurrentJobs ≤ s.jobCount
  · simp [submitError, clientStep, hlimit, Nat.not_lt.mpr hlimit]
  · cases hjob : s.jobs j <;> simp [submitError, clientStep, hlimit, hjob, hj, Nat.not_le.mp hlimit]

/-- The job that a step submits. -/
def Label.submitted? : Label → Option JobId
  | .client (.submit j _) => some j
  | _ => none

/-- The jobs that were submitted in a run. -/
def submittedJobs (labels : List Label) : List JobId := labels.filterMap Label.submitted?

/-- How many of the jobs that were submitted in a run have not reached a terminal status. -/
def unfinishedJobs (labels : List Label) (s : State) : ℕ :=
  (submittedJobs labels).countP fun j => (s.jobs j).any fun job => !job.isTerminal

/-- No more jobs are unfinished than were submitted. -/
theorem unfinishedJobs_le (labels : List Label) (s : State) :
    unfinishedJobs labels s ≤ (submittedJobs labels).length :=
  List.countP_le_length

section JobCount

variable {cfg : Config} {s u : State}

/-- A worker leaves the registry as large as it was. -/
theorem Move.jobCount {t : ℕ} {pc pc' : Pc} {o : Outcome} (h : Move cfg s t pc o pc' u) :
    u.jobCount = s.jobCount := by
  cases h <;> rfl

/-- Of the calls of clients only a submission makes the registry larger, by one job. -/
theorem clientStep_jobCount {l : ClientLabel} (h : clientStep cfg s l = some u) :
    u.jobCount = s.jobCount + (Label.client l).submitted?.toList.length := by
  cases l with
  | submit j isPattern =>
    simp only [clientStep] at h
    split at h <;> cases h
    rfl
  | enqueue j =>
    simp only [clientStep] at h
    split at h <;> cases h
    rfl
  | deliver j | resume j =>
    obtain ⟨job, -, rfl⟩ := Option.map_eq_some_iff.mp h
    rfl
  | advance c =>
    obtain ⟨call, -, h⟩ := Option.bind_eq_some_iff.mp h
    unfold State.advanceCall at h
    split at h
    · cases h
      rfl
    · obtain ⟨job, -, rfl⟩ := Option.map_eq_some_iff.mp h
      split <;> rfl
  | abort c =>
    obtain ⟨call, -, h⟩ := Option.bind_eq_some_iff.mp h
    split at h <;> cases h
    rfl
  | cancel j | failOwner j e =>
    obtain ⟨job, -, h⟩ := Option.bind_eq_some_iff.mp h
    split at h <;> cases h
    rfl

/-- Starting and stopping leave the registry as large as it was. -/
theorem controlStep_jobCount {l : ControlLabel} (h : controlStep cfg s l = some u) :
    u.jobCount = s.jobCount := by
  cases l <;> simp only [controlStep] at h <;> split at h <;> cases h <;> rfl

/-- A step makes the registry larger by the job it submits. -/
theorem step_jobCount {l : Label} (h : step cfg s l = some u) :
    u.jobCount = s.jobCount + l.submitted?.toList.length := by
  cases l with
  | client l => exact clientStep_jobCount h
  | control l => exact controlStep_jobCount h
  | worker t o =>
    obtain ⟨pc, pc', s', -, hmove, rfl⟩ := worker_move h
    exact hmove.jobCount

/-- The registry has grown by all jobs that were submitted. -/
theorem jobCount_of_run {labels : List Label} (h : runSteps (step cfg) s labels = some u) :
    u.jobCount = s.jobCount + (submittedJobs labels).length := by
  induction labels generalizing s with
  | nil =>
    obtain rfl := Option.some.inj h
    rfl
  | cons l rest ih =>
    obtain ⟨t, ht, hrest⟩ := runSteps_cons h
    rw [ih hrest, step_jobCount ht, submittedJobs, submittedJobs, List.filterMap_cons]
    cases l.submitted? with
    | none => simp
    | some j =>
      simp only [Option.toList_some, List.length_cons, List.length_nil]
      omega

end JobCount

/-- A submission raises the error of the limit exactly when as many jobs are unfinished as the
limit allows. -/
def LimitsUnfinished (cfg : Config) (labels : List Label) (s : State) : Prop :=
  ∀ j, submitError cfg s j = some (.maximumReached cfg.maxConcurrentJobs) ↔
    cfg.maxConcurrentJobs ≤ unfinishedJobs labels s

/-- The error of the limit is raised exactly when as many jobs were submitted as it allows. -/
theorem submitError_maximum_iff {cfg : Config} {labels : List Label} {s : State}
    (h : runSteps (step cfg) .initial labels = some s) (j : JobId) :
    submitError cfg s j = some (.maximumReached cfg.maxConcurrentJobs) ↔
      cfg.maxConcurrentJobs ≤ (submittedJobs labels).length := by
  have hcount : s.jobCount = (submittedJobs labels).length := by
    simpa [State.initial] using jobCount_of_run h
  rw [submitError, hcount]
  by_cases hlimit : cfg.maxConcurrentJobs ≤ (submittedJobs labels).length
  · simp [hlimit]
  · simp only [hlimit, if_false, iff_false]
    split <;> simp

/-- In every state that a run reaches, the limit is one on the unfinished jobs exactly as long as
fewer jobs were submitted than it allows, or no fewer are unfinished. -/
theorem limitsUnfinished_run_iff (cfg : Config) (labels : List Label) {s : State}
    (h : runSteps (step cfg) .initial labels = some s) :
    LimitsUnfinished cfg labels s ↔
      (submittedJobs labels).length < cfg.maxConcurrentJobs ∨
        cfg.maxConcurrentJobs ≤ unfinishedJobs labels s := by
  have hle := unfinishedJobs_le labels s
  constructor
  · intro hlimits
    have hiff := (submitError_maximum_iff h "").symm.trans (hlimits "")
    by_cases hlimit : cfg.maxConcurrentJobs ≤ (submittedJobs labels).length
    · exact .inr (hiff.mp hlimit)
    · exact .inl (Nat.not_le.mp hlimit)
  · intro hcond j
    rw [submitError_maximum_iff h j]
    omega

/-- One job is submitted and reaches its tick loop: it is unfinished, and the limit is one. -/
theorem limitsUnfinished_run_iff_running :
    ∃ s, runSteps (step ⟨1, 10000, 1, by decide⟩) .initial firstSlice = some s ∧
      LimitsUnfinished ⟨1, 10000, 1, by decide⟩ firstSlice s := by
  have hrun : ((runSteps (step ⟨1, 10000, 1, by decide⟩) .initial firstSlice).any fun s =>
      decide (1 ≤ unfinishedJobs firstSlice s)) = true := by
    decide
  obtain ⟨s, hs, hopen⟩ := (Option.any_eq_true _ _).mp hrun
  exact ⟨s, hs, (limitsUnfinished_run_iff _ _ hs).mpr (.inr (of_decide_eq_true hopen))⟩

/-- One job is submitted and succeeds: nothing is unfinished, and no other job is let in. -/
theorem limitsUnfinished_run_fails :
    ∃ s, runSteps (step ⟨1, 10000, 1, by decide⟩) .initial
        (firstSlice ++ .worker 0 (.tick (.success none)) :: restOfSlice) = some s ∧
      ¬LimitsUnfinished ⟨1, 10000, 1, by decide⟩
        (firstSlice ++ .worker 0 (.tick (.success none)) :: restOfSlice) s := by
  have hrun : ((runSteps (step ⟨1, 10000, 1, by decide⟩) .initial
      (firstSlice ++ .worker 0 (.tick (.success none)) :: restOfSlice)).any fun s =>
        decide (submitError ⟨1, 10000, 1, by decide⟩ s "k" = some (.maximumReached 1) ∧
          unfinishedJobs (firstSlice ++ .worker 0 (.tick (.success none)) :: restOfSlice) s = 0)) =
      true := by
    decide
  obtain ⟨s, hs, hfacts⟩ := (Option.any_eq_true _ _).mp hrun
  obtain ⟨hraises, hopen⟩ := of_decide_eq_true hfacts
  refine ⟨s, hs, fun hlimits => ?_⟩
  have hle := (hlimits "k").mp hraises
  rw [hopen] at hle
  exact absurd hle (by decide)

end PalmEngine.Orchestration
