import PalmEngine.Lib.Pool
import PalmEngine.Orchestration.Job

/-!
# The calls that end a job

Calls of `apply_result`, of `cancel_job` and of the cancelling part of `stop` on one job, by any
number of threads. A turn of a call is one read of the job, the locked part of `apply_result`, one
publication or the call of the status hooks. Whether an event engine takes an event, and what
raises, is part of a call; so are the instance the job belongs to and a mode that leaves cancelling
as it is. A publication that raises has reached no handler.
-/

namespace PalmEngine.Orchestration

open PalmEngine.Lib

/-- An event about the job. -/
inductive JobEvent where
  | statusChanged (status : JobStatus)
  | instanceStatusChanged (status : JobStatus)
  | completed (status : JobStatus)
  | flowSession (status : JobStatus)
  | cancelled
  deriving DecidableEq, Repr

/-- What a publication does, and the call of the hooks. -/
inductive Publication where
  | emitted
  | silent
  | raised
  deriving DecidableEq, Repr

/-- What a call does at its next turn. -/
inductive Stage where
  | checkTerminal
  | checkRunning
  | cancelMode
  | apply
  | statusChanged
  | instanceStatusChanged
  | isTerminal
  | completed
  | flowSession
  | hooks
  | cancelled
  | returned
  deriving DecidableEq, Repr

/-- The job and the events published about it. -/
structure JobBoard where
  job : Job
  events : List JobEvent := []

/-- A call in progress. -/
structure EndingCall where
  result : RunResult
  cancels : Bool
  stage : Stage
  publication : Stage → Publication

/-- What is called. -/
inductive EndingRequest where
  | applyResult (result : RunResult)
  | cancelJob
  | stop
  deriving DecidableEq, Repr

/-- A call begins. -/
def EndingRequest.begin (publication : Stage → Publication) : EndingRequest → EndingCall
  | applyResult result => ⟨result, false, .apply, publication⟩
  | cancelJob => ⟨{ status := .cancelled }, true, .checkTerminal, publication⟩
  | stop => ⟨{ status := .cancelled }, true, .checkRunning, publication⟩

namespace EndingCall

/-- The call goes on to a stage. -/
def goTo (c : EndingCall) (stage : Stage) : EndingCall := { c with stage := stage }

/-- Publish an event, if there is an engine to take it. -/
def publish (c : EndingCall) (b : JobBoard) (event : JobEvent) (next : Stage) :
    JobBoard × EndingCall :=
  match c.publication c.stage with
  | .emitted => (⟨b.job, b.events ++ [event]⟩, c.goTo next)
  | .silent => (b, c.goTo next)
  | .raised => (b, c.goTo .returned)

/-- After `apply_result` a cancelling call announces that the job is cancelled. -/
def afterApply (c : EndingCall) : Stage := if c.cancels then .cancelled else .returned

/-- Whether the call of the hooks or the result itself makes `apply_result` raise. -/
def raises (c : EndingCall) : Bool :=
  c.publication .hooks = .raised || (c.result.propagate && c.result.error.isSome)

/-- A turn of a call. -/
def move (b : JobBoard) (c : EndingCall) : Option (JobBoard × EndingCall) :=
  match c.stage with
  | .checkTerminal =>
    some (b, c.goTo (if b.job.isTerminal then .returned else .cancelMode))
  | .checkRunning =>
    some (b, c.goTo (if b.job.status = .running then .cancelMode else .returned))
  | .cancelMode => some (b, c.goTo (if b.job.isTerminal then .cancelled else .apply))
  | .apply =>
    match applyLocked b.job c.result with
    | .ignored => some (b, c.goTo c.afterApply)
    | .invalid _ => some (b, c.goTo .returned)
    | .applied job => some (⟨job, b.events⟩, c.goTo .statusChanged)
  | .statusChanged =>
    some (c.publish b (.statusChanged b.job.status) .instanceStatusChanged)
  | .instanceStatusChanged =>
    some (c.publish b (.instanceStatusChanged b.job.status) .isTerminal)
  | .isTerminal => some (b, c.goTo (if b.job.isTerminal then .completed else .hooks))
  | .completed => some (c.publish b (.completed b.job.status) .flowSession)
  | .flowSession =>
    if b.job.status = .succeeded ∨ b.job.status = .failed then
      some (c.publish b (.flowSession b.job.status) .hooks)
    else some (b, c.goTo .hooks)
  | .hooks => some (b, c.goTo (if c.raises then .returned else c.afterApply))
  | .cancelled => some (c.publish b .cancelled .returned)
  | .returned => none

end EndingCall

/-- A pending job of which nothing has been published, and the calls on it. -/
def submitted (id : JobId) (isPattern : Bool)
    (requests : List (EndingRequest × (Stage → Publication))) : Pool JobBoard EndingCall :=
  ⟨{ job := { id, isPattern } }, requests.map fun r => r.1.begin r.2⟩

/-- The statuses that completions carry. -/
def completions : List JobEvent → List JobStatus
  | [] => []
  | .completed status :: rest => status :: completions rest
  | .statusChanged _ :: rest | .instanceStatusChanged _ :: rest | .flowSession _ :: rest
  | .cancelled :: rest => completions rest

/-- The statuses that ends of flow sessions carry. -/
def sessionEnds : List JobEvent → List JobStatus
  | [] => []
  | .flowSession status :: rest => status :: sessionEnds rest
  | .statusChanged _ :: rest | .instanceStatusChanged _ :: rest | .completed _ :: rest
  | .cancelled :: rest => sessionEnds rest

/-- Whether the job is of a flow session that has ended. -/
def JobBoard.sessionEnded (b : JobBoard) : Bool :=
  b.job.status = .succeeded || b.job.status = .failed

namespace EndingCall

/-- The call has been through the lock, or it cancels, and it has not returned. -/
def InProgress (c : EndingCall) : Prop :=
  c.stage ≠ .checkTerminal ∧ c.stage ≠ .checkRunning ∧ c.stage ≠ .apply ∧ c.stage ≠ .returned

/-- The call has published the end of the job or is about to: it ended the job and is on its way,
or it has read that the job has ended. -/
def completes (c : EndingCall) : Bool :=
  c.result.status.isTerminal && (c.stage = .statusChanged || c.stage = .instanceStatusChanged ||
    c.stage = .isTerminal) || c.stage = .completed

/-- The call is about to publish the end of a flow session. -/
def endsSession (c : EndingCall) : Bool := c.completes || c.stage = .flowSession

/-- The call has found that it may cancel the job, and has not returned. -/
def cancelling (c : EndingCall) : Bool :=
  c.cancels && c.stage ≠ .checkTerminal && c.stage ≠ .checkRunning && c.stage ≠ .returned

/-- A result is applied again to a job that has ended with its status. -/
def Repeats (b : JobBoard) (c : EndingCall) : Prop :=
  c.stage = .apply ∧ b.job.isTerminal = true ∧ c.result.status = b.job.status

/-- A call that did not end the job reads that the job has ended before it has published. -/
def Overtaken (b : JobBoard) (c : EndingCall) : Prop :=
  c.stage = .isTerminal ∧ b.job.isTerminal = true ∧ c.result.status.isTerminal = false

/-- A call that cancels finds that the job has ended otherwise since its first check. -/
def TooLate (b : JobBoard) (c : EndingCall) : Prop :=
  c.cancels = true ∧ (c.stage = .cancelMode ∨ c.stage = .apply) ∧ b.job.isTerminal = true ∧
    b.job.status ≠ .cancelled

/-- The first check of a call that cancels passes. -/
def Begins (b : JobBoard) (c : EndingCall) : Prop :=
  c.stage = .checkTerminal ∧ b.job.isTerminal = false ∨
    c.stage = .checkRunning ∧ b.job.status = .running

/-- The first check of a call that cancels passes while another one is cancelling. -/
def Second (pool : Pool JobBoard EndingCall) (c : EndingCall) : Prop :=
  c.Begins pool.shared ∧ ∃ d ∈ pool.procs, d.cancelling = true

/-- No event engine takes the end of the job, or an exception keeps it from being published. -/
def Cut (b : JobBoard) (c : EndingCall) : Prop :=
  (c.stage = .statusChanged ∨ c.stage = .instanceStatusChanged) ∧
      c.result.status.isTerminal = true ∧ c.publication c.stage = .raised ∨
    c.stage = .completed ∧ c.publication c.stage ≠ .emitted ∨
    c.stage = .flowSession ∧ b.sessionEnded = true ∧ c.publication c.stage ≠ .emitted

instance (b : JobBoard) (c : EndingCall) : Decidable (c.Repeats b) :=
  inferInstanceAs (Decidable (_ ∧ _))

instance (b : JobBoard) (c : EndingCall) : Decidable (c.Overtaken b) :=
  inferInstanceAs (Decidable (_ ∧ _))

instance (b : JobBoard) (c : EndingCall) : Decidable (c.TooLate b) :=
  inferInstanceAs (Decidable (_ ∧ _))

instance (b : JobBoard) (c : EndingCall) : Decidable (c.Begins b) :=
  inferInstanceAs (Decidable (_ ∨ _))

instance (pool : Pool JobBoard EndingCall) (c : EndingCall) : Decidable (c.Second pool) :=
  inferInstanceAs (Decidable (_ ∧ _))

instance (b : JobBoard) (c : EndingCall) : Decidable (c.Cut b) :=
  inferInstanceAs (Decidable (_ ∨ _))

/-- The call has found that the job has ended, or has ended it, and has not returned. -/
def late (c : EndingCall) : Bool :=
  c.endsSession || c.stage = .cancelled || c.cancels && c.stage = .hooks

/-- A call that cancels has the result for it, and only such a call has the stages before and after
`apply_result`. -/
def WellFormed (c : EndingCall) : Prop :=
  (c.cancels = true → c.result = { status := .cancelled }) ∧
    (c.stage = .checkTerminal ∨ c.stage = .checkRunning ∨ c.stage = .cancelMode ∨
      c.stage = .cancelled → c.cancels = true)

/-- There is an event engine and nothing raises. Without an instance no event about it is
published. -/
def Smooth (c : EndingCall) : Prop :=
  ∀ stage, c.publication stage ≠ .raised ∧
    (stage ≠ .instanceStatusChanged → c.publication stage = .emitted)

/-- A turn takes none of the branches that go wrong. -/
def InOrder (pool : Pool JobBoard EndingCall) (c : EndingCall) : Prop :=
  ¬ c.Repeats pool.shared ∧ ¬ c.Overtaken pool.shared ∧ ¬ c.TooLate pool.shared ∧
    ¬ c.Second pool ∧ ¬ c.Cut pool.shared

instance (pool : Pool JobBoard EndingCall) (c : EndingCall) : Decidable (c.InOrder pool) :=
  inferInstanceAs (Decidable (_ ∧ _))

/-- What a call publishes at a stage, and the stage after it. -/
inductive Publishes (b : JobBoard) (c : EndingCall) : JobEvent → Stage → Prop
  | statusChanged : c.stage = .statusChanged →
      Publishes b c (.statusChanged b.job.status) .instanceStatusChanged
  | instanceStatusChanged : c.stage = .instanceStatusChanged →
      Publishes b c (.instanceStatusChanged b.job.status) .isTerminal
  | completed : c.stage = .completed → Publishes b c (.completed b.job.status) .flowSession
  | flowSession : c.stage = .flowSession → b.sessionEnded = true →
      Publishes b c (.flowSession b.job.status) .hooks
  | cancelled : c.stage = .cancelled → Publishes b c .cancelled .returned

/-- A turn, case by case: the board after it and the stage the call goes on to. -/
inductive Turn (b : JobBoard) (c : EndingCall) : JobBoard → Stage → Prop
  | checkTerminal_ended : c.stage = .checkTerminal → b.job.isTerminal = true → Turn b c b .returned
  | checkRunning_not : c.stage = .checkRunning → b.job.status ≠ .running → Turn b c b .returned
  | begins : c.Begins b → Turn b c b .cancelMode
  | cancelMode_ended : c.stage = .cancelMode → b.job.isTerminal = true → Turn b c b .cancelled
  | cancelMode_live : c.stage = .cancelMode → b.job.isTerminal = false → Turn b c b .apply
  | apply_ignored : c.stage = .apply → applyLocked b.job c.result = .ignored →
      Turn b c b c.afterApply
  | apply_invalid (e : PyError) : c.stage = .apply → applyLocked b.job c.result = .invalid e →
      Turn b c b .returned
  | apply_applied (job : Job) : c.stage = .apply → applyLocked b.job c.result = .applied job →
      Turn b c ⟨job, b.events⟩ .statusChanged
  | emitted (event : JobEvent) (next : Stage) : c.Publishes b event next →
      c.publication c.stage = .emitted → Turn b c ⟨b.job, b.events ++ [event]⟩ next
  | silent (event : JobEvent) (next : Stage) : c.Publishes b event next →
      c.publication c.stage = .silent → Turn b c b next
  | raised (event : JobEvent) (next : Stage) : c.Publishes b event next →
      c.publication c.stage = .raised → Turn b c b .returned
  | isTerminal_ended : c.stage = .isTerminal → b.job.isTerminal = true → Turn b c b .completed
  | isTerminal_live : c.stage = .isTerminal → b.job.isTerminal = false → Turn b c b .hooks
  | flowSession_not : c.stage = .flowSession → b.sessionEnded = false → Turn b c b .hooks
  | hooks_raised : c.stage = .hooks → c.raises = true → Turn b c b .returned
  | hooks_done : c.stage = .hooks → c.raises = false → Turn b c b c.afterApply

variable {b b' : JobBoard} {c c' : EndingCall}

/-- A publication ends in one of three ways. -/
theorem publish_turn {event : JobEvent} {next : Stage} (hp : c.Publishes b event next)
    (h : c.publish b event next = (b', c')) : ∃ stage, Turn b c b' stage ∧ c' = c.goTo stage := by
  unfold publish at h
  split at h
  · cases h
    exact ⟨next, .emitted event next hp ‹_›, rfl⟩
  · cases h
    exact ⟨next, .silent event next hp ‹_›, rfl⟩
  · cases h
    exact ⟨.returned, .raised event next hp ‹_›, rfl⟩

/-- Inversion of a turn. -/
theorem move_turn (h : c.move b = some (b', c')) : ∃ stage, Turn b c b' stage ∧ c' = c.goTo stage := by
  unfold move at h
  split at h
  · rename_i hstage
    cases h
    refine ⟨_, ?_, rfl⟩
    split
    · exact .checkTerminal_ended hstage ‹_›
    · exact .begins (.inl ⟨hstage, Bool.eq_false_iff.mpr ‹_›⟩)
  · rename_i hstage
    cases h
    refine ⟨_, ?_, rfl⟩
    split
    · exact .begins (.inr ⟨hstage, ‹_›⟩)
    · exact .checkRunning_not hstage ‹_›
  · rename_i hstage
    cases h
    refine ⟨_, ?_, rfl⟩
    split
    · exact .cancelMode_ended hstage ‹_›
    · exact .cancelMode_live hstage (Bool.eq_false_iff.mpr ‹_›)
  · rename_i hstage
    split at h
    · cases h
      exact ⟨_, .apply_ignored hstage ‹_›, rfl⟩
    · cases h
      exact ⟨_, .apply_invalid _ hstage ‹_›, rfl⟩
    · cases h
      exact ⟨_, .apply_applied _ hstage ‹_›, rfl⟩
  · exact publish_turn (.statusChanged ‹_›) (Option.some.inj h)
  · exact publish_turn (.instanceStatusChanged ‹_›) (Option.some.inj h)
  · rename_i hstage
    cases h
    refine ⟨_, ?_, rfl⟩
    split
    · exact .isTerminal_ended hstage ‹_›
    · exact .isTerminal_live hstage (Bool.eq_false_iff.mpr ‹_›)
  · exact publish_turn (.completed ‹_›) (Option.some.inj h)
  · rename_i hstage
    split at h
    · rename_i hended
      exact publish_turn (.flowSession hstage (by simpa [JobBoard.sessionEnded] using hended))
        (Option.some.inj h)
    · rename_i hnot
      cases h
      exact ⟨_, .flowSession_not hstage (by simpa [JobBoard.sessionEnded] using hnot), rfl⟩
  · rename_i hstage
    cases h
    refine ⟨_, ?_, rfl⟩
    split
    · exact .hooks_raised hstage ‹_›
    · exact .hooks_done hstage (Bool.eq_false_iff.mpr ‹_›)
  · exact publish_turn (.cancelled ‹_›) (Option.some.inj h)
  · cases h

/-- A job that has ended keeps its status. -/
theorem Turn.status_eq {stage : Stage} (h : Turn b c b' stage) (hended : b.job.isTerminal = true) :
    b'.job.status = b.job.status := by
  cases h with
  | apply_applied job hstage happlied => exact (applyLocked_applied happlied).2.2 hended
  | _ => rfl

/-- A job that has ended is not changed at all, unless its status is applied again. -/
theorem Turn.job_eq {stage : Stage} (h : Turn b c b' stage) (hended : b.job.isTerminal = true)
    (hrepeats : ¬ c.Repeats b) : b'.job = b.job := by
  cases h with
  | apply_applied job hstage happlied =>
    obtain ⟨hstatus, -, heq⟩ := applyLocked_applied happlied
    exact absurd ⟨hstage, hended, (hstatus.symm.trans (heq hended))⟩ hrepeats
  | _ => rfl

@[simp] theorem completions_append (events : List JobEvent) (event : JobEvent) :
    completions (events ++ [event]) = completions events ++ completions [event] := by
  induction events with
  | nil => rfl
  | cons e rest ih => cases e <;> simp [completions, ih]

@[simp] theorem sessionEnds_append (events : List JobEvent) (event : JobEvent) :
    sessionEnds (events ++ [event]) = sessionEnds events ++ sessionEnds [event] := by
  induction events with
  | nil => rfl
  | cons e rest ih => cases e <;> simp [sessionEnds, ih]

/-- A count of one or none. -/
def count (p : Bool) : ℕ := if p then 1 else 0

/-- Where no result is applied, no completion is published and nothing is read, a turn changes
nothing about the completions. -/
private theorem completes_count {stage : Stage} (hstage : c.stage ≠ .apply)
    (hread : c.stage ≠ .isTerminal) (heq : (c.goTo stage).completes = c.completes) :
    (completions b.events).length + count (c.goTo stage).completes + count b.job.isTerminal =
      (completions b.events).length + count c.completes + count b.job.isTerminal +
        count (decide (c.Repeats b ∨ c.Overtaken b)) := by
  have hnot : ¬ (c.Repeats b ∨ c.Overtaken b) := by
    rintro (h | h)
    · exact hstage h.1
    · exact hread h.1
  rw [heq, decide_eq_false hnot]
  rfl

/-- The completions published and to be published are as many as before, and one more if the turn
ends the job, applies its status again or has been overtaken. -/
theorem Turn.completions_length {stage : Stage} (h : Turn b c b' stage) (hcut : ¬ c.Cut b)
    (hlive : b.job.isTerminal = false → c.completes = false) :
    (completions b'.events).length + count (c.goTo stage).completes + count b.job.isTerminal =
      (completions b.events).length + count c.completes + count b'.job.isTerminal +
        count (decide (c.Repeats b ∨ c.Overtaken b)) := by
  cases h with
  | checkTerminal_ended hstage | checkRunning_not hstage | cancelMode_ended hstage
  | cancelMode_live hstage | flowSession_not hstage | hooks_raised hstage =>
    exact completes_count (by simp [hstage]) (by simp [hstage]) (by simp [completes, goTo, hstage])
  | begins hbegins =>
    rcases hbegins with ⟨hstage, -⟩ | ⟨hstage, -⟩ <;>
      exact completes_count (by simp [hstage]) (by simp [hstage])
        (by simp [completes, goTo, hstage])
  | hooks_done hstage =>
    refine completes_count (by simp [hstage]) (by simp [hstage]) ?_
    unfold afterApply
    split <;> simp [completes, goTo, hstage]
  | isTerminal_ended hstage hended =>
    cases hstatus : c.result.status.isTerminal <;>
      simp [count, completes, goTo, Repeats, Overtaken, hstage, hended, hstatus]
  | isTerminal_live hstage hended =>
    rw [hlive hended]
    simp [count, completes, goTo, Repeats, Overtaken, hstage, hended]
  | apply_ignored hstage hignored =>
    obtain ⟨-, hne⟩ := applyLocked_ignored hignored
    unfold afterApply
    split <;> simp [count, completes, goTo, Repeats, Overtaken, hstage, hne]
  | apply_invalid e hstage hinvalid =>
    have hne : c.result.status ≠ b.job.status := by
      intro heq
      simp [applyLocked, heq] at hinvalid
    simp [count, completes, goTo, Repeats, Overtaken, hstage, hne]
  | apply_applied job hstage happlied =>
    obtain ⟨hstatus, -, hkept⟩ := applyLocked_applied happlied
    have hterminal : job.isTerminal = c.result.status.isTerminal := by
      rw [Job.isTerminal, hstatus]
    cases hended : b.job.isTerminal with
    | true =>
      have heq : c.result.status = b.job.status := hstatus.symm.trans (hkept hended)
      have hresult : c.result.status.isTerminal = true := by
        rw [heq]
        exact hended
      simp [count, completes, goTo, Repeats, Overtaken, hstage, hended, hterminal, heq]
    | false =>
      simp [count, completes, goTo, Repeats, Overtaken, hstage, hended, hterminal]
  | emitted event next hp hemitted =>
    cases hp with
    | statusChanged hstage | instanceStatusChanged hstage | completed hstage
    | flowSession hstage | cancelled hstage =>
      simp [count, completes, goTo, Repeats, Overtaken, hstage, completions]
  | silent event next hp hsilent =>
    cases hp with
    | completed hstage => exact absurd (.inr (.inl ⟨hstage, by simp [hsilent]⟩)) hcut
    | statusChanged hstage | instanceStatusChanged hstage | flowSession hstage
    | cancelled hstage =>
      simp [count, completes, goTo, Repeats, Overtaken, hstage]
  | raised event next hp hraised =>
    cases hp with
    | statusChanged hstage | instanceStatusChanged hstage =>
      have hresult : c.result.status.isTerminal = false := by
        by_contra hnot
        exact hcut (.inl ⟨by simp [hstage], by simpa using hnot, hraised⟩)
      simp [count, completes, goTo, Repeats, Overtaken, hstage, hresult]
    | completed hstage => exact absurd (.inr (.inl ⟨hstage, by simp [hraised]⟩)) hcut
    | flowSession hstage | cancelled hstage =>
      simp [count, completes, goTo, Repeats, Overtaken, hstage]

/-- While a session has ended, the ends of it published and to be published are as many as before
a turn in order. -/
theorem Turn.sessionEnds_length {stage : Stage} (h : Turn b c b' stage) (hcut : ¬ c.Cut b)
    (hrepeats : ¬ c.Repeats b) (hovertaken : ¬ c.Overtaken b) (hended : b.sessionEnded = true)
    (hterminal : b.job.isTerminal = true) :
    (sessionEnds b'.events).length + count (c.goTo stage).endsSession =
      (sessionEnds b.events).length + count c.endsSession := by
  cases h with
  | checkTerminal_ended hstage | checkRunning_not hstage | cancelMode_ended hstage
  | cancelMode_live hstage | hooks_raised hstage =>
    simp [count, endsSession, completes, goTo, hstage]
  | begins hbegins =>
    rcases hbegins with ⟨hstage, -⟩ | ⟨hstage, -⟩ <;>
      simp [count, endsSession, completes, goTo, hstage]
  | hooks_done hstage | apply_ignored hstage =>
    unfold afterApply
    split <;> simp [count, endsSession, completes, goTo, hstage]
  | apply_invalid e hstage => simp [count, endsSession, completes, goTo, hstage]
  | flowSession_not hstage hnot => simp [hended] at hnot
  | isTerminal_ended hstage =>
    cases hstatus : c.result.status.isTerminal with
    | true => simp [count, endsSession, completes, goTo, hstage, hstatus]
    | false => exact absurd ⟨hstage, hterminal, hstatus⟩ hovertaken
  | isTerminal_live hstage hlive => simp [hterminal] at hlive
  | apply_applied job hstage happlied =>
    obtain ⟨hstatus, -, hkept⟩ := applyLocked_applied happlied
    exact absurd ⟨hstage, hterminal, hstatus.symm.trans (hkept hterminal)⟩ hrepeats
  | emitted event next hp hemitted =>
    cases hp with
    | statusChanged hstage | instanceStatusChanged hstage | completed hstage
    | flowSession hstage | cancelled hstage =>
      simp [count, endsSession, completes, goTo, hstage, sessionEnds]
  | silent event next hp hsilent =>
    cases hp with
    | completed hstage => exact absurd (.inr (.inl ⟨hstage, by simp [hsilent]⟩)) hcut
    | flowSession hstage => exact absurd (.inr (.inr ⟨hstage, hended, by simp [hsilent]⟩)) hcut
    | statusChanged hstage | instanceStatusChanged hstage | cancelled hstage =>
      simp [count, endsSession, completes, goTo, hstage]
  | raised event next hp hraised =>
    cases hp with
    | statusChanged hstage | instanceStatusChanged hstage =>
      have hresult : c.result.status.isTerminal = false := by
        by_contra hnot
        exact hcut (.inl ⟨by simp [hstage], by simpa using hnot, hraised⟩)
      simp [count, endsSession, completes, goTo, hstage, hresult]
    | completed hstage => exact absurd (.inr (.inl ⟨hstage, by simp [hraised]⟩)) hcut
    | flowSession hstage => exact absurd (.inr (.inr ⟨hstage, hended, by simp [hraised]⟩)) hcut
    | cancelled hstage => simp [count, endsSession, completes, goTo, hstage]

/-- A completion that a turn publishes carries the status the call has read. -/
theorem Turn.mem_completions {stage : Stage} (h : Turn b c b' stage) {status : JobStatus}
    (hmem : status ∈ completions b'.events) :
    status ∈ completions b.events ∨ status = b.job.status ∧ c.late = true := by
  cases h with
  | emitted event next hp =>
    cases hp with
    | completed hstage =>
      simp only [completions_append, List.mem_append, completions, List.mem_singleton] at hmem
      exact hmem.imp_right fun heq => ⟨heq, by simp [late, endsSession, completes, hstage]⟩
    | statusChanged | instanceStatusChanged | flowSession | cancelled =>
      simp only [completions_append, completions, List.append_nil] at hmem
      exact .inl hmem
  | _ => exact .inl hmem

/-- An end of the session that a turn publishes carries the status the call has read. -/
theorem Turn.mem_sessionEnds {stage : Stage} (h : Turn b c b' stage) {status : JobStatus}
    (hmem : status ∈ sessionEnds b'.events) :
    status ∈ sessionEnds b.events ∨
      status = b.job.status ∧ c.late = true ∧ b.sessionEnded = true := by
  cases h with
  | emitted event next hp =>
    cases hp with
    | flowSession hstage hended =>
      simp only [sessionEnds_append, List.mem_append, sessionEnds, List.mem_singleton] at hmem
      exact hmem.imp_right fun heq => ⟨heq, by simp [late, endsSession, hstage], hended⟩
    | statusChanged | instanceStatusChanged | completed | cancelled =>
      simp only [sessionEnds_append, sessionEnds, List.append_nil] at hmem
      exact .inl hmem
  | _ => exact .inl hmem

/-- Only a call that has found that the job has ended announces that it is cancelled. -/
theorem Turn.mem_cancelled {stage : Stage} (h : Turn b c b' stage)
    (hmem : JobEvent.cancelled ∈ b'.events) :
    JobEvent.cancelled ∈ b.events ∨ c.stage = .cancelled := by
  cases h with
  | emitted event next hp =>
    cases hp with
    | cancelled hstage => exact .inr hstage
    | statusChanged | instanceStatusChanged | completed | flowSession =>
      exact .inl (by simpa using hmem)
  | _ => exact .inl hmem

/-- A call that returns without an event announces nothing more. -/
private theorem returned_le :
    b.events.count .cancelled + count (c.goTo .returned).cancelling ≤
      b.events.count .cancelled + count c.cancelling + count (decide (c.Begins b)) := by
  have hzero : count (c.goTo .returned).cancelling = 0 := by simp [count, cancelling, goTo]
  omega

/-- Unless a call's first check passes, there are not more announcements of a cancellation made and
to be made. -/
theorem Turn.cancellations_le {stage : Stage} (h : Turn b c b' stage) (hwf : c.WellFormed) :
    b'.events.count .cancelled + count (c.goTo stage).cancelling ≤
      b.events.count .cancelled + count c.cancelling + count (decide (c.Begins b)) := by
  cases h with
  | begins hbegins =>
    have hle : count (c.goTo .cancelMode).cancelling ≤ 1 := by
      unfold count
      split <;> omega
    rw [decide_eq_true hbegins]
    simp only [count, if_true] at hle ⊢
    omega
  | checkTerminal_ended | checkRunning_not | apply_invalid | hooks_raised | raised =>
    exact returned_le
  | cancelMode_ended hstage | cancelMode_live hstage | isTerminal_ended hstage
  | isTerminal_live hstage | flowSession_not hstage | apply_applied _ hstage =>
    simp [count, cancelling, goTo, hstage]
  | apply_ignored hstage | hooks_done hstage =>
    unfold afterApply
    cases hcancels : c.cancels <;> simp [count, cancelling, goTo, hstage, hcancels]
  | silent event next hp =>
    cases hp with
    | statusChanged hstage | instanceStatusChanged hstage | completed hstage
    | flowSession hstage => simp [count, cancelling, goTo, hstage]
    | cancelled hstage => exact returned_le
  | emitted event next hp =>
    cases hp with
    | statusChanged hstage | instanceStatusChanged hstage | completed hstage
    | flowSession hstage => simp [count, cancelling, goTo, hstage]
    | cancelled hstage => simp [count, cancelling, goTo, hstage, hwf.2 (by simp [hstage])]

/-- Where nothing raises, there are no fewer, and one more if a call's first check passes. -/
theorem Turn.le_cancellations {stage : Stage} (h : Turn b c b' stage) (hwf : c.WellFormed)
    (hsmooth : c.Smooth) :
    b.events.count .cancelled + count c.cancelling + count (decide (c.Begins b)) ≤
      b'.events.count .cancelled + count (c.goTo stage).cancelling := by
  cases h with
  | begins hbegins =>
    have hcancels : c.cancels = true :=
      hwf.2 (hbegins.imp And.left fun h => .inl h.1)
    rcases hbegins with ⟨hstage, -⟩ | ⟨hstage, -⟩ <;>
      simp [count, cancelling, goTo, Begins, hstage, hcancels] <;> split <;> omega
  | checkTerminal_ended hstage hended =>
    simp [count, cancelling, goTo, Begins, hstage, hended]
  | checkRunning_not hstage hnot => simp [count, cancelling, goTo, Begins, hstage, hnot]
  | cancelMode_ended hstage | cancelMode_live hstage | isTerminal_ended hstage
  | isTerminal_live hstage | flowSession_not hstage | apply_applied _ hstage =>
    simp [count, cancelling, goTo, Begins, hstage]
  | apply_ignored hstage | hooks_done hstage =>
    unfold afterApply
    cases hcancels : c.cancels <;> simp [count, cancelling, goTo, Begins, hstage, hcancels]
  | hooks_raised hstage hraises =>
    cases hcancels : c.cancels with
    | false => simp [count, cancelling, goTo, Begins, hstage, hcancels]
    | true =>
      have hhooks := (hsmooth .hooks).1
      simp [raises, hwf.1 hcancels, hhooks] at hraises
  | apply_invalid e hstage hinvalid =>
    cases hcancels : c.cancels with
    | false => simp [count, cancelling, goTo, Begins, hstage, hcancels]
    | true =>
      rw [hwf.1 hcancels] at hinvalid
      rcases @applyLocked_terminal b.job { status := .cancelled } rfl with
        ⟨hignored, -⟩ | ⟨job, happlied, -⟩
      · simp [hignored] at hinvalid
      · simp [happlied] at hinvalid
  | emitted event next hp =>
    cases hp with
    | statusChanged hstage | instanceStatusChanged hstage | completed hstage
    | flowSession hstage => simp [count, cancelling, goTo, Begins, hstage]
    | cancelled hstage =>
      simp [count, cancelling, goTo, Begins, hstage, hwf.2 (by simp [hstage])]
  | silent event next hp hsilent =>
    cases hp with
    | statusChanged hstage | instanceStatusChanged hstage | completed hstage
    | flowSession hstage => simp [count, cancelling, goTo, Begins, hstage]
    | cancelled hstage =>
      have hemitted := (hsmooth c.stage).2 (by simp [hstage])
      simp [hemitted] at hsilent
  | raised event next hp hraised => exact absurd hraised (hsmooth c.stage).1

/-- A call stays well formed. -/
theorem Turn.wellFormed {stage : Stage} (h : Turn b c b' stage) (hwf : c.WellFormed) :
    (c.goTo stage).WellFormed := by
  refine ⟨hwf.1, fun hstage => ?_⟩
  change c.cancels = true
  cases h with
  | cancelMode_ended hfrom => exact hwf.2 (by simp [hfrom])
  | begins hbegins => exact hwf.2 (hbegins.imp And.left fun h => .inl h.1)
  | apply_ignored hfrom | hooks_done hfrom =>
    simp only [goTo, afterApply] at hstage
    split at hstage
    · assumption
    · simp at hstage
  | emitted event next hp | silent event next hp => cases hp <;> simp [goTo] at hstage
  | _ => simp [goTo] at hstage

/-- As long as the job has not ended, no call has found that it has. -/
theorem Turn.live {stage : Stage} (h : Turn b c b' stage) (hwf : c.WellFormed)
    (hlive : b.job.isTerminal = false → c.late = false) (hnot : b'.job.isTerminal = false) :
    b.job.isTerminal = false ∧ (c.goTo stage).late = false := by
  have hb : b.job.isTerminal = false := by
    cases hended : b.job.isTerminal with
    | false => rfl
    | true =>
      rw [Job.isTerminal, h.status_eq hended] at hnot
      exact hnot.symm.trans hended |>.symm
  have hc := hlive hb
  refine ⟨hb, ?_⟩
  cases h with
  | checkTerminal_ended | checkRunning_not | begins | cancelMode_live | apply_invalid | raised
  | hooks_raised =>
    simp [late, endsSession, completes, goTo]
  | cancelMode_ended hstage hended | isTerminal_ended hstage hended => simp [hb] at hended
  | apply_ignored hstage hignored =>
    have hended := (applyLocked_ignored hignored).1
    simp [hb] at hended
  | apply_applied job hstage happlied =>
    have hresult : c.result.status.isTerminal = false := by
      rw [← (applyLocked_applied happlied).1]
      exact hnot
    simp [late, endsSession, completes, goTo, hresult]
  | flowSession_not hstage => simp [late, endsSession, hstage] at hc
  | isTerminal_live hstage =>
    cases hcancels : c.cancels with
    | false => simp [late, endsSession, completes, goTo, hcancels]
    | true => simp [late, endsSession, completes, hstage, hwf.1 hcancels,
        JobStatus.isTerminal] at hc
  | hooks_done hstage =>
    have hcancels : c.cancels = false := by
      simpa [late, endsSession, completes, hstage] using hc
    simp [late, endsSession, completes, goTo, afterApply, hcancels]
  | emitted event next hp | silent event next hp =>
    cases hp with
    | statusChanged hstage | instanceStatusChanged hstage =>
      have hresult : c.result.status.isTerminal = false := by
        simpa [late, endsSession, completes, hstage] using hc
      simp [late, endsSession, completes, goTo, hresult]
    | completed hstage | flowSession hstage | cancelled hstage =>
      simp [late, endsSession, completes, hstage] at hc

/-- The turn that ends a session publishes nothing, and its call is to publish the end. -/
theorem Turn.endsSession {stage : Stage} (h : Turn b c b' stage) (hlive : b.job.isTerminal = false)
    (hended : b'.sessionEnded = true) :
    b'.events = b.events ∧ (c.goTo stage).endsSession = true := by
  have hb : b.sessionEnded = false := by
    unfold JobBoard.sessionEnded
    cases hstatus : b.job.status <;> simp_all [Job.isTerminal, JobStatus.isTerminal]
  cases h with
  | apply_applied job hstage happlied =>
    have hresult : c.result.status.isTerminal = true := by
      rw [← (applyLocked_applied happlied).1]
      unfold JobBoard.sessionEnded at hended
      cases hstatus : job.status <;> simp_all [JobStatus.isTerminal]
    exact ⟨rfl, by simp [EndingCall.endsSession, completes, goTo, hresult]⟩
  | _ => exact absurd (hended.symm.trans hb) (by decide)

/-- A call that cancels is late only once the job is cancelled, unless it comes too late. -/
theorem Turn.cancelled {stage : Stage} (h : Turn b c b' stage) (hwf : c.WellFormed)
    (htooLate : ¬ c.TooLate b) (hcancels : c.cancels = true) (hlate : (c.goTo stage).late = true) :
    b'.job.status = .cancelled ∨ c.late = true := by
  have hresult := hwf.1 hcancels
  cases h with
  | checkTerminal_ended | checkRunning_not | begins | cancelMode_live | apply_invalid | raised
  | hooks_raised =>
    simp [late, EndingCall.endsSession, completes, goTo] at hlate
  | cancelMode_ended hstage hended =>
    by_contra hnot
    exact htooLate ⟨hcancels, .inl hstage, hended, fun heq => hnot (.inl heq)⟩
  | apply_ignored hstage hignored =>
    obtain ⟨hended, hne⟩ := applyLocked_ignored hignored
    refine absurd ⟨hcancels, .inr hstage, hended, fun heq => hne ?_⟩ htooLate
    rw [heq, hresult]
  | apply_applied job hstage happlied =>
    left
    rw [(applyLocked_applied happlied).1, hresult]
  | flowSession_not hstage | isTerminal_live hstage | isTerminal_ended hstage
  | hooks_done hstage =>
    right
    simp [late, EndingCall.endsSession, completes, hstage, hcancels, hresult,
      JobStatus.isTerminal]
  | emitted event next hp | silent event next hp =>
    right
    cases hp with
    | statusChanged hstage | instanceStatusChanged hstage | completed hstage
    | flowSession hstage | cancelled hstage =>
      simp [late, EndingCall.endsSession, completes, hstage, hresult, JobStatus.isTerminal]

end EndingCall

open EndingCall

/-- What holds of the calls and the events in any case: as long as the job has not ended, no call
has found that it has, and no event says so. -/
structure Live (pool : Pool JobBoard EndingCall) : Prop where
  wellFormed : ∀ c ∈ pool.procs, c.WellFormed
  calls : pool.shared.job.isTerminal = false → ∀ c ∈ pool.procs, c.late = false
  completions_eq : pool.shared.job.isTerminal = false → completions pool.shared.events = []
  sessionEnds_eq : pool.shared.job.isTerminal = false → sessionEnds pool.shared.events = []
  cancelled : pool.shared.job.isTerminal = false → JobEvent.cancelled ∉ pool.shared.events

/-- What holds after turns in order: the end is published once, by one call. -/
structure Counted (pool : Pool JobBoard EndingCall) : Prop where
  completions_length : (completions pool.shared.events).length + pool.procs.countP completes =
    count pool.shared.job.isTerminal
  completions_eq : ∀ status ∈ completions pool.shared.events, status = pool.shared.job.status
  sessionEnds_length : pool.shared.sessionEnded = true →
    (sessionEnds pool.shared.events).length + pool.procs.countP endsSession = 1
  sessionEnds_eq : ∀ status ∈ sessionEnds pool.shared.events,
    status = pool.shared.job.status ∧ pool.shared.sessionEnded = true
  cancellations : pool.shared.events.count .cancelled + pool.procs.countP cancelling ≤ 1
  cancelled : JobEvent.cancelled ∈ pool.shared.events → pool.shared.job.status = .cancelled
  calls : ∀ c ∈ pool.procs, c.cancels = true → c.late = true → pool.shared.job.status = .cancelled

/-- Jobs with the same status are both of a session that has ended, or neither. -/
theorem JobBoard.sessionEnded_congr {b b' : JobBoard} (h : b'.job.status = b.job.status) :
    b'.sessionEnded = b.sessionEnded := by
  rw [sessionEnded, sessionEnded, h]

/-- A session has ended only with its job. -/
theorem JobBoard.isTerminal_of_sessionEnded {b : JobBoard} (h : b.sessionEnded = true) :
    b.job.isTerminal = true := by
  unfold sessionEnded at h
  cases hstatus : b.job.status <;> simp_all [Job.isTerminal, JobStatus.isTerminal]

variable {pool pool' : Pool JobBoard EndingCall} {i : ℕ}

/-- As long as the job has not ended, no call is to publish its end. -/
theorem Live.zero (h : Live pool) (hb : pool.shared.job.isTerminal = false) (c : EndingCall)
    (hc : c ∈ pool.procs) : c.completes = false ∧ c.endsSession = false := by
  have hlate := h.calls hb c hc
  simp only [late, EndingCall.endsSession, Bool.or_eq_false_iff] at hlate ⊢
  exact ⟨hlate.1.1.1, hlate.1.1⟩

/-- A turn keeps what holds in any case. -/
theorem Live.step (h : Live pool) (hstep : pool.step move i = some pool') : Live pool' := by
  obtain ⟨c, b, c', hc, hmove, rfl⟩ := Pool.step_cases hstep
  obtain ⟨stage, hturn, rfl⟩ := move_turn hmove
  have hmem := List.mem_of_getElem? hc
  have hwf := h.wellFormed c hmem
  have hlive := hturn.live hwf fun hb => h.calls hb c hmem
  constructor
  · intro d hd
    rcases Pool.mem_set_cases hd with rfl | hd
    · exact hturn.wellFormed hwf
    · exact h.wellFormed d hd
  · intro hnot d hd
    obtain ⟨hb, hlate⟩ := hlive hnot
    rcases Pool.mem_set_cases hd with rfl | hd
    · exact hlate
    · exact h.calls hb d hd
  · intro hnot
    obtain ⟨hb, -⟩ := hlive hnot
    refine List.eq_nil_iff_forall_not_mem.mpr fun status hmem' => ?_
    rcases hturn.mem_completions hmem' with hmem' | ⟨-, hlate⟩
    · simp [h.completions_eq hb] at hmem'
    · simp [h.calls hb c hmem] at hlate
  · intro hnot
    obtain ⟨hb, -⟩ := hlive hnot
    refine List.eq_nil_iff_forall_not_mem.mpr fun status hmem' => ?_
    rcases hturn.mem_sessionEnds hmem' with hmem' | ⟨-, hlate, -⟩
    · simp [h.sessionEnds_eq hb] at hmem'
    · simp [h.calls hb c hmem] at hlate
  · intro hnot hmem'
    obtain ⟨hb, -⟩ := hlive hnot
    rcases hturn.mem_cancelled hmem' with hmem' | hstage
    · exact h.cancelled hb hmem'
    · have hlate := h.calls hb c hmem
      simp [late, hstage] at hlate

/-- A turn changes a count of the calls by what it changes at the call that moved. -/
private theorem countP_turn {c : EndingCall} (c' : EndingCall) (p : EndingCall → Bool)
    (hc : pool.procs[i]? = some c) :
    (pool.procs.set i c').countP p + count (p c) = pool.procs.countP p + count (p c') :=
  Pool.countP_set p hc

/-- A turn in order keeps the counts. -/
theorem Counted.step (h : Counted pool) (hlive : Live pool)
    (hstep : pool.step move i = some pool') (hok : Pool.OnTurn InOrder pool i pool') :
    Counted pool' := by
  obtain ⟨c, b, c', hc, hmove, rfl⟩ := Pool.step_cases hstep
  obtain ⟨stage, hturn, rfl⟩ := move_turn hmove
  obtain ⟨hrepeats, hovertaken, htooLate, hsecond, hcut⟩ := hok c hc
  have hmem := List.mem_of_getElem? hc
  have hwf := hlive.wellFormed c hmem
  have hkeep := hturn.status_eq
  have hended (d : EndingCall) (hd : d ∈ pool.procs) (hlate : d.late = true) :
      pool.shared.job.isTerminal = true := by
    by_contra hnot
    exact absurd (hlate.symm.trans (hlive.calls (Bool.eq_false_iff.mpr hnot) d hd)) (by decide)
  have hcancelled (heq : pool.shared.job.status = .cancelled) : b.job.status = .cancelled := by
    rw [hkeep (by rw [Job.isTerminal, heq]; rfl), heq]
  constructor
  · have hlength := hturn.completions_length hcut fun hb => (hlive.zero hb c hmem).1
    have hcount := countP_turn (c.goTo stage) completes hc
    have hnone : count (decide (c.Repeats pool.shared ∨ c.Overtaken pool.shared)) = 0 := by
      simp [count, hrepeats, hovertaken]
    have hbefore := h.completions_length
    dsimp only
    omega
  · intro status hmem'
    rcases hturn.mem_completions hmem' with hmem' | ⟨rfl, hlate⟩
    · have hb : pool.shared.job.isTerminal = true := by
        by_contra hnot
        simp [hlive.completions_eq (Bool.eq_false_iff.mpr hnot)] at hmem'
      exact (h.completions_eq status hmem').trans (hkeep hb).symm
    · exact (hkeep (hended c hmem hlate)).symm
  · intro hsession
    have hcount := countP_turn (c.goTo stage) EndingCall.endsSession hc
    dsimp only
    cases hb : pool.shared.job.isTerminal with
    | true =>
      have hsession' : pool.shared.sessionEnded = true := by
        rw [← JobBoard.sessionEnded_congr (hkeep hb)]
        exact hsession
      have hlength := hturn.sessionEnds_length hcut hrepeats hovertaken hsession' hb
      have hbefore := h.sessionEnds_length hsession'
      omega
    | false =>
      obtain ⟨hevents, hends⟩ := hturn.endsSession hb hsession
      have hzero : pool.procs.countP EndingCall.endsSession = 0 := by
        refine List.countP_eq_zero.mpr fun d hd => ?_
        rw [(hlive.zero hb d hd).2]
        decide
      rw [(hlive.zero hb c hmem).2, hends, hzero] at hcount
      rw [hevents, hlive.sessionEnds_eq hb]
      simpa [count] using hcount
  · intro status hmem'
    have hkeep' (hb : pool.shared.sessionEnded = true) :
        pool.shared.job.status = b.job.status ∧ b.sessionEnded = true := by
      have hstatus := hkeep (JobBoard.isTerminal_of_sessionEnded hb)
      exact ⟨hstatus.symm, by rw [JobBoard.sessionEnded_congr hstatus, hb]⟩
    rcases hturn.mem_sessionEnds hmem' with hmem' | ⟨rfl, -, hsession⟩
    · obtain ⟨rfl, hsession⟩ := h.sessionEnds_eq status hmem'
      exact hkeep' hsession
    · exact hkeep' hsession
  · have hle := hturn.cancellations_le hwf
    have hcount := countP_turn (c.goTo stage) cancelling hc
    have hbefore := h.cancellations
    dsimp only
    by_cases hbegins : c.Begins pool.shared
    · have hnone : pool.procs.countP cancelling = 0 := by
        refine List.countP_eq_zero.mpr fun d hd hd' => ?_
        exact hsecond ⟨hbegins, d, hd, hd'⟩
      have hevents : pool.shared.events.count .cancelled = 0 := by
        refine List.count_eq_zero.mpr (hlive.cancelled ?_)
        rcases hbegins with ⟨-, hb⟩ | ⟨-, hb⟩
        · exact hb
        · rw [Job.isTerminal, hb]
          rfl
      have hone : count (decide (c.Begins pool.shared)) = 1 := by simp [count, hbegins]
      omega
    · have hnone : count (decide (c.Begins pool.shared)) = 0 := by simp [count, hbegins]
      omega
  · intro hmem'
    rcases hturn.mem_cancelled hmem' with hmem' | hstage
    · exact hcancelled (h.cancelled hmem')
    · exact hcancelled (h.calls c hmem (hwf.2 (by simp [hstage])) (by simp [late, hstage]))
  · intro d hd hcancels hlate
    rcases Pool.mem_set_cases hd with rfl | hd
    · rcases hturn.cancelled hwf htooLate hcancels hlate with heq | hlate
      · exact heq
      · exact hcancelled (h.calls c hmem hcancels hlate)
    · exact hcancelled (h.calls d hd hcancels hlate)

/-- The end of a job is published at most once, as the job's status, and so is the end of its
session; a cancellation is announced at most once, and only of a cancelled job. Once a job has
ended and no call is in progress, its end and that of its session have been published. -/
structure CompletedOnce (pool : Pool JobBoard EndingCall) : Prop where
  completed : completions pool.shared.events = [] ∨
    pool.shared.job.isTerminal = true ∧
      completions pool.shared.events = [pool.shared.job.status]
  session : sessionEnds pool.shared.events = [] ∨
    pool.shared.sessionEnded = true ∧ sessionEnds pool.shared.events = [pool.shared.job.status]
  cancelled : pool.shared.events.count .cancelled ≤ 1 ∧
    (JobEvent.cancelled ∈ pool.shared.events → pool.shared.job.status = .cancelled)
  ended : (∀ c ∈ pool.procs, ¬ c.InProgress) →
    (pool.shared.job.isTerminal = true →
      completions pool.shared.events = [pool.shared.job.status]) ∧
    (pool.shared.sessionEnded = true →
      sessionEnds pool.shared.events = [pool.shared.job.status])

/-- A list with one element at most, and all of whose elements are equal to one. -/
private theorem eq_nil_or_singleton {statuses : List JobStatus} {status : JobStatus}
    (hlength : statuses.length ≤ 1) (heq : ∀ s ∈ statuses, s = status) :
    statuses = [] ∨ statuses = [status] := by
  cases statuses with
  | nil => exact .inl rfl
  | cons s rest =>
    have hrest : rest = [] := List.length_eq_zero_iff.mp (by simpa using hlength)
    exact .inr (by rw [hrest, heq s List.mem_cons_self])

/-- A list with one element, equal to one. -/
private theorem eq_singleton {statuses : List JobStatus} {status : JobStatus}
    (hlength : statuses.length = 1) (heq : ∀ s ∈ statuses, s = status) : statuses = [status] := by
  obtain ⟨s, rfl⟩ := List.length_eq_one_iff.mp hlength
  rw [heq s List.mem_cons_self]

/-- A call that is not in progress is not about to publish an end. -/
theorem EndingCall.InProgress.of_endsSession {c : EndingCall} (h : c.endsSession = true) :
    c.InProgress := by
  unfold InProgress
  unfold EndingCall.endsSession completes at h
  cases hstage : c.stage <;> simp_all

/-- The counts say that the end is published once. -/
theorem Counted.completedOnce (h : Counted pool) (hlive : Live pool) : CompletedOnce pool where
  completed := by
    have hlength := h.completions_length
    cases hb : pool.shared.job.isTerminal with
    | false => exact .inl (hlive.completions_eq hb)
    | true =>
      rw [hb] at hlength
      simp only [count, if_true] at hlength
      exact (eq_nil_or_singleton (by omega) h.completions_eq).imp_right fun heq => ⟨rfl, heq⟩
  session := by
    cases hb : pool.shared.sessionEnded with
    | false =>
      refine .inl (List.eq_nil_iff_forall_not_mem.mpr fun status hmem => ?_)
      exact absurd ((h.sessionEnds_eq status hmem).2.symm.trans hb) (by decide)
    | true =>
      have hlength := h.sessionEnds_length hb
      exact (eq_nil_or_singleton (by omega) fun s hs => (h.sessionEnds_eq s hs).1).imp_right
        fun heq => ⟨rfl, heq⟩
  cancelled := ⟨by have hle := h.cancellations; omega, h.cancelled⟩
  ended := by
    intro hidle
    have hsession : pool.procs.countP EndingCall.endsSession = 0 :=
      List.countP_eq_zero.mpr fun c hc hends => hidle c hc (.of_endsSession hends)
    have hcompletes : pool.procs.countP completes = 0 :=
      List.countP_eq_zero.mpr fun c hc hends =>
        hidle c hc (.of_endsSession (by simp [EndingCall.endsSession, hends]))
    refine ⟨fun hb => ?_, fun hb => ?_⟩
    · have hlength := h.completions_length
      rw [hb] at hlength
      simp only [count, if_true] at hlength
      exact eq_singleton (by omega) h.completions_eq
    · have hlength := h.sessionEnds_length hb
      exact eq_singleton (by omega) fun s hs => (h.sessionEnds_eq s hs).1

/-- In every state of the run the end of the job is published at most once, and from a state in
which the job has ended on, its status, result and error are the same in every later state. -/
def FinalOnce (start : Pool JobBoard EndingCall) (turns : List ℕ) : Prop :=
  ∀ (front back : List ℕ) (reached later : Pool JobBoard EndingCall), turns = front ++ back →
    runSteps (Pool.step move) start front = some reached →
    runSteps (Pool.step move) reached back = some later →
    CompletedOnce reached ∧ (reached.shared.job.isTerminal = true →
      later.shared.job.status = reached.shared.job.status ∧
      later.shared.job.result = reached.shared.job.result ∧
      later.shared.job.error = reached.shared.job.error)

/-- Calls begin well formed. -/
theorem wellFormed_begin (r : EndingRequest) (publication : Stage → Publication) :
    (r.begin publication).WellFormed := by
  cases r <;> simp [EndingRequest.begin, WellFormed]

/-- Calls begin with nothing published or to be published. -/
theorem not_late_begin (r : EndingRequest) (publication : Stage → Publication) :
    (r.begin publication).late = false ∧ (r.begin publication).cancelling = false := by
  cases r <;> simp [EndingRequest.begin, late, EndingCall.endsSession, completes, cancelling]

section Submitted

variable {id : JobId} {isPattern : Bool} {requests : List (EndingRequest × (Stage → Publication))}

/-- Nothing has been found of a job that was submitted. -/
theorem live_submitted : Live (submitted id isPattern requests) where
  wellFormed := by
    intro c hc
    obtain ⟨r, -, rfl⟩ := List.mem_map.mp hc
    exact wellFormed_begin r.1 r.2
  calls := by
    intro _ c hc
    obtain ⟨r, -, rfl⟩ := List.mem_map.mp hc
    exact (not_late_begin r.1 r.2).1
  completions_eq _ := rfl
  sessionEnds_eq _ := rfl
  cancelled _ := List.not_mem_nil

/-- Nothing counts of a job that was submitted. -/
theorem counted_submitted : Counted (submitted id isPattern requests) where
  completions_length := by
    have hzero : (submitted id isPattern requests).procs.countP completes = 0 :=
      List.countP_eq_zero.mpr fun c hc => by simp [(live_submitted.zero rfl c hc).1]
    rw [hzero]
    rfl
  completions_eq _ h := absurd h List.not_mem_nil
  sessionEnds_length h := absurd h (by simp [JobBoard.sessionEnded, submitted])
  sessionEnds_eq _ h := absurd h List.not_mem_nil
  cancellations := by
    have hzero : (submitted id isPattern requests).procs.countP cancelling = 0 := by
      refine List.countP_eq_zero.mpr fun c hc => ?_
      obtain ⟨r, -, rfl⟩ := List.mem_map.mp hc
      simp [(not_late_begin r.1 r.2).2]
    rw [hzero]
    exact Nat.zero_le 1
  cancelled h := absurd h List.not_mem_nil
  calls := by
    intro c hc _ hlate
    exact absurd (hlate.symm.trans (live_submitted.calls rfl c hc)) (by decide)

end Submitted

/-- Turns in order end the job once. -/
theorem finalOnce_of_inOrder {start : Pool JobBoard EndingCall} {turns : List ℕ}
    (hlive : Live start) (hcounted : Counted start)
    (hok : AllSteps (Pool.step move) (Pool.OnTurn InOrder) start turns) :
    FinalOnce start turns := by
  rintro front back reached later rfl hfront hback
  have hstep (pool : Pool JobBoard EndingCall) (i : ℕ) (pool' : Pool JobBoard EndingCall)
      (h : Live pool ∧ Counted pool) (hnext : pool.step move i = some pool')
      (hturn : Pool.OnTurn InOrder pool i pool') : Live pool' ∧ Counted pool' :=
    ⟨h.1.step hnext, h.2.step h.1 hnext hturn⟩
  obtain ⟨hlive', hcounted'⟩ :=
    invariant_of_allSteps hstep ⟨hlive, hcounted⟩ hok.left hfront
  refine ⟨hcounted'.completedOnce hlive', fun hended => ?_⟩
  have hsame : later.shared.job = reached.shared.job := by
    refine invariant_of_allSteps (P := fun pool => pool.shared.job = reached.shared.job)
      (fun pool i pool' heq hnext hturn => ?_) rfl (hok.of_append hfront) hback
    obtain ⟨c, b, c', hc, hmove, rfl⟩ := Pool.step_cases hnext
    obtain ⟨stage, hturn', rfl⟩ := move_turn hmove
    exact (hturn'.job_eq (heq ▸ hended) (hturn c hc).1).trans heq
  rw [hsame]
  exact ⟨rfl, rfl, rfl⟩

namespace EndingCall

/-- Where nothing raises, nothing keeps the end of the job from being published. -/
theorem Smooth.not_cut {b : JobBoard} {c : EndingCall} (h : c.Smooth) : ¬ c.Cut b := by
  rintro (⟨-, -, hraised⟩ | ⟨hstage, hnot⟩ | ⟨hstage, -, hnot⟩)
  · exact (h c.stage).1 hraised
  · exact hnot ((h c.stage).2 (by simp [hstage]))
  · exact hnot ((h c.stage).2 (by simp [hstage]))

end EndingCall

/-- How often the end of the job has been or is to be published. -/
def ends (pool : Pool JobBoard EndingCall) : ℕ :=
  (completions pool.shared.events).length + pool.procs.countP completes

/-- How often a cancellation has been or is to be announced. -/
def announcements (pool : Pool JobBoard EndingCall) : ℕ :=
  pool.shared.events.count .cancelled + pool.procs.countP cancelling

/-- Where nothing raises, the end of a job that has ended is published at least once. -/
structure Certain (pool : Pool JobBoard EndingCall) : Prop where
  live : Live pool
  smooth : ∀ c ∈ pool.procs, c.Smooth
  published : pool.shared.job.isTerminal = true → 1 ≤ ends pool

/-- More is published of the end of the job, or will be, than the end. -/
def Spoiled (pool : Pool JobBoard EndingCall) : Prop :=
  2 ≤ ends pool ∨ 2 ≤ announcements pool ∨
    pool.shared.job.isTerminal = true ∧ pool.shared.job.status ≠ .cancelled ∧
      1 ≤ announcements pool

/-- What a turn publishes, and sets out to publish, where nothing raises. -/
theorem Certain.turn {c : EndingCall} {b : JobBoard} {stage : Stage} (h : Certain pool)
    (hc : pool.procs[i]? = some c) (hturn : Turn pool.shared c b stage) :
    ends ⟨b, pool.procs.set i (c.goTo stage)⟩ + count pool.shared.job.isTerminal =
        ends pool + count b.job.isTerminal +
          count (decide (c.Repeats pool.shared ∨ c.Overtaken pool.shared)) ∧
      announcements pool + count (decide (c.Begins pool.shared)) ≤
        announcements ⟨b, pool.procs.set i (c.goTo stage)⟩ := by
  have hmem := List.mem_of_getElem? hc
  have hsmooth := h.smooth c hmem
  have hlength := hturn.completions_length hsmooth.not_cut
    fun hb => (h.live.zero hb c hmem).1
  have hle := hturn.le_cancellations (h.live.wellFormed c hmem) hsmooth
  have hcompletes := countP_turn (c.goTo stage) completes hc
  have hcancelling := countP_turn (c.goTo stage) cancelling hc
  unfold ends announcements
  exact ⟨by dsimp only; omega, by dsimp only; omega⟩

/-- A turn keeps it where nothing raises. -/
theorem Certain.step (h : Certain pool) (hstep : pool.step move i = some pool') :
    Certain pool' := by
  have hlive := h.live.step hstep
  obtain ⟨c, b, c', hc, hmove, rfl⟩ := Pool.step_cases hstep
  obtain ⟨stage, hturn, rfl⟩ := move_turn hmove
  refine ⟨hlive, fun d hd => ?_, fun hended => ?_⟩
  · rcases Pool.mem_set_cases hd with rfl | hd
    · exact h.smooth c (List.mem_of_getElem? hc)
    · exact h.smooth d hd
  · have hends := (h.turn hc hturn).1
    have hbefore := h.published
    cases hb : pool.shared.job.isTerminal with
    | true =>
      rw [hb, hended] at hends
      have hone := hbefore hb
      omega
    | false =>
      rw [hb, hended] at hends
      have hcount : count false = 0 ∧ count true = 1 := ⟨rfl, rfl⟩
      omega

/-- What is too much stays too much. -/
theorem Spoiled.step (h : Spoiled pool) (hcertain : Certain pool)
    (hstep : pool.step move i = some pool') : Spoiled pool' := by
  obtain ⟨c, b, c', hc, hmove, rfl⟩ := Pool.step_cases hstep
  obtain ⟨stage, hturn, rfl⟩ := move_turn hmove
  obtain ⟨hends, hannouncements⟩ := hcertain.turn hc hturn
  have hstays : count pool.shared.job.isTerminal ≤ count b.job.isTerminal := by
    cases hb : pool.shared.job.isTerminal with
    | false => exact Nat.zero_le _
    | true =>
      rw [show b.job.isTerminal = true from by rw [Job.isTerminal, hturn.status_eq hb]; exact hb]
  rcases h with h | h | ⟨hended, hstatus, h⟩
  · exact .inl (by omega)
  · exact .inr (.inl (by omega))
  · have heq := hturn.status_eq hended
    refine .inr (.inr ⟨?_, heq ▸ hstatus, by omega⟩)
    change b.job.status.isTerminal = true
    rw [heq]
    exact hended

/-- A turn that is not in order makes it too much. -/
theorem Spoiled.of_not_inOrder (h : Certain pool) (hstep : pool.step move i = some pool')
    (hnot : ¬ Pool.OnTurn InOrder pool i pool') : Spoiled pool' := by
  obtain ⟨c, b, c', hc, hmove, rfl⟩ := Pool.step_cases hstep
  obtain ⟨stage, hturn, rfl⟩ := move_turn hmove
  obtain ⟨hends, hannouncements⟩ := h.turn hc hturn
  have hmem := List.mem_of_getElem? hc
  by_cases hwrong : c.Repeats pool.shared ∨ c.Overtaken pool.shared
  · have hended : pool.shared.job.isTerminal = true := hwrong.elim (·.2.1) (·.2.1)
    have hended' : b.job.isTerminal = true := by
      rw [Job.isTerminal, hturn.status_eq hended]
      exact hended
    have hone := h.published hended
    rw [decide_eq_true hwrong, hended, hended'] at hends
    simp only [count, if_true] at hends
    exact .inl (by omega)
  · obtain ⟨hrepeats, hovertaken⟩ := not_or.mp hwrong
    by_cases htooLate : c.TooLate pool.shared
    · obtain ⟨hcancels, hstage, hended, hstatus⟩ := htooLate
      have hone : 0 < pool.procs.countP cancelling :=
        List.countP_pos_iff.mpr ⟨c, hmem, by
          rcases hstage with hstage | hstage <;> simp [cancelling, hcancels, hstage]⟩
      have heq := hturn.status_eq hended
      refine .inr (.inr ⟨?_, heq ▸ hstatus, ?_⟩)
      · change b.job.status.isTerminal = true
        rw [heq]
        exact hended
      · have hle : 1 ≤ announcements pool := by
          unfold announcements
          omega
        omega
    · by_cases hsecond : c.Second pool
      · obtain ⟨hbegins, d, hd, hcancelling⟩ := hsecond
        have hone : 0 < pool.procs.countP cancelling :=
          List.countP_pos_iff.mpr ⟨d, hd, hcancelling⟩
        rw [decide_eq_true hbegins] at hannouncements
        have hle : 1 ≤ announcements pool := by
          unfold announcements
          omega
        simp only [count, if_true] at hannouncements
        exact .inr (.inl (by omega))
      · refine absurd (fun p hp => ?_) hnot
        cases (hp : pool.procs[i]? = some p).symm.trans hc
        exact ⟨hrepeats, hovertaken, htooLate, hsecond, (h.smooth c hmem).not_cut⟩

/-- When all calls have returned, what is too much has been published. -/
theorem Spoiled.not_completedOnce (h : Spoiled pool)
    (hreturned : ∀ c ∈ pool.procs, c.stage = .returned) : ¬ CompletedOnce pool := by
  intro honce
  have hcompletes : pool.procs.countP completes = 0 :=
    List.countP_eq_zero.mpr fun c hc => by simp [completes, hreturned c hc]
  have hcancelling : pool.procs.countP cancelling = 0 :=
    List.countP_eq_zero.mpr fun c hc => by simp [cancelling, hreturned c hc]
  unfold Spoiled ends announcements at h
  rw [hcompletes, hcancelling] at h
  rcases h with h | h | ⟨-, hstatus, h⟩
  · rcases honce.completed with heq | ⟨-, heq⟩ <;> simp [heq] at h
  · have hle := honce.cancelled.1
    omega
  · exact hstatus (honce.cancelled.2 (List.count_pos_iff.mp (by omega)))

/-- For every run: if no turn applies a terminal status again, is overtaken by the end of the job,
cancels too late, begins a second cancellation or is cut off from publishing the end, then the job
ends once and for all. In a run in which nothing raises and every call returns, this is the exact
condition. -/
theorem finalOnce_run {id : JobId} {isPattern : Bool}
    {requests : List (EndingRequest × (Stage → Publication))} {turns : List ℕ}
    {pool : Pool JobBoard EndingCall}
    (hrun : runSteps (Pool.step move) (submitted id isPattern requests) turns = some pool) :
    (AllSteps (Pool.step move) (Pool.OnTurn InOrder) (submitted id isPattern requests) turns →
      FinalOnce (submitted id isPattern requests) turns) ∧
    ((∀ r ∈ requests, (r.1.begin r.2).Smooth) → (∀ c ∈ pool.procs, c.stage = .returned) →
      FinalOnce (submitted id isPattern requests) turns →
      AllSteps (Pool.step move) (Pool.OnTurn InOrder) (submitted id isPattern requests) turns) := by
  refine ⟨finalOnce_of_inOrder live_submitted counted_submitted, fun hsmooth hreturned hfinal => ?_⟩
  have hcertain : Certain (submitted id isPattern requests) := by
    refine ⟨live_submitted, fun c hc => ?_, fun hended => absurd hended (by simp [submitted, Job.isTerminal,
      JobStatus.isTerminal])⟩
    obtain ⟨r, hr, rfl⟩ := List.mem_map.mp hc
    exact hsmooth r hr
  refine @allSteps_of_unmarked _ _ _ Certain (fun pool => Certain pool ∧ Spoiled pool) _
    (fun _ _ _ h hstep _ => h.step hstep)
    (fun _ _ _ h hstep hnot => ⟨h.step hstep, .of_not_inOrder h hstep hnot⟩)
    (fun _ _ _ h hstep => ⟨h.1.step hstep, h.2.step h.1 hstep⟩) _ _ _ hcertain hrun ?_
  rintro ⟨-, hspoiled⟩
  exact hspoiled.not_completedOnce hreturned
    (hfinal turns [] pool pool (List.append_nil turns).symm hrun rfl).1

/-- There is an event engine and an instance, and nothing raises. -/
def published (_ : Stage) : Publication := .emitted

/-- A job that succeeds and whose later cancellation is refused. -/
theorem finalOnce_run_succeeds : FinalOnce
    (submitted "job-1" true [(.applyResult { status := .succeeded }, published),
      (.cancelJob, published)]) [0, 0, 0, 0, 0, 0, 0, 1] := by
  have hrun : runSteps (Pool.step move) (submitted "job-1" true
      [(.applyResult { status := .succeeded }, published), (.cancelJob, published)])
      [0, 0, 0, 0, 0, 0, 0, 1] = some _ := rfl
  exact (finalOnce_run hrun).1 (by decide +kernel)

/-- A slice that waits for input is cut short: before its status is published the job is cancelled,
and the slice publishes the end a second time. -/
theorem finalOnce_run_fails : ¬ ∀ (id : JobId) (isPattern : Bool)
    (requests : List (EndingRequest × (Stage → Publication))) (turns : List ℕ),
      FinalOnce (submitted id isPattern requests) turns := by
  intro h
  have hfinal := h "job-1" true [(.applyResult { status := .waitingForInput }, published),
    (.cancelJob, published)] [0, 1, 1, 1, 1, 1, 1, 1, 1, 1, 1, 0, 0, 0, 0] [0, 1, 1, 1, 1, 1, 1, 1,
      1, 1, 1, 0, 0, 0, 0] [] _ _ (List.append_nil _).symm rfl rfl
  rcases hfinal.1.completed with heq | ⟨-, heq⟩
  · exact absurd heq (by decide)
  · exact absurd heq (by decide)

end PalmEngine.Orchestration
