import PalmEngine.Orchestration.Job

/-!
# The engine, the queued scheduler and its clients as one step function

Each step is one access to shared state: a status check, a queue operation, a claim or a
release of a drive slot, the locked part of `apply_result`, a call into a hook or the
pattern. A label names who moves and what the code outside the model answers, so any
interleaving of any number of worker threads and client calls is a list of labels.

Lifecycle calls (`start`, `shutdown`, and the start a submit makes when the scheduler is
stopped) come from one thread at a time. Publishing and status hooks are one call that
returns or raises. A shutdown may return at any moment after its last sentinel, which is
every join timeout.
-/

namespace PalmEngine.Orchestration

/-- Scheduler and engine settings; the constructor clamps the worker count to at least one. -/
structure Config where
  workers : ℕ
  budget : Int
  maxConcurrentJobs : ℕ
  workers_pos : 0 < workers

/-- An entry of the work queue. -/
inductive QItem where
  | work (j : JobId)
  | sentinel
  deriving DecidableEq, Repr

/-- Where a slice's result comes from: the authorization handler, a runner that did not tick,
or a runner that ticked the pattern. -/
inductive Origin where
  | denied
  | idle
  | ticked
  deriving DecidableEq, Repr

/-- The position of a worker inside `drive_job`, after it claimed the drive slot. -/
inductive Phase where
  | before
  | run
  | ticking (left : ℕ) (logical : JobStatus)
  | apply (r : RunResult) (o : Origin)
  | publish (r : RunResult) (o : Origin)
  | after (r : RunResult)
  | ending (raised : Option PyError)
  deriving DecidableEq, Repr

/-- The position of a worker thread in its loop. -/
inductive Pc where
  | check
  | get
  | sentinel
  | item (j : JobId)
  | begin (j : JobId)
  | slice (j : JobId) (ph : Phase)
  | finish (j : JobId) (raised : Option PyError)
  | exited
  deriving DecidableEq, Repr

/-- A `provide_input`, `deliver_input` or `resume_job` call in progress: its write, if it made
one, and the status checks it still has to pass before it enqueues the job. -/
structure Call where
  job : JobId
  write : Option ℕ
  checks : ℕ
  deriving DecidableEq, Repr

/-- The thread in `start` or `shutdown`: idle, creating threads, or putting sentinels. -/
inductive Control where
  | idle
  | starting (left : ℕ)
  | stopping (left : ℕ)
  deriving DecidableEq, Repr

/-- Counts of a job's inputs: written to its state, present when a slice last entered its tick
loop, and written by a delivering call that has returned. -/
structure Inbox where
  written : ℕ := 0
  seen : ℕ := 0
  delivered : ℕ := 0
  deriving DecidableEq, Repr

/-- An input is written to the job's state. -/
def Inbox.write (inbox : Inbox) : Inbox := { inbox with written := inbox.written + 1 }

/-- A slice enters the tick loop: every input written so far is in the state it ticks. -/
def Inbox.start (inbox : Inbox) : Inbox := { inbox with seen := inbox.written }

/-- A delivering call returns; a plain resume has made no write. -/
def Inbox.finish (inbox : Inbox) (write : Option ℕ) : Inbox :=
  { inbox with delivered := max inbox.delivered (write.getD 0) }

/-- Shared state of the engine and the scheduler, with every thread's position.

`submitting` holds the jobs whose submit call has registered but not yet queued them, `base`
is the first worker of the latest start, and `put` and `taken` log the work items that
entered and left the queue. -/
structure State where
  jobs : JobId → Option Job := fun _ => none
  jobCount : ℕ := 0
  driving : JobId → Option ℕ := fun _ => none
  submitting : List JobId := []
  inbox : JobId → Inbox := fun _ => {}
  calls : List (Option Call) := []
  queue : List QItem := []
  unfinished : ℕ := 0
  stop : Bool := false
  running : Bool := false
  control : Control := .idle
  base : ℕ := 0
  workers : List Pc := []
  put : List JobId := []
  taken : List JobId := []

/-- A constructed engine and scheduler, before the first start. -/
def State.initial : State := {}

/-- What the code outside the model answers at a worker's step. -/
inductive Outcome where
  | go
  | timeout
  | tick (o : TickOutcome)
  | denied (e : PyError)
  | raised (e : PyError)
  deriving DecidableEq, Repr

/-- Steps of the threads that call into the engine. -/
inductive ClientLabel where
  | submit (j : JobId) (isPattern : Bool)
  | enqueue (j : JobId)
  | deliver (j : JobId)
  | resume (j : JobId)
  | advance (c : ℕ)
  | abort (c : ℕ)
  | cancel (j : JobId)
  | failOwner (j : JobId) (e : PyError)
  deriving DecidableEq, Repr

/-- Steps of the thread that starts and shuts down the scheduler. -/
inductive ControlLabel where
  | start
  | spawn
  | started
  | shutdown
  | putSentinel
  | joined
  deriving DecidableEq, Repr

/-- One step of the system. -/
inductive Label where
  | client (l : ClientLabel)
  | control (l : ControlLabel)
  | worker (t : ℕ) (o : Outcome)
  deriving DecidableEq, Repr

/-- Move worker `t`. -/
def State.setPc (s : State) (t : ℕ) (pc : Pc) : State := { s with workers := s.workers.set t pc }

/-- `queue.put` of a work item. -/
def State.enqueue (s : State) (j : JobId) : State :=
  { s with queue := s.queue ++ [.work j], unfinished := s.unfinished + 1, put := s.put ++ [j] }

/-- `queue.task_done`. -/
def State.taskDone (s : State) : State := { s with unfinished := s.unfinished - 1 }

/-- Store a job record. -/
def State.setJob (s : State) (j : JobId) (job : Job) : State :=
  { s with jobs := Function.update s.jobs j (some job) }

/-- `begin_drive` may claim the slot of a registered live job that nobody drives. -/
def State.canBegin (s : State) (j : JobId) : Bool :=
  (s.jobs j).any (fun job => !job.isTerminal) && (s.driving j).isNone

/-- `end_drive`, and the claim of `begin_drive`. -/
def State.setDriving (s : State) (j : JobId) (token : Option ℕ) : State :=
  { s with driving := Function.update s.driving j token }

/-- Replace a job's input counts. -/
def State.setInbox (s : State) (j : JobId) (inbox : Inbox) : State :=
  { s with inbox := Function.update s.inbox j inbox }

/-- `apply_result` returned: an authorization failure ends the slice, a run goes on to the
after-drive hooks. -/
def afterApply (r : RunResult) : Origin → Phase
  | .denied => .ending none
  | .idle | .ticked => .after r

/-- The step of worker `t` inside a slice of job `j`. -/
def sliceStep (cfg : Config) (s : State) (t : ℕ) (j : JobId) : Phase → Outcome → Option State
  | .before, .go => some (s.setPc t (.slice j .run))
  | .before, .denied e =>
    some (s.setPc t (.slice j (.apply { status := .failed, error := some e } .denied)))
  | .before, .raised e => some (s.setPc t (.slice j (.ending (some e))))
  | .run, .go =>
    (s.jobs j).bind fun job =>
      match runnerStart cfg.budget job with
      | .returned r => some (s.setPc t (.slice j (.apply r .idle)))
      | .raised e => some (s.setPc t (.slice j (.ending (some e))))
      | .ticking left logical =>
        some ((s.setInbox j (s.inbox j).start).setPc t (.slice j (.ticking left logical)))
  | .ticking 0 logical, .go =>
    some (s.setPc t (.slice j (.apply (exhaustedResult logical) .ticked)))
  | .ticking (left + 1) _, .tick o =>
    match tickResult o with
    | some r => some (s.setPc t (.slice j (.apply r .ticked)))
    | none => some (s.setPc t (.slice j (.ticking left .running)))
  | .apply r o, .go =>
    (s.jobs j).bind fun job =>
      match applyLocked job r with
      | .ignored => some (s.setPc t (.slice j (afterApply r o)))
      | .invalid e => some (s.setPc t (.slice j (.ending (some e))))
      | .applied job' => some ((s.setJob j job').setPc t (.slice j (.publish r o)))
  | .publish r o, .go =>
    -- A propagated error is re-raised only after the status was published.
    match r.propagate, r.error with
    | true, some e =>
      some (s.setPc t (.slice j (.ending (some ("Job " ++ j ++ " execution failed: " ++ e)))))
    | _, _ => some (s.setPc t (.slice j (afterApply r o)))
  | .publish _ _, .raised e => some (s.setPc t (.slice j (.ending (some e))))
  | .after _, .go => some (s.setPc t (.slice j (.ending none)))
  | .after _, .raised e => some (s.setPc t (.slice j (.ending (some e))))
  | .ending raised, .go => some ((s.setDriving j none).setPc t (.finish j raised))
  | _, _ => none

/-- The step of worker `t` at a position of its loop. -/
def workerStep (cfg : Config) (s : State) (t : ℕ) : Pc → Outcome → Option State
  | .check, .go => some (s.setPc t (if s.stop then .exited else .get))
  | .get, .timeout => if s.queue = [] then some (s.setPc t .check) else none
  | .get, .go =>
    match s.queue with
    | [] => none
    | .sentinel :: rest => some ({ s with queue := rest }.setPc t .sentinel)
    | .work j :: rest =>
      some ({ s with queue := rest, taken := s.taken ++ [j] }.setPc t (.item j))
  | .sentinel, .go => some (s.taskDone.setPc t .exited)
  | .item j, .go =>
    some (s.setPc t (if (s.jobs j).any Job.isTerminal then .finish j none else .begin j))
  | .begin j, .go =>
    if s.canBegin j then some ((s.setDriving j (some t)).setPc t (.slice j .before))
    else some (s.setPc t (.finish j none))
  | .slice j ph, o => sliceStep cfg s t j ph o
  | .finish _ raised, .go =>
    -- An exception that left `drive_job` ends the thread once the item is accounted for.
    some (s.taskDone.setPc t (if raised.isSome then .exited else .check))
  | _, _ => none

/-- A call begins, under the next call number. -/
def State.startCall (s : State) (call : Call) : State := { s with calls := s.calls ++ [some call] }

/-- Replace a call in progress; none when it has ended. -/
def State.setCall (s : State) (c : ℕ) (call : Option Call) : State :=
  { s with calls := s.calls.set c call }

/-- A call returns to its caller. -/
def State.returnCall (s : State) (c : ℕ) (call : Call) : State :=
  (s.setCall c none).setInbox call.job ((s.inbox call.job).finish call.write)

/-- A call in progress after one status check, or its enqueue when none is left. -/
def State.advanceCall (s : State) (c : ℕ) (call : Call) : Option State :=
  match call.checks with
  | 0 => some ((s.returnCall c call).enqueue call.job)
  | checks + 1 =>
    (s.jobs call.job).map fun job =>
      if job.status = .waitingForInput then s.setCall c (some { call with checks := checks })
      else s.returnCall c call

/-- A terminal result applied by `cancel_job` or by a failed wait target. -/
def State.applyOutside (s : State) (j : JobId) (r : RunResult) : Option State :=
  (s.jobs j).bind fun job =>
    match applyLocked job r with
    | .applied job' => some (s.setJob j job')
    | _ => none

/-- The steps of client calls. -/
def clientStep (cfg : Config) (s : State) : ClientLabel → Option State
  | .submit j isPattern =>
    if j ≠ "" ∧ s.jobs j = none ∧ s.jobCount < cfg.maxConcurrentJobs then
      some { s.setJob j { id := j, isPattern := isPattern } with
        jobCount := s.jobCount + 1, submitting := j :: s.submitting }
    else none
  | .enqueue j =>
    if j ∈ s.submitting ∧ s.running then
      some ({ s with submitting := s.submitting.erase j }.enqueue j)
    else none
  | .deliver j =>
    (s.jobs j).map fun _ =>
      (s.setInbox j (s.inbox j).write).startCall ⟨j, some ((s.inbox j).written + 1), 3⟩
  | .resume j => (s.jobs j).map fun _ => s.startCall ⟨j, none, 2⟩
  | .advance c => s.calls[c]?.join.bind (s.advanceCall c)
  | .abort c =>
    -- Publishing the received input raised, so the call raises before its first check.
    s.calls[c]?.join.bind fun call =>
      if call.checks = 3 then some (s.setCall c none) else none
  | .cancel j => s.applyOutside j { status := .cancelled }
  | .failOwner j e => s.applyOutside j { status := .failed, error := some e }

/-- The steps of `start` and `shutdown`. -/
def controlStep (cfg : Config) (s : State) : ControlLabel → Option State
  | .start =>
    if s.control = .idle ∧ !s.running then
      some { s with stop := false, base := s.workers.length, control := .starting cfg.workers }
    else none
  | .spawn =>
    match s.control with
    | .starting (left + 1) =>
      some { s with workers := s.workers ++ [.check], control := .starting left }
    | _ => none
  | .started =>
    if s.control = .starting 0 then some { s with control := .idle, running := true } else none
  | .shutdown =>
    if s.control = .idle ∧ s.running then
      some { s with stop := true, control := .stopping cfg.workers }
    else none
  | .putSentinel =>
    match s.control with
    | .stopping (left + 1) =>
      some { s with queue := s.queue ++ [.sentinel], unfinished := s.unfinished + 1,
                    control := .stopping left }
    | _ => none
  | .joined =>
    if s.control = .stopping 0 then some { s with control := .idle, running := false } else none

/-- One step of the system under a label. -/
def step (cfg : Config) (s : State) : Label → Option State
  | .client l => clientStep cfg s l
  | .control l => controlStep cfg s l
  | .worker t o => s.workers[t]?.bind fun pc => workerStep cfg s t pc o

/-- What one step of worker `t` does: its position before and after, and the shared state it
leaves, in which only its own position is still to be changed. -/
inductive Move (cfg : Config) (s : State) (t : ℕ) : Pc → Outcome → Pc → State → Prop
  | check_stop : s.stop = true → Move cfg s t .check .go .exited s
  | check_go : s.stop = false → Move cfg s t .check .go .get s
  | get_empty : s.queue = [] → Move cfg s t .get .timeout .check s
  | get_sentinel (rest : List QItem) : s.queue = .sentinel :: rest →
      Move cfg s t .get .go .sentinel { s with queue := rest }
  | get_work (j : JobId) (rest : List QItem) : s.queue = .work j :: rest →
      Move cfg s t .get .go (.item j) { s with queue := rest, taken := s.taken ++ [j] }
  | sentinel : Move cfg s t .sentinel .go .exited s.taskDone
  | item_terminal (j : JobId) : (s.jobs j).any Job.isTerminal = true →
      Move cfg s t (.item j) .go (.finish j none) s
  | item_live (j : JobId) : (s.jobs j).any Job.isTerminal = false →
      Move cfg s t (.item j) .go (.begin j) s
  | begin_claim (j : JobId) : s.canBegin j = true →
      Move cfg s t (.begin j) .go (.slice j .before) (s.setDriving j (some t))
  | begin_refused (j : JobId) : s.canBegin j = false → Move cfg s t (.begin j) .go (.finish j none) s
  | before_go (j : JobId) : Move cfg s t (.slice j .before) .go (.slice j .run) s
  | before_denied (j : JobId) (e : PyError) :
      Move cfg s t (.slice j .before) (.denied e)
        (.slice j (.apply { status := .failed, error := some e } .denied)) s
  | before_raised (j : JobId) (e : PyError) :
      Move cfg s t (.slice j .before) (.raised e) (.slice j (.ending (some e))) s
  | run_returned (j : JobId) (job : Job) (r : RunResult) : s.jobs j = some job →
      runnerStart cfg.budget job = .returned r →
      Move cfg s t (.slice j .run) .go (.slice j (.apply r .idle)) s
  | run_raised (j : JobId) (job : Job) (e : PyError) : s.jobs j = some job →
      runnerStart cfg.budget job = .raised e →
      Move cfg s t (.slice j .run) .go (.slice j (.ending (some e))) s
  | run_ticking (j : JobId) (job : Job) (left : ℕ) (logical : JobStatus) : s.jobs j = some job →
      runnerStart cfg.budget job = .ticking left logical →
      Move cfg s t (.slice j .run) .go (.slice j (.ticking left logical))
        (s.setInbox j (s.inbox j).start)
  | tick_exhausted (j : JobId) (logical : JobStatus) :
      Move cfg s t (.slice j (.ticking 0 logical)) .go
        (.slice j (.apply (exhaustedResult logical) .ticked)) s
  | tick_result (j : JobId) (left : ℕ) (logical : JobStatus) (o : TickOutcome) (r : RunResult) :
      tickResult o = some r →
      Move cfg s t (.slice j (.ticking (left + 1) logical)) (.tick o) (.slice j (.apply r .ticked)) s
  | tick_again (j : JobId) (left : ℕ) (logical : JobStatus) (o : TickOutcome) :
      tickResult o = none →
      Move cfg s t (.slice j (.ticking (left + 1) logical)) (.tick o)
        (.slice j (.ticking left .running)) s
  | apply_ignored (j : JobId) (job : Job) (r : RunResult) (o : Origin) : s.jobs j = some job →
      applyLocked job r = .ignored →
      Move cfg s t (.slice j (.apply r o)) .go (.slice j (afterApply r o)) s
  | apply_invalid (j : JobId) (job : Job) (r : RunResult) (o : Origin) (e : PyError) :
      s.jobs j = some job → applyLocked job r = .invalid e →
      Move cfg s t (.slice j (.apply r o)) .go (.slice j (.ending (some e))) s
  | apply_applied (j : JobId) (job job' : Job) (r : RunResult) (o : Origin) : s.jobs j = some job →
      applyLocked job r = .applied job' →
      Move cfg s t (.slice j (.apply r o)) .go (.slice j (.publish r o)) (s.setJob j job')
  | publish_propagate (j : JobId) (r : RunResult) (o : Origin) (e : PyError) :
      r.propagate = true → r.error = some e →
      Move cfg s t (.slice j (.publish r o)) .go
        (.slice j (.ending (some ("Job " ++ j ++ " execution failed: " ++ e)))) s
  | publish_done (j : JobId) (r : RunResult) (o : Origin) :
      (r.propagate = false ∨ r.error = none) →
      Move cfg s t (.slice j (.publish r o)) .go (.slice j (afterApply r o)) s
  | publish_raised (j : JobId) (r : RunResult) (o : Origin) (e : PyError) :
      Move cfg s t (.slice j (.publish r o)) (.raised e) (.slice j (.ending (some e))) s
  | after_go (j : JobId) (r : RunResult) :
      Move cfg s t (.slice j (.after r)) .go (.slice j (.ending none)) s
  | after_raised (j : JobId) (r : RunResult) (e : PyError) :
      Move cfg s t (.slice j (.after r)) (.raised e) (.slice j (.ending (some e))) s
  | ending (j : JobId) (raised : Option PyError) :
      Move cfg s t (.slice j (.ending raised)) .go (.finish j raised) (s.setDriving j none)
  | finish (j : JobId) (raised : Option PyError) :
      Move cfg s t (.finish j raised) .go (if raised.isSome then .exited else .check) s.taskDone

/-- Inversion of a step inside a slice. -/
theorem sliceStep_move {cfg : Config} {s u : State} {t : ℕ} {j : JobId} {ph : Phase} {o : Outcome}
    (h : sliceStep cfg s t j ph o = some u) :
    ∃ pc' s', Move cfg s t (.slice j ph) o pc' s' ∧ u = s'.setPc t pc' := by
  unfold sliceStep at h
  split at h
  · cases h; exact ⟨_, _, .before_go j, rfl⟩
  · cases h; exact ⟨_, _, .before_denied j _, rfl⟩
  · cases h; exact ⟨_, _, .before_raised j _, rfl⟩
  · obtain ⟨job, hjob, h⟩ := Option.bind_eq_some_iff.mp h
    split at h
    · cases h; exact ⟨_, _, .run_returned j job _ hjob ‹_›, rfl⟩
    · cases h; exact ⟨_, _, .run_raised j job _ hjob ‹_›, rfl⟩
    · cases h; exact ⟨_, _, .run_ticking j job _ _ hjob ‹_›, rfl⟩
  · cases h; exact ⟨_, _, .tick_exhausted j _, rfl⟩
  · split at h
    · cases h; exact ⟨_, _, .tick_result j _ _ _ _ ‹_›, rfl⟩
    · cases h; exact ⟨_, _, .tick_again j _ _ _ ‹_›, rfl⟩
  · obtain ⟨job, hjob, h⟩ := Option.bind_eq_some_iff.mp h
    split at h
    · cases h; exact ⟨_, _, .apply_ignored j job _ _ hjob ‹_›, rfl⟩
    · cases h; exact ⟨_, _, .apply_invalid j job _ _ _ hjob ‹_›, rfl⟩
    · cases h; exact ⟨_, _, .apply_applied j job _ _ _ hjob ‹_›, rfl⟩
  · split at h
    · cases h; exact ⟨_, _, .publish_propagate j _ _ _ ‹_› ‹_›, rfl⟩
    · rename_i r o _ _ hne
      cases h
      refine ⟨_, _, .publish_done j r o ?_, rfl⟩
      cases hp : r.propagate with
      | false => exact .inl rfl
      | true =>
        cases he : r.error with
        | none => exact .inr rfl
        | some e => exact (hne e hp he).elim
  · cases h; exact ⟨_, _, .publish_raised j _ _ _, rfl⟩
  · cases h; exact ⟨_, _, .after_go j _, rfl⟩
  · cases h; exact ⟨_, _, .after_raised j _ _, rfl⟩
  · cases h; exact ⟨_, _, .ending j _, rfl⟩
  · cases h

/-- Inversion of a worker's step at its position. -/
theorem workerStep_move {cfg : Config} {s u : State} {t : ℕ} {pc : Pc} {o : Outcome}
    (h : workerStep cfg s t pc o = some u) :
    ∃ pc' s', Move cfg s t pc o pc' s' ∧ u = s'.setPc t pc' := by
  unfold workerStep at h
  split at h
  · cases hstop : s.stop with
    | true => cases h; exact ⟨_, _, .check_stop hstop, by simp [hstop]⟩
    | false => cases h; exact ⟨_, _, .check_go hstop, by simp [hstop]⟩
  · split at h
    · cases h; exact ⟨_, _, .get_empty ‹_›, rfl⟩
    · cases h
  · split at h
    · cases h
    · cases h; exact ⟨_, _, .get_sentinel _ ‹_›, rfl⟩
    · cases h; exact ⟨_, _, .get_work _ _ ‹_›, rfl⟩
  · cases h; exact ⟨_, _, .sentinel, rfl⟩
  · rename_i j
    cases hterm : (s.jobs j).any Job.isTerminal with
    | true => cases h; exact ⟨_, _, .item_terminal j hterm, by simp [hterm]⟩
    | false => cases h; exact ⟨_, _, .item_live j hterm, by simp [hterm]⟩
  · rename_i j
    cases hbegin : s.canBegin j with
    | true => simp only [hbegin, if_true] at h; cases h; exact ⟨_, _, .begin_claim j hbegin, rfl⟩
    | false =>
      simp only [hbegin, Bool.false_eq_true, if_false] at h
      cases h
      exact ⟨_, _, .begin_refused j hbegin, rfl⟩
  · exact sliceStep_move h
  · cases h; exact ⟨_, _, .finish _ _, rfl⟩
  · cases h

/-- Inversion of a worker's step: its position, its move, and the state after it. -/
theorem worker_move {cfg : Config} {s u : State} {t : ℕ} {o : Outcome}
    (h : step cfg s (.worker t o) = some u) :
    ∃ pc pc' s', s.workers[t]? = some pc ∧ Move cfg s t pc o pc' s' ∧ u = s'.setPc t pc' := by
  obtain ⟨pc, hpc, h⟩ := Option.bind_eq_some_iff.mp h
  obtain ⟨pc', s', hmove, hu⟩ := workerStep_move h
  exact ⟨pc, pc', s', hpc, hmove, hu⟩

/-- A worker's move leaves everything that belongs to other threads. -/
theorem Move.frame {cfg : Config} {s s' : State} {t : ℕ} {pc pc' : Pc} {o : Outcome}
    (h : Move cfg s t pc o pc' s') :
    s'.workers = s.workers ∧ s'.calls = s.calls ∧ s'.control = s.control ∧ s'.stop = s.stop ∧
      s'.running = s.running ∧ s'.base = s.base ∧ s'.put = s.put := by
  cases h <;> exact ⟨rfl, rfl, rfl, rfl, rfl, rfl, rfl⟩

/-- What a client call leaves to the threads of the scheduler: it moves no worker, and the queue
changes at most by one work item put at its end. -/
structure ClientFrame (s u : State) : Prop where
  workers : u.workers = s.workers
  driving : u.driving = s.driving
  stop : u.stop = s.stop
  running : u.running = s.running
  control : u.control = s.control
  base : u.base = s.base
  taken : u.taken = s.taken
  queue : (u.queue = s.queue ∧ u.put = s.put ∧ u.unfinished = s.unfinished) ∨
    ∃ j, u.queue = s.queue ++ [.work j] ∧ u.put = s.put ++ [j] ∧ u.unfinished = s.unfinished + 1

/-- A client call that puts nothing keeps all that belongs to the scheduler. -/
private theorem ClientFrame.unchanged {s u : State} (hworkers : u.workers = s.workers)
    (hdriving : u.driving = s.driving) (hstop : u.stop = s.stop) (hrunning : u.running = s.running)
    (hcontrol : u.control = s.control) (hbase : u.base = s.base) (htaken : u.taken = s.taken)
    (hqueue : u.queue = s.queue ∧ u.put = s.put ∧ u.unfinished = s.unfinished) : ClientFrame s u :=
  ⟨hworkers, hdriving, hstop, hrunning, hcontrol, hbase, htaken, .inl hqueue⟩

/-- Every client step has that frame. -/
theorem clientStep_frame {cfg : Config} {s u : State} {l : ClientLabel}
    (h : step cfg s (.client l) = some u) : ClientFrame s u := by
  change clientStep cfg s l = some u at h
  cases l with
  | submit j isPattern =>
    simp only [clientStep] at h
    split at h <;> cases h
    exact .unchanged rfl rfl rfl rfl rfl rfl rfl ⟨rfl, rfl, rfl⟩
  | enqueue j =>
    simp only [clientStep] at h
    split at h <;> cases h
    exact ⟨rfl, rfl, rfl, rfl, rfl, rfl, rfl, .inr ⟨j, rfl, rfl, rfl⟩⟩
  | deliver j | resume j =>
    obtain ⟨job, -, rfl⟩ := Option.map_eq_some_iff.mp h
    exact .unchanged rfl rfl rfl rfl rfl rfl rfl ⟨rfl, rfl, rfl⟩
  | advance c =>
    obtain ⟨call, -, h⟩ := Option.bind_eq_some_iff.mp h
    unfold State.advanceCall at h
    split at h
    · cases h
      exact ⟨rfl, rfl, rfl, rfl, rfl, rfl, rfl, .inr ⟨call.job, rfl, rfl, rfl⟩⟩
    · obtain ⟨job, -, rfl⟩ := Option.map_eq_some_iff.mp h
      split <;> exact .unchanged rfl rfl rfl rfl rfl rfl rfl ⟨rfl, rfl, rfl⟩
  | abort c =>
    obtain ⟨call, -, h⟩ := Option.bind_eq_some_iff.mp h
    split at h <;> cases h
    exact .unchanged rfl rfl rfl rfl rfl rfl rfl ⟨rfl, rfl, rfl⟩
  | cancel j | failOwner j e =>
    obtain ⟨job, -, h⟩ := Option.bind_eq_some_iff.mp h
    split at h <;> cases h
    exact .unchanged rfl rfl rfl rfl rfl rfl rfl ⟨rfl, rfl, rfl⟩

/-- After worker `t` has moved, a worker is either `t` at its new position or where it was. -/
theorem getElem?_setPc {s : State} {t i : ℕ} {pc q : Pc} (h : (s.setPc t pc).workers[i]? = some q) :
    (i = t ∧ q = pc) ∨ (i ≠ t ∧ s.workers[i]? = some q) := by
  change (s.workers.set t pc)[i]? = some q at h
  by_cases hi : i = t
  · subst hi
    have hlt : i < s.workers.length := by
      simpa using (List.getElem?_eq_some_iff.mp h).1
    rw [List.getElem?_set_self hlt] at h
    exact .inl ⟨rfl, (Option.some.inj h).symm⟩
  · rw [List.getElem?_set_ne (Ne.symm hi)] at h
    exact .inr ⟨hi, h⟩

/-- The worker that moved is at its new position. -/
theorem getElem?_setPc_self {s : State} {t : ℕ} {pc : Pc} (h : s.workers[t]? = some pc) (pc' : Pc) :
    (s.setPc t pc').workers[t]? = some pc' :=
  List.getElem?_set_self (List.getElem?_eq_some_iff.mp h).1

/-- The other workers are where they were. -/
theorem getElem?_setPc_ne {s : State} {t i : ℕ} (h : i ≠ t) (pc' : Pc) :
    (s.setPc t pc').workers[i]? = s.workers[i]? :=
  List.getElem?_set_ne (Ne.symm h)

/-- Starting and stopping touch no job and no call; the only change to the workers is a new one
at the head of its loop. -/
theorem controlStep_frame {cfg : Config} {s u : State} {l : ControlLabel}
    (h : step cfg s (.control l) = some u) :
    u.inbox = s.inbox ∧ u.calls = s.calls ∧ u.jobs = s.jobs ∧ u.driving = s.driving ∧
      (u.workers = s.workers ∨ u.workers = s.workers ++ [.check]) := by
  change controlStep cfg s l = some u at h
  cases l <;> simp only [controlStep] at h <;> split at h <;> cases h <;>
    first
    | exact ⟨rfl, rfl, rfl, rfl, .inl rfl⟩
    | exact ⟨rfl, rfl, rfl, rfl, .inr rfl⟩

/-- A worker that a step of `start` or `shutdown` leaves was there before, or is a new one at the
head of its loop. -/
theorem controlStep_worker {cfg : Config} {s u : State} {l : ControlLabel}
    (h : step cfg s (.control l) = some u) {i : ℕ} {pc : Pc} (hi : u.workers[i]? = some pc) :
    s.workers[i]? = some pc ∨ pc = .check := by
  obtain ⟨-, -, -, -, hw | hw⟩ := controlStep_frame h <;> rw [hw] at hi
  · exact .inl hi
  · rw [List.getElem?_append] at hi
    split at hi
    · exact .inl hi
    · exact .inr (List.mem_singleton.mp (List.mem_of_getElem? hi))

/-- Jobs are never unregistered by a worker's move. -/
theorem Move.registered {cfg : Config} {s s' : State} {t : ℕ} {pc pc' : Pc} {o : Outcome}
    (h : Move cfg s t pc o pc' s') {j : JobId} (hj : s'.jobs j = none) : s.jobs j = none := by
  cases h with
  | apply_applied i job job' r o hjob =>
    by_cases hji : j = i
    · subst hji
      simp [State.setJob] at hj
    · simpa [State.setJob, hji] using hj
  | _ => exact hj

/-- A worker's move counts no write and no delivery. -/
theorem Move.inbox {cfg : Config} {s s' : State} {t : ℕ} {pc pc' : Pc} {o : Outcome}
    (h : Move cfg s t pc o pc' s') (j : JobId) :
    (s'.inbox j).written = (s.inbox j).written ∧ (s'.inbox j).delivered = (s.inbox j).delivered := by
  cases h with
  | run_ticking i =>
    by_cases hji : j = i
    · subst hji
      simp [State.setInbox, Inbox.start]
    · simp [State.setInbox, hji]
  | _ => exact ⟨rfl, rfl⟩

/-- The worker has an item of the job in hand and has not entered its tick loop. A slice that
skipped the loop still counts until its terminal result is applied. -/
def Pc.holds (j : JobId) : Pc → Bool
  | .item i | .begin i | .slice i .before | .slice i .run => i = j
  | .slice i (.apply _ .denied) | .slice i (.apply _ .idle) => i = j
  | _ => false

/-- Some worker holds an item of the job. -/
def Held (workers : List Pc) (j : JobId) : Prop :=
  ∃ (i : ℕ) (pc : Pc), workers[i]? = some pc ∧ pc.holds j = true

/-- A work item of the job is queued, or held by a worker that has not entered its tick loop. -/
def Outstanding (s : State) (j : JobId) : Prop :=
  QItem.work j ∈ s.queue ∨ Held s.workers j

instance (workers : List Pc) (j : JobId) : Decidable (Held workers j) :=
  decidable_of_iff (∃ pc ∈ workers, pc.holds j = true) (by
    simp only [Held, List.mem_iff_getElem?]
    exact ⟨fun ⟨pc, ⟨i, hi⟩, h⟩ => ⟨i, pc, hi, h⟩, fun ⟨i, pc, hi, h⟩ => ⟨pc, ⟨i, hi⟩, h⟩⟩)

instance (s : State) (j : JobId) : Decidable (Outstanding s j) :=
  inferInstanceAs (Decidable (QItem.work j ∈ s.queue ∨ Held s.workers j))

end PalmEngine.Orchestration
