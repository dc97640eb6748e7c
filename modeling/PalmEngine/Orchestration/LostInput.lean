import PalmEngine.Lib.Runs
import PalmEngine.Orchestration.Machine

/-!
# Delivered input and the slice that will see it

An input is written to job state first and the job is queued afterwards, if its status
then reads as waiting. The property followed here says that an input whose delivering
call has returned is in the state some slice ticked from its start, or has a work item
that is still queued or in the hands of a worker that has not entered its tick loop.

Three branches break it, and no other step does: a status check that reads neither
waiting nor terminal, a work item dropped because the slot is taken, and a slice that
ends before its first tick.
-/

namespace PalmEngine.Orchestration

open PalmEngine.Lib

/-- Some worker other than `t` holds an item of the job. -/
def HeldElsewhere (workers : List Pc) (t : ℕ) (j : JobId) : Prop :=
  ∃ (i : ℕ) (pc : Pc), i ≠ t ∧ workers[i]? = some pc ∧ pc.holds j = true

/-- A work item of the job is outstanding apart from anything worker `t` has in hand. -/
def OutstandingBesides (s : State) (t : ℕ) (j : JobId) : Prop :=
  QItem.work j ∈ s.queue ∨ HeldElsewhere s.workers t j

/-- The job can still be driven, and some returned delivery wrote after its latest slice had
entered the tick loop. -/
def Unseen (s : State) (j : JobId) : Prop :=
  (∃ job, s.jobs j = some job ∧ job.isTerminal = false) ∧
    (s.inbox j).seen < (s.inbox j).delivered

/-- Every live job with unseen delivered input has an outstanding work item. -/
def NoLostInput (s : State) : Prop :=
  ∀ j, Unseen s j → Outstanding s j

/-- A delivering call finds its job neither waiting nor terminal, its write is newer than the
job's latest slice, and no work item is outstanding: the call returns without queueing one. -/
def LateCheck (s : State) (c : ℕ) : Prop :=
  ∃ (call : Call) (w : ℕ) (job : Job), s.calls[c]? = some (some call) ∧ call.write = some w ∧
    call.checks ≠ 0 ∧ s.jobs call.job = some job ∧
    (job.status = .pending ∨ job.status = .running) ∧
    (s.inbox call.job).seen < w ∧ ¬ Outstanding s call.job

/-- `begin_drive` refuses the last outstanding item of a job with unseen input, because another
slice still has the slot. -/
def RefusedLast (s : State) (t : ℕ) : Prop :=
  ∃ j, s.workers[t]? = some (.begin j) ∧ s.driving j ≠ none ∧ Unseen s j ∧
    ¬ OutstandingBesides s t j

/-- The last outstanding item of a job with unseen input reaches a slice that ends before its
first tick: a before-drive hook raises, or the budget is below one. -/
def AbortedSlice (cfg : Config) (s : State) (t : ℕ) (o : Outcome) : Prop :=
  ∃ j, ((s.workers[t]? = some (.slice j .before) ∧ ∃ e, o = .raised e) ∨
      (s.workers[t]? = some (.slice j .run) ∧ cfg.budget < 1 ∧
        ∃ job, s.jobs j = some job ∧ job.isPattern = true)) ∧
    Unseen s j ∧ ¬ OutstandingBesides s t j

/-- The step takes one of the three branches that lose input. -/
def LosesInput (cfg : Config) (s : State) : Label → Prop
  | .client (.advance c) => LateCheck s c
  | .worker t o => RefusedLast s t ∨ AbortedSlice cfg s t o
  | _ => False

/-- Returned writes have been made, to registered jobs, and a slice that skips its tick loop ends
its job. -/
structure WellCounted (s : State) : Prop where
  fresh : ∀ j, s.jobs j = none → (s.inbox j).written = 0
  delivered_le : ∀ j, (s.inbox j).delivered ≤ (s.inbox j).written
  call_le : ∀ (call : Call) (w : ℕ), some call ∈ s.calls → call.write = some w →
    w ≤ (s.inbox call.job).written
  skip_terminal : ∀ (i : ℕ) (j : JobId) (r : RunResult) (o : Origin),
    s.workers[i]? = some (.slice j (.apply r o)) → o ≠ .ticked →
    r.status.isTerminal = true

/-- Splitting off the item in one worker's hands. -/
theorem held_iff {workers : List Pc} {t : ℕ} {pc : Pc} (h : workers[t]? = some pc) (j : JobId) :
    Held workers j ↔ HeldElsewhere workers t j ∨ pc.holds j = true := by
  constructor
  · rintro ⟨i, pc', hi, hholds⟩
    by_cases hit : i = t
    · subst hit
      rw [h] at hi
      exact .inr (Option.some.inj hi ▸ hholds)
    · exact .inl ⟨i, pc', hit, hi, hholds⟩
  · rintro (⟨i, pc', -, hi, hholds⟩ | hholds)
    · exact ⟨i, pc', hi, hholds⟩
    · exact ⟨t, pc, h, hholds⟩

/-- Moving one worker leaves what the others hold. -/
theorem held_set_iff {workers : List Pc} {t : ℕ} {pc : Pc} (h : workers[t]? = some pc) (pc' : Pc)
    (j : JobId) : Held (workers.set t pc') j ↔ HeldElsewhere workers t j ∨ pc'.holds j = true := by
  have hlt : t < workers.length := (List.getElem?_eq_some_iff.mp h).1
  have hself : (workers.set t pc')[t]? = some pc' := List.getElem?_set_self hlt
  rw [held_iff hself]
  have helse : HeldElsewhere (workers.set t pc') t j ↔ HeldElsewhere workers t j := by
    constructor <;> rintro ⟨i, q, hne, hi, hq⟩ <;> refine ⟨i, q, hne, ?_, hq⟩
    · rwa [List.getElem?_set_ne (Ne.symm hne)] at hi
    · rwa [List.getElem?_set_ne (Ne.symm hne)]
  rw [helse]

/-- The outstanding items of a job, with one worker's hands apart. -/
theorem outstanding_iff {s : State} {t : ℕ} {pc : Pc} (h : s.workers[t]? = some pc) (j : JobId) :
    Outstanding s j ↔ OutstandingBesides s t j ∨ pc.holds j = true := by
  simp only [Outstanding, OutstandingBesides, held_iff h, or_assoc]

/-- The outstanding items of a job after one worker has moved. -/
theorem outstanding_setPc_iff {s : State} {t : ℕ} {pc : Pc} (h : s.workers[t]? = some pc) (pc' : Pc)
    (j : JobId) : Outstanding (s.setPc t pc') j ↔ OutstandingBesides s t j ∨ pc'.holds j = true := by
  simp only [Outstanding, OutstandingBesides, State.setPc, held_set_iff h, or_assoc]

/-- Storing a job record unregisters no job. -/
private theorem setJob_none {s : State} {i j : JobId} {job : Job} (h : (s.setJob j job).jobs i = none) :
    s.jobs i = none := by
  by_cases hij : i = j
  · subst hij; simp [State.setJob] at h
  · simpa [State.setJob, hij] using h

/-- A move that reaches `apply_result` without having ticked brings a terminal result. -/
theorem Move.skip_terminal {cfg : Config} {s s' : State} {t : ℕ} {pc : Pc} {o : Outcome} {j : JobId}
    {r : RunResult} {origin : Origin} (h : Move cfg s t pc o (.slice j (.apply r origin)) s')
    (hne : origin ≠ .ticked) : r.status.isTerminal = true := by
  generalize hpc : Pc.slice j (.apply r origin) = pc' at h
  cases h with
  | before_denied => cases hpc; rfl
  | run_returned _ _ _ _ hstart => cases hpc; exact runnerStart_returned hstart
  | tick_exhausted => cases hpc; exact (hne rfl).elim
  | tick_result => cases hpc; exact (hne rfl).elim
  | apply_ignored _ _ _ o => cases o <;> cases hpc
  | publish_done _ _ o => cases o <;> cases hpc
  | finish _ raised => cases raised <;> cases hpc
  | _ => cases hpc

/-- The counts stay ordered along a worker's step. -/
theorem WellCounted.worker {cfg : Config} {s u : State} {t : ℕ} {o : Outcome} (hs : WellCounted s)
    (h : step cfg s (.worker t o) = some u) : WellCounted u := by
  obtain ⟨pc, pc', s', hpc, hmove, rfl⟩ := worker_move h
  obtain ⟨hworkers, hcalls, -⟩ := hmove.frame
  refine ⟨fun j hj => ?_, fun j => ?_, fun call w hc hw => ?_, fun i j r origin hi hne => ?_⟩
  · exact (hmove.inbox j).1.trans (hs.fresh j (hmove.registered hj))
  · have hj := hmove.inbox j
    have hle := hs.delivered_le j
    change (s'.inbox j).delivered ≤ (s'.inbox j).written
    omega
  · have hj := hmove.inbox call.job
    have hle := hs.call_le call w (hcalls ▸ hc) hw
    change w ≤ (s'.inbox call.job).written
    omega
  · rcases getElem?_setPc hi with ⟨rfl, rfl⟩ | ⟨-, hi⟩
    · exact hmove.skip_terminal hne
    · exact hs.skip_terminal i j r origin (hworkers ▸ hi) hne

/-- Writing one more input only raises a job's count. -/
private theorem written_le_write (s : State) (i j : JobId) :
    (s.inbox i).written ≤ ((s.setInbox j (s.inbox j).write).inbox i).written := by
  by_cases hij : i = j
  · subst hij; simp [State.setInbox, Inbox.write]
  · simp [State.setInbox, hij]

/-- The counts stay ordered when a call returns. -/
theorem WellCounted.returnCall {s : State} {c : ℕ} {call : Call} (hs : WellCounted s)
    (hcall : some call ∈ s.calls) : WellCounted (s.returnCall c call) := by
  have hwritten (i : JobId) : ((s.returnCall c call).inbox i).written = (s.inbox i).written := by
    by_cases hi : i = call.job
    · subst hi; simp [State.returnCall, State.setInbox, State.setCall, Inbox.finish]
    · simp [State.returnCall, State.setInbox, State.setCall, hi]
  refine ⟨fun i hi => (hwritten i).trans (hs.fresh i hi), fun i => ?_, fun other w ho hw => ?_,
    hs.skip_terminal⟩
  · rw [hwritten]
    by_cases hi : i = call.job
    · subst hi
      have hle := hs.delivered_le call.job
      have hw : call.write.getD 0 ≤ (s.inbox call.job).written := by
        cases hwrite : call.write with
        | none => exact Nat.zero_le _
        | some w => exact hs.call_le call w hcall hwrite
      simpa [State.returnCall, State.setInbox, State.setCall, Inbox.finish] using ⟨hle, hw⟩
    · simpa [State.returnCall, State.setInbox, State.setCall, hi] using hs.delivered_le i
  · rw [hwritten]
    rcases List.mem_or_eq_of_mem_set ho with ho | ho
    · exact hs.call_le other w ho hw
    · cases ho

/-- The counts stay ordered along a client's step. -/
theorem WellCounted.client {cfg : Config} {s u : State} {l : ClientLabel} (hs : WellCounted s)
    (h : step cfg s (.client l) = some u) : WellCounted u := by
  change clientStep cfg s l = some u at h
  cases l with
  | submit j isPattern =>
    simp only [clientStep] at h
    split at h
    · cases h
      exact ⟨fun i hi => hs.fresh i (setJob_none hi), hs.delivered_le, hs.call_le, hs.skip_terminal⟩
    · cases h
  | enqueue j =>
    simp only [clientStep] at h
    split at h
    · cases h; exact ⟨hs.fresh, hs.delivered_le, hs.call_le, hs.skip_terminal⟩
    · cases h
  | deliver j =>
    obtain ⟨job, hjob, rfl⟩ := Option.map_eq_some_iff.mp h
    refine ⟨fun i hi => ?_, fun i => ?_, fun call w hc hw => ?_, hs.skip_terminal⟩
    · have hij : i ≠ j := by
        rintro rfl
        exact Option.some_ne_none job (hjob.symm.trans hi)
      simpa [State.startCall, State.setInbox, hij] using hs.fresh i hi
    · refine le_trans ?_ ((hs.delivered_le i).trans (written_le_write s i j))
      by_cases hij : i = j
      · subst hij; simp [State.startCall, State.setInbox, Inbox.write]
      · simp [State.startCall, State.setInbox, hij]
    · rcases List.mem_append.mp hc with hc | hc
      · exact (hs.call_le call w hc hw).trans (written_le_write s _ j)
      · cases List.mem_singleton.mp hc
        cases hw
        simp [State.startCall, State.setInbox, Inbox.write]
  | resume j =>
    obtain ⟨job, -, rfl⟩ := Option.map_eq_some_iff.mp h
    refine ⟨hs.fresh, hs.delivered_le, fun call w hc hw => ?_, hs.skip_terminal⟩
    rcases List.mem_append.mp hc with hc | hc
    · exact hs.call_le call w hc hw
    · cases List.mem_singleton.mp hc
      cases hw
  | advance c =>
    obtain ⟨call, hc, h⟩ := Option.bind_eq_some_iff.mp h
    have hcall : some call ∈ s.calls := List.mem_of_getElem? (Option.join_eq_some_iff.mp hc)
    unfold State.advanceCall at h
    split at h
    · cases h
      obtain ⟨hfresh, hle, hcall', hskip⟩ := hs.returnCall (c := c) hcall
      exact ⟨hfresh, hle, hcall', hskip⟩
    · obtain ⟨job, -, rfl⟩ := Option.map_eq_some_iff.mp h
      split
      · refine ⟨hs.fresh, hs.delivered_le, fun other w ho hw => ?_, hs.skip_terminal⟩
        rcases List.mem_or_eq_of_mem_set ho with ho | ho
        · exact hs.call_le other w ho hw
        · cases ho
          exact hs.call_le call w hcall hw
      · exact hs.returnCall hcall
  | abort c =>
    obtain ⟨call, -, h⟩ := Option.bind_eq_some_iff.mp h
    split at h
    · cases h
      refine ⟨hs.fresh, hs.delivered_le, fun other w ho hw => ?_, hs.skip_terminal⟩
      rcases List.mem_or_eq_of_mem_set ho with ho | ho
      · exact hs.call_le other w ho hw
      · cases ho
    · cases h
  | cancel j | failOwner j e =>
    obtain ⟨job, -, h⟩ := Option.bind_eq_some_iff.mp h
    split at h
    · cases h
      exact ⟨fun i hi => hs.fresh i (setJob_none hi), hs.delivered_le, hs.call_le, hs.skip_terminal⟩
    · cases h

/-- The counts stay ordered along a step of `start` or `shutdown`. -/
theorem WellCounted.control {cfg : Config} {s u : State} {l : ControlLabel} (hs : WellCounted s)
    (h : step cfg s (.control l) = some u) : WellCounted u := by
  obtain ⟨hinbox, hcalls, hjobs, -⟩ := controlStep_frame h
  refine ⟨fun j hj => ?_, fun j => ?_, fun call w hc hw => ?_, fun i j r o hi hne => ?_⟩
  · rw [hinbox]; exact hs.fresh j (hjobs ▸ hj)
  · rw [hinbox]; exact hs.delivered_le j
  · rw [hinbox]; exact hs.call_le call w (hcalls ▸ hc) hw
  · rcases controlStep_worker h hi with hi | hpc
    · exact hs.skip_terminal i j r o hi hne
    · cases hpc

/-- The counts stay ordered along every step. -/
theorem WellCounted.step {cfg : Config} {s u : State} {l : Label} (hs : WellCounted s)
    (h : step cfg s l = some u) : WellCounted u := by
  cases l with
  | client l => exact hs.client h
  | control l => exact hs.control h
  | worker t o => exact hs.worker h

/-- A step that adds no unseen job and keeps the outstanding items keeps the property. -/
theorem NoLostInput.mono {s u : State} (hs : NoLostInput s) (hunseen : ∀ j, Unseen u j → Unseen s j)
    (hout : ∀ j, Outstanding s j → Outstanding u j) : NoLostInput u :=
  fun j hj => hout j (hs j (hunseen j hj))

/-- After a worker's move the property is about the shared state and what the worker now holds. -/
theorem noLostInput_setPc_iff {s : State} {t : ℕ} {pc : Pc} (h : s.workers[t]? = some pc) (pc' : Pc) :
    NoLostInput (s.setPc t pc') ↔
      ∀ j, Unseen s j → OutstandingBesides s t j ∨ pc'.holds j = true :=
  forall_congr' fun j => imp_congr_right fun _ => outstanding_setPc_iff h pc' j

/-- A job that has ended, or is unknown, has no input left to see. -/
private theorem not_unseen_of_terminal {s : State} {j : JobId}
    (h : ∀ job, s.jobs j = some job → job.isTerminal = true) : ¬ Unseen s j := by
  rintro ⟨⟨job, hjob, hlive⟩, -⟩
  simp [h job hjob] at hlive

/-- Entering the tick loop leaves the job no unseen input. -/
private theorem not_unseen_start {s : State} {j : JobId} (hs : WellCounted s) :
    ¬ Unseen (s.setInbox j (s.inbox j).start) j := by
  rintro ⟨-, hlt⟩
  have hle := hs.delivered_le j
  simp [State.setInbox, Inbox.start] at hlt
  omega

/-- Unseen input of other jobs does not depend on this job's counts. -/
private theorem unseen_setInbox_ne {s : State} {i j : JobId} {inbox : Inbox} (hij : i ≠ j) :
    Unseen (s.setInbox j inbox) i ↔ Unseen s i := by
  simp [Unseen, State.setInbox, hij]

/-- Applying a result makes no job live again. -/
private theorem unseen_of_applied {s : State} {j : JobId} {job job' : Job} {r : RunResult}
    (hjob : s.jobs j = some job) (happly : applyLocked job r = .applied job') {i : JobId}
    (h : Unseen (s.setJob j job') i) :
    Unseen s i ∧ (i = j → r.status.isTerminal = false) := by
  obtain ⟨⟨other, hother, hlive⟩, hlt⟩ := h
  by_cases hij : i = j
  · subst hij
    simp only [State.setJob, Function.update_self, Option.some.injEq] at hother
    subst hother
    obtain ⟨hstatus, -, hkeep⟩ := applyLocked_applied happly
    refine ⟨⟨⟨job, hjob, ?_⟩, hlt⟩, fun _ => hstatus ▸ hlive⟩
    by_contra hterm
    rw [Bool.not_eq_false] at hterm
    have hsame := hkeep hterm
    unfold Job.isTerminal at hlive hterm
    rw [hsame, hterm] at hlive
    cases hlive
  · refine ⟨⟨⟨other, ?_, hlive⟩, hlt⟩, fun h => (hij h).elim⟩
    simpa [State.setJob, hij] using hother

/-- A worker's step outside the losing branches keeps the property. -/
theorem NoLostInput.worker {cfg : Config} {s u : State} {t : ℕ} {o : Outcome} (hs : NoLostInput s)
    (hcount : WellCounted s) (h : step cfg s (.worker t o) = some u)
    (hok : ¬ LosesInput cfg s (.worker t o)) : NoLostInput u := by
  obtain ⟨pc, pc', s', hpc, hmove, rfl⟩ := worker_move h
  obtain ⟨hworkers, -⟩ := hmove.frame
  rw [noLostInput_setPc_iff (hworkers ▸ hpc)]
  have hbefore (j : JobId) (hj : Unseen s j) : OutstandingBesides s t j ∨ pc.holds j = true :=
    (outstanding_iff hpc j).mp (hs j hj)
  cases hmove with
  | get_sentinel rest hqueue =>
    intro j hj
    rcases hbefore j hj with (hq | he) | hh
    · rw [hqueue] at hq
      exact .inl (.inl (by simpa using hq))
    · exact .inl (.inr he)
    · cases hh
  | get_work i rest hqueue =>
    intro j hj
    rcases hbefore j hj with (hq | he) | hh
    · rw [hqueue] at hq
      rcases List.mem_cons.mp hq with hq | hq
      · cases hq; exact .inr (by simp [Pc.holds])
      · exact .inl (.inl hq)
    · exact .inl (.inr he)
    · cases hh
  | item_terminal i hterm =>
    intro j hj
    refine (hbefore j hj).imp_right fun hh => ?_
    have hij : i = j := by simpa [Pc.holds] using hh
    subst hij
    refine (not_unseen_of_terminal (fun job hjob => ?_) hj).elim
    simpa [hjob] using hterm
  | begin_refused i hrefused =>
    intro j hj
    rcases hbefore j hj with hb | hh
    · exact .inl hb
    · have hij : i = j := by simpa [Pc.holds] using hh
      subst hij
      by_contra hnone
      refine hok (.inl ⟨i, hpc, ?_, hj, fun hb => hnone (.inl hb)⟩)
      obtain ⟨⟨job, hjob, hlive⟩, -⟩ := hj
      simpa [State.canBegin, hjob, hlive, Option.isSome_iff_ne_none] using hrefused
  | before_raised i e =>
    intro j hj
    rcases hbefore j hj with hb | hh
    · exact .inl hb
    · have hij : i = j := by simpa [Pc.holds] using hh
      subst hij
      by_contra hnone
      exact hok (.inr ⟨i, .inl ⟨hpc, e, rfl⟩, hj, fun hb => hnone (.inl hb)⟩)
  | run_raised i job e hjob hstart =>
    intro j hj
    rcases hbefore j hj with hb | hh
    · exact .inl hb
    · have hij : i = j := by simpa [Pc.holds] using hh
      subst hij
      by_contra hnone
      obtain ⟨-, hpattern, hbudget⟩ := runnerStart_raised hstart
      exact hok (.inr ⟨i, .inr ⟨hpc, hbudget, job, hjob, hpattern⟩, hj, fun hb => hnone (.inl hb)⟩)
  | run_ticking i job left logical hjob hstart =>
    intro j hj
    by_cases hji : j = i
    · subst hji
      exact (not_unseen_start hcount hj).elim
    · refine (hbefore j ((unseen_setInbox_ne hji).mp hj)).imp_right fun hh => ?_
      have hij : i = j := by simpa only [Pc.holds, decide_eq_true_eq] using hh
      exact (hji hij.symm).elim
  | apply_ignored i job r origin hjob happly =>
    intro j hj
    refine (hbefore j hj).imp_right fun hh => ?_
    have hij : i = j := by cases origin <;> simp_all [Pc.holds]
    subst hij
    exact (not_unseen_of_terminal (by simp [hjob, (applyLocked_ignored happly).1]) hj).elim
  | apply_invalid i job r origin e hjob happly =>
    intro j hj
    refine (hbefore j hj).imp_right fun hh => ?_
    have hne : origin ≠ .ticked := by rintro rfl; cases hh
    rcases applyLocked_terminal (hcount.skip_terminal t i r origin hpc hne) with ⟨heq, -⟩ | ⟨_, heq, -⟩ <;>
      rw [happly] at heq <;> cases heq
  | apply_applied i job job' r origin hjob happly =>
    intro j hj
    obtain ⟨hunseen, hlive⟩ := unseen_of_applied hjob happly hj
    refine (hbefore j hunseen).imp_right fun hh => ?_
    have hne : origin ≠ .ticked := by rintro rfl; cases hh
    have hij : i = j := by cases origin <;> simp_all [Pc.holds]
    have hterm := hcount.skip_terminal t i r origin hpc hne
    rw [hlive hij.symm] at hterm
    cases hterm
  | _ => exact fun j hj => (hbefore j hj).imp_right fun hh => by first | exact hh | cases hh

/-- Nothing has been written to a constructed engine. -/
theorem WellCounted.initial : WellCounted State.initial :=
  ⟨fun _ _ => rfl, fun _ => le_rfl, fun _ _ hc => (nomatch hc), fun _ _ _ _ hi => nomatch hi⟩

/-- A constructed engine has no job. -/
theorem NoLostInput.initial : NoLostInput State.initial := by
  rintro j ⟨⟨job, hjob, -⟩, -⟩
  cases hjob

end PalmEngine.Orchestration
