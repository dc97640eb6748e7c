import PalmEngine.Lib.Runs
import PalmEngine.Orchestration.Machine

/-!
# Shutting a scheduler down and starting it again

The queue, the stop flag and the thread list are re-used by every start. Items are accounted
for in every run: none is lost between a put and a get, and the unfinished count is the queue
length plus the items in workers' hands. The number of workers is another matter. A worker
that leaves by the stop flag leaves its sentinel to a thread of the next start, and one that
outlives its join sees the flag cleared and works on.
-/

namespace PalmEngine.Orchestration

open PalmEngine.Lib

/-- The job of a work item. -/
def QItem.job? : QItem → Option JobId
  | .work j => some j
  | .sentinel => none

@[simp] theorem QItem.job?_work (j : JobId) : (QItem.work j).job? = some j := rfl

@[simp] theorem QItem.job?_sentinel : QItem.sentinel.job? = none := rfl

/-- The worker will come back to the queue for work, unless an exception stops it. -/
def Pc.takesWork : Pc → Bool
  | .exited | .sentinel => false
  | _ => true

/-- The worker has a work item and has not called `task_done` for it. -/
def Pc.busy : Pc → Bool
  | .item _ | .begin _ | .slice _ _ | .finish _ _ => true
  | _ => false

/-- The worker has taken an entry of the queue and has not called `task_done` for it. -/
def Pc.owes : Pc → Bool
  | .sentinel => true
  | pc => pc.busy

/-- Between a start and the next shutdown the threads of that start, and no others, take work;
no item put is dropped; and the unfinished count is zero when no item is queued or in hand. -/
structure Restarted (cfg : Config) (s : State) : Prop where
  count : s.control = .idle → s.running = true → (s.workers.drop s.base).length = cfg.workers
  latest : s.control = .idle → s.running = true →
    ∀ pc ∈ s.workers.drop s.base, pc.takesWork = true
  earlier : s.control = .idle → s.running = true →
    ∀ pc ∈ s.workers.take s.base, pc.takesWork = false
  kept : s.put = s.taken ++ s.queue.filterMap QItem.job?
  idle : s.control = .idle → s.running = true → (∀ j, .work j ∉ s.queue) →
    (∀ pc ∈ s.workers, pc.busy = false) → s.unfinished = 0

/-- A start that finds a live thread of an earlier one or a sentinel nobody took, or a slice whose
exception ends its thread while the stop flag is clear. -/
def State.unclean (s : State) : Label → Bool
  | .control .start => s.workers.any (· ≠ .exited) || s.queue.contains .sentinel
  | .worker t .go =>
    !s.stop && s.workers[t]?.any fun
      | .finish _ raised => raised.isSome
      | _ => false
  | _ => false

/-- Queue entries are accounted for, wherever they are. -/
structure Accounted (s : State) : Prop where
  kept : s.put = s.taken ++ s.queue.filterMap QItem.job?
  owed : s.unfinished = s.queue.length + s.workers.countP Pc.owes

/-- How far a start or a shutdown has come. -/
structure Lifecycle (cfg : Config) (s : State) : Prop where
  base_le : s.base ≤ s.workers.length
  starting : ∀ left, s.control = .starting left →
    s.stop = false ∧ s.workers.length + left = s.base + cfg.workers
  stopping : ∀ left, s.control = .stopping left → s.stop = true
  up : s.control = .idle → s.running = true →
    s.stop = false ∧ s.workers.length = s.base + cfg.workers

/-- While the stop flag is clear no sentinel is queued, and exactly the threads of the latest start
take work. -/
def Fresh (s : State) : Prop :=
  s.stop = false → QItem.sentinel ∉ s.queue ∧
    ∀ (i : ℕ) (pc : Pc), s.workers[i]? = some pc →
      if i < s.base then pc = .exited else pc.takesWork = true

/-- A worker's move keeps the sum of the unfinished count and what is left to account for. -/
private theorem Move.owed {cfg : Config} {s s' : State} {t : ℕ} {pc pc' : Pc} {o : Outcome}
    (h : Move cfg s t pc o pc' s') (hpos : pc.owes = true → 0 < s.unfinished) :
    s'.unfinished + s.queue.length + pc.owes.toNat =
      s.unfinished + s'.queue.length + pc'.owes.toNat := by
  cases h with
  | get_sentinel rest hqueue | get_work j rest hqueue =>
    simp only [hqueue, List.length_cons, Pc.owes, Pc.busy, Bool.toNat_false, Bool.toNat_true]
    omega
  | sentinel =>
    have := hpos rfl
    simp only [State.taskDone, Pc.owes, Pc.busy, Bool.toNat_false, Bool.toNat_true]
    omega
  | finish j raised =>
    have := hpos rfl
    cases raised <;>
      simp only [State.taskDone, Pc.owes, Pc.busy, Bool.toNat_false, Bool.toNat_true,
        Option.isSome_some, Option.isSome_none, if_true, Bool.false_eq_true, if_false] <;>
      omega
  | apply_ignored _ _ _ o | publish_done _ _ o => cases o <;> rfl
  | _ => rfl

/-- A worker's move takes items from the queue only to log them. -/
private theorem Move.kept {cfg : Config} {s s' : State} {t : ℕ} {pc pc' : Pc} {o : Outcome}
    (h : Move cfg s t pc o pc' s') :
    s'.taken ++ s'.queue.filterMap QItem.job? = s.taken ++ s.queue.filterMap QItem.job? := by
  cases h with
  | get_sentinel rest hqueue | get_work j rest hqueue => simp [hqueue, List.filterMap_cons]
  | _ => rfl

/-- Moving one worker changes a count of workers by that worker alone. -/
private theorem countP_set_add {p : Pc → Bool} {workers : List Pc} {t : ℕ} {pc : Pc}
    (h : workers[t]? = some pc) (pc' : Pc) :
    (workers.set t pc').countP p + (p pc).toNat = workers.countP p + (p pc').toNat := by
  obtain ⟨hlt, hget⟩ := List.getElem?_eq_some_iff.mp h
  have hpos : p pc = true → 0 < workers.countP p := fun hp =>
    List.countP_pos_iff.mpr ⟨pc, List.mem_of_getElem? h, hp⟩
  rw [List.countP_set hlt, hget]
  cases hold : p pc with
  | false => cases p pc' <;> simp
  | true =>
    have := hpos hold
    cases p pc' <;> simp <;> omega

/-- Every step keeps the accounts. -/
theorem Accounted.step {cfg : Config} {s u : State} {l : Label} (hs : Accounted s)
    (h : Orchestration.step cfg s l = some u) : Accounted u := by
  cases l with
  | worker t o =>
    obtain ⟨pc, pc', s', hpc, hmove, rfl⟩ := worker_move h
    obtain ⟨hworkers, -, -, -, -, -, hput⟩ := hmove.frame
    refine ⟨(hput.trans hs.kept).trans hmove.kept.symm, ?_⟩
    have hsum := hmove.owed fun howes => by
      rw [hs.owed]
      exact Nat.add_pos_right _ (List.countP_pos_iff.mpr ⟨pc, List.mem_of_getElem? hpc, howes⟩)
    have hcount := countP_set_add (p := Pc.owes) hpc pc'
    have howed := hs.owed
    change s'.unfinished = s'.queue.length + (s'.workers.set t pc').countP Pc.owes
    rw [hworkers]
    omega
  | client l =>
    have hframe := clientStep_frame h
    obtain ⟨hqueue, hput, hunfinished⟩ | ⟨j, hqueue, hput, hunfinished⟩ := hframe.queue
    · exact ⟨by rw [hput, hframe.taken, hqueue, hs.kept],
        by rw [hunfinished, hqueue, hframe.workers, hs.owed]⟩
    · exact ⟨by rw [hput, hframe.taken, hqueue, hs.kept]; simp,
        by rw [hunfinished, hqueue, hframe.workers, hs.owed]; simp; omega⟩
  | control l =>
    change controlStep cfg s l = some u at h
    cases l <;> simp only [controlStep] at h <;> split at h <;> cases h
    · exact ⟨hs.kept, hs.owed⟩
    · exact ⟨hs.kept, by simpa [Pc.owes, Pc.busy] using hs.owed⟩
    · exact ⟨hs.kept, hs.owed⟩
    · exact ⟨hs.kept, hs.owed⟩
    · exact ⟨by simpa [List.filterMap_cons] using hs.kept, by simp [hs.owed]; omega⟩
    · exact ⟨hs.kept, hs.owed⟩

/-- Every step keeps the thread counts of a start in progress and of a running scheduler. -/
theorem Lifecycle.step {cfg : Config} {s u : State} {l : Label} (hs : Lifecycle cfg s)
    (h : Orchestration.step cfg s l = some u) : Lifecycle cfg u := by
  have hsame (hlength : u.workers.length = s.workers.length) (hbase : u.base = s.base)
      (hcontrol : u.control = s.control) (hstop : u.stop = s.stop)
      (hrunning : u.running = s.running) : Lifecycle cfg u := by
    refine ⟨?_, fun left hc => ?_, fun left hc => ?_, fun hc hr => ?_⟩
    · rw [hbase, hlength]; exact hs.base_le
    · rw [hstop, hlength, hbase]; exact hs.starting left (hcontrol ▸ hc)
    · rw [hstop]; exact hs.stopping left (hcontrol ▸ hc)
    · rw [hstop, hlength, hbase]; exact hs.up (hcontrol ▸ hc) (hrunning ▸ hr)
  cases l with
  | worker t o =>
    obtain ⟨pc, pc', s', hpc, hmove, rfl⟩ := worker_move h
    obtain ⟨hworkers, -, hcontrol, hstop, hrunning, hbase, -⟩ := hmove.frame
    refine hsame ?_ hbase hcontrol hstop hrunning
    simp [State.setPc, hworkers]
  | client l =>
    have hframe := clientStep_frame h
    exact hsame (by rw [hframe.workers]) hframe.base hframe.control hframe.stop hframe.running
  | control l =>
    change controlStep cfg s l = some u at h
    cases l with
    | start =>
      simp only [controlStep] at h
      split at h <;> cases h
      exact ⟨le_rfl, fun left hc => by cases hc; exact ⟨rfl, rfl⟩, fun _ hc => (by cases hc),
        fun hc => (by cases hc)⟩
    | spawn =>
      simp only [controlStep] at h
      split at h <;> cases h
      rename_i left hcontrol
      obtain ⟨hstop, hlength⟩ := hs.starting (left + 1) hcontrol
      have hbase := hs.base_le
      refine ⟨?_, fun _ hc => ?_, fun _ hc => (by cases hc), fun hc => (by cases hc)⟩
      · simp only [List.length_append, List.length_singleton]
        omega
      · cases hc
        refine ⟨hstop, ?_⟩
        simp only [List.length_append, List.length_singleton]
        omega
    | started =>
      simp only [controlStep] at h
      split at h <;> cases h
      obtain ⟨hstop, hlength⟩ := hs.starting 0 ‹_›
      exact ⟨hs.base_le, fun _ hc => (by cases hc), fun _ hc => (by cases hc),
        fun _ _ => ⟨hstop, hlength⟩⟩
    | shutdown =>
      simp only [controlStep] at h
      split at h <;> cases h
      exact ⟨hs.base_le, fun _ hc => (by cases hc), fun _ _ => rfl, fun hc => (by cases hc)⟩
    | putSentinel =>
      simp only [controlStep] at h
      split at h <;> cases h
      exact ⟨hs.base_le, fun _ hc => (by cases hc), fun _ _ => hs.stopping _ ‹_›,
        fun hc => (by cases hc)⟩
    | joined =>
      simp only [controlStep] at h
      split at h <;> cases h
      exact ⟨hs.base_le, fun _ hc => (by cases hc), fun _ hc => (by cases hc),
        fun _ hr => (by cases hr)⟩

/-- With the stop flag clear and no sentinel queued, only an exception stops a worker that takes
work. -/
private theorem Move.takesWork {cfg : Config} {s s' : State} {t : ℕ} {pc pc' : Pc} {o : Outcome}
    (h : Move cfg s t pc o pc' s') (hstop : s.stop = false) (hqueue : QItem.sentinel ∉ s.queue)
    (hpc : pc.takesWork = true) (hclean : ∀ j e, pc = .finish j (some e) → o ≠ .go) :
    pc'.takesWork = true := by
  cases h with
  | check_stop hset => rw [hstop] at hset; cases hset
  | get_sentinel rest heq => exact (hqueue (by simp [heq])).elim
  | finish j raised =>
    cases raised with
    | none => rfl
    | some e => exact (hclean j e rfl rfl).elim
  | apply_ignored _ _ _ o | publish_done _ _ o => cases o <;> rfl
  | sentinel => cases hpc
  | _ => rfl

/-- Nobody moves an exited worker. -/
private theorem Move.not_exited {cfg : Config} {s s' : State} {t : ℕ} {pc pc' : Pc} {o : Outcome}
    (h : Move cfg s t pc o pc' s') : pc ≠ .exited := by
  rintro rfl
  cases h

/-- A worker's move puts no sentinel. -/
private theorem Move.sentinel_mem {cfg : Config} {s s' : State} {t : ℕ} {pc pc' : Pc} {o : Outcome}
    (h : Move cfg s t pc o pc' s') (hmem : QItem.sentinel ∈ s'.queue) : QItem.sentinel ∈ s.queue := by
  cases h with
  | get_sentinel rest hqueue | get_work j rest hqueue =>
    rw [hqueue]
    exact List.mem_cons_of_mem _ hmem
  | _ => exact hmem

/-- A clean step keeps stale sentinels and stale threads away from a running scheduler. -/
theorem Fresh.step {cfg : Config} {s u : State} {l : Label} (hs : Fresh s)
    (hlife : Lifecycle cfg s) (h : Orchestration.step cfg s l = some u)
    (hclean : s.unclean l = false) : Fresh u := by
  intro hstopped
  cases l with
  | worker t o =>
    obtain ⟨pc, pc', s', hpc, hmove, rfl⟩ := worker_move h
    obtain ⟨hworkers, -, -, hstop, -, hbase, -⟩ := hmove.frame
    replace hstopped : s.stop = false := hstop.symm.trans hstopped
    obtain ⟨hqueue, hfresh⟩ := hs hstopped
    refine ⟨hqueue ∘ hmove.sentinel_mem, fun i q hi => ?_⟩
    change if i < s'.base then _ else _
    rw [hbase]
    rcases getElem?_setPc hi with ⟨rfl, rfl⟩ | ⟨-, hi⟩
    · have hold := hfresh i pc hpc
      split at hold
      · exact (hmove.not_exited hold).elim
      · rename_i hlatest
        rw [if_neg hlatest]
        refine hmove.takesWork hstopped hqueue hold ?_
        rintro j e rfl rfl
        simp [State.unclean, hstopped, hpc] at hclean
    · exact hfresh i q (hworkers ▸ hi)
  | client l =>
    have hframe := clientStep_frame h
    obtain ⟨hqueue, hfresh⟩ := hs (hframe.stop.symm.trans hstopped)
    refine ⟨?_, fun i pc hi => ?_⟩
    · rcases hframe.queue with ⟨heq, -⟩ | ⟨j, heq, -⟩ <;> rw [heq]
      · exact hqueue
      · simpa using hqueue
    · rw [hframe.base]
      exact hfresh i pc (hframe.workers ▸ hi)
  | control l =>
    change controlStep cfg s l = some u at h
    cases l with
    | start =>
      simp only [controlStep] at h
      split at h <;> cases h
      simp only [State.unclean, Bool.or_eq_false_iff, List.any_eq_false, decide_eq_true_eq,
        not_not, List.contains_eq_mem, decide_eq_false_iff_not] at hclean
      refine ⟨hclean.2, fun i pc hi => ?_⟩
      rw [if_pos (List.getElem?_eq_some_iff.mp hi).1]
      exact hclean.1 pc (List.mem_of_getElem? hi)
    | spawn =>
      simp only [controlStep] at h
      split at h <;> cases h
      obtain ⟨hqueue, hfresh⟩ := hs hstopped
      refine ⟨hqueue, fun i pc hi => ?_⟩
      rw [List.getElem?_append] at hi
      split at hi
      · exact hfresh i pc hi
      · rename_i hlen
        have hge : ¬ i < s.base := fun hlt => hlen (hlt.trans_le hlife.base_le)
        rw [if_neg hge, List.mem_singleton.mp (List.mem_of_getElem? hi)]
        rfl
    | started =>
      simp only [controlStep] at h
      split at h <;> cases h
      exact hs hstopped
    | shutdown =>
      simp only [controlStep] at h
      split at h <;> cases h
      cases hstopped
    | putSentinel =>
      simp only [controlStep] at h
      split at h <;> cases h
      have hset := hlife.stopping _ ‹_›
      rw [hset] at hstopped
      cases hstopped
    | joined =>
      simp only [controlStep] at h
      split at h <;> cases h
      exact hs hstopped

/-- The accounts, the thread counts and the absence of stale threads and sentinels give every
property of a restart. -/
theorem restarted_of_fresh {cfg : Config} {s : State} (hacc : Accounted s)
    (hlife : Lifecycle cfg s) (hfresh : Fresh s) : Restarted cfg s := by
  refine ⟨fun hc hr => ?_, fun hc hr pc hpc => ?_, fun hc hr pc hpc => ?_, hacc.kept,
    fun hc hr hwork hbusy => ?_⟩
  · rw [List.length_drop, (hlife.up hc hr).2]
    omega
  · obtain ⟨i, hi⟩ := List.mem_iff_getElem?.mp hpc
    rw [List.getElem?_drop] at hi
    simpa using (hfresh (hlife.up hc hr).1).2 _ pc hi
  · obtain ⟨i, hi⟩ := List.mem_iff_getElem?.mp hpc
    rw [List.getElem?_take, Option.ite_none_right_eq_some] at hi
    obtain ⟨hlt, hi⟩ := hi
    have hexited := (hfresh (hlife.up hc hr).1).2 i pc hi
    rw [if_pos hlt] at hexited
    rw [hexited]
    rfl
  · obtain ⟨hqueue, hworkers⟩ := hfresh (hlife.up hc hr).1
    have hempty : s.queue = [] := by
      refine List.eq_nil_iff_forall_not_mem.mpr fun item hitem => ?_
      cases item with
      | work j => exact hwork j hitem
      | sentinel => exact hqueue hitem
    have hnone : s.workers.countP Pc.owes = 0 := by
      refine List.countP_eq_zero.mpr fun pc hpc howes => ?_
      obtain ⟨i, hi⟩ := List.mem_iff_getElem?.mp hpc
      have hidle := hbusy pc hpc
      have hpos := hworkers i pc hi
      split at hpos
      · rw [hpos] at howes
        cases howes
      · cases pc with
        | check | get | exited => cases howes
        | sentinel => cases hpos
        | item | begin | slice | finish => cases hidle
    rw [hacc.owed, hempty, hnone]
    rfl

/-- In every run of starts, submissions, shutdowns and workers whose steps are clean, each state
between a start and the next shutdown has the configured workers, and in every state all items
are accounted for. -/
theorem restarted_run (cfg : Config) (labels : List Label)
    (hclean : AllSteps (step cfg) (fun s l _ => s.unclean l = false) .initial labels) :
    AllSteps (step cfg) (fun _ _ u => Restarted cfg u) .initial labels := by
  refine hclean.imp (fun s => Accounted s ∧ Lifecycle cfg s ∧ Fresh s) ?_ ?_
  · intro s l u ⟨hacc, hlife, hfresh⟩ hstep hl
    have hacc' := hacc.step hstep
    have hlife' := hlife.step hstep
    have hfresh' := hfresh.step hlife hstep hl
    exact ⟨restarted_of_fresh hacc' hlife' hfresh', hacc', hlife', hfresh'⟩
  · refine ⟨⟨rfl, rfl⟩, ⟨le_rfl, fun _ hc => (nomatch hc), fun _ hc => (nomatch hc),
      fun _ hr => nomatch hr⟩, fun _ => ⟨fun h => (nomatch h), fun _ _ hi => nomatch hi⟩⟩

/-- A start with one worker. -/
def startOne : List Label := [.control .start, .control .spawn, .control .started]

/-- A shutdown of one worker that waits for an idle worker to take the sentinel. -/
def shutdownIdle : List Label :=
  [.control .shutdown, .control .putSentinel, .worker 0 .go, .worker 0 .go, .worker 0 .go,
    .control .joined]

/-- A worker that took its sentinel is replaced by a new one. -/
theorem restarted_run_idle :
    AllSteps (step ⟨1, 10000, 128, by decide⟩)
      (fun _ _ u => Restarted ⟨1, 10000, 128, by decide⟩ u) .initial
      (startOne ++ shutdownIdle ++ startOne) :=
  restarted_run _ _ (by decide)

/-- One worker is in a slice when the scheduler shuts down, finishes it and leaves by the stop flag;
after the next start its sentinel stops the new worker. -/
def staleSentinelTrace : List Label :=
  startOne ++ [.client (.submit "j" true), .client (.enqueue "j"), .worker 0 .go, .worker 0 .go,
    .worker 0 .go, .worker 0 .go, .worker 0 .go, .worker 0 .go, .control .shutdown,
    .control .putSentinel, .worker 0 (.tick .waiting), .worker 0 .go, .worker 0 .go, .worker 0 .go,
    .worker 0 .go, .worker 0 .go, .worker 0 .go, .control .joined] ++ startOne ++
    [.worker 1 .go, .worker 1 .go]

/-- After a shutdown and a restart a scheduler of one worker can be running with none. -/
theorem restarted_run_fails :
    ¬ ∀ (cfg : Config) (labels : List Label),
      AllSteps (step cfg) (fun _ _ u => Restarted cfg u) .initial labels := by
  intro h
  have hlatest : AllSteps (step ⟨1, 10000, 128, by decide⟩)
      (fun _ _ u => u.control = .idle → u.running = true →
        ∀ pc ∈ u.workers.drop u.base, pc.takesWork = true) .initial staleSentinelTrace :=
    (h _ _).mono fun _ _ _ hu => hu.latest
  revert hlatest
  decide

end PalmEngine.Orchestration
