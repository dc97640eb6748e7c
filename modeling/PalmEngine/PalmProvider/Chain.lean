import PalmEngine.PalmProvider.Invoke

/-!
# Chains of invocations

An invocation is performed by a job or by the invocation of a resource, and the job is the child of
another invocation, or nobody's. The guard sees of this chain what the context variables of the
thread have: they have all of it when the job is driven inside of the invocation that submitted it,
and nothing when a worker takes it from the queue.

As long as a job that is taken from the queue or resumed is driven on a thread whose context has its
chain, no invocation is let through that is too deep or whose target occurs in its chain.
-/

namespace PalmEngine.PalmProvider

open PalmEngine.Lib PalmEngine.Orchestration

/-- The context variables have a chain of invocations. -/
def RecursionContext.Covers (ctx : RecursionContext) (path : List PalmInvokeTarget) : Prop :=
  path.length ≤ ctx.depth ∧ ∀ target ∈ path, target.key ∈ ctx.chain

instance (ctx : RecursionContext) (path : List PalmInvokeTarget) : Decidable (ctx.Covers path) :=
  inferInstanceAs (Decidable (_ ∧ _))

/-- An invocation is within its limit, and its target does not occur in the chain before it. -/
def PalmInvoke.Within (call : PalmInvoke) (path : List PalmInvokeTarget) : Prop :=
  (path.length + 1 : ℤ) ≤ call.maxDepth ∧ ∀ target ∈ path, target.key ≠ call.target.key

/-- The jobs keep their chains. -/
def KeepsPaths (jobs jobs' : List PalmJob) : Prop :=
  ∀ (j : ℕ) (job : PalmJob), jobs[j]? = some job →
    ∃ job' : PalmJob, jobs'[j]? = some job' ∧ job'.path = job.path

/-- On a stack of activities the context variables have the chain of each job and of each
invocation, whose first job has the same chain. -/
def Framed (jobs : List PalmJob) : List Activity → RecursionContext → Prop
  | [], _ => True
  | .slice j :: rest, ctx =>
    (∃ job, jobs[j]? = some job ∧ ctx.Covers job.path) ∧ Framed jobs rest ctx
  | .invocation frame :: rest, ctx =>
    ctx.Covers frame.path ∧
      (∀ j ∈ frame.primary, ∃ job, jobs[j]? = some job ∧ job.path = frame.path) ∧
      Framed jobs rest frame.saved

namespace PalmPool

/-- Every invocation that was let through is within its limit and closes no cycle. -/
def BoundsInvocations (pool : PalmPool) : Prop :=
  ∀ entry ∈ pool.shared.accepted, entry.2.Within entry.1

/-- The job that is driven when a worker takes it or when it is resumed on the thread of the
caller. -/
def begins (scheduler : Scheduler) (s : PalmRuntime) : PalmAction → Option ℕ
  | .take => s.queue.head?
  | .resume j => if scheduler = .inline then some j else none
  | _ => none

/-- A job that is taken from the queue or resumed, if it can be driven, is driven on a thread whose
context variables have its chain. -/
def DrivesInChain (scheduler : Scheduler) (pool : PalmPool) (turn : ℕ × PalmAction)
    (_ : PalmPool) : Prop :=
  ∀ thread ∈ pool.procs[turn.1]?, ∀ j ∈ begins scheduler pool.shared turn.2,
    pool.shared.canDrive j = true → ∀ job ∈ pool.shared.jobs[j]?, thread.context.Covers job.path

end PalmPool

section Paths

variable {jobs jobs' jobs'' : List PalmJob}

/-- Nothing changes. -/
theorem KeepsPaths.refl (jobs : List PalmJob) : KeepsPaths jobs jobs :=
  fun _ job h => ⟨job, h, rfl⟩

/-- One change after another. -/
theorem KeepsPaths.trans (h : KeepsPaths jobs jobs') (h' : KeepsPaths jobs' jobs'') :
    KeepsPaths jobs jobs'' := by
  intro j job hjob
  obtain ⟨job', hjob', hpath⟩ := h j job hjob
  obtain ⟨job'', hjob'', hpath'⟩ := h' j job' hjob'
  exact ⟨job'', hjob'', hpath'.trans hpath⟩

/-- A new job changes no other. -/
theorem keepsPaths_append (jobs : List PalmJob) (job : PalmJob) :
    KeepsPaths jobs (jobs ++ [job]) := by
  intro j job' hjob
  obtain ⟨hj, -⟩ := List.getElem?_eq_some_iff.mp hjob
  exact ⟨job', by rw [List.getElem?_append_left hj, hjob], rfl⟩

/-- A job may change but for its chain. -/
theorem keepsPaths_modify (jobs : List PalmJob) (j : ℕ) {f : PalmJob → PalmJob}
    (hf : ∀ job, (f job).path = job.path) : KeepsPaths jobs (jobs.modify j f) := by
  intro i job hjob
  by_cases hij : j = i
  · exact ⟨f job, by simp [hij, hjob], hf job⟩
  · exact ⟨job, by simp [hij, hjob], rfl⟩

/-- What holds of a stack of activities depends on the chains of the jobs only. -/
theorem Framed.of_keeps (hkeeps : KeepsPaths jobs jobs') {stack : List Activity}
    {ctx : RecursionContext} (h : Framed jobs stack ctx) : Framed jobs' stack ctx := by
  induction stack generalizing ctx with
  | nil => trivial
  | cons activity rest ih =>
    cases activity with
    | slice j =>
      obtain ⟨⟨job, hjob, hcovers⟩, hrest⟩ := h
      obtain ⟨job', hjob', hpath⟩ := hkeeps j job hjob
      exact ⟨⟨job', hjob', hpath ▸ hcovers⟩, ih hrest⟩
    | invocation frame =>
      obtain ⟨hcovers, hprimary, hrest⟩ := h
      refine ⟨hcovers, fun j hj => ?_, ih hrest⟩
      obtain ⟨job, hjob, hjobPath⟩ := hprimary j hj
      obtain ⟨job', hjob', hpath⟩ := hkeeps j job hjob
      exact ⟨job', hjob', hpath.trans hjobPath⟩

end Paths

namespace PalmThread

variable {s s' : PalmRuntime} {thread thread' : PalmThread} {scheduler : Scheduler}

/-- What an action leaves as it is: the jobs keep their chains, the context variables of the thread
have the chains they should have, and nothing new is let through that is not within its limit. -/
structure Kept (s : PalmRuntime) (out : PalmRuntime × PalmThread) : Prop where
  keeps : KeepsPaths s.jobs out.1.jobs
  framed : Framed out.1.jobs out.2.stack out.2.context
  accepted : ∀ entry ∈ out.1.accepted, entry ∈ s.accepted ∨ entry.2.Within entry.1

/-- A slice may begin in a context that has the chain of its job. -/
theorem drive_kept (hframed : Framed s.jobs thread.stack thread.context) {j : ℕ}
    (hcovers : s.canDrive j = true → ∀ job ∈ s.jobs[j]?, thread.context.Covers job.path) :
    Kept s (drive s thread j) := by
  unfold drive
  split
  · next hcan =>
    have hkeeps : KeepsPaths s.jobs (s.modifyJob j fun job => { job with driving := true }).jobs :=
      keepsPaths_modify s.jobs j fun _ => rfl
    obtain ⟨job, hjob, -⟩ := (Option.any_eq_true _ _).mp hcan
    obtain ⟨job', hjob', hpath⟩ := hkeeps j job hjob
    exact ⟨hkeeps, ⟨⟨job', hjob', hpath ▸ hcovers hcan job hjob⟩, hframed.of_keeps hkeeps⟩,
      fun _ => Or.inl⟩
  · exact ⟨KeepsPaths.refl _, hframed, fun _ => Or.inl⟩

/-- A job may be handed to the scheduler in such a context, and to workers in any. -/
theorem schedule_kept (hframed : Framed s.jobs thread.stack thread.context) {j : ℕ}
    (hcovers : scheduler = .inline → s.canDrive j = true →
      ∀ job ∈ s.jobs[j]?, thread.context.Covers job.path) :
    Kept s (schedule s thread scheduler j) := by
  cases scheduler with
  | inline => exact drive_kept hframed (hcovers rfl)
  | queued => exact ⟨KeepsPaths.refl _, hframed, fun _ => Or.inl⟩

/-- A new job may be handed to the scheduler in a context that has its chain. -/
theorem schedule_new (hframed : Framed s.jobs thread.stack thread.context) {job : PalmJob}
    (hcovers : thread.context.Covers job.path) :
    Kept s (schedule (s.addJob job) thread scheduler s.jobs.length) := by
  have hkeeps : KeepsPaths s.jobs (s.addJob job).jobs := keepsPaths_append s.jobs job
  have hkept : Kept (s.addJob job) (schedule (s.addJob job) thread scheduler s.jobs.length) := by
    refine schedule_kept (hframed.of_keeps hkeeps) fun _ _ job' hjob' => ?_
    obtain rfl : job = job' := by simpa [PalmRuntime.addJob] using hjob'
    exact hcovers
  exact ⟨hkeeps.trans hkept.keeps, hkept.framed, hkept.accepted⟩

/-- The context variables have the chain of what performs an invocation. -/
theorem covers_performer (hframed : Framed s.jobs thread.stack thread.context)
    {path : List PalmInvokeTarget} (hpath : performer s thread = some path) :
    thread.context.Covers path := by
  unfold performer at hpath
  split at hpath
  · next j rest hstack =>
    rw [hstack] at hframed
    obtain ⟨job, hjob, hcovers⟩ := hframed.1
    rw [hjob] at hpath
    exact Option.some.inj hpath ▸ hcovers
  · next frame rest hstack =>
    rw [hstack] at hframed
    split at hpath
    · exact Option.some.inj hpath ▸ hframed.1
    · cases hpath
  · cases hpath

/-- The guard lets an invocation through only within its limit and without a cycle, if the context
variables have the chain; and then they have the longer one in the frame. -/
theorem recursionFrame_covers {ctx ctx' : RecursionContext} {call : PalmInvoke}
    {path : List PalmInvokeTarget} (hcovers : ctx.Covers path)
    (h : recursionFrame ctx call.target.key call.maxDepth = .ok ctx') :
    call.Within path ∧ ctx'.Covers (path ++ [call.target]) := by
  unfold recursionFrame at h
  split at h
  · cases h
  · next hcycle =>
    split at h
    · cases h
    · next hdepth =>
      cases h
      obtain ⟨hlength, hkeys⟩ := hcovers
      refine ⟨⟨by omega, fun target ht heq => hcycle (heq ▸ hkeys target ht)⟩, by simpa, ?_⟩
      intro target ht
      rcases List.mem_append.mp ht with ht | ht
      · exact List.mem_append_left _ (hkeys target ht)
      · exact List.mem_append_right _ (by simp [List.mem_singleton.mp ht])

/-- A frame may be entered. -/
theorem enter_kept (hframed : Framed s.jobs thread.stack thread.context) {call : PalmInvoke}
    {path : List PalmInvokeTarget} (hpath : performer s thread = some path) :
    Kept s (enter s thread call path) := by
  unfold enter
  split
  · exact ⟨KeepsPaths.refl _, hframed, fun _ => Or.inl⟩
  · next ctx hctx =>
    obtain ⟨hwithin, hcovers⟩ := recursionFrame_covers (covers_performer hframed hpath) hctx
    refine ⟨KeepsPaths.refl _, ⟨hcovers, by simp, hframed⟩, fun entry hentry => ?_⟩
    rcases List.mem_append.mp hentry with hentry | hentry
    · exact Or.inl hentry
    · rw [List.mem_singleton.mp hentry]
      exact Or.inr hwithin

/-- An invocation may submit a job, which then has its chain; the first one is its own. -/
theorem submitChild_kept {frame : OpenInvoke} {rest : List Activity}
    {metadata : Option RecursionContext} (hcovers : thread.context.Covers frame.path)
    (hprimary : ∀ j ∈ frame.primary, ∃ job, s.jobs[j]? = some job ∧ job.path = frame.path)
    (hrest : Framed s.jobs rest frame.saved) :
    Kept s (schedule (s.addJob { metadata, path := frame.path })
      { thread with
        stack := .invocation { frame with
          primary := frame.primary <|> some s.jobs.length } :: rest } scheduler s.jobs.length) := by
  have hkeeps := keepsPaths_append s.jobs { metadata, path := frame.path }
  have hnew : (s.jobs ++ [({ metadata, path := frame.path } : PalmJob)])[s.jobs.length]? =
      some { metadata, path := frame.path } := by simp
  have hframed : Framed (s.addJob { metadata, path := frame.path }).jobs
      (.invocation { frame with primary := frame.primary <|> some s.jobs.length } :: rest)
      thread.context := by
    refine ⟨hcovers, fun j hj => ?_, hrest.of_keeps hkeeps⟩
    cases hold : frame.primary with
    | none =>
      obtain rfl : s.jobs.length = j := by simpa [hold] using hj
      exact ⟨_, hnew, rfl⟩
    | some i =>
      obtain rfl : i = j := by simpa [hold] using hj
      obtain ⟨job, hjob, hpath⟩ := hprimary i (by simp [hold])
      obtain ⟨job', hjob', hpath'⟩ := hkeeps i job hjob
      exact ⟨job', hjob', hpath'.trans hpath⟩
  have hkept : Kept (s.addJob { metadata, path := frame.path }) (schedule
      (s.addJob { metadata, path := frame.path }) { thread with
        stack := .invocation { frame with
          primary := frame.primary <|> some s.jobs.length } :: rest } scheduler s.jobs.length) := by
    refine schedule_kept hframed fun _ _ job hjob => ?_
    obtain rfl := Option.some.inj (hnew.symm.trans hjob)
    exact hcovers
  exact ⟨hkeeps.trans hkept.keeps, hkept.framed, hkept.accepted⟩

/-- An action keeps the chains, as long as a job that is taken or resumed is driven in a context
that has its chain. -/
theorem act_kept {action : PalmAction} (hframed : Framed s.jobs thread.stack thread.context)
    (hok : ∀ j ∈ PalmPool.begins scheduler s action, s.canDrive j = true →
      ∀ job ∈ s.jobs[j]?, thread.context.Covers job.path)
    (hact : act s thread scheduler action = some (s', thread')) : Kept s (s', thread') := by
  cases action with
  | submit =>
    have hnew : Kept s (schedule (s.addJob {}) thread scheduler s.jobs.length) :=
      schedule_new hframed ⟨Nat.zero_le _, by simp⟩
    exact Option.some.inj hact ▸ hnew
  | take =>
    simp only [act] at hact
    split at hact
    · next j queue hworker hstack hqueue =>
      have hkept : Kept { s with queue } (drive { s with queue } thread j) :=
        drive_kept (s := { s with queue }) hframed (hok j (by simp [PalmPool.begins, hqueue]))
      exact Option.some.inj hact ▸ ⟨hkept.keeps, hkept.framed, hkept.accepted⟩
    · cases hact
  | invoke call =>
    obtain ⟨path, hpath, henter⟩ := Option.map_eq_some_iff.mp hact
    exact henter ▸ enter_kept hframed hpath
  | submitChild =>
    simp only [act] at hact
    split at hact
    · next frame rest hstack =>
      rw [hstack] at hframed
      obtain ⟨hcovers, hprimary, hrest⟩ := hframed
      split at hact
      · cases hact
      · exact Option.some.inj hact ▸ submitChild_kept hcovers hprimary hrest
    · cases hact
  | poll =>
    simp only [act] at hact
    split at hact
    · next call saved j path rest hstack =>
      obtain ⟨job, hjob, hready⟩ := Option.bind_eq_some_iff.mp hact
      split at hready
      · have hframed' := hframed
        rw [hstack] at hframed'
        obtain ⟨hcovers, hprimary, -⟩ := hframed'
        obtain ⟨primary, hprimaryJob, hpath⟩ := hprimary j rfl
        split at hready
        · refine Option.some.inj hready ▸ drive_kept hframed fun _ job' hjob' => ?_
          obtain rfl : primary = job' := Option.some.inj (hprimaryJob.symm.trans hjob')
          exact hpath ▸ hcovers
        · cases hready
          exact ⟨KeepsPaths.refl _, hframed, fun _ => Or.inl⟩
      · cases hready
    · cases hact
  | leave =>
    simp only [act] at hact
    split at hact
    · next frame rest hstack =>
      cases hact
      rw [hstack] at hframed
      exact ⟨KeepsPaths.refl _, hframed.2.2, fun _ => Or.inl⟩
    · cases hact
  | finish status =>
    simp only [act] at hact
    split at hact
    · next j rest hstack =>
      cases hact
      rw [hstack] at hframed
      have hkeeps := keepsPaths_modify s.jobs j
        (f := fun job => { job.setStatus status with driving := false }) fun _ => rfl
      exact ⟨hkeeps, hframed.2.of_keeps hkeeps, fun _ => Or.inl⟩
    · cases hact
  | resume j =>
    obtain ⟨job, hjob, hwaiting⟩ := Option.bind_eq_some_iff.mp hact
    split at hwaiting
    · refine Option.some.inj hwaiting ▸ schedule_kept hframed fun hinline => hok j ?_
      simp [PalmPool.begins, hinline]
    · cases hwaiting
  | cancel j =>
    cases hact
    have hkeeps := keepsPaths_modify s.jobs j
      (f := fun job => job.setStatus .cancelled) fun _ => rfl
    exact ⟨hkeeps, hframed.of_keeps hkeeps, fun _ => Or.inl⟩

end PalmThread

namespace PalmPool

instance (scheduler : Scheduler) (pool : PalmPool) (turn : ℕ × PalmAction) (next : PalmPool) :
    Decidable (DrivesInChain scheduler pool turn next) :=
  inferInstanceAs (Decidable (∀ thread ∈ pool.procs[turn.1]?,
    ∀ j ∈ begins scheduler pool.shared turn.2, pool.shared.canDrive j = true →
      ∀ job ∈ pool.shared.jobs[j]?, thread.context.Covers job.path))

instance (call : PalmInvoke) (path : List PalmInvokeTarget) : Decidable (call.Within path) :=
  inferInstanceAs (Decidable (_ ∧ _))

instance (pool : PalmPool) : Decidable pool.BoundsInvocations :=
  inferInstanceAs (Decidable (∀ entry ∈ pool.shared.accepted, entry.2.Within entry.1))

/-- The invariant: the context variables of each thread have the chains of what it is in the middle
of, and the invocations that were let through are within their limits. -/
structure InChain (pool : PalmPool) : Prop where
  framed : ∀ thread ∈ pool.procs, Framed pool.shared.jobs thread.stack thread.context
  bounds : pool.BoundsInvocations

/-- An action that drives jobs in their chains keeps the invariant. -/
theorem InChain.step {scheduler : Scheduler} {pool pool' : PalmPool} {turn : ℕ × PalmAction}
    (h : pool.InChain) (hstep : pool.step scheduler turn = some pool')
    (hok : DrivesInChain scheduler pool turn pool') : pool'.InChain := by
  obtain ⟨thread, s, thread', hthread, hact, rfl⟩ := Pool.step_cases hstep
  have hkept := PalmThread.act_kept (h.framed thread (List.mem_of_getElem? hthread))
    (hok thread hthread) hact
  refine ⟨fun other hother => ?_, fun entry hentry => ?_⟩
  · rcases Pool.mem_set_cases hother with rfl | hother
    · exact hkept.framed
    · exact (h.framed other hother).of_keeps hkept.keeps
  · rcases hkept.accepted entry hentry with hold | hwithin
    · exact h.bounds entry hold
    · exact hwithin

/-- A new runtime satisfies the invariant. -/
theorem start_inChain (workers others : ℕ) : (start workers others).InChain := by
  refine ⟨fun thread hthread => ?_, fun entry hentry => absurd hentry List.not_mem_nil⟩
  have hstack : thread.stack = [] := by
    rcases List.mem_append.mp hthread with hthread | hthread <;>
      rw [List.eq_of_mem_replicate hthread]
  rw [hstack]
  trivial

/-- In every run of threads, with any scheduler and number of workers, in which no job is taken from
the queue or resumed outside of its chain, only invocations within their limits are let through
that close no cycle. -/
theorem boundsInvocations_run {scheduler : Scheduler} {workers others : ℕ}
    {turns : List (ℕ × PalmAction)} {pool : PalmPool}
    (hok : AllSteps (step scheduler) (DrivesInChain scheduler) (start workers others) turns)
    (hrun : runSteps (step scheduler) (start workers others) turns = some pool) :
    pool.BoundsInvocations :=
  (invariant_of_allSteps (fun _ _ _ h hstep hok => InChain.step h hstep hok)
    (start_inChain workers others) hok hrun).bounds

/-- A flow invokes itself and waits for the job, which the invocation drives; it is refused there. -/
theorem boundsInvocations_run_nested : ∃ pool : PalmPool,
    runSteps (step .queued) (start 1 1)
      [(1, .submit), (0, .take),
        (0, .invoke ⟨"submit_flow", ⟨"flow", "a", false⟩, 8, .untilTerminal⟩), (0, .submitChild),
        (0, .poll), (0, .invoke ⟨"submit_flow", ⟨"flow", "a", false⟩, 8, .untilTerminal⟩),
        (0, .finish .failed), (0, .leave), (0, .finish .succeeded), (0, .take)] = some pool ∧
      pool.BoundsInvocations := by
  have hsome : (runSteps (step .queued) (start 1 1)
      [(1, .submit), (0, .take),
        (0, .invoke ⟨"submit_flow", ⟨"flow", "a", false⟩, 8, .untilTerminal⟩), (0, .submitChild),
        (0, .poll), (0, .invoke ⟨"submit_flow", ⟨"flow", "a", false⟩, 8, .untilTerminal⟩),
        (0, .finish .failed), (0, .leave), (0, .finish .succeeded), (0, .take)]).isSome = true := by
    decide
  obtain ⟨pool, hrun⟩ := Option.isSome_iff_exists.mp hsome
  refine ⟨pool, hrun, boundsInvocations_run ?_ hrun⟩
  decide

/-- A flow invokes itself without waiting for the job, which the worker takes from the queue after
the invocation has returned. -/
theorem boundsInvocations_run_fails : ¬ ∀ (scheduler : Scheduler) (workers others : ℕ)
    (turns : List (ℕ × PalmAction)) (pool : PalmPool),
    runSteps (step scheduler) (start workers others) turns = some pool →
      pool.BoundsInvocations := by
  intro h
  have hends : (runSteps (step .queued) (start 1 1)
      [(1, .submit), (0, .take),
        (0, .invoke ⟨"submit_flow", ⟨"flow", "a", false⟩, 1, .fireAndForget⟩), (0, .submitChild),
        (0, .leave), (0, .finish .succeeded), (0, .take),
        (0, .invoke ⟨"submit_flow", ⟨"flow", "a", false⟩, 1, .fireAndForget⟩)]).any
      (fun pool => !decide pool.BoundsInvocations) = true := by decide
  obtain ⟨pool, hrun, hbad⟩ := (Option.any_eq_true _ _).mp hends
  have hbounds := h _ _ _ _ pool hrun
  simp [hbounds] at hbad

end PalmPool

end PalmEngine.PalmProvider
