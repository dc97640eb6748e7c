import PalmEngine.Wait.Failures

/-!
# Progress of the wait plane

A positive signal closes the open interest of each of its owners and resumes or fails the
owner, unless the matcher remembers that it already resumed this owner on this target. An
owner that waits on the same target again is then skipped until 512 later keys have pushed
its own out of the memory.
-/

namespace PalmEngine.Wait

open PalmEngine.Events PalmEngine.Lib PalmEngine.Orchestration

namespace WaitPlane

/-- What a scheduler does that only takes note of a resumption: other jobs, the memory and the plane
stay as they are. -/
structure LeavesOthers (resume : Resume) : Prop where
  able : ∀ s id, (resume s id).able = s.able
  resumed : ∀ s id, (resume s id).resumed = s.resumed
  acted : ∀ s id, (resume s id).acted = s.acted
  others : ∀ s id i, i ≠ id → (resume s id).jobs.get? i = s.jobs.get? i

/-- The queued scheduler only takes note. -/
theorem enqueueWork_leavesOthers : LeavesOthers enqueueWork :=
  ⟨fun _ _ => rfl, fun _ _ => rfl, fun _ _ => rfl, fun _ _ _ _ => rfl⟩

/-- What the turns of other owners do to an owner: it is not resumed, no resumption of it is
remembered, and its job is as before, or has ended under a plane that is not able. -/
structure Beside (id : String) (target : Target) (s t : WaitPlane) : Prop where
  able : t.able = s.able
  resumed : ∃ more, t.resumed = s.resumed ++ more ∧ id ∉ more
  remembered : t.Remembered id target → s.Remembered id target
  job : t.jobs.get? id = s.jobs.get? id ∨ (s.able = false ∧ EndedSince s t id)

theorem Beside.refl (id : String) (target : Target) (s : WaitPlane) : Beside id target s s :=
  ⟨rfl, ⟨[], by simp, by simp⟩, fun h => h, .inl rfl⟩

theorem Beside.trans {id : String} {target : Target} {s t u : WaitPlane}
    (h : Beside id target s t) (h' : Beside id target t u) : Beside id target s u := by
  obtain ⟨more, hmore, hnot⟩ := h.resumed
  obtain ⟨more', hmore', hnot'⟩ := h'.resumed
  refine ⟨h'.able.trans h.able, ⟨more ++ more', by rw [hmore', hmore, List.append_assoc],
    by simp [hnot, hnot']⟩, fun hu => h.remembered (h'.remembered hu), ?_⟩
  rcases h'.job with heq | ⟨hable, job, job', hjob, hjob', hended, hclosed⟩
  · rcases h.job with heq₀ | ⟨hable, job, job', hjob, hjob', hrest⟩
    · exact .inl (heq.trans heq₀)
    · exact .inr ⟨hable, job, job', hjob, heq.trans hjob', hrest⟩
  · rcases h.job with heq₀ | ⟨hable₀, job₀, job₁, hjob₀, hjob₁, -, hclosed₀⟩
    · exact .inr ⟨h.able ▸ hable, job, job', heq₀.symm.trans hjob, hjob', hended, hclosed⟩
    · cases Option.some.inj (hjob.symm.trans hjob₁)
      exact .inr ⟨hable₀, job₀, job', hjob₀, hjob', hended, fun target hnone =>
        hclosed target (hclosed₀ target hnone)⟩

/-- The state after the matcher remembers that it resumes an owner. -/
def remember (s : WaitPlane) (owner : String) (target : Target) : WaitPlane :=
  { s with acted := (s.acted.add (actedKey owner target .resumeOwner)).2 }

instance (s : WaitPlane) (owner : String) (target : Target) :
    Decidable (s.Remembered owner target) :=
  inferInstanceAs (Decidable (_ ∈ s.acted))

/-- Closing on the job first and in the index then comes to the same. -/
theorem closeWait_unregister (s : WaitPlane) (owner : String) (target : Target) :
    (s.closeWait owner target).unregister owner target = s.closeInterest owner target := rfl

section Turns

variable {fail : WaitPlane → String → WaitPlane} {resume : Resume} (hfail : FailsJob fail)

include hfail

end Turns

/-- The turn of an owner within the handling of a signal. -/
def turn (resume : Resume) (signal : TargetSignal) (u : WaitPlane) (id : String) : WaitPlane :=
  matchOneOwner (applyFailed resume) resume signal u id

/-- A turn that finds an open interest whose key is not remembered closes the interest, and has a
waiting owner resumed or ends the owner. -/
structure Acts (resume : Resume) (signal : TargetSignal) (u v : WaitPlane) (id : String) : Prop where
  closes : v.openInterest? id signal.target = none
  resumes : u.able = true → u.status? id = some .waitingForInput → ∃ w : WaitPlane,
    v = (resume w id).closeInterest id signal.target ∧ w.resumed = u.resumed ++ [id] ∧
      w.openInterest? id signal.target = none ∧ w.status? id = some .waitingForInput
  fails : u.able = false → v.Ended id

/-- The owners of a target are distinct, and every open interest has its owner among them. -/
theorem owners_spec (s : WaitPlane) (target : Target) : (s.owners target).Nodup ∧
    ∀ id, (s.openInterest? id target).isSome → id ∈ s.owners target := by
  have hperm := List.perm_insertionSort (· ≤ ·)
    (((s.index.filter (·.1 = target)).map Prod.snd ++
      (s.jobs.entries.filter fun e => (e.2.waits.get? target).isSome).map Prod.fst).dedup)
  refine ⟨hperm.nodup_iff.mpr (List.nodup_dedup _), fun id hopen => ?_⟩
  obtain ⟨interest, hinterest⟩ := Option.isSome_iff_exists.mp hopen
  obtain ⟨job, hjob, hwait⟩ := Option.bind_eq_some_iff.mp hinterest
  refine hperm.mem_iff.mpr (List.mem_dedup.mpr (List.mem_append_right _ ?_))
  refine List.mem_map.mpr ⟨(id, job), List.mem_filter.mpr ⟨?_, ?_⟩, rfl⟩
  · exact (s.jobs.get?_eq_some_iff id job).mp hjob
  · simp [hwait]

/-- A closed interest stays closed beside the turns of others. -/
private theorem Beside.closed {id : String} {target target' : Target} {v t : WaitPlane}
    (h : Beside id target v t) (hclosed : v.openInterest? id target' = none) :
    t.openInterest? id target' = none := by
  rcases h.job with heq | ⟨-, job, job', hjob, hjob', -, hnone⟩
  · rw [openInterest?, heq]
    exact hclosed
  · rw [openInterest?, hjob] at hclosed
    rw [openInterest?, hjob']
    exact hnone target' hclosed

/-- An ended job stays ended beside the turns of others. -/
private theorem Beside.ended {id : String} {target : Target} {v t : WaitPlane}
    (h : Beside id target v t) (hended : v.Ended id) : t.Ended id := by
  obtain ⟨job, hjob, hterminal⟩ := hended
  rcases h.job with heq | ⟨-, -, job', -, hjob', hterminal', -⟩
  · exact ⟨job, heq.trans hjob, hterminal⟩
  · exact ⟨job', hjob', hterminal'⟩

/-- Under an able plane the turns of others leave the job. -/
private theorem Beside.unchanged {id : String} {target : Target} {v t : WaitPlane}
    (h : Beside id target v t) (hable : v.able = true) : t.jobs.get? id = v.jobs.get? id :=
  h.job.resolve_right fun hended => by
    rw [hended.1] at hable
    cases hable

/-- A child job is done. -/
def childDone : TargetSignal :=
  { kind := "job", targetId := "child", outcome := .succeeded, eventType := "job.completed" }

/-- An owner waits on a child, is resumed when the child is done, runs, and waits on the same child
again. -/
def waitAgainTrace : List WaitLabel :=
  [.setAble true, .addJob "owner" {}, .setStatus "owner" .running,
    .openOnJob "owner" ("job", "child") {} true true, .setStatus "owner" .waitingForInput,
    .signal childDone enqueueWork, .takeWork, .setStatus "owner" .running,
    .openOnJob "owner" ("job", "child") {} true true, .setStatus "owner" .waitingForInput]

end WaitPlane

end PalmEngine.Wait
