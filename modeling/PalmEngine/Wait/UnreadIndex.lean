import PalmEngine.Wait.OwnerIndex

/-!
# The index is never read to effect

The matcher visits the owners that the index lists and those that a scan of the jobs finds. An owner
that only the index lists has no open interest, and its turn does no more than drop the entry, unless
an earlier turn of the loop opens one. Under a scheduler that only takes note no turn does, so planes
that differ in the index go through the same jobs, memories and resumptions.
-/

namespace PalmEngine.Wait

open PalmEngine.Events PalmEngine.Lib PalmEngine.Orchestration

namespace WaitPlane

/-- The plane without its index. -/
def unindexed (s : WaitPlane) : WaitPlane := { s with index := [] }

/-- Two planes that differ in nothing but the index. -/
def Alike (s t : WaitPlane) : Prop := s.unindexed = t.unindexed

theorem Alike.refl (s : WaitPlane) : Alike s s := rfl

theorem Alike.symm {s t : WaitPlane} (h : Alike s t) : Alike t s := Eq.symm h

theorem Alike.trans {s t u : WaitPlane} (h : Alike s t) (h' : Alike t u) : Alike s u := Eq.trans h h'

/-- A plane that differs in nothing but the index is the plane with another index. -/
theorem Alike.eq_with {s t : WaitPlane} (h : Alike s t) : ∃ index, t = { s with index := index } :=
  ⟨t.index, by rw [show t = { t.unindexed with index := t.index } from rfl, ← h]; rfl⟩

/-- What depends on nothing but the rest of the plane. -/
def Unread (f : WaitPlane → String → WaitPlane) : Prop :=
  ∀ s t id, Alike s t → Alike (f s id) (f t id)

/-- A loop of steps that do not read the index does not read it. -/
private theorem foldl_alike {β : Type} {f : WaitPlane → β → WaitPlane}
    (h : ∀ s t b, Alike s t → Alike (f s b) (f t b)) (l : List β) {s t : WaitPlane}
    (hst : Alike s t) : Alike (l.foldl f s) (l.foldl f t) := by
  induction l generalizing s t with
  | nil => exact hst
  | cons b rest ih => exact ih (h s t b hst)

/-- A closed interest stays closed while jobs only fail. -/
theorem OnlyFails.closed {s t : WaitPlane} (h : OnlyFails s t) {id : String} {target : Target}
    (hclosed : s.openInterest? id target = none) : t.openInterest? id target = none := by
  rcases h.job id with heq | ⟨job, job', hjob, hjob', -, hnone⟩
  · rw [openInterest?, heq]
    exact hclosed
  · rw [openInterest?, hjob] at hclosed
    rw [openInterest?, hjob']
    exact hnone target hclosed

/-- A closed interest stays closed while others close. -/
private theorem closed_closeInterest {s : WaitPlane} {id : String} {target : Target}
    (hclosed : s.openInterest? id target = none) (owner : String) (other : Target) :
    (s.closeInterest owner other).openInterest? id target = none := by
  rw [openInterest_closed]
  split
  · rfl
  · exact hclosed

/-- The owners of open interests that the matcher visits do not depend on the index. -/
private theorem owners_filter {s t : WaitPlane} (h : Alike s t) (target : Target) :
    (s.owners target).filter (fun id => (s.openInterest? id target).isSome) =
      (t.owners target).filter fun id => (s.openInterest? id target).isSome := by
  obtain ⟨index, rfl⟩ := h.eq_with
  have hsorted (u : WaitPlane) : ((u.owners target).filter fun id =>
      (s.openInterest? id target).isSome).SortedLE :=
    ((List.pairwise_insertionSort (· ≤ ·) _).filter _).sortedLE
  refine List.Perm.eq_of_sortedLE (hsorted s) (hsorted { s with index := index }) ?_
  refine (List.perm_ext_iff_of_nodup ((s.owners_spec target).1.filter _)
    ((owners_spec { s with index := index } target).1.filter _)).mpr fun id => ?_
  rw [List.mem_filter, List.mem_filter]
  refine and_congr_left fun hopen => iff_of_true ?_ ?_
  · exact (s.owners_spec target).2 id hopen
  · exact (owners_spec { s with index := index } target).2 id hopen

section Matching

variable {fail : WaitPlane → String → WaitPlane} {resume : Resume}

/-- The turn of another owner opens no interest, under a scheduler that leaves other jobs alone. -/
private theorem matchOneOwner_closed (hfail : FailsJob fail) (hleaves : LeavesOthers resume)
    (signal : TargetSignal) {s : WaitPlane} {id owner : String} (hid : id ≠ owner) {target : Target}
    (hclosed : s.openInterest? id target = none) :
    (matchOneOwner fail resume signal s owner).openInterest? id target = none := by
  have hfails (u : WaitPlane) (hu : u.openInterest? id target = none) :
      (failOwner fail u owner).openInterest? id target = none := by
    unfold failOwner
    cases hstatus : u.status? owner with
    | none => exact hu
    | some status =>
      dsimp only
      split
      · exact hu
      · exact (hfail u owner status hstatus (by simpa using ‹¬ status.isTerminal = true›)).1.closed hu
  have hresumes (u : WaitPlane) (hu : u.openInterest? id target = none) :
      (resumeOwner fail resume u owner signal.target).openInterest? id target = none := by
    unfold resumeOwner
    cases hstatus : u.status? owner with
    | none => exact hu
    | some status =>
      dsimp only
      rw [closeWait_unregister, closeWait_unregister]
      have hclose := closed_closeInterest hu owner signal.target
      split
      · split
        · rw [openInterest?, resumeJob, hleaves.others _ _ _ hid]
          exact hclose
        · exact hclose
      · refine closed_closeInterest ?_ owner signal.target
        split
        · exact hu
        · exact (hfail { u with refusedResumes := u.refusedResumes + 1 } owner status hstatus
            (by simpa using ‹¬ status.isTerminal = true›)).1.closed hu
  unfold matchOneOwner
  cases s.openInterest? owner signal.target with
  | none => exact hclosed
  | some interest =>
    dsimp only
    split
    · exact hclosed
    · split
      · refine closed_closeInterest ?_ owner signal.target
        cases resolveWaitAction interest signal with
        | resumeOwner => exact hresumes _ hclosed
        | failOwner => exact hfails _ hclosed
        | noop => exact hclosed
      · exact hclosed

variable (hread : Unread fail) (hresume : Unread resume)

include hread in
/-- Failing an owner does not read the index. -/
private theorem failOwner_alike {s t : WaitPlane} (owner : String) (h : Alike s t) :
    Alike (failOwner fail s owner) (failOwner fail t owner) := by
  obtain ⟨index, rfl⟩ := h.eq_with
  have hstatus : status? { s with index := index } owner = s.status? owner := rfl
  unfold failOwner
  rw [hstatus]
  cases s.status? owner with
  | none => exact h
  | some status =>
    dsimp only
    split
    · exact h
    · exact hread _ _ owner h

include hread hresume

/-- Resuming an owner does not read the index. -/
private theorem resumeOwner_alike {s t : WaitPlane} (owner : String) (target : Target)
    (h : Alike s t) :
    Alike (resumeOwner fail resume s owner target) (resumeOwner fail resume t owner target) := by
  obtain ⟨index, rfl⟩ := h.eq_with
  have hstatus : status? { s with index := index } owner = s.status? owner := rfl
  have hclose {u v : WaitPlane} (huv : Alike u v) :
      Alike ((u.closeWait owner target).unregister owner target)
        ((v.closeWait owner target).unregister owner target) := by
    obtain ⟨index', rfl⟩ := huv.eq_with
    rfl
  unfold resumeOwner
  rw [hstatus]
  cases s.status? owner with
  | none => exact h
  | some status =>
    dsimp only
    split
    · split
      · exact hresume _ _ owner rfl
      · exact hclose h
    · refine hclose ?_
      split
      · rfl
      · exact hread _ _ owner rfl

/-- The turn of an owner does not read the index. -/
private theorem matchOneOwner_alike (signal : TargetSignal) {s t : WaitPlane} (owner : String)
    (h : Alike s t) :
    Alike (matchOneOwner fail resume signal s owner) (matchOneOwner fail resume signal t owner) := by
  obtain ⟨index, rfl⟩ := h.eq_with
  have hopen : openInterest? { s with index := index } owner signal.target =
      s.openInterest? owner signal.target := rfl
  have hclose {u v : WaitPlane} (huv : Alike u v) :
      Alike (u.closeInterest owner signal.target) (v.closeInterest owner signal.target) := by
    obtain ⟨index', rfl⟩ := huv.eq_with
    rfl
  unfold matchOneOwner
  rw [hopen]
  cases s.openInterest? owner signal.target with
  | none => exact h
  | some interest =>
    dsimp only
    split
    · exact h
    · split
      · refine hclose ?_
        cases resolveWaitAction interest signal with
        | resumeOwner => exact resumeOwner_alike hread hresume owner signal.target rfl
        | failOwner => exact failOwner_alike hread owner rfl
        | noop => rfl
      · rfl

variable (hfail : FailsJob fail) (hleaves : LeavesOthers resume)

include hfail hleaves

/-- The loop may leave out owners of a listing that have no open interest when it begins. -/
private theorem foldl_filter (signal : TargetSignal) (p : String → Bool) {owners : List String}
    (hnodup : owners.Nodup) {s t : WaitPlane} (hst : Alike s t)
    (hskip : ∀ id ∈ owners, p id = false → s.openInterest? id signal.target = none) :
    Alike (owners.foldl (matchOneOwner fail resume signal) s)
      ((owners.filter p).foldl (matchOneOwner fail resume signal) t) := by
  induction owners generalizing s t with
  | nil => exact hst
  | cons owner rest ih =>
    obtain ⟨hnot, hrest⟩ := List.nodup_cons.mp hnodup
    cases hp : p owner with
    | true =>
      rw [List.filter_cons_of_pos hp]
      refine ih hrest (matchOneOwner_alike hread hresume signal owner hst) fun id hid hpid => ?_
      exact matchOneOwner_closed hfail hleaves signal (ne_of_mem_of_not_mem hid hnot)
        (hskip id (List.mem_cons_of_mem _ hid) hpid)
    | false =>
      rw [List.filter_cons_of_neg (by simp [hp]), List.foldl_cons]
      have hturn : matchOneOwner fail resume signal s owner = s.unregister owner signal.target := by
        rw [matchOneOwner, hskip owner List.mem_cons_self hp]
      rw [hturn]
      have hdrop : Alike (s.unregister owner signal.target) s := rfl
      exact ih hrest (hdrop.trans hst) fun id hid hpid => hskip id (List.mem_cons_of_mem _ hid) hpid

/-- Handling a signal does not read the index. -/
private theorem handleSignalWith_alike (signal : TargetSignal) {s t : WaitPlane} (h : Alike s t) :
    Alike (handleSignalWith fail resume s signal) (handleSignalWith fail resume t signal) := by
  have hleft := foldl_filter hread hresume hfail hleaves signal
    (fun id => (s.openInterest? id signal.target).isSome) (s.owners_spec signal.target).1 h
    fun id _ hclosed => by simpa using hclosed
  have hright := foldl_filter hread hresume hfail hleaves signal
    (fun id => (s.openInterest? id signal.target).isSome) (t.owners_spec signal.target).1
    (Alike.refl t) fun id _ hclosed => by
      obtain ⟨index, rfl⟩ := h.eq_with
      have hclosed : s.openInterest? id signal.target = none := by simpa using hclosed
      exact hclosed
  rw [owners_filter h signal.target] at hleft
  exact hleft.trans hright.symm

/-- Handling an event does not read the index. -/
private theorem handleEventWith_alike (eventId : Option String) (eventType : String)
    (payload : Payload) {s t : WaitPlane} (h : Alike s t) :
    Alike (handleEventWith fail resume s eventId eventType payload)
      (handleEventWith fail resume t eventId eventType payload) := by
  obtain ⟨index, rfl⟩ := h.eq_with
  unfold handleEventWith
  cases extractTargetSignal eventType payload with
  | none =>
    cases eventId with
    | none => exact h
    | some id =>
      dsimp only
      split
      · rfl
      · rfl
  | some signal =>
    cases eventId with
    | none => exact handleSignalWith_alike hread hresume hfail hleaves signal h
    | some id =>
      dsimp only
      split
      · exact handleSignalWith_alike hread hresume hfail hleaves signal rfl
      · rfl

/-- Publishing a failure does not read the index. -/
private theorem publishFailed_alike (id : String) {s t : WaitPlane} (h : Alike s t) :
    Alike (publishFailed (handleEventWith fail resume) s id)
      (publishFailed (handleEventWith fail resume) t id) := by
  refine foldl_alike (fun u v eventType huv => ?_) failedEvents h
  obtain ⟨index, rfl⟩ := huv.eq_with
  exact handleEventWith_alike hread hresume hfail hleaves _ _ _ rfl

end Matching

section Schedulers

variable {resume : Resume} (hleaves : LeavesOthers resume) (hresume : Unread resume)

include hleaves hresume

/-- Failing a job does not read the index, whatever the nesting. -/
private theorem failJob_unread (fuel : ℕ) : Unread (failJob resume fuel) := by
  induction fuel with
  | zero =>
    intro s t id h
    obtain ⟨index, rfl⟩ := h.eq_with
    rfl
  | succ fuel ih =>
    intro s t id h
    have hset : Alike (s.setFailed id) (t.setFailed id) := by
      obtain ⟨index, rfl⟩ := h.eq_with
      rfl
    exact publishFailed_alike ih hresume (failJob_fails resume fuel) hleaves id hset

/-- Applying a failed result does not read the index. -/
private theorem applyFailed_unread : Unread (applyFailed resume) := by
  intro s t id h
  have hkeys : t.jobs.keys.length = s.jobs.keys.length := by
    obtain ⟨index, rfl⟩ := h.eq_with
    rfl
  rw [applyFailed, applyFailed, hkeys]
  exact failJob_unread hleaves hresume _ s t id h

end Schedulers

/-- Registering the open interests of an owner changes nothing but the index. -/
private theorem registerWaits_alike (s : WaitPlane) (owner : String) :
    Alike (s.registerWaits owner) s := by
  unfold registerWaits
  generalize ((s.jobs.get? owner).map fun job => job.waits.keys).getD [] = targets
  induction targets generalizing s with
  | nil => exact .refl s
  | cons target rest ih =>
    have hregister : Alike (s.register owner target) s := by
      unfold register
      split
      · rfl
      · rfl
    exact (ih (s.register owner target)).trans hregister

/-- Rebuilding the index changes nothing but the index. -/
private theorem rebuildIndex_alike (s : WaitPlane) : Alike s.rebuildIndex s := by
  have hfold (ids : List String) (u : WaitPlane) : Alike (ids.foldl registerWaits u) u := by
    induction ids generalizing u with
    | nil => exact .refl u
    | cons owner rest ih => exact (ih (u.registerWaits owner)).trans (registerWaits_alike u owner)
  exact hfold s.jobs.keys { s with index := [] }

/-- The scheduler of the step, if it handles a signal, only takes note, and does not read the
index. -/
def NotesUnread : WaitLabel → Prop
  | .signal _ resume => LeavesOthers resume ∧ Unread resume
  | .event _ _ _ resume => LeavesOthers resume ∧ Unread resume
  | _ => True

/-- A step of planes that differ in nothing but the index leads to such planes. -/
theorem step_alike {s t : WaitPlane} (h : Alike s t) {l : WaitLabel} (hl : NotesUnread l) :
    (s.step l).map unindexed = (t.step l).map unindexed := by
  obtain ⟨index, rfl⟩ := h.eq_with
  cases l with
  | addJob i job =>
    change Option.map unindexed (if (s.jobs.get? i).isSome then none else _) =
      Option.map unindexed (if (s.jobs.get? i).isSome then none else _)
    split
    · rfl
    · rfl
  | evictJob i => rfl
  | setStatus i status =>
    change Option.map unindexed ((s.status? i).bind _) = Option.map unindexed ((s.status? i).bind _)
    cases s.status? i with
    | none => rfl
    | some old =>
      simp only [Option.bind_some]
      split
      · rfl
      · rfl
  | openOnJob i target interest replaceSameTarget indexed =>
    change Option.map unindexed ((s.status? i).map _) = Option.map unindexed ((s.status? i).map _)
    rw [Option.map_map, Option.map_map]
    refine Option.map_congr fun _ _ => ?_
    have hregister (u : WaitPlane) : Alike (u.register i target) u := by
      unfold register
      split
      · rfl
      · rfl
    have hopened : Alike (s.openWait i target interest replaceSameTarget)
        (openWait { s with index := index } i target interest replaceSameTarget) := rfl
    cases indexed with
    | false => exact hopened
    | true => exact (hregister _).trans (hopened.trans (hregister _).symm)
  | closeOnJob i target => rfl
  | rehydrateJob i =>
    have hdropped : Alike (s.unregisterAll i) (unregisterAll { s with index := index } i) := rfl
    exact congrArg some
      ((registerWaits_alike _ i).trans (hdropped.trans (registerWaits_alike _ i).symm))
  | rebuildIndex => exact congrArg some ((rebuildIndex_alike _).trans (rebuildIndex_alike _).symm)
  | setAble able => rfl
  | takeWork => rfl
  | signal signal resume =>
    exact congrArg some (handleSignalWith_alike (applyFailed_unread hl.1 hl.2) hl.2
      (applyFailed_fails resume) hl.1 signal h)
  | event eventId eventType payload resume =>
    exact congrArg some (handleEventWith_alike (applyFailed_unread hl.1 hl.2) hl.2
      (applyFailed_fails resume) hl.1 eventId eventType payload h)

/-- Under schedulers that only take note, a run from a plane with another index reaches the same
plane but for the index: whatever the index has missed or kept too long, the same owners are resumed
and failed in the same order, and the same interests are open. -/
theorem index_unread (labels : List WaitLabel) (hresume : ∀ l ∈ labels, NotesUnread l)
    (s : WaitPlane) (index : List (Target × String)) :
    (runSteps step { s with index := index } labels).map unindexed =
      (runSteps step s labels).map unindexed := by
  have hrun (t : WaitPlane) (hst : Alike s t) :
      (runSteps step t labels).map unindexed = (runSteps step s labels).map unindexed := by
    induction labels generalizing s t with
    | nil => exact congrArg some hst.symm
    | cons l rest ih =>
      have hstep := step_alike hst (hresume l List.mem_cons_self)
      have hrest : ∀ k ∈ rest, NotesUnread k := fun k hk => hresume k (List.mem_cons_of_mem l hk)
      simp only [runSteps]
      cases hs : s.step l with
      | none =>
        rw [hs] at hstep
        rw [Option.map_eq_none_iff.mp hstep.symm]
      | some u =>
        rw [hs] at hstep
        obtain ⟨v, hv, huv⟩ := Option.map_eq_some_iff.mp hstep.symm
        rw [hv]
        exact ih hrest u v (Eq.symm huv)
  exact hrun { s with index := index } rfl

/-- An owner that is not in the index is resumed by the scan, and one that is there without an
interest is not. -/
theorem index_unread_stale :
    (runSteps step { index := [(("job", "child"), "stranger")] }
      (waitAgainTrace.take 6)).map unindexed =
        (runSteps step {} (waitAgainTrace.take 6)).map unindexed := by
  refine index_unread (waitAgainTrace.take 6) ?_ {} [(("job", "child"), "stranger")]
  intro l hl
  have hnote : Unread enqueueWork := fun s t id h => by
    obtain ⟨index, rfl⟩ := h.eq_with
    rfl
  simp only [waitAgainTrace, List.take_succ_cons, List.take_zero, List.mem_cons, List.not_mem_nil,
    or_false] at hl
  rcases hl with rfl | rfl | rfl | rfl | rfl | rfl
  · trivial
  · trivial
  · trivial
  · trivial
  · trivial
  · exact ⟨enqueueWork_leavesOthers, hnote⟩

end WaitPlane

end PalmEngine.Wait
