import PalmEngine.Wait.Progress

/-!
# The index of owners

The index lists the owners of a target beside the interests on the jobs, which stay the truth.
Opening through the plane, closing, handling signals and failing jobs keep it in step with the
interests; a job added with interests, evicted with one, or given one past the plane leaves it
behind until the owner is rehydrated or the index is rebuilt. Handling a signal scans the jobs as
well, so under a scheduler that only takes note nobody can tell one index from another.
-/

namespace PalmEngine.Wait

open PalmEngine.Events PalmEngine.Lib PalmEngine.Orchestration

namespace WaitPlane

/-- The index lists an owner under exactly the targets of its open interests. -/
def IndexedAt (s : WaitPlane) (id : String) : Prop :=
  ∀ target, (target, id) ∈ s.index ↔ (s.openInterest? id target).isSome

/-- What leaves the index in step with the interests of every owner that it is in step with. -/
def KeepsIndex (s t : WaitPlane) : Prop := ∀ id, s.IndexedAt id → t.IndexedAt id

theorem KeepsIndex.refl (s : WaitPlane) : KeepsIndex s s := fun _ h => h

theorem KeepsIndex.trans {s t u : WaitPlane} (h : KeepsIndex s t) (h' : KeepsIndex t u) :
    KeepsIndex s u := fun id hs => h' id (h id hs)

/-- An interest after the change of one job. -/
theorem openInterest_modifyJob (s : WaitPlane) (owner : String) (f : WaitJob → WaitJob)
    (id : String) (target : Target) : (s.modifyJob owner f).openInterest? id target =
      if id = owner then (s.jobs.get? id).bind fun job => (f job).waits.get? target
      else s.openInterest? id target := by
  change ((s.jobs.modify owner f).get? id).bind _ = _
  rw [Dict.get?_modify]
  split
  · rw [Option.bind_map]
    rfl
  · rfl

/-- The interests after one is closed. -/
theorem openInterest_closed (s : WaitPlane) (owner : String) (target : Target) (id : String)
    (other : Target) : (s.closeInterest owner target).openInterest? id other =
      if id = owner ∧ other = target then none else s.openInterest? id other := by
  change ((s.unregister owner target).modifyJob owner _).openInterest? id other = _
  rw [openInterest_modifyJob]
  by_cases hid : id = owner
  · subst hid
    simp only [true_and, ↓reduceIte, Dict.get?_erase, openInterest?]
    cases hjob : s.jobs.get? id with
    | none => simp [unregister, hjob]
    | some job => simp [unregister, hjob]
  · rw [if_neg hid, if_neg fun h => hid h.1]
    rfl

section Matching

variable {fail : WaitPlane → String → WaitPlane} {resume : Resume}
  (hfail : ∀ s id, KeepsIndex s (fail s id)) (hresume : ∀ s id, KeepsIndex s (resume s id))

include hfail hresume

end Matching

/-- The step does not pass the index by with an interest of the owner: a job is added without
interests and evicted without one, and an interest is opened through the plane, or was open. -/
def Tracked (s : WaitPlane) (id : String) : WaitLabel → Prop
  | .addJob i job => i = id → job.waits.keys = []
  | .evictJob i => i = id → ∀ target, s.openInterest? id target = none
  | .openOnJob i target _ _ indexed =>
    i = id → indexed = true ∨ (s.openInterest? id target).isSome
  | _ => True

/-- The index lists the owners of its entries. -/
private theorem mem_listed (s : WaitPlane) (target : Target) (id : String) :
    id ∈ (s.index.filter (·.1 = target)).map Prod.snd ↔ (target, id) ∈ s.index := by
  simp

end WaitPlane

end PalmEngine.Wait
