import PalmEngine.Lib.Runs
import PalmEngine.Workloads.Settled

/-!
# The life of a workload

Whatever is called, and whatever the runtimes answer or raise, a workload goes through its
statuses along the allowed transitions, no call fails with an illegal one, a workload that has
ended stays as it is, and its end is published once.
-/

namespace PalmEngine.Workloads

open PalmEngine.Lib

namespace WorkloadEngine

variable {e₀ e : WorkloadEngine} {wid : String} {w : World}

/-- The engine between two calls: every record is as it is to be, and there is none before the
engine is initialized. -/
structure Consistent (e : WorkloadEngine) : Prop where
  sound : ∀ wid t, e.workloads.get? wid = some t → t.Sound e.publishes
  untracked : e.initialized = false → ∀ wid, e.workloads.get? wid = none
  dropped : ∀ d ∈ e.dropped, d.2.Sound d.1

/-- A later state of an engine that was not shut down: every record is as it is to be, and those
of workloads that had ended are unchanged. -/
structure Follows (e₀ e : WorkloadEngine) : Prop where
  publishes_eq : e.publishes = e₀.publishes
  initialized_eq : e.initialized = e₀.initialized
  dropped_eq : e.dropped = e₀.dropped
  sound : ∀ wid t, e.workloads.get? wid = some t → t.Sound e₀.publishes
  untracked : e₀.initialized = false → ∀ wid, e.workloads.get? wid = none
  keeps : ∀ wid t, e₀.workloads.get? wid = some t → isTerminal t.record.status →
    e.workloads.get? wid = some t

/-- An error of another kind was raised, in a later state. -/
def RaisedFollows (e₀ : WorkloadEngine) (error : WorkloadError) (e : WorkloadEngine) : Prop :=
  ¬ error.IsIllegalTransition ∧ e₀.Follows e

/-- A consistent engine follows itself. -/
theorem Consistent.follows (h : e.Consistent) : e.Follows e :=
  ⟨rfl, rfl, rfl, h.sound, h.untracked, fun _ _ ht _ => ht⟩

/-- A later state in which one record is replaced by one that is as it is to be, and that is the
same if the workload had ended. -/
theorem Follows.set (h : e₀.Follows e) {t : Tracked} (runtimes : Finset String)
    (hinit : e₀.initialized = true) (ht : t.Sound e₀.publishes)
    (hkeep : ∀ t₀, e₀.workloads.get? wid = some t₀ → isTerminal t₀.record.status → t = t₀) :
    e₀.Follows { e with runtimes := runtimes, workloads := e.workloads.set wid t } where
  publishes_eq := h.publishes_eq
  initialized_eq := h.initialized_eq
  dropped_eq := h.dropped_eq
  sound i t' hget := by
    by_cases hi : i = wid
    · rw [hi, Dict.get?_set_self] at hget
      exact Option.some.inj hget ▸ ht
    · rw [Dict.get?_set_ne _ _ hi] at hget
      exact h.sound i t' hget
  untracked hnot := absurd (hinit.symm.trans hnot) (by decide)
  keeps i t₀ hget hended := by
    by_cases hi : i = wid
    · rw [hi] at hget ⊢
      rw [Dict.get?_set_self, hkeep t₀ hget hended]
    · rw [Dict.get?_set_ne _ _ hi]
      exact h.keeps i t₀ hget hended

/-- A lawful program on one workload. -/
theorem onWorkload_follows {α : Type} {c : Context} {m : RecordM α} (hm : Lawful c m)
    (hc : c.publishes = e₀.publishes) :
    Ensures e₀.Follows (onWorkload wid m) (fun _ => e₀.Follows) (RaisedFollows e₀) := by
  intro e he
  unfold onWorkload
  cases hget : e.workloads.get? wid with
  | none => exact ⟨id, he⟩
  | some t =>
    have hinit : e₀.initialized = true := by
      by_contra hnot
      have hnone := he.untracked (by simpa using hnot) wid
      exact Option.some_ne_none t (hget.symm.trans hnone)
    have hsettled : Settled c ⟨e.runtimes, t⟩ := by
      rw [Settled, hc]
      exact he.sound wid t hget
    have hkeep : ∀ t', (isTerminal t.record.status → t' = t) → ∀ t₀,
        e₀.workloads.get? wid = some t₀ → isTerminal t₀.record.status → t' = t₀ := by
      intro t' ht' t₀ ht₀ hended
      have heq := Option.some.inj (hget.symm.trans (he.keeps wid t₀ ht₀ hended))
      rw [ht' (heq ▸ hended), heq]
    have hrun := hm ⟨e.runtimes, t⟩ hsettled ⟨e.runtimes, t⟩ rfl
    dsimp only
    cases hms : m ⟨e.runtimes, t⟩ with
    | ok a s =>
      rw [hms] at hrun
      exact he.set _ hinit (hc ▸ hrun.1) (hkeep s.tracked hrun.2)
    | error error s =>
      rw [hms] at hrun
      exact ⟨hrun.1.1, he.set _ hinit (hc ▸ hrun.1.2) (hkeep s.tracked hrun.2)⟩

/-- Only an initialized engine goes on. -/
theorem requireInitialized_follows :
    Ensures e₀.Follows requireInitialized (fun _ e => e₀.initialized = true ∧ e₀.Follows e)
      (RaisedFollows e₀) := by
  refine Ensures.bind (Ensures.get (Q := fun e' e => e'.initialized = e₀.initialized ∧
    e₀.Follows e) fun _ he => ⟨he.initialized_eq, he⟩) fun e' => Ensures.of_fact fun hinit => ?_
  split
  · exact Ensures.throw fun _ he => ⟨id, he⟩
  · rename_i hset
    exact Ensures.pure fun _ he => ⟨by simpa [hinit] using hset, he⟩

/-- Reading the engine. -/
theorem get_follows :
    Ensures e₀.Follows (MonadState.get : EngineM WorkloadEngine)
      (fun e' e => e'.publishes = e₀.publishes ∧ e₀.Follows e ∧ e.workloads = e'.workloads)
      (RaisedFollows e₀) :=
  Ensures.get fun _ he => ⟨he.publishes_eq, he, rfl⟩

/-- Going on with a value, or raising an error of another kind. -/
theorem orRaise_spec {α : Type} {x : Except WorkloadError α} {P : WorkloadEngine → Prop}
    (hx : Legal x) (hP : ∀ e, P e → e₀.Follows e) :
    Ensures P (orRaise x) (fun _ => P) (RaisedFollows e₀) := by
  cases x with
  | ok a => exact Ensures.pure fun _ => id
  | error error => exact Ensures.throw fun e he => ⟨hx error rfl, hP e he⟩

/-- A runtime that is not selected. -/
theorem selectRuntimeName_legal {spec : WorkloadSpec} : Legal (e.selectRuntimeName spec) := by
  intro error h
  unfold selectRuntimeName at h
  split at h
  · split at h <;> cases h
    exact id
  · split at h <;> cases h
    exact id
  · cases h
    exact id

/-- A runtime that is not enabled. -/
theorem requireEnabled_legal {name : String} {runtime : Runtime} :
    Legal (requireEnabled name runtime) := by
  intro error h
  unfold requireEnabled at h
  split at h <;> cases h <;> exact id

/-- A runtime that does not isolate as it is asked for. -/
theorem enforceIsolationPolicy_legal {spec : WorkloadSpec} {runtime : Runtime} :
    Legal (enforceIsolationPolicy spec runtime) := by
  intro error h
  unfold enforceIsolationPolicy at h
  split at h
  · cases h
    exact id
  · split at h
    · cases h
      exact id
    · split at h <;> cases h
      exact id

/-- A later state in which one record was added, and all else is as in a later state. -/
structure Adds (e₀ : WorkloadEngine) (wid : String) (t : Tracked) (e : WorkloadEngine) :
    Prop where
  publishes_eq : e.publishes = e₀.publishes
  initialized_eq : e.initialized = e₀.initialized
  dropped_eq : e.dropped = e₀.dropped
  initialized : e₀.initialized = true
  added : e.workloads.get? wid = some t
  sound : ∀ i t', i ≠ wid → e.workloads.get? i = some t' → t'.Sound e₀.publishes
  keeps : ∀ i t', e₀.workloads.get? i = some t' → isTerminal t'.record.status →
    i ≠ wid ∧ e.workloads.get? i = some t'

/-- Recording a workload whose id is not in use. -/
theorem track_adds {wl : Workload} (hinit : e₀.initialized = true) :
    Ensures (fun e => e₀.Follows e ∧ e.workloads.get? wid = none) (track wid wl)
      (fun _ => e₀.Adds wid (.fresh wl)) (RaisedFollows e₀) := by
  refine Ensures.update fun e ⟨he, hnone⟩ => ?_
  refine ⟨he.publishes_eq, he.initialized_eq, he.dropped_eq, hinit, Dict.get?_set_self _ _ _,
    fun i t' hi hget => ?_, fun i t' hget hended => ?_⟩
  · rw [Dict.get?_set_ne _ _ hi] at hget
    exact he.sound i t' hget
  · have hkept := he.keeps i t' hget hended
    have hi : i ≠ wid := by
      rintro rfl
      exact Option.some_ne_none t' (hkept.symm.trans hnone)
    exact ⟨hi, (Dict.get?_set_ne _ _ hi).trans hkept⟩

/-- Remembering a start. -/
theorem remember_adds {t : Tracked} {owner : WorkloadOwner} {key : Option String} {id : String} :
    Ensures (e₀.Adds wid t) (remember owner key id) (fun _ => e₀.Adds wid t)
      (RaisedFollows e₀) := by
  unfold remember
  split
  · exact Ensures.pure fun _ => fun he => he
  · exact Ensures.update fun _ he => ⟨he.publishes_eq, he.initialized_eq, he.dropped_eq,
      he.initialized, he.added, he.sound, he.keeps⟩

/-- A program that settles the workload that was added. -/
theorem onWorkload_adds {α : Type} {c : Context} {m : RecordM α} {wl : Workload}
    (hm : Ensures (In wl.status 0) m (fun _ => Settled c) (RaisedSettled c))
    (hc : c.publishes = e₀.publishes) :
    Ensures (e₀.Adds wid (.fresh wl)) (onWorkload wid m) (fun _ => e₀.Follows)
      (RaisedFollows e₀) := by
  intro e he
  have hset (runtimes : Finset String) (t : Tracked) (ht : t.Sound e₀.publishes) :
      e₀.Follows { e with runtimes := runtimes, workloads := e.workloads.set wid t } := by
    refine ⟨he.publishes_eq, he.initialized_eq, he.dropped_eq, fun i t' hget => ?_,
      fun hnot => absurd (he.initialized.symm.trans hnot) (by decide), fun i t' hget hended => ?_⟩
    · by_cases hi : i = wid
      · rw [hi, Dict.get?_set_self] at hget
        exact Option.some.inj hget ▸ ht
      · rw [Dict.get?_set_ne _ _ hi] at hget
        exact he.sound i t' hi hget
    · obtain ⟨hi, hkept⟩ := he.keeps i t' hget hended
      exact (Dict.get?_set_ne _ _ hi).trans hkept
  have hrun := hm ⟨e.runtimes, .fresh wl⟩ (Tracked.fresh_at wl)
  unfold onWorkload
  rw [he.added]
  dsimp only
  cases hms : m ⟨e.runtimes, .fresh wl⟩ with
  | ok a s =>
    rw [hms] at hrun
    exact hset _ _ (hc ▸ hrun)
  | error error s =>
    rw [hms] at hrun
    exact ⟨hrun.1, hset _ _ (hc ▸ hrun.2)⟩

/-- Looking up a record. -/
theorem require_follows :
    Ensures e₀.Follows (require wid) (fun _ => e₀.Follows) (RaisedFollows e₀) := by
  refine Ensures.bind (get_follows.imp (fun _ => id) (fun _ _ h => h.2.1) fun _ _ => id)
    fun e' => ?_
  split
  · exact Ensures.pure fun _ => id
  · exact Ensures.throw fun _ he => ⟨id, he⟩

/-- Starting a workload. -/
theorem start_follows {spec : WorkloadSpec} {owner : Option WorkloadOwner}
    {workloadId idempotencyKey hostId : Option String} :
    Ensures e₀.Follows (start w spec owner workloadId idempotencyKey hostId)
      (fun _ => e₀.Follows) (RaisedFollows e₀) := by
  refine Ensures.bind requireInitialized_follows fun _ => Ensures.of_fact fun hinit => ?_
  refine Ensures.bind get_follows fun e' => Ensures.of_fact fun hpublishes => ?_
  dsimp only
  split
  · refine Ensures.bind (Q := fun _ => e₀.Follows) ?_ fun _ => Ensures.pure fun _ => id
    exact require_follows.imp (fun _ h => h.1) (fun _ _ => id) fun _ _ => id
  · have hfollows : ∀ e, e₀.Follows e ∧ e.workloads = e'.workloads → e₀.Follows e :=
      fun _ h => h.1
    refine Ensures.bind (orRaise_spec selectRuntimeName_legal hfollows) fun name => ?_
    refine Ensures.bind (orRaise_spec resolveRuntime_legal hfollows) fun runtimes => ?_
    refine Ensures.bind (Ensures.update (Q := fun _ e => e₀.Follows e ∧ e.workloads = e'.workloads)
      fun e he => ⟨⟨he.1.publishes_eq, he.1.initialized_eq, he.1.dropped_eq, he.1.sound,
        he.1.untracked, he.1.keeps⟩, he.2⟩) fun _ => ?_
    refine Ensures.bind (orRaise_spec requireEnabled_legal hfollows) fun _ => ?_
    refine Ensures.bind (orRaise_spec enforceIsolationPolicy_legal hfollows) fun _ => ?_
    split
    · exact Ensures.throw fun _ he => ⟨id, he.1⟩
    · rename_i hnone
      have hnone := Option.not_isSome_iff_eq_none.mp hnone
      refine Ensures.bind ((track_adds hinit).imp (fun e he => ⟨he.1, he.2 ▸ hnone⟩)
        (fun _ _ => id) fun _ _ => id) fun _ => ?_
      refine Ensures.bind remember_adds fun _ => ?_
      exact onWorkload_adds launch_settles hpublishes

/-- Adopting a body. -/
theorem adopt_follows {workloadId : String} {handle : Option WorkloadHandle}
    {owner : Option WorkloadOwner} :
    Ensures e₀.Follows (adopt w workloadId handle owner) (fun _ => e₀.Follows)
      (RaisedFollows e₀) := by
  refine Ensures.bind requireInitialized_follows fun _ => Ensures.of_fact fun hinit => ?_
  dsimp only
  split
  · exact Ensures.throw fun _ he => ⟨id, he⟩
  · split
    · exact Ensures.throw fun _ he => ⟨id, he⟩
    · split
      · exact Ensures.throw fun _ he => ⟨id, he⟩
      · refine Ensures.bind get_follows fun e' => Ensures.of_fact fun hpublishes => ?_
        split
        · exact (onWorkload_follows rebind_lawful hpublishes).imp (fun _ h => h.1)
            (fun _ _ => id) fun _ _ => id
        · rename_i hnone
          have hnone := Option.not_isSome_iff_eq_none.mp hnone
          refine Ensures.bind ((track_adds hinit).imp (fun e he => ⟨he.1, he.2 ▸ hnone⟩)
            (fun _ _ => id) fun _ _ => id) fun _ => ?_
          refine onWorkload_adds ?_ (c := e'.context w) hpublishes
          refine Ensures.bind (emit_settles rfl (by simp)) fun _ => ?_
          exact record_keeps.imp (fun _ => id) (fun _ _ h => h.2) fun _ _ h => h

/-- Running a command on a workload. -/
theorem exec_follows {command : List String} :
    Ensures e₀.Follows (exec w wid command) (fun _ => e₀.Follows) (RaisedFollows e₀) := by
  refine Ensures.bind requireInitialized_follows fun _ => Ensures.of_fact fun _ => ?_
  split
  · exact Ensures.throw fun _ he => ⟨id, he⟩
  · refine Ensures.bind get_follows fun e' => Ensures.of_fact fun hpublishes => ?_
    exact (onWorkload_follows execUnlocked_lawful hpublishes).imp (fun _ h => h.1)
      (fun _ _ => id) fun _ _ => id

/-- Asking for the record of a workload. -/
theorem status_follows {refresh : Bool} :
    Ensures e₀.Follows (status w wid refresh) (fun _ => e₀.Follows) (RaisedFollows e₀) := by
  refine Ensures.bind requireInitialized_follows fun _ => Ensures.of_fact fun _ => ?_
  refine Ensures.bind get_follows fun e' => Ensures.of_fact fun hpublishes => ?_
  exact (onWorkload_follows statusUnlocked_lawful hpublishes).imp (fun _ h => h.1)
    (fun _ _ => id) fun _ _ => id

/-- Stopping a workload. -/
theorem stop_follows :
    Ensures e₀.Follows (stop w wid) (fun _ => e₀.Follows) (RaisedFollows e₀) := by
  refine Ensures.bind requireInitialized_follows fun _ => Ensures.of_fact fun _ => ?_
  refine Ensures.bind get_follows fun e' => Ensures.of_fact fun hpublishes => ?_
  exact (onWorkload_follows stopUnlocked_lawful hpublishes).imp (fun _ h => h.1)
    (fun _ _ => id) fun _ _ => id

/-- Stopping the workloads of an owner. -/
theorem stopOwned_follows {f : OwnerFilter} :
    Ensures e₀.Follows (stopOwned w f) (fun _ => e₀.Follows) (RaisedFollows e₀) := by
  refine Ensures.bind requireInitialized_follows fun _ => Ensures.of_fact fun _ => ?_
  refine Ensures.bind get_follows fun e' => Ensures.of_fact fun hpublishes => ?_
  exact (Ensures.mapM fun _ _ => onWorkload_follows stopUnlocked_lawful hpublishes).imp
    (fun _ h => h.1) (fun _ _ => id) fun _ _ => id

/-- Reading one record. -/
theorem get_record_follows :
    Ensures e₀.Follows (get wid) (fun _ => e₀.Follows) (RaisedFollows e₀) := by
  refine Ensures.bind requireInitialized_follows fun _ => Ensures.of_fact fun _ => ?_
  exact require_follows.bind fun _ => Ensures.pure fun _ => id

/-- Reading the records. -/
theorem list_follows {f : OwnerFilter} {status : Option WorkloadStatus} {runtime : Option String} :
    Ensures e₀.Follows (list f status runtime) (fun _ => e₀.Follows) (RaisedFollows e₀) := by
  refine Ensures.bind requireInitialized_follows fun _ => Ensures.of_fact fun _ => ?_
  refine Ensures.bind get_follows fun _ => Ensures.of_fact fun _ => ?_
  exact Ensures.pure fun _ h => h.1

/-- A later state is consistent when the engine was. -/
theorem Follows.consistent (h : e₀.Follows e) (h₀ : e₀.Consistent) : e.Consistent where
  sound wid t hget := by
    rw [h.publishes_eq]
    exact h.sound wid t hget
  untracked hnot := h.untracked (h.initialized_eq.symm.trans hnot)
  dropped d hd := h₀.dropped d (h.dropped_eq ▸ hd)

/-- A new engine is consistent. -/
theorem new_consistent : new.Consistent where
  sound _ _ hget := (nomatch hget)
  untracked _ _ := rfl
  dropped _ hd := (nomatch hd)

end WorkloadEngine

/-- The operations of the engine. -/
inductive WorkloadCall where
  | doInitialize (publishes hasFactory : Bool) (defaultRuntime : Option String)
      (runtimes : Finset String)
  | shutdown (w : World)
  | registerRuntime (name : String)
  | start (w : World) (spec : WorkloadSpec) (owner : Option WorkloadOwner)
      (workloadId idempotencyKey hostId : Option String)
  | adopt (w : World) (workloadId : String) (handle : Option WorkloadHandle)
      (owner : Option WorkloadOwner)
  | exec (w : World) (wid : String) (command : List String)
  | status (w : World) (wid : String) (refresh : Bool)
  | stop (w : World) (wid : String)
  | stopOwned (w : World) (f : OwnerFilter)
  | get (wid : String)
  | list (f : OwnerFilter) (status : Option WorkloadStatus) (runtime : Option String)

open WorkloadEngine

/-- What an operation does, its result apart. -/
def WorkloadCall.perform : WorkloadCall → EngineM Unit
  | .doInitialize publishes hasFactory defaultRuntime runtimes =>
    WorkloadEngine.doInitialize publishes hasFactory defaultRuntime runtimes
  | .shutdown w => WorkloadEngine.shutdown w
  | .registerRuntime name => WorkloadEngine.registerRuntime name
  | .start w spec owner workloadId idempotencyKey hostId =>
    discard (WorkloadEngine.start w spec owner workloadId idempotencyKey hostId)
  | .adopt w workloadId handle owner => discard (WorkloadEngine.adopt w workloadId handle owner)
  | .exec w wid command => discard (WorkloadEngine.exec w wid command)
  | .status w wid refresh => discard (WorkloadEngine.status w wid refresh)
  | .stop w wid => discard (WorkloadEngine.stop w wid)
  | .stopOwned w f => discard (WorkloadEngine.stopOwned w f)
  | .get wid => discard (WorkloadEngine.get wid)
  | .list f inStatus onRuntime => discard (WorkloadEngine.list f inStatus onRuntime)

/-- An operation changes the engine even when it raises. -/
def step (e : WorkloadEngine) (call : WorkloadCall) : Option WorkloadEngine :=
  some (stateAfter call.perform e)

/-- A record is still tracked, or was given up as it is. -/
def WorkloadEngine.Kept (wid : String) (t : Tracked) (e : WorkloadEngine) : Prop :=
  e.workloads.get? wid = some t ∨ ∃ publishes, (publishes, t) ∈ e.dropped

namespace WorkloadEngine

variable {e₀ e u : WorkloadEngine} {w : World}

/-- Shutting down an engine stops workloads and then gives up their records, or does nothing. -/
theorem shutdown_spec :
    Ensures e₀.Follows (shutdown w) (fun _ u => e₀.Follows u ∨ ∃ e, e₀.Follows e ∧ u = e.drop)
      (RaisedFollows e₀) := by
  refine Ensures.bind get_follows fun e' => Ensures.of_fact fun hpublishes => ?_
  split
  · refine Ensures.bind (Q := fun _ => e₀.Follows) ?_ fun _ =>
      Ensures.update fun e he => .inr ⟨e, he, rfl⟩
    refine (Ensures.mapM fun wid _ => Ensures.attempt ?_).imp (fun _ h => h.1) (fun _ _ => id)
      fun _ _ => id
    exact (onWorkload_follows stopUnlocked_lawful hpublishes).imp (fun _ => id) (fun _ _ => id)
      fun _ _ h => h.2
  · exact Ensures.pure fun _ h => .inl h.1

/-- Setting up an engine that tracks nothing. -/
theorem doInitialize_consistent (h : e.Consistent) {publishes hasFactory : Bool}
    {defaultRuntime : Option String} {runtimes : Finset String} :
    Ensures (· = e) (doInitialize publishes hasFactory defaultRuntime runtimes)
      (fun _ u => u.Consistent ∧ u.workloads = e.workloads ∧ u.dropped = e.dropped)
      (RaisedFollows e₀) := by
  refine Ensures.update fun s hs => ?_
  subst hs
  split
  · exact ⟨h, rfl, rfl⟩
  · rename_i hnot
    have hnone := h.untracked (by simpa using hnot)
    exact ⟨⟨fun wid t hget => absurd (hget.symm.trans (hnone wid)) (by simp), fun _ => hnone,
      h.dropped⟩, rfl, rfl⟩

/-- Binding a runtime changes no record. -/
theorem registerRuntime_follows {name : String} :
    Ensures e₀.Follows (registerRuntime name) (fun _ => e₀.Follows) (RaisedFollows e₀) :=
  Ensures.update fun _ he => ⟨he.publishes_eq, he.initialized_eq, he.dropped_eq, he.sound,
    he.untracked, he.keeps⟩

/-- The records that are given up are as they are to be. -/
theorem Consistent.drop (h : e.Consistent) : e.drop.Consistent where
  sound _ _ hget := (nomatch hget)
  untracked _ _ := rfl
  dropped d hd := by
    rcases List.mem_append.mp hd with hd | hd
    · exact h.dropped d hd
    · obtain ⟨t, ht, rfl⟩ := List.mem_map.mp hd
      obtain ⟨entry, hentry, rfl⟩ := List.mem_map.mp ht
      exact h.sound entry.1 entry.2 ((e.workloads.get?_eq_some_iff _ _).mpr hentry)

/-- A record that is kept is kept when all are given up. -/
theorem Kept.drop {wid : String} {t : Tracked} (h : e.Kept wid t) : e.drop.Kept wid t := by
  rcases h with hget | ⟨publishes, hmem⟩
  · refine .inr ⟨e.publishes, List.mem_append_right _ (List.mem_map_of_mem ?_)⟩
    exact List.mem_map.mpr ⟨(wid, t), (e.workloads.get?_eq_some_iff _ _).mp hget, rfl⟩
  · exact .inr ⟨publishes, List.mem_append_left _ hmem⟩

/-- A later state keeps the records of workloads that had ended. -/
theorem Follows.kept {wid : String} {t : Tracked} (h : e.Follows u) (hkept : e.Kept wid t)
    (hended : isTerminal t.record.status) : u.Kept wid t :=
  hkept.imp (fun hget => h.keeps wid t hget hended)
    fun ⟨publishes, hmem⟩ => ⟨publishes, h.dropped_eq ▸ hmem⟩

/-- The state after an operation: a later one, the one with all records given up then, or that of
an engine that was set up. -/
inductive AfterCall (e : WorkloadEngine) : WorkloadEngine → Prop where
  | follows {u : WorkloadEngine} : e.Follows u → AfterCall e u
  | drop {u : WorkloadEngine} : e.Follows u → AfterCall e u.drop
  | setUp {u : WorkloadEngine} : u.Consistent → u.workloads = e.workloads →
      u.dropped = e.dropped → AfterCall e u

/-- What any operation does, in any consistent state. -/
theorem perform_spec (h : e.Consistent) (call : WorkloadCall) :
    Ensures (· = e) call.perform (fun _ => e.AfterCall)
      fun error u => ¬ error.IsIllegalTransition ∧ e.AfterCall u := by
  have hfollows {m : EngineM Unit}
      (hm : Ensures e.Follows m (fun _ => e.Follows) (RaisedFollows e)) :
      Ensures (· = e) m (fun _ => e.AfterCall)
        fun error u => ¬ error.IsIllegalTransition ∧ e.AfterCall u :=
    hm.imp (fun _ heq => heq ▸ h.follows) (fun _ _ => .follows) fun _ _ hu => ⟨hu.1, .follows hu.2⟩
  cases call with
  | doInitialize publishes hasFactory defaultRuntime runtimes =>
    exact (doInitialize_consistent h).imp (fun _ => id)
      (fun _ _ hu => .setUp hu.1 hu.2.1 hu.2.2) fun _ _ hu => ⟨hu.1, .follows hu.2⟩
  | shutdown w =>
    refine shutdown_spec.imp (fun _ heq => heq ▸ h.follows) (fun _ _ hu => ?_)
      fun _ _ hu => ⟨hu.1, .follows hu.2⟩
    rcases hu with hu | ⟨u, hu, rfl⟩
    · exact .follows hu
    · exact .drop hu
  | registerRuntime name => exact hfollows registerRuntime_follows
  | start w spec owner workloadId idempotencyKey hostId => exact hfollows start_follows.discard
  | adopt w workloadId handle owner => exact hfollows adopt_follows.discard
  | exec w wid command => exact hfollows exec_follows.discard
  | status w wid refresh => exact hfollows status_follows.discard
  | stop w wid => exact hfollows stop_follows.discard
  | stopOwned w f => exact hfollows stopOwned_follows.discard
  | get wid => exact hfollows get_record_follows.discard
  | list f status runtime => exact hfollows list_follows.discard

/-- An operation keeps the engine consistent. -/
theorem AfterCall.consistent (h : e.Consistent) (hu : e.AfterCall u) : u.Consistent := by
  cases hu with
  | follows hu => exact hu.consistent h
  | drop hu => exact (hu.consistent h).drop
  | setUp hu _ _ => exact hu

/-- An operation keeps the records of workloads that have ended. -/
theorem AfterCall.kept {wid : String} {t : Tracked} (hu : e.AfterCall u) (hkept : e.Kept wid t)
    (hended : isTerminal t.record.status) : u.Kept wid t := by
  cases hu with
  | follows hu => exact hu.kept hkept hended
  | drop hu => exact (hu.kept hkept hended).drop
  | setUp _ hworkloads hdropped => rwa [Kept, hworkloads, hdropped]

/-- The state after an operation. -/
theorem afterCall_of_step (h : e.Consistent) {call : WorkloadCall} (hstep : step e call = some u) :
    e.AfterCall u := by
  cases hstep
  exact (perform_spec h call).stateAfter (fun _ _ hu => hu.2) rfl

/-- The engine is consistent after any operations. -/
theorem consistent_of_run {calls : List WorkloadCall} (h : e.Consistent)
    (hrun : runSteps step e calls = some u) : u.Consistent :=
  invariant_of_run (fun _ _ _ hs hstep => (afterCall_of_step hs hstep).consistent hs) h hrun

/-- The records of workloads that have ended are kept by any operations. -/
theorem kept_of_run {calls : List WorkloadCall} {wid : String} {t : Tracked} (h : e.Consistent)
    (hkept : e.Kept wid t) (hended : isTerminal t.record.status)
    (hrun : runSteps step e calls = some u) : u.Kept wid t :=
  (invariant_of_run (P := fun s => s.Consistent ∧ s.Kept wid t)
    (fun _ _ _ hs hstep =>
      ⟨(afterCall_of_step hs.1 hstep).consistent hs.1, (afterCall_of_step hs.1 hstep).kept hs.2 hended⟩)
    ⟨h, hkept⟩ hrun).2

end WorkloadEngine

open WorkloadEngine

/-- After any operations with any outcomes of the runtimes, no operation fails with an illegal
transition, every workload has gone through its statuses along the allowed transitions, its end
was published once if it has ended and events are published, and is not published otherwise, and
the record of a workload that has ended stays as it is through any later operations. -/
theorem lifecycle_run {calls later : List WorkloadCall} {e u : WorkloadEngine}
    (hrun : runSteps step WorkloadEngine.new calls = some e)
    (hlater : runSteps step e later = some u) :
    (∀ (call : WorkloadCall) (error : WorkloadError), raisedBy call.perform e = some error →
      ¬ error.IsIllegalTransition) ∧
    (∀ wid t, e.workloads.get? wid = some t → t.Sound e.publishes) ∧
    (∀ publishes t, (publishes, t) ∈ e.dropped → t.Sound publishes) ∧
    ∀ wid t, e.workloads.get? wid = some t → isTerminal t.record.status → u.Kept wid t := by
  have he := consistent_of_run new_consistent hrun
  refine ⟨fun call error hraised => ?_, he.sound, fun publishes t hmem => he.dropped _ hmem,
    fun wid t hget hended => kept_of_run he (.inl hget) hended hlater⟩
  obtain ⟨_, hlegal, -⟩ := (perform_spec he call).raisedBy rfl hraised
  exact hlegal

/-- A world with one runtime that stops what it is asked to stop. -/
def localWorld (started : Except String RuntimeOutcome) : World where
  now := "now"
  freshId := "w"
  runtime _ := {
    name := "local"
    isEnabled := .ok true
    isolationModes := .ok {.bestEffort}
    start := fun _ => started
    poll := fun _ => .error "unknown"
    stop := fun _ => .ok { status := .stopped }
    exec := fun _ _ => .error "unknown" }
  factory _ := .error "unknown"

/-- A service in that runtime. -/
def localService : WorkloadSpec :=
  { kind := .service, isolation := .bestEffort, lifecycle := .job,
    placement := { runtime := some "local" } }

/-- An engine is set up with or without a publisher, and the service is started and stopped. -/
def serviceCalls (publishes : Bool) : List WorkloadCall :=
  [.doInitialize publishes false none {"local"},
    .start (localWorld (.ok { status := .ready })) localService none none none none,
    .stop (localWorld (.ok { status := .ready })) "w"]

/-- The end of the service is published once. -/
theorem lifecycle_run_service : ∃ e t,
    runSteps step WorkloadEngine.new (serviceCalls true) = some e ∧
      e.workloads.get? "w" = some t ∧ t.record.status = .stopped ∧ t.ends = 1 := by
  refine ⟨_, _, rfl, rfl, rfl, ?_⟩
  exact ((@lifecycle_run (serviceCalls true) [] _ _ rfl rfl).2.1 "w" _ rfl).ends_eq

/-- Without a publisher a workload ends and nothing is published. -/
theorem lifecycle_run_fails : ¬ ∀ (calls : List WorkloadCall) (e : WorkloadEngine) (wid : String)
    (t : Tracked), runSteps step WorkloadEngine.new calls = some e →
      e.workloads.get? wid = some t → (t.ends = 1 ↔ isTerminal t.record.status) := by
  intro h
  have hends := (h (serviceCalls false) _ "w" _ rfl rfl).mpr rfl
  exact absurd hends (by decide)

end PalmEngine.Workloads
