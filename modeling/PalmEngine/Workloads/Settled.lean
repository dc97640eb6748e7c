import PalmEngine.Workloads.Engine

/-!
# What a call does to one workload

Each part of a call that is about one workload leaves its record settled, whatever the runtime
answers or raises: the status was reached along allowed transitions, and the end of the workload
was published once if it has ended. None raises the error of an illegal transition, and none
changes a workload that has ended.
-/

namespace PalmEngine.Workloads

open PalmEngine.Lib

/-- A record between two calls: it is past its start, every status that it had is allowed after
the one before it, and its end was published once if it has ended and events are published. -/
structure Tracked.Sound (publishes : Bool) (t : Tracked) : Prop where
  started : t.record.status ≠ .pending
  current : t.statuses.getLast? = some t.record.status
  chain : t.statuses.IsChain fun a b => b ∈ allowed a
  ends_eq : t.ends = if publishes && isTerminal t.record.status then 1 else 0

section Record

variable {c : Context} {status next : WorkloadStatus} {n : ℕ} {message : Option String}
  {raised : WorkloadError → Scope → Prop}

/-- The workload is in a status, after so many events about its end. -/
def In (status : WorkloadStatus) (n : ℕ) (s : Scope) : Prop := s.tracked.At status n

/-- How often the end of a workload is to be published. -/
def ended (c : Context) (status : WorkloadStatus) : ℕ :=
  if c.publishes && isTerminal status then 1 else 0

/-- The record is as it is to be between two calls. -/
def Settled (c : Context) (s : Scope) : Prop := s.tracked.Sound c.publishes

/-- An error of another kind was raised, with the record as it is to be between two calls. -/
def RaisedSettled (c : Context) (e : WorkloadError) (s : Scope) : Prop :=
  ¬ e.IsIllegalTransition ∧ Settled c s

/-- A workload whose end was published as often as it is to be. -/
theorem settled_of_in {s : Scope} (h : In status (ended c status) s) (hstarted : status ≠ .pending) :
    Settled c s where
  started := h.status_eq ▸ hstarted
  current := h.status_eq ▸ h.current
  chain := h.chain
  ends_eq := by
    rw [h.status_eq]
    exact h.ends_eq

/-- The status of a record between two calls. -/
theorem in_of_settled {s : Scope} (h : Settled c s) :
    In s.tracked.record.status (ended c s.tracked.record.status) s where
  status_eq := rfl
  current := h.current
  chain := h.chain
  ends_eq := h.ends_eq

/-- Reading the record changes nothing. -/
theorem record_keeps {pre : Scope → Prop} :
    Ensures pre record (fun wl s => wl = s.tracked.record ∧ pre s) raised :=
  Ensures.bind (Ensures.get (Q := fun s' s => s' = s ∧ pre s) fun _ hs => ⟨rfl, hs⟩)
    fun _ => Ensures.pure fun _ h => ⟨h.1 ▸ rfl, h.2⟩

/-- Reading the record of a workload in a status. -/
theorem record_spec :
    Ensures (In status n) record (fun wl s => wl.status = status ∧ In status n s) raised :=
  record_keeps.imp (fun _ => id) (fun _ _ h => ⟨h.1 ▸ h.2.status_eq, h.2⟩) fun _ _ => id

/-- A change that leaves the status. -/
theorem change_spec {f : Workload → Workload} (hf : ∀ wl, (f wl).status = wl.status) :
    Ensures (In status n) (change f) (fun _ => In status n) raised :=
  Ensures.update fun s hs => hs.record _ (hf s.tracked.record)

/-- A transition that is allowed, or to the same status. -/
theorem transition_spec (h : canTransition status next) :
    Ensures (In status n) (transition c next message) (fun _ => In next n) raised := by
  refine Ensures.bind record_spec fun wl => Ensures.of_fact fun hwl => ?_
  have hnote : ∀ wl : Workload,
      ((wl.noteMessage message).touch c.world.now).status = wl.status :=
    fun wl => wl.noteMessage_status message
  split
  · rename_i heq
    rw [hwl.symm.trans heq]
    exact change_spec hnote
  · rename_i hne
    split
    · rename_i hnot
      exact absurd (hwl ▸ h) hnot
    · have hnext : next ∈ allowed status := by
        have hor : status = next ∨ next ∈ allowed status := by simpa [canTransition] using h
        exact hor.resolve_left fun heq => hne (hwl.trans heq)
      refine Ensures.bind (Ensures.update (Q := fun _ => In next n) fun s hs => ?_)
        fun _ => change_spec hnote
      exact hs.moved hnext

/-- A published event. -/
theorem emit_spec {eventType : WorkloadEventType} :
    Ensures (In status n) (emit c eventType)
      (fun _ => In status (n + if c.publishes && eventType.terminal then 1 else 0)) raised := by
  refine Ensures.update fun s hs => ?_
  cases hpublishes : c.publishes with
  | false => exact hs
  | true => exact hs.told eventType

/-- Of a workload that has not ended nothing is to be published about its end. -/
theorem ended_eq_zero (h : isTerminal status = false) : ended c status = 0 := by simp [ended, h]

/-- A workload that has not ended is settled as long as nothing was published about its end. -/
theorem settled_of_live {s : Scope} (h : In status 0 s) (hlive : isTerminal status = false)
    (hstarted : status ≠ .pending) : Settled c s :=
  settled_of_in (by rwa [ended_eq_zero hlive]) hstarted

/-- The event that tells of the end, or that there is none, settles a workload. -/
theorem emit_settles {eventType : WorkloadEventType} (h : eventType.terminal = isTerminal status)
    (hstarted : status ≠ .pending) :
    Ensures (In status 0) (emit c eventType) (fun _ => Settled c) raised := by
  refine emit_spec.imp (fun _ => id) (fun _ s hs => settled_of_in ?_ hstarted) fun _ _ => id
  rwa [h, Nat.zero_add] at hs

/-- The status that was reached is published. -/
theorem announce_settles (hstarted : status ≠ .pending) :
    Ensures (In status 0) (announce c status) (fun _ => Settled c) raised := by
  cases status with
  | ready | failed | stopped => exact emit_settles rfl hstarted
  | pending => exact absurd rfl hstarted
  | starting | running | stopping =>
    exact Ensures.pure fun s hs => settled_of_live hs rfl hstarted

/-- A workload that has not ended fails, and that is published. -/
theorem fail_settles {error : String} (h : isTerminal status = false) :
    Ensures (In status 0) (fail c error) (fun _ => Settled c) raised := by
  refine Ensures.bind (transition_spec (canTransition_failed h)) fun _ => ?_
  exact Ensures.bind (change_spec fun _ => rfl) fun _ => emit_settles rfl (by decide)

/-- Whatever error there is, it is not that of an illegal transition. -/
def Legal {α : Type} (x : Except WorkloadError α) : Prop :=
  ∀ e, x = .error e → ¬ e.IsIllegalTransition

/-- A runtime that is not found. -/
theorem resolveRuntime_legal {runtimes : Finset String} {name : String} :
    Legal (c.resolveRuntime runtimes name) := by
  intro e he
  unfold Context.resolveRuntime at he
  split at he
  · cases he
  · split at he
    · split at he
      · cases he
      · cases he
        exact id
    · cases he
      exact id

/-- Binding a runtime leaves the record, whether or not it succeeds. -/
theorem bindRuntime_spec {name : String} :
    Ensures (In status n) (bindRuntime c name) (fun _ => In status n)
      fun e s => ¬ e.IsIllegalTransition ∧ In status n s := by
  refine Ensures.bind (Ensures.get (Q := fun s' s => s.tracked = s'.tracked ∧ In status n s)
    fun _ hs => ⟨rfl, hs⟩) fun s' => ?_
  split
  · refine Ensures.update (f := fun _ => _) fun s hs => ?_
    rw [In, ← hs.1]
    exact hs.2
  · rename_i e he
    exact Ensures.throw fun s hs => ⟨resolveRuntime_legal e he, hs.2⟩

/-- An outcome of a start is applied. -/
theorem applyStartOutcome_settles {outcome : RuntimeOutcome} :
    Ensures (In .starting 0) (applyStartOutcome c outcome) (fun _ => Settled c) raised := by
  refine Ensures.bind (change_spec fun _ => rfl) fun _ => ?_
  refine Ensures.bind record_spec fun wl => Ensures.of_fact fun hwl => ?_
  rw [hwl]
  split
  · exact Ensures.bind (transition_spec (canTransition_failed rfl)) fun _ =>
      emit_settles rfl (by decide)
  · rename_i hlegal
    have hcan : canTransition .starting outcome.status := by
      by_contra hnot
      refine hlegal ⟨by simpa using hnot, fun heq => hnot ?_⟩
      rw [heq]
      rfl
    have hstarted : outcome.status ≠ .pending := by
      intro heq
      rw [heq] at hcan
      exact absurd hcan (by decide)
    exact Ensures.bind (transition_spec hcan) fun _ => announce_settles hstarted

/-- No status but its own leads to the pending one. -/
theorem ne_pending_of_canTransition (hstarted : status ≠ .pending) (h : canTransition status next) :
    next ≠ .pending := by
  rintro rfl
  cases status <;> first | exact hstarted rfl | exact absurd h (by decide)

/-- An outcome of a poll is applied. -/
theorem applyPollOutcome_settles {outcome : RuntimeOutcome} (hlive : isTerminal status = false)
    (hstarted : status ≠ .pending) :
    Ensures (In status 0) (applyPollOutcome c outcome) (fun _ => Settled c) raised := by
  refine Ensures.bind (change_spec fun _ => rfl) fun _ => ?_
  refine Ensures.bind record_spec fun wl => Ensures.of_fact fun hwl => ?_
  rw [hwl]
  split
  · exact (change_spec (f := (·.touch c.world.now)) fun _ => rfl).imp (fun _ => id)
      (fun _ _ hs => settled_of_live hs hlive hstarted) fun _ _ => id
  · split
    · exact Ensures.bind (transition_spec (canTransition_failed hlive)) fun _ =>
        emit_settles rfl (by decide)
    · rename_i hcan
      have hcan := not_not.mp hcan
      exact Ensures.bind (transition_spec hcan) fun _ =>
        announce_settles (ne_pending_of_canTransition hstarted hcan)

/-- A workload is started. -/
theorem afterStart_settles {returned : Except String RuntimeOutcome} :
    Ensures (In .starting 0) (afterStart c returned) (fun _ => Settled c) raised := by
  cases returned with
  | error error => exact fail_settles rfl
  | ok outcome => exact applyStartOutcome_settles

/-- A workload is polled. -/
theorem afterPoll_settles {returned : Except String RuntimeOutcome}
    (hlive : isTerminal status = false) (hstarted : status ≠ .pending) :
    Ensures (In status 0) (afterPoll c returned) (fun _ => Settled c) raised := by
  cases returned with
  | error error => exact fail_settles hlive
  | ok outcome => exact applyPollOutcome_settles hlive hstarted

/-- A command was run on a workload that was ready. -/
theorem afterExec_settles {runtime : String} {returned : Except String WorkloadResult} :
    Ensures (In .running 0) (afterExec c .ready runtime returned) (fun _ => Settled c) raised := by
  cases returned with
  | error error => exact (fail_settles rfl).bind fun _ => Ensures.pure fun _ => id
  | ok result =>
    refine Ensures.bind (change_spec fun _ => rfl) fun _ => ?_
    rw [ite_self]
    refine Ensures.bind (transition_spec rfl) fun _ => ?_
    exact Ensures.pure fun _ hs => settled_of_live hs rfl (by decide)

/-- A workload is stopped. -/
theorem afterStop_settles {returned : Except String RuntimeStopOutcome} :
    Ensures (In .stopping 0) (afterStop c returned) (fun _ => Settled c) raised := by
  cases returned with
  | error error => exact Ensures.bind (change_spec fun _ => rfl) fun _ => fail_settles rfl
  | ok outcome =>
    refine Ensures.bind (change_spec fun _ => rfl) fun _ => ?_
    have hend : (if outcome.status = .stopped ∨ outcome.status = .failed then outcome.status
        else WorkloadStatus.stopped) = .stopped ∨
        (if outcome.status = .stopped ∨ outcome.status = .failed then outcome.status
          else WorkloadStatus.stopped) = .failed := by
      split
      · assumption
      · exact .inl rfl
    rcases hend with heq | heq
    all_goals
      rw [heq]
      refine Ensures.bind (transition_spec rfl) fun _ => ?_
      refine Ensures.bind record_spec fun wl => Ensures.of_fact fun hwl => ?_
      rw [hwl]
      exact emit_settles rfl (by decide)

/-- A recorded workload is started. -/
theorem launch_settles {wid : String} :
    Ensures (In .pending 0) (launch c wid) (fun _ => Settled c) raised := by
  refine Ensures.bind (transition_spec rfl) fun _ => ?_
  refine Ensures.bind emit_spec fun _ => ?_
  refine Ensures.bind record_spec fun wl => Ensures.of_fact fun _ => ?_
  refine Ensures.bind (Q := fun _ => Settled c) ?_ fun _ => ?_
  · simpa [WorkloadEventType.terminal] using afterStart_settles
  · exact record_keeps.imp (fun _ => id) (fun _ _ h => h.2) fun _ _ => id

/-- What settles a workload raises no error. -/
theorem settles_of {α : Type} {P : Scope → Prop} {m : RecordM α}
    (h : Ensures P m (fun _ => Settled c) (RaisedSettled c)) :
    Ensures P (do let _ ← m; record) (fun _ => Settled c) (RaisedSettled c) :=
  h.bind fun _ => record_keeps.imp (fun _ => id) (fun _ _ h => h.2) fun _ _ => id

/-- A runtime that cannot be bound leaves a live workload settled. -/
theorem bindRuntime_settles {name : String} (hlive : isTerminal status = false)
    (hstarted : status ≠ .pending) :
    Ensures (In status 0) (bindRuntime c name) (fun _ => In status 0) (RaisedSettled c) :=
  bindRuntime_spec.imp (fun _ => id) (fun _ _ => id)
    fun _ _ h => ⟨h.1, settled_of_live h.2 hlive hstarted⟩

/-- The program leaves a settled workload settled and changes none that has ended, however it
ends, and no error that it raises is that of an illegal transition. -/
def Lawful {α : Type} (c : Context) (m : RecordM α) : Prop :=
  ∀ s, Settled c s → Ensures (· = s) m
    (fun _ t => Settled c t ∧ (isTerminal s.tracked.record.status → t.tracked = s.tracked))
    (fun e t => RaisedSettled c e t ∧
      (isTerminal s.tracked.record.status → t.tracked = s.tracked))

/-- A program is lawful when it settles live workloads and does nothing to those that have
ended. -/
theorem lawful_of {α : Type} {m : RecordM α}
    (hlive : ∀ status, isTerminal status = false → status ≠ .pending →
      Ensures (In status 0) m (fun _ => Settled c) (RaisedSettled c))
    (hended : ∀ s, isTerminal s.tracked.record.status →
      Ensures (· = s) m (fun _ t => t = s) fun e t => ¬ e.IsIllegalTransition ∧ t = s) :
    Lawful c m := by
  intro s hs
  cases hterminal : isTerminal s.tracked.record.status with
  | false =>
    have hin := in_of_settled hs
    rw [ended_eq_zero hterminal] at hin
    exact (hlive _ hterminal hs.started).imp (fun _ heq => heq ▸ hin)
      (fun _ _ ht => ⟨ht, fun h => (nomatch h)⟩) fun _ _ ht => ⟨ht, fun h => (nomatch h)⟩
  | true =>
    exact (hended s hterminal).imp (fun _ => id) (fun _ _ ht => ⟨ht ▸ hs, fun _ => ht ▸ rfl⟩)
      fun _ _ ht => ⟨⟨ht.1, ht.2 ▸ hs⟩, fun _ => ht.2 ▸ rfl⟩

/-- Reading the record and going on, from one state. -/
private theorem record_then {α : Type} {s : Scope} {k : Workload → RecordM α}
    {Q : α → Scope → Prop} {R : WorkloadError → Scope → Prop}
    (h : Ensures (· = s) (k s.tracked.record) Q R) : Ensures (· = s) (record >>= k) Q R :=
  record_keeps.bind fun wl => Ensures.of_state fun t ⟨hwl, ht⟩ => by
    subst ht
    exact hwl ▸ h

/-- Stopping a workload. -/
theorem stopUnlocked_lawful {wid : String} : Lawful c (stopUnlocked c wid) := by
  refine lawful_of (fun status hlive hstarted => ?_) fun s hended => ?_
  · refine Ensures.bind record_spec fun wl => Ensures.of_fact fun hwl => ?_
    rw [if_neg (by simp [hwl, hlive])]
    refine Ensures.bind (transition_spec (canTransition_stopping hlive hstarted)) fun _ => ?_
    refine settles_of ?_
    unfold stopBody
    split
    · exact Ensures.bind (transition_spec rfl) fun _ => emit_settles rfl (by decide)
    · exact Ensures.bind (bindRuntime_settles rfl (by decide)) fun _ => afterStop_settles
  · refine record_then ?_
    rw [if_pos hended]
    exact record_keeps.imp (fun _ => id) (fun _ _ h => h.2) fun _ _ h => h

/-- Polling a workload. -/
theorem statusUnlocked_lawful {wid : String} {refresh : Bool} :
    Lawful c (statusUnlocked c wid refresh) := by
  refine lawful_of (fun status hlive hstarted => ?_) fun s hended => ?_
  · refine Ensures.bind record_spec fun wl => Ensures.of_fact fun hwl => ?_
    split
    · refine Ensures.bind (bindRuntime_settles hlive hstarted) fun _ => ?_
      exact settles_of (afterPoll_settles hlive hstarted)
    · exact record_keeps.imp (fun _ => id) (fun _ _ h => settled_of_live h.2 hlive hstarted)
        fun _ _ h => h
  · refine record_then ?_
    rw [if_neg (by simp [hended])]
    exact record_keeps.imp (fun _ => id) (fun _ _ h => h.2) fun _ _ h => h

/-- Running a command on a workload. -/
theorem execUnlocked_lawful {wid : String} {command : List String} :
    Lawful c (execUnlocked c wid command) := by
  refine lawful_of (fun status hlive hstarted => ?_) fun s hended => ?_
  · refine Ensures.bind record_spec fun wl => Ensures.of_fact fun hwl => ?_
    have hsettled : ∀ s, In status 0 s → Settled c s :=
      fun s hs => settled_of_live hs hlive hstarted
    split
    · exact Ensures.throw fun s hs => ⟨id, hsettled s hs⟩
    · rename_i hready
      have heq : status = .ready := by simpa [isExecAllowed, hwl] using hready
      split
      · exact Ensures.throw fun s hs => ⟨id, hsettled s hs⟩
      · split
        · exact Ensures.throw fun s hs => ⟨id, hsettled s hs⟩
        · rw [hwl]
          subst heq
          refine Ensures.bind (bindRuntime_settles hlive hstarted) fun _ => ?_
          exact Ensures.bind (transition_spec rfl) fun _ => afterExec_settles
  · refine record_then ?_
    have hnot : ¬ isExecAllowed s.tracked.record.status := by
      intro hready
      rw [show s.tracked.record.status = .ready by simpa [isExecAllowed] using hready] at hended
      exact absurd hended (by decide)
    rw [if_pos hnot]
    exact Ensures.throw fun t ht => ⟨id, ht⟩

/-- Binding a workload without a runtime. -/
theorem rebind_lawful {bound : WorkloadHandle} {owner : WorkloadOwner} {wid : String} :
    Lawful c (rebind c bound owner wid) := by
  refine lawful_of (fun status hlive hstarted => ?_) fun s hended => ?_
  · refine Ensures.bind record_spec fun wl => Ensures.of_fact fun hwl => ?_
    split
    · exact Ensures.throw fun s hs => ⟨id, settled_of_live hs hlive hstarted⟩
    · refine Ensures.bind (change_spec fun _ => rfl) fun _ => ?_
      exact record_keeps.imp (fun _ => id) (fun _ _ h => settled_of_live h.2 hlive hstarted)
        fun _ _ h => h
  · refine record_then ?_
    rw [if_pos (.inr hended)]
    exact Ensures.throw fun t ht => ⟨id, ht⟩

end Record

end PalmEngine.Workloads
