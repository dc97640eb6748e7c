import PalmEngine.Lib.Joined
import PalmEngine.Workloads.Lifecycle

/-!
# Repeated starts

A start with a key is remembered under its owner's ids and its key, joined into one text. A later
start with the same text returns the workload of the earlier one. The ids and the key are not
escaped, so starts of different owners may be remembered under one text.
-/

namespace PalmEngine.Workloads

open PalmEngine.Lib

/-- The ids of an owner. -/
def WorkloadOwner.ids (o : WorkloadOwner) : List (Option String) :=
  [o.jobId, o.instanceId, o.sessionId, o.leaseId]

/-- The pieces of what a start is remembered under: those of the ids and the key, absent ids read
as empty texts. -/
def WorkloadOwner.keyPieces (o : WorkloadOwner) (key : String) : List (List Char) :=
  pieces '|' [o.jobId.getD "", o.instanceId.getD "", o.sessionId.getD "", o.leaseId.getD "", key]

/-- Starts are remembered under one text exactly when their ids and keys have the same pieces. -/
theorem idempotencyIndex_eq_iff (o o' : WorkloadOwner) (key key' : String) :
    WorkloadEngine.idempotencyIndex o key = WorkloadEngine.idempotencyIndex o' key' ↔
      o.keyPieces key = o'.keyPieces key' :=
  joined_eq_iff '|' (List.cons_ne_nil _ _) (List.cons_ne_nil _ _)

/-- What a workload was started with: a later record has the same id, runtime and key, and the
same owner unless it has no runtime. -/
structure Workload.SameStart (wl wl' : Workload) : Prop where
  workloadId_eq : wl'.workloadId = wl.workloadId
  runtime_eq : wl'.runtime = wl.runtime
  idempotencyKey_eq : wl'.idempotencyKey = wl.idempotencyKey
  owner_eq : wl.runtime ≠ "" → wl'.owner = wl.owner

namespace Workload

variable {wl wl' wl'' : Workload}

/-- Every record has what it has. -/
theorem SameStart.refl (wl : Workload) : wl.SameStart wl := ⟨rfl, rfl, rfl, fun _ => rfl⟩

/-- What a record still has, a later one has from the first. -/
theorem SameStart.trans (h : wl.SameStart wl') (h' : wl'.SameStart wl'') : wl.SameStart wl'' where
  workloadId_eq := h'.workloadId_eq.trans h.workloadId_eq
  runtime_eq := h'.runtime_eq.trans h.runtime_eq
  idempotencyKey_eq := h'.idempotencyKey_eq.trans h.idempotencyKey_eq
  owner_eq hruntime := (h'.owner_eq (h.runtime_eq ▸ hruntime)).trans (h.owner_eq hruntime)

/-- Noting a message. -/
theorem sameStart_noteMessage (wl : Workload) (message : Option String) (now : String) :
    wl.SameStart ((wl.noteMessage message).touch now) := by
  unfold noteMessage
  split <;> exact ⟨rfl, rfl, rfl, fun _ => rfl⟩

/-- What the start of a workload is remembered under, if it had a key. -/
def startKey (wl : Workload) : Option String :=
  (WorkloadEngine.given? wl.idempotencyKey).map (WorkloadEngine.idempotencyIndex wl.owner)

/-- What a start is remembered under stays the same, as only workloads with a runtime have a
key. -/
theorem SameStart.startKey_eq (h : wl.SameStart wl')
    (hadopted : wl.runtime = "" → wl.idempotencyKey = none) : wl'.startKey = wl.startKey := by
  unfold startKey
  rw [h.idempotencyKey_eq]
  by_cases hruntime : wl.runtime = ""
  · rw [hadopted hruntime]
    rfl
  · rw [h.owner_eq hruntime]

end Workload

section Record

variable {c : Context} {wl : Workload}

/-- The record has what the workload was started with. -/
def Scope.Of (wl : Workload) (s : Scope) : Prop := wl.SameStart s.tracked.record

/-- The program keeps what the workload was started with, however it ends. -/
def KeepsStart {α : Type} (wl : Workload) (m : RecordM α) : Prop :=
  Ensures (Scope.Of wl) m (fun _ => Scope.Of wl) fun _ => Scope.Of wl

/-- One program after the other. -/
theorem KeepsStart.bind {α β : Type} {m : RecordM α} {f : α → RecordM β} (hm : KeepsStart wl m)
    (hf : ∀ a, KeepsStart wl (f a)) : KeepsStart wl (m >>= f) := Ensures.bind hm hf

/-- Returning a value. -/
theorem KeepsStart.pure {α : Type} (a : α) : KeepsStart wl (Pure.pure a : RecordM α) :=
  Ensures.pure fun _ => id

/-- Raising an error. -/
theorem KeepsStart.throw {α : Type} (e : WorkloadError) : KeepsStart wl (throw e : RecordM α) :=
  Ensures.throw fun _ => id

/-- Reading the record. -/
theorem record_keepsStart : KeepsStart wl record :=
  record_keeps.imp (fun _ => id) (fun _ _ h => h.2) fun _ _ => id

/-- A change that keeps what every workload was started with. -/
theorem change_keepsStart {f : Workload → Workload} (hf : ∀ wl : Workload, wl.SameStart (f wl)) :
    KeepsStart wl (change f) :=
  Ensures.update fun s (hs : wl.SameStart s.tracked.record) => hs.trans (hf s.tracked.record)

/-- A change of the history and of the status. -/
theorem modify_keepsStart {f : Scope → Scope}
    (hf : ∀ s : Scope, s.tracked.record.SameStart (f s).tracked.record) :
    KeepsStart wl (modify f) :=
  Ensures.update fun s (hs : wl.SameStart s.tracked.record) => hs.trans (hf s)

/-- A change of the status. -/
theorem transition_keepsStart {next : WorkloadStatus} {message : Option String} :
    KeepsStart wl (transition c next message) := by
  refine record_keepsStart.bind fun wl' => ?_
  have hnote : KeepsStart wl (change fun wl => (wl.noteMessage message).touch c.world.now) :=
    change_keepsStart fun wl => wl.sameStart_noteMessage message _
  split
  · exact hnote
  · split
    · exact .throw _
    · exact KeepsStart.bind (modify_keepsStart fun _ => ⟨rfl, rfl, rfl, fun _ => rfl⟩)
        fun _ => hnote

/-- A published event. -/
theorem emit_keepsStart {eventType : WorkloadEventType} : KeepsStart wl (emit c eventType) := by
  refine modify_keepsStart fun s => ?_
  split <;> exact .refl _

/-- The binding of a runtime. -/
theorem bindRuntime_keepsStart {name : String} : KeepsStart wl (bindRuntime c name) := by
  refine Ensures.bind (Ensures.get (Q := fun s' s => s.tracked = s'.tracked ∧ Scope.Of wl s)
    fun _ hs => ⟨rfl, hs⟩) fun s' => ?_
  split
  · refine Ensures.update (f := fun _ => _) fun s hs => ?_
    rw [Scope.Of, ← hs.1]
    exact hs.2
  · exact Ensures.throw fun s hs => hs.2

/-- A failure. -/
theorem fail_keepsStart {error : String} : KeepsStart wl (fail c error) := by
  refine transition_keepsStart.bind fun _ => ?_
  refine KeepsStart.bind (change_keepsStart fun _ => ⟨rfl, rfl, rfl, fun _ => rfl⟩) fun _ => ?_
  exact emit_keepsStart

/-- The publication of a status. -/
theorem announce_keepsStart {status : WorkloadStatus} : KeepsStart wl (announce c status) := by
  cases status with
  | ready | failed | stopped => exact emit_keepsStart
  | pending | starting | running | stopping => exact .pure ()

/-- What follows a start or a poll. -/
theorem applyOutcome_keepsStart {outcome : RuntimeOutcome} :
    KeepsStart wl (applyStartOutcome c outcome) ∧ KeepsStart wl (applyPollOutcome c outcome) := by
  have hnote : KeepsStart wl (change (·.noteOutcome outcome)) :=
    change_keepsStart fun _ => ⟨rfl, rfl, rfl, fun _ => rfl⟩
  have hmove (next event : WorkloadStatus) (message : Option String) : KeepsStart wl
      (transition c next message >>= fun _ => announce c event) :=
    transition_keepsStart.bind fun _ => announce_keepsStart
  have hfail (message : Option String) : KeepsStart wl
      (transition c .failed message >>= fun _ => emit c .failed) :=
    transition_keepsStart.bind fun _ => emit_keepsStart
  constructor
  · refine hnote.bind fun _ => record_keepsStart.bind fun wl' => ?_
    split
    · exact hfail _
    · exact hmove _ _ _
  · refine hnote.bind fun _ => record_keepsStart.bind fun wl' => ?_
    split
    · exact change_keepsStart fun _ => ⟨rfl, rfl, rfl, fun _ => rfl⟩
    · split
      · exact hfail _
      · exact hmove _ _ _

/-- The start of a recorded workload: the returned record is the one that is tracked. -/
theorem launch_keepsStart {wid : String} :
    Ensures (Scope.Of wl) (launch c wid)
      (fun a s => a = s.tracked.record ∧ Scope.Of wl s) fun _ => Scope.Of wl := by
  refine Ensures.bind transition_keepsStart fun _ => Ensures.bind emit_keepsStart fun _ => ?_
  refine Ensures.bind record_keepsStart fun wl' => ?_
  refine Ensures.bind (Q := fun _ => Scope.Of wl) ?_ fun _ => record_keeps
  cases (c.world.runtime wl'.runtime).start wid with
  | error error => exact fail_keepsStart
  | ok outcome => exact applyOutcome_keepsStart.1

/-- A command. -/
theorem execUnlocked_keepsStart {wid : String} {command : List String} :
    KeepsStart wl (execUnlocked c wid command) := by
  refine record_keepsStart.bind fun wl' => ?_
  split
  · exact .throw _
  · split
    · exact .throw _
    · split
      · exact .throw _
      · refine bindRuntime_keepsStart.bind fun _ => transition_keepsStart.bind fun _ => ?_
        cases (c.world.runtime wl'.runtime).exec wid command with
        | error error => exact fail_keepsStart.bind fun _ => .pure _
        | ok result =>
          refine KeepsStart.bind (change_keepsStart fun _ => ⟨rfl, rfl, rfl, fun _ => rfl⟩) fun _ => ?_
          exact transition_keepsStart.bind fun _ => .pure _

/-- A poll. -/
theorem statusUnlocked_keepsStart {wid : String} {refresh : Bool} :
    KeepsStart wl (statusUnlocked c wid refresh) := by
  refine record_keepsStart.bind fun wl' => ?_
  split
  · refine bindRuntime_keepsStart.bind fun _ => ?_
    refine KeepsStart.bind ?_ fun _ => record_keepsStart
    cases (c.world.runtime wl'.runtime).poll wid with
    | error error => exact fail_keepsStart
    | ok outcome => exact applyOutcome_keepsStart.2
  · exact record_keepsStart

/-- A stop. -/
theorem stopUnlocked_keepsStart {wid : String} : KeepsStart wl (stopUnlocked c wid) := by
  refine record_keepsStart.bind fun wl' => ?_
  split
  · exact record_keepsStart
  · refine transition_keepsStart.bind fun _ => KeepsStart.bind ?_ fun _ => record_keepsStart
    unfold stopBody
    split
    · exact transition_keepsStart.bind fun _ => emit_keepsStart
    · refine bindRuntime_keepsStart.bind fun _ => ?_
      cases (c.world.runtime wl'.runtime).stop wid with
      | error error =>
        refine KeepsStart.bind (change_keepsStart fun _ => ⟨rfl, rfl, rfl, fun _ => rfl⟩) fun _ => ?_
        exact fail_keepsStart
      | ok outcome =>
        refine KeepsStart.bind (change_keepsStart fun _ => ⟨rfl, rfl, rfl, fun _ => rfl⟩) fun _ => ?_
        refine transition_keepsStart.bind fun _ => record_keepsStart.bind fun wl'' => ?_
        exact emit_keepsStart

/-- The binding of a body to a workload without a runtime. -/
theorem rebind_keepsStart {bound : WorkloadHandle} {owner : WorkloadOwner} {wid : String} :
    KeepsStart wl (rebind c bound owner wid) := by
  refine record_keeps.bind fun wl' => ?_
  split
  · exact Ensures.throw fun _ hs => hs.2
  · rename_i hnot
    have hruntime : wl'.runtime = "" := not_not.mp fun hne => hnot (.inl hne)
    refine Ensures.bind (Ensures.update fun s hs => hs.2.trans ?_) fun _ => record_keepsStart
    exact ⟨rfl, rfl, rfl, fun hne => absurd (hs.1 ▸ hruntime) hne⟩

end Record

namespace WorkloadEngine

variable {e₀ e u : WorkloadEngine} {w : World} {wid : String}

/-- The workload that the engine remembers for a start. -/
def remembered? (e : WorkloadEngine) (owner : WorkloadOwner) (key : Option String) :
    Option String :=
  (given? key).bind fun key => e.idempotency.get? (idempotencyIndex owner key)

/-- Records are tracked under their ids, adopted ones have no key, and exactly the starts with a
key are remembered. -/
structure Remembers (e : WorkloadEngine) : Prop where
  named : ∀ wid t, e.workloads.get? wid = some t → t.record.workloadId = wid
  adopted : ∀ wid t, e.workloads.get? wid = some t → t.record.runtime = "" →
    t.record.idempotencyKey = none
  remembered : ∀ idx wid, e.idempotency.get? idx = some wid ↔
    ∃ t, e.workloads.get? wid = some t ∧ t.record.startKey = some idx

/-- A later state of an engine that was not shut down: what was started is still tracked, with
what it was started with. -/
structure Grows (e₀ e : WorkloadEngine) : Prop where
  remembers : e.Remembers
  initialized : e₀.initialized = true → e.initialized = true
  kept : ∀ wid t, e₀.workloads.get? wid = some t → t.record.runtime ≠ "" →
    ∃ t', e.workloads.get? wid = some t' ∧ t.record.SameStart t'.record

/-- The state itself. -/
theorem Remembers.grows (h : e.Remembers) : e.Grows e where
  remembers := h
  initialized := id
  kept _ t hget _ := ⟨t, hget, .refl _⟩

/-- A state later than a later one. -/
theorem Grows.trans (h : e₀.Grows e) (h' : e.Grows u) : e₀.Grows u where
  remembers := h'.remembers
  initialized hinit := h'.initialized (h.initialized hinit)
  kept wid t hget hruntime := by
    obtain ⟨t', hget', hsame⟩ := h.kept wid t hget hruntime
    obtain ⟨t'', hget'', hsame'⟩ := h'.kept wid t' hget' (hsame.runtime_eq ▸ hruntime)
    exact ⟨t'', hget'', hsame.trans hsame'⟩

/-- A change of one record that keeps what it was started with. -/
theorem Remembers.set {t t' : Tracked} (h : e.Remembers) (hget : e.workloads.get? wid = some t)
    (hsame : t.record.SameStart t'.record) (hinit : u.initialized = e.initialized)
    (hworkloads : u.workloads = e.workloads.set wid t')
    (hidempotency : u.idempotency = e.idempotency) : e.Grows u := by
  have hkey := hsame.startKey_eq (h.adopted wid t hget)
  have hcases (i : String) (t'' : Tracked) (hi : u.workloads.get? i = some t'') :
      (i = wid ∧ t'' = t') ∨ (i ≠ wid ∧ e.workloads.get? i = some t'') := by
    rw [hworkloads] at hi
    by_cases heq : i = wid
    · rw [heq, Dict.get?_set_self] at hi
      exact .inl ⟨heq, (Option.some.inj hi).symm⟩
    · rw [Dict.get?_set_ne _ _ heq] at hi
      exact .inr ⟨heq, hi⟩
  refine ⟨⟨fun i t'' hi => ?_, fun i t'' hi hruntime => ?_, fun idx i => ?_⟩, fun h => hinit ▸ h,
    fun i t'' hi _ => ?_⟩
  · rcases hcases i t'' hi with ⟨rfl, rfl⟩ | ⟨-, hi⟩
    · rw [hsame.workloadId_eq, h.named i t hget]
    · exact h.named i t'' hi
  · rcases hcases i t'' hi with ⟨rfl, rfl⟩ | ⟨-, hi⟩
    · rw [hsame.idempotencyKey_eq]
      exact h.adopted i t hget (hsame.runtime_eq ▸ hruntime)
    · exact h.adopted i t'' hi hruntime
  · rw [hidempotency, h.remembered, hworkloads]
    by_cases heq : i = wid
    · simp [heq, hget, hkey]
    · rw [Dict.get?_set_ne _ _ heq]
  · rw [hworkloads]
    by_cases heq : i = wid
    · subst heq
      obtain rfl := Option.some.inj (hget.symm.trans hi)
      exact ⟨t', Dict.get?_set_self _ _ _, hsame⟩
    · exact ⟨t'', (Dict.get?_set_ne _ _ heq).trans hi, .refl _⟩

/-- A new record, remembered under its key if it has one. -/
theorem Remembers.add {wl : Workload} (h : e.Remembers) (hnone : e.workloads.get? wid = none)
    (hwid : wl.workloadId = wid) (hadopted : wl.runtime = "" → wl.idempotencyKey = none)
    (hfree : ∀ idx, wl.startKey = some idx → e.idempotency.get? idx = none)
    (hinit : u.initialized = e.initialized)
    (hworkloads : u.workloads = e.workloads.set wid (.fresh wl))
    (hidempotency : u.idempotency =
      wl.startKey.elim e.idempotency fun idx => e.idempotency.set idx wid) : e.Grows u := by
  have hcases (i : String) (t : Tracked) (hi : u.workloads.get? i = some t) :
      (i = wid ∧ t = .fresh wl) ∨ (i ≠ wid ∧ e.workloads.get? i = some t) := by
    rw [hworkloads] at hi
    by_cases heq : i = wid
    · rw [heq, Dict.get?_set_self] at hi
      exact .inl ⟨heq, (Option.some.inj hi).symm⟩
    · rw [Dict.get?_set_ne _ _ heq] at hi
      exact .inr ⟨heq, hi⟩
  have hne (i : String) (t : Tracked) (hi : e.workloads.get? i = some t) : i ≠ wid := by
    rintro rfl
    exact Option.some_ne_none t (hi.symm.trans hnone)
  refine ⟨⟨fun i t hi => ?_, fun i t hi hruntime => ?_, fun idx i => ?_⟩, fun h => hinit ▸ h,
    fun i t hi _ => ⟨t, ?_, .refl _⟩⟩
  · rcases hcases i t hi with ⟨rfl, rfl⟩ | ⟨-, hi⟩
    · exact hwid
    · exact h.named i t hi
  · rcases hcases i t hi with ⟨rfl, rfl⟩ | ⟨-, hi⟩
    · exact hadopted hruntime
    · exact h.adopted i t hi hruntime
  · have hold : (∃ t, u.workloads.get? i = some t ∧ t.record.startKey = some idx) ↔
        (i = wid ∧ wl.startKey = some idx) ∨ e.idempotency.get? idx = some i := by
      rw [h.remembered, hworkloads]
      by_cases heq : i = wid
      · subst heq
        simp [hnone, Tracked.fresh]
      · simp [Dict.get?_set_ne _ _ heq, heq]
    rw [hold, hidempotency]
    cases hkey : wl.startKey with
    | none => simp
    | some idx' =>
      dsimp only [Option.elim]
      by_cases heq : idx = idx'
      · subst heq
        simp [hfree idx hkey, eq_comm]
      · rw [Dict.get?_set_ne _ _ heq]
        simp [Ne.symm heq]
  · rw [hworkloads, Dict.get?_set_ne _ _ (hne i t hi)]
    exact hi

/-- A state with the same records and the same memory. -/
theorem Remembers.congr (h : e.Remembers) (hinit : e.initialized = true → u.initialized = true)
    (hworkloads : u.workloads = e.workloads) (hidempotency : u.idempotency = e.idempotency) :
    e.Grows u where
  remembers := by
    refine ⟨?_, ?_, ?_⟩
    · rw [hworkloads]
      exact h.named
    · rw [hworkloads]
      exact h.adopted
    · rw [hworkloads, hidempotency]
      exact h.remembered
  initialized := hinit
  kept _ t hget _ := ⟨t, hworkloads ▸ hget, .refl _⟩

/-- A program on a workload that keeps what it was started with: the workload is still tracked,
as the program left it. -/
theorem onWorkload_grows_of {α : Type} {m : RecordM α} {t : Tracked} {Q : α → Scope → Prop}
    (hm : Ensures (Scope.Of t.record) m (fun a s => Q a s ∧ Scope.Of t.record s)
      fun _ => Scope.Of t.record) :
    Ensures (fun e => e₀.Grows e ∧ e.workloads.get? wid = some t) (onWorkload wid m)
      (fun a e => e₀.Grows e ∧ ∃ s, Q a s ∧ e.workloads.get? wid = some s.tracked ∧
        t.record.SameStart s.tracked.record)
      fun _ => e₀.Grows := by
  intro e he
  have hrun := hm ⟨e.runtimes, t⟩ (.refl t.record)
  unfold onWorkload
  rw [he.2]
  dsimp only
  cases hms : m ⟨e.runtimes, t⟩ with
  | ok a s =>
    rw [hms] at hrun
    refine ⟨he.1.trans (he.1.remembers.set he.2 hrun.2 rfl rfl rfl), s, hrun.1, ?_, hrun.2⟩
    exact Dict.get?_set_self _ _ _
  | error error s =>
    rw [hms] at hrun
    exact he.1.trans (he.1.remembers.set he.2 hrun rfl rfl rfl)

/-- A program on a workload, if it is tracked. -/
theorem onWorkload_grows {α : Type} {m : RecordM α} (hm : ∀ wl, KeepsStart wl m) :
    Ensures e₀.Grows (onWorkload wid m) (fun _ => e₀.Grows) fun _ => e₀.Grows := by
  refine Ensures.of_state fun e he => ?_
  cases hget : e.workloads.get? wid with
  | none =>
    intro s hs
    subst hs
    unfold onWorkload
    rw [hget]
    exact he
  | some t =>
    have hkeeps : Ensures (Scope.Of t.record) m (fun _ s => True ∧ Scope.Of t.record s)
        fun _ => Scope.Of t.record :=
      (hm t.record).imp (fun _ => id) (fun _ _ h => ⟨trivial, h⟩) fun _ _ => id
    exact (onWorkload_grows_of hkeeps).imp (fun _ hs => hs ▸ ⟨he, hget⟩) (fun _ _ h => h.1)
      fun _ _ => id

/-- Only an initialized engine goes on. -/
theorem requireInitialized_grows :
    Ensures (· = e₀) requireInitialized (fun _ e => e₀.initialized = true ∧ e = e₀)
      fun _ e => e₀.initialized = false ∧ e = e₀ := by
  refine Ensures.bind (Ensures.get (Q := fun e' e => e' = e₀ ∧ e = e₀) fun _ he => ⟨he, he⟩)
    fun e' => Ensures.of_fact fun heq => ?_
  subst heq
  split
  · rename_i hnot
    exact Ensures.throw fun _ he => ⟨by simpa using hnot, he⟩
  · rename_i hinit
    exact Ensures.pure fun _ he => ⟨by simpa using hinit, he⟩

/-- Reading the engine. -/
theorem get_grows :
    Ensures (· = e₀) (MonadState.get : EngineM WorkloadEngine) (fun e' e => e' = e₀ ∧ e = e₀)
      fun _ e => e = e₀ := Ensures.get fun _ he => ⟨he, he⟩

/-- A value that is gone on with, or an error that is raised. -/
theorem orRaise_grows {α : Type} {x : Except WorkloadError α} {P : WorkloadEngine → Prop} :
    Ensures P (orRaise x) (fun a e => x = .ok a ∧ P e) fun _ => P := by
  cases x with
  | ok a => exact Ensures.pure fun _ he => ⟨rfl, he⟩
  | error error => exact Ensures.throw fun _ => id

/-- A runtime that is selected has a name. -/
theorem selectRuntimeName_ne {spec : WorkloadSpec} {name : String}
    (h : e.selectRuntimeName spec = .ok name) : name ≠ "" := by
  have hgiven (text : Option String) (hname : given? text = some name) : name ≠ "" := by
    obtain ⟨-, hne⟩ := Option.filter_eq_some_iff.mp hname
    simpa using hne
  unfold selectRuntimeName at h
  split at h
  · rename_i hname
    split at h <;> cases h
    exact hgiven _ hname
  · rename_i hname
    split at h <;> cases h
    exact hgiven _ hname
  · cases h

/-- What a start returns: the workload that was remembered for it, or a new one of its owner. -/
structure Returns (e₀ : WorkloadEngine) (owner : WorkloadOwner) (key : Option String)
    (wl : Workload) (e : WorkloadEngine) : Prop where
  grows : e₀.Grows e
  initialized : e₀.initialized = true
  runtime_ne : wl.runtime ≠ ""
  startKey_eq : wl.startKey = (given? key).map (idempotencyIndex owner)
  tracked : ∃ t, e.workloads.get? wl.workloadId = some t ∧ wl.SameStart t.record
  found : (e₀.remembered? owner key = some wl.workloadId ∧
      ∃ t, e₀.workloads.get? wl.workloadId = some t ∧ t.record = wl) ∨
    (e₀.remembered? owner key = none ∧ e₀.workloads.get? wl.workloadId = none ∧ wl.owner = owner)

/-- A start returns the workload that is remembered for it. -/
theorem returns_remembered {owner : WorkloadOwner} {key : Option String} (h : e₀.Remembers)
    (hinit : e₀.initialized = true) (hfound : e₀.remembered? owner key = some wid) :
    ∃ t, e₀.workloads.get? wid = some t ∧ e₀.Returns owner key t.record e₀ := by
  obtain ⟨k, hkey, hidx⟩ := Option.bind_eq_some_iff.mp hfound
  obtain ⟨t, hget, hstart⟩ := (h.remembered _ _).mp hidx
  have hname := h.named wid t hget
  refine ⟨t, hget, h.grows, hinit, fun hruntime => ?_, ?_, ⟨t, hname ▸ hget, .refl _⟩,
    .inl ⟨hname ▸ hfound, t, hname ▸ hget, rfl⟩⟩
  · have hnone : t.record.startKey = none := by
      rw [Workload.startKey, h.adopted wid t hget hruntime]
      rfl
    exact Option.some_ne_none _ (hstart.symm.trans hnone)
  · rw [hstart, hkey]
    rfl

/-- Looking up a record that is tracked. -/
theorem require_tracked {t : Tracked} {R : WorkloadError → WorkloadEngine → Prop}
    (hget : e.workloads.get? wid = some t) :
    Ensures (· = e) (require wid) (fun t' s => t' = t ∧ s = e) R := by
  refine Ensures.bind (Ensures.get (Q := fun e' s => e' = e ∧ s = e) fun _ he => ⟨he, he⟩)
    fun e' => Ensures.of_fact fun heq => ?_
  rw [heq, hget]
  exact Ensures.pure fun _ hs => ⟨rfl, hs⟩

/-- The records and the memory are those of a state. -/
private structure SameRecords (e₀ e : WorkloadEngine) : Prop where
  initialized_eq : e.initialized = e₀.initialized
  workloads_eq : e.workloads = e₀.workloads
  idempotency_eq : e.idempotency = e₀.idempotency

/-- One record was added that is not remembered yet. -/
private structure Tracks (e₀ : WorkloadEngine) (wid : String) (wl : Workload)
    (e : WorkloadEngine) : Prop where
  initialized_eq : e.initialized = e₀.initialized
  workloads_eq : e.workloads = e₀.workloads.set wid (.fresh wl)
  idempotency_eq : e.idempotency = e₀.idempotency

/-- Recording a workload. -/
private theorem track_tracks {wl : Workload} {R : WorkloadError → WorkloadEngine → Prop} :
    Ensures e₀.SameRecords (track wid wl) (fun _ => e₀.Tracks wid wl) R :=
  Ensures.update fun _ he =>
    ⟨he.initialized_eq, congrArg (·.set wid (.fresh wl)) he.workloads_eq, he.idempotency_eq⟩

/-- Remembering a start. -/
private theorem remember_grows {wl : Workload} {owner : WorkloadOwner} {key : Option String}
    (h : e₀.Remembers) (hnone : e₀.workloads.get? wid = none) (hwid : wl.workloadId = wid)
    (hruntime : wl.runtime ≠ "") (howner : wl.owner = owner) (hkey : wl.idempotencyKey = key)
    (hfree : e₀.remembered? owner key = none) :
    Ensures (e₀.Tracks wid wl) (remember owner key wid)
      (fun _ e => e₀.Grows e ∧ e.workloads.get? wid = some (.fresh wl)) fun _ => e₀.Grows := by
  subst howner hkey
  have hadd {u : WorkloadEngine} (hinit : u.initialized = e₀.initialized)
      (hworkloads : u.workloads = e₀.workloads.set wid (.fresh wl))
      (hidempotency : u.idempotency =
        wl.startKey.elim e₀.idempotency fun idx => e₀.idempotency.set idx wid) :
      e₀.Grows u ∧ u.workloads.get? wid = some (.fresh wl) := by
    refine ⟨h.add hnone hwid (fun heq => absurd heq hruntime) (fun idx hidx => ?_) hinit hworkloads
      hidempotency, ?_⟩
    · obtain ⟨key, hkey, rfl⟩ := Option.map_eq_some_iff.mp hidx
      rw [remembered?, hkey] at hfree
      exact hfree
    · rw [hworkloads]
      exact Dict.get?_set_self _ _ _
  unfold remember
  cases hkey : given? wl.idempotencyKey with
  | none =>
    refine Ensures.pure fun u hu => hadd hu.initialized_eq hu.workloads_eq ?_
    rw [hu.idempotency_eq, Workload.startKey, hkey]
    rfl
  | some key =>
    refine Ensures.update fun u hu => hadd hu.initialized_eq hu.workloads_eq ?_
    rw [hu.idempotency_eq, Workload.startKey, hkey]
    rfl

/-- What a start does: it returns what is remembered for it or a new workload, and if it raises
nothing is remembered for it. -/
theorem start_returns {spec : WorkloadSpec} {owner : Option WorkloadOwner}
    {workloadId key hostId : Option String} (h : e₀.Remembers) :
    Ensures (· = e₀) (start w spec owner workloadId key hostId) (e₀.Returns (owner.getD {}) key)
      fun _ e => e₀.Grows e ∧
        (e₀.initialized = true → e₀.remembered? (owner.getD {}) key = none) := by
  refine Ensures.bind (requireInitialized_grows.imp (fun _ => id) (fun _ _ => id) ?_)
    fun _ => Ensures.of_fact fun hinit => ?_
  · rintro _ _ ⟨hnot, rfl⟩
    exact ⟨h.grows, fun hinit => absurd (hnot.symm.trans hinit) (by decide)⟩
  refine Ensures.bind (Ensures.get (Q := fun e' e => e' = e₀ ∧ e = e₀) fun _ he => ⟨he, he⟩)
    fun e' => Ensures.of_fact fun heq => ?_
  subst e'
  dsimp only
  split
  · rename_i wid hfound
    obtain ⟨t, hget, hreturns⟩ := returns_remembered h hinit hfound
    refine Ensures.bind (require_tracked hget) fun t' => Ensures.of_fact fun heq => ?_
    subst heq
    exact Ensures.pure fun _ hs => hs ▸ hreturns
  · rename_i hnone
    have hsame : ∀ e, e₀.SameRecords e → e₀.Grows e ∧
        (e₀.initialized = true → e₀.remembered? (owner.getD {}) key = none) :=
      fun e he => ⟨h.congr (fun h => he.initialized_eq ▸ h) he.workloads_eq he.idempotency_eq,
        fun _ => hnone⟩
    refine Ensures.bind (orRaise_grows.imp (fun _ he => ⟨he ▸ rfl, he ▸ rfl, he ▸ rfl⟩)
      (fun _ _ => id) fun _ => hsame) fun name => Ensures.of_fact fun hname => ?_
    refine Ensures.bind (orRaise_grows.imp (fun _ => id) (fun _ _ he => he.2) fun _ => hsame)
      fun runtimes => ?_
    refine Ensures.bind (Ensures.update (Q := fun _ => e₀.SameRecords) fun e he =>
      ⟨he.initialized_eq, he.workloads_eq, he.idempotency_eq⟩) fun _ => ?_
    refine Ensures.bind (orRaise_grows.imp (fun _ => id) (fun _ _ he => he.2) fun _ => hsame)
      fun _ => ?_
    refine Ensures.bind (orRaise_grows.imp (fun _ => id) (fun _ _ he => he.2) fun _ => hsame)
      fun _ => ?_
    split
    · exact Ensures.throw hsame
    · rename_i hfree
      have hfree := Option.not_isSome_iff_eq_none.mp hfree
      refine Ensures.bind track_tracks fun _ => ?_
      refine Ensures.bind (Ensures.imp
        (remember_grows h hfree rfl (selectRuntimeName_ne hname) rfl rfl hnone)
        (fun _ => id) (fun _ _ => id) fun _ _ he => ⟨he, fun _ => hnone⟩) fun _ => ?_
      refine (onWorkload_grows_of launch_keepsStart).imp (fun _ => id) (fun wl e he => ?_)
        fun _ _ he => ⟨he, fun _ => hnone⟩
      obtain ⟨hgrows, s, rfl, hget, hstart⟩ := he
      have hruntime := selectRuntimeName_ne hname
      have hid := hstart.workloadId_eq
      refine ⟨hgrows, hinit, hstart.runtime_eq ▸ hruntime, ?_, ⟨s.tracked, hid ▸ hget, .refl _⟩,
        .inr ⟨hnone, hid ▸ hfree, hstart.owner_eq hruntime⟩⟩
      rw [hstart.startKey_eq fun heq => absurd heq hruntime]
      rfl

/-- Adopting a body. -/
theorem adopt_grows {workloadId : String} {handle : Option WorkloadHandle}
    {owner : Option WorkloadOwner} (h : e₀.Remembers) :
    Ensures (· = e₀) (adopt w workloadId handle owner) (fun _ => e₀.Grows) fun _ => e₀.Grows := by
  have hself : ∀ e, e = e₀ → e₀.Grows e := fun _ he => he ▸ h.grows
  refine Ensures.bind (requireInitialized_grows.imp (fun _ => id) (fun _ _ he => he.2)
    fun _ e he => hself e he.2) fun _ => ?_
  dsimp only
  split
  · exact Ensures.throw hself
  · split
    · exact Ensures.throw hself
    · split
      · exact Ensures.throw hself
      · refine Ensures.bind (get_grows.imp (fun _ => id) (fun _ _ => id) fun _ => hself)
          fun e' => Ensures.of_fact fun heq => ?_
        subst e'
        split
        · exact (onWorkload_grows fun _ => rebind_keepsStart).imp hself (fun _ _ => id)
            fun _ _ => id
        · rename_i hnone
          have hnone := Option.not_isSome_iff_eq_none.mp hnone
          refine Ensures.bind (Ensures.update (Q := fun _ => e₀.Grows) fun e he => ?_) fun _ => ?_
          · subst he
            exact h.add hnone rfl (fun _ => rfl) (fun _ hidx => by cases hidx) rfl rfl rfl
          · exact onWorkload_grows fun _ => emit_keepsStart.bind fun _ => record_keepsStart

/-- A call about one workload. -/
private theorem call_grows {α : Type} {m : Context → RecordM α} (h : e₀.Remembers)
    (hm : ∀ c wl, KeepsStart wl (m c)) :
    Ensures (· = e₀) (do requireInitialized; onWorkload wid (m ((← MonadState.get).context w)))
      (fun _ => e₀.Grows) fun _ => e₀.Grows := by
  have hself : ∀ e, e = e₀ → e₀.Grows e := fun _ he => he ▸ h.grows
  refine Ensures.bind (requireInitialized_grows.imp (fun _ => id) (fun _ _ he => he.2)
    fun _ e he => hself e he.2) fun _ => ?_
  refine Ensures.bind (get_grows.imp (fun _ => id) (fun _ _ he => he.2) fun _ => hself)
    fun e' => ?_
  exact (onWorkload_grows (hm _)).imp hself (fun _ _ => id) fun _ _ => id

/-- Running a command on a workload. -/
theorem exec_grows {command : List String} (h : e₀.Remembers) :
    Ensures (· = e₀) (exec w wid command) (fun _ => e₀.Grows) fun _ => e₀.Grows := by
  by_cases hcommand : command = []
  · unfold exec
    have hself : ∀ e, e = e₀ → e₀.Grows e := fun _ he => he ▸ h.grows
    refine Ensures.bind (requireInitialized_grows.imp (fun _ => id) (fun _ _ he => he.2)
      fun _ e he => hself e he.2) fun _ => ?_
    rw [if_pos hcommand]
    exact Ensures.throw hself
  · unfold exec
    rw [if_neg hcommand]
    exact call_grows (m := (execUnlocked · wid command)) h fun _ _ => execUnlocked_keepsStart

/-- Stopping the workloads of an owner. -/
theorem stopOwned_grows {f : OwnerFilter} (h : e₀.Remembers) :
    Ensures (· = e₀) (stopOwned w f) (fun _ => e₀.Grows) fun _ => e₀.Grows := by
  have hself : ∀ e, e = e₀ → e₀.Grows e := fun _ he => he ▸ h.grows
  refine Ensures.bind (requireInitialized_grows.imp (fun _ => id) (fun _ _ he => he.2)
    fun _ e he => hself e he.2) fun _ => ?_
  refine Ensures.bind (get_grows.imp (fun _ => id) (fun _ _ he => he.2) fun _ => hself)
    fun e' => ?_
  exact (Ensures.mapM fun _ _ => onWorkload_grows fun _ => stopUnlocked_keepsStart).imp hself
    (fun _ _ => id) fun _ _ => id

/-- Reading one record. -/
theorem get_record_grows (h : e₀.Remembers) :
    Ensures (· = e₀) (get wid) (fun _ => e₀.Grows) fun _ => e₀.Grows := by
  have hself : ∀ e, e = e₀ → e₀.Grows e := fun _ he => he ▸ h.grows
  refine Ensures.bind (requireInitialized_grows.imp (fun _ => id) (fun _ _ he => he.2)
    fun _ e he => hself e he.2) fun _ => ?_
  refine Ensures.bind (Q := fun _ => (· = e₀)) (Ensures.bind (get_grows.imp (fun _ => id)
    (fun _ _ he => he.2) fun _ => hself) fun e' => ?_) fun _ => Ensures.pure hself
  split
  · exact Ensures.pure fun _ => id
  · exact Ensures.throw hself

/-- Reading the records. -/
theorem list_grows {f : OwnerFilter} {status : Option WorkloadStatus} {runtime : Option String}
    (h : e₀.Remembers) :
    Ensures (· = e₀) (list f status runtime) (fun _ => e₀.Grows) fun _ => e₀.Grows := by
  have hself : ∀ e, e = e₀ → e₀.Grows e := fun _ he => he ▸ h.grows
  refine Ensures.bind (requireInitialized_grows.imp (fun _ => id) (fun _ _ he => he.2)
    fun _ e he => hself e he.2) fun _ => ?_
  refine Ensures.bind (get_grows.imp (fun _ => id) (fun _ _ he => he.2) fun _ => hself)
    fun e' => ?_
  exact Ensures.pure hself

end WorkloadEngine

/-- Whether an operation gives up all workloads. -/
def WorkloadCall.isShutdown : WorkloadCall → Bool
  | .shutdown _ => true
  | _ => false

namespace WorkloadEngine

variable {e₀ e u : WorkloadEngine}

/-- Every operation but a shutdown keeps what was started. -/
theorem perform_grows {call : WorkloadCall} (h : e₀.Remembers) (hcall : call.isShutdown = false) :
    Ensures (· = e₀) call.perform (fun _ => e₀.Grows) fun _ => e₀.Grows := by
  cases call with
  | doInitialize publishes hasFactory defaultRuntime runtimes =>
    refine Ensures.update fun e he => ?_
    subst he
    split
    · exact h.grows
    · exact h.congr (fun _ => rfl) rfl rfl
  | shutdown w => cases hcall
  | registerRuntime name =>
    refine Ensures.update fun e he => ?_
    subst he
    exact h.congr id rfl rfl
  | start w spec owner workloadId key hostId =>
    exact ((start_returns h).imp (fun _ => id) (fun _ _ he => he.grows) fun _ _ he => he.1).discard
  | adopt w workloadId handle owner => exact (adopt_grows h).discard
  | exec w wid command => exact (exec_grows h).discard
  | status w wid refresh =>
    exact (call_grows (m := (statusUnlocked · wid refresh)) h
      fun _ _ => statusUnlocked_keepsStart).discard
  | stop w wid =>
    exact (call_grows (m := (stopUnlocked · wid)) h fun _ _ => stopUnlocked_keepsStart).discard
  | stopOwned w f => exact (stopOwned_grows h).discard
  | get wid => exact (get_record_grows h).discard
  | list f status runtime => exact (list_grows h).discard

/-- An engine without records remembers nothing. -/
theorem remembers_empty (hworkloads : e.workloads = .empty) (hidempotency : e.idempotency = .empty) :
    e.Remembers where
  named wid t hget := by simp [hworkloads] at hget
  adopted wid t hget := by simp [hworkloads] at hget
  remembered idx wid := by simp [hworkloads, hidempotency]

/-- Shutting down gives up the memory with the records. -/
theorem shutdown_remembers {w : World} (h : e₀.Remembers) :
    Ensures (· = e₀) (shutdown w) (fun _ => Remembers) fun _ => Remembers := by
  refine Ensures.bind (get_grows.imp (fun _ => id) (fun _ _ he => he.2) fun _ _ he => he ▸ h)
    fun e' => ?_
  split
  · refine Ensures.bind (Q := fun _ => e₀.Grows) ?_ fun _ =>
      Ensures.update fun _ _ => remembers_empty rfl rfl
    refine (Ensures.mapM fun wid _ => Ensures.attempt ?_).imp (fun _ he => he ▸ h.grows)
      (fun _ _ => id) fun _ _ (he : e₀.Grows _) => he.remembers
    exact onWorkload_grows fun _ => stopUnlocked_keepsStart
  · exact Ensures.pure fun _ he => he ▸ h

/-- A step other than a shutdown keeps what was started. -/
theorem grows_of_step {call : WorkloadCall} (h : e.Remembers) (hcall : call.isShutdown = false)
    (hstep : step e call = some u) : e.Grows u := by
  cases hstep
  exact (perform_grows h hcall).stateAfter (fun _ _ => id) rfl

/-- Every step leaves exactly the starts with a key remembered. -/
theorem Remembers.step {call : WorkloadCall} (h : e.Remembers) (hstep : step e call = some u) :
    u.Remembers := by
  cases hcall : call.isShutdown with
  | false => exact (grows_of_step h hcall hstep).remembers
  | true =>
    cases call with
    | shutdown w =>
      cases hstep
      exact (shutdown_remembers h).stateAfter (fun _ _ => id) rfl
    | _ => cases hcall

/-- After any operations exactly the starts with a key are remembered. -/
theorem remembers_run {calls : List WorkloadCall} (hrun : runSteps step new calls = some e) :
    e.Remembers :=
  invariant_of_run (fun _ _ _ h hstep => h.step hstep) (remembers_empty rfl rfl) hrun

/-- What was started is kept by any operations other than a shutdown. -/
theorem grows_of_run {calls : List WorkloadCall} (h : e.Remembers)
    (hcalls : ∀ call ∈ calls, call.isShutdown = false) (hrun : runSteps step e calls = some u) :
    e.Grows u := by
  induction calls generalizing e with
  | nil => exact Option.some.inj hrun ▸ h.grows
  | cons call rest ih =>
    obtain ⟨t, ht, hrest⟩ := runSteps_cons hrun
    have hgrows := grows_of_step h (hcalls call List.mem_cons_self) ht
    exact hgrows.trans (ih hgrows.remembers (fun c hc => hcalls c (List.mem_cons_of_mem _ hc)) hrest)

end WorkloadEngine

/-- A start with an idempotency key. -/
structure KeyedStart where
  world : World
  spec : WorkloadSpec
  owner : Option WorkloadOwner := none
  workloadId : Option String := none
  key : String
  hostId : Option String := none

namespace KeyedStart

variable (first second : KeyedStart)

/-- Make the start. -/
def run : EngineM Workload :=
  WorkloadEngine.start second.world second.spec second.owner second.workloadId (some second.key)
    second.hostId

/-- The owner of the start. -/
def startedBy : WorkloadOwner := second.owner.getD {}

/-- The two starts have the same owner ids and the same key. -/
def Same : Prop := first.startedBy.ids = second.startedBy.ids ∧ first.key = second.key

/-- The two starts are remembered under the same text: both keys are given, and the ids and keys
have the same pieces. -/
def Confused : Prop :=
  first.key ≠ "" ∧ second.key ≠ "" ∧
    first.startedBy.keyPieces first.key = second.startedBy.keyPieces second.key

/-- The second start returns the workload that the first returned, with some calls in between that
did not give it up. -/
def ReturnsSame (wl : Workload) (calls : List WorkloadCall) (e : WorkloadEngine) : Prop :=
  (∀ call ∈ calls, call.isShutdown = false) ∧
    ∃ wl' e', second.run e = .ok wl' e' ∧ wl'.workloadId = wl.workloadId

/-- The second start returns the workload of the first exactly when it is the same start, and
whatever workload it returns belongs to its owner. -/
def KeepsOwnersApart (wl : Workload) (calls : List WorkloadCall) (e : WorkloadEngine) : Prop :=
  (second.ReturnsSame wl calls e ↔ first.Same second) ∧
    ∀ wl' e', second.run e = .ok wl' e' → wl'.owner.ids = second.startedBy.ids

/-- The same start is made again before a shutdown and with a given key, or a different start after
a shutdown or not to be confused with the first; and the second start is to be confused with the
start of no workload of another owner that is there. -/
def Distinguished (calls : List WorkloadCall) (e : WorkloadEngine) : Prop :=
  (first.Same second → first.key ≠ "" ∧ ∀ call ∈ calls, call.isShutdown = false) ∧
  (¬ first.Same second → first.Confused second → ∃ call ∈ calls, call.isShutdown = true) ∧
  ∀ wid t key, e.workloads.get? wid = some t → t.record.idempotencyKey = some key → key ≠ "" →
    second.key ≠ "" → t.record.owner.keyPieces key = second.startedBy.keyPieces second.key →
      t.record.owner.ids = second.startedBy.ids

end KeyedStart

namespace KeyedStart

variable {first second : KeyedStart} {e e₀ e₁ : WorkloadEngine} {wl : Workload}

/-- The same start has the same pieces. -/
theorem Same.keyPieces_eq (h : first.Same second) :
    first.startedBy.keyPieces first.key = second.startedBy.keyPieces second.key := by
  obtain ⟨hids, hkey⟩ := h
  simp only [WorkloadOwner.ids, List.cons.injEq, and_true] at hids
  obtain ⟨hjob, hinstance, hsession, hlease⟩ := hids
  rw [WorkloadOwner.keyPieces, WorkloadOwner.keyPieces, hjob, hinstance, hsession, hlease, hkey]

/-- What a given key of an owner is remembered under. -/
theorem startKey_eq_some_iff {idx : String} :
    wl.startKey = some idx ↔
      ∃ key, wl.idempotencyKey = some key ∧ key ≠ "" ∧
        WorkloadEngine.idempotencyIndex wl.owner key = idx := by
  simp only [Workload.startKey, Option.map_eq_some_iff, WorkloadEngine.given?,
    Option.filter_eq_some_iff, decide_eq_true_eq, and_assoc]

/-- What the start is remembered under. -/
theorem index_eq_some_iff {idx : String} :
    (WorkloadEngine.given? (some second.key)).map
        (WorkloadEngine.idempotencyIndex second.startedBy) = some idx ↔
      second.key ≠ "" ∧ WorkloadEngine.idempotencyIndex second.startedBy second.key = idx := by
  simp [WorkloadEngine.given?, Option.filter_some]

/-- The workload that is remembered for a start. -/
theorem remembered?_eq_some_iff {wid : String} :
    e.remembered? second.startedBy (some second.key) = some wid ↔
      second.key ≠ "" ∧
        e.idempotency.get? (WorkloadEngine.idempotencyIndex second.startedBy second.key) =
          some wid := by
  by_cases hkey : second.key = ""
  · simp [WorkloadEngine.remembered?, WorkloadEngine.given?, Option.filter_some, hkey]
  · simp [WorkloadEngine.remembered?, WorkloadEngine.given?, Option.filter_some, hkey]

/-- What the start does. -/
private theorem run_spec (second : KeyedStart) (h : e.Remembers) :
    Ensures (· = e) second.run (e.Returns second.startedBy (some second.key))
      fun _ u => e.Grows u ∧
        (e.initialized = true → e.remembered? second.startedBy (some second.key) = none) :=
  WorkloadEngine.start_returns h

/-- What the start returns. -/
theorem run_returns (h : e.Remembers) (hrun : second.run e = .ok wl e₁) :
    e.Returns second.startedBy (some second.key) wl e₁ := by
  have hspec := run_spec second h e rfl
  rwa [hrun] at hspec

/-- A start that is remembered returns the workload, and no other start returns one that is there
already. -/
theorem run_eq_ok_iff {wid : String} {t : Tracked} (h : e.Remembers) (hinit : e.initialized = true)
    (hget : e.workloads.get? wid = some t) :
    (∃ wl' e', second.run e = .ok wl' e' ∧ wl'.workloadId = wid) ↔
      e.remembered? second.startedBy (some second.key) = some wid := by
  constructor
  · rintro ⟨wl', e', hrun, rfl⟩
    rcases (run_returns h hrun).found with ⟨hfound, -⟩ | ⟨-, hnone, -⟩
    · exact hfound
    · exact absurd (hget.symm.trans hnone) (Option.some_ne_none t)
  · intro hfound
    have hspec := run_spec second h e rfl
    cases hrun : second.run e with
    | ok wl' e' =>
      refine ⟨wl', e', rfl, ?_⟩
      rcases (run_returns h hrun).found with ⟨hfound', -⟩ | ⟨hnone, -⟩
      · exact Option.some.inj (hfound'.symm.trans hfound)
      · exact absurd (hfound.symm.trans hnone) (Option.some_ne_none wid)
    | error error e' =>
      rw [hrun] at hspec
      exact absurd (hfound.symm.trans (hspec.2 hinit)) (Option.some_ne_none wid)

/-- Between two starts without a shutdown the second returns the workload of the first exactly
when the two are to be confused. -/
theorem returnsSame_iff {calls : List WorkloadCall} (h : e₀.Remembers)
    (hfirst : first.run e₀ = .ok wl e₁) (hrun : runSteps step e₁ calls = some e) :
    second.ReturnsSame wl calls e ↔
      (∀ call ∈ calls, call.isShutdown = false) ∧ first.Confused second := by
  refine and_congr_right fun hcalls => ?_
  have hreturns := run_returns h hfirst
  obtain ⟨t, hget, hsame⟩ := hreturns.tracked
  have hgrows := WorkloadEngine.grows_of_run hreturns.grows.remembers hcalls hrun
  obtain ⟨t', hget', hsame'⟩ := hgrows.kept _ t hget (hsame.runtime_eq ▸ hreturns.runtime_ne)
  have hinit := hgrows.initialized (hreturns.grows.initialized hreturns.initialized)
  have hkey : t'.record.startKey = wl.startKey :=
    (hsame.trans hsame').startKey_eq fun heq => absurd heq hreturns.runtime_ne
  have hfound : (∃ s, e.workloads.get? wl.workloadId = some s ∧
        s.record.startKey = some (WorkloadEngine.idempotencyIndex second.startedBy second.key)) ↔
      wl.startKey = some (WorkloadEngine.idempotencyIndex second.startedBy second.key) := by
    simp [hget', hkey]
  rw [run_eq_ok_iff hgrows.remembers hinit hget', remembered?_eq_some_iff,
    hgrows.remembers.remembered, hfound, hreturns.startKey_eq, index_eq_some_iff,
    idempotencyIndex_eq_iff]
  exact and_left_comm

/-- What a start returns belongs to its owner exactly when no workload of another owner is
remembered under the same text. -/
theorem owned_iff (h : e.Remembers) (hconsistent : e.Consistent) :
    (∀ wl' e', second.run e = .ok wl' e' → wl'.owner.ids = second.startedBy.ids) ↔
      ∀ wid t key, e.workloads.get? wid = some t → t.record.idempotencyKey = some key → key ≠ "" →
        second.key ≠ "" → t.record.owner.keyPieces key = second.startedBy.keyPieces second.key →
          t.record.owner.ids = second.startedBy.ids := by
  constructor
  · intro howned wid t key hget hkey hne hsecond hpieces
    have hinit : e.initialized = true := by
      by_contra hnot
      have hnone := hconsistent.untracked (by simpa using hnot) wid
      exact Option.some_ne_none t (hget.symm.trans hnone)
    have hidx := (idempotencyIndex_eq_iff _ _ _ _).mpr hpieces
    have hfound : e.remembered? second.startedBy (some second.key) = some wid :=
      remembered?_eq_some_iff.mpr ⟨hsecond, (h.remembered _ _).mpr
        ⟨t, hget, startKey_eq_some_iff.mpr ⟨key, hkey, hne, hidx⟩⟩⟩
    obtain ⟨wl', e', hrun, hwid⟩ := (run_eq_ok_iff h hinit hget).mpr hfound
    rcases (run_returns h hrun).found with ⟨-, t', hget', rfl⟩ | ⟨hnone, -⟩
    · obtain rfl := Option.some.inj (hget.symm.trans (hwid ▸ hget'))
      exact howned _ e' hrun
    · exact absurd (hfound.symm.trans hnone) (Option.some_ne_none wid)
  · intro happart wl' e' hrun
    rcases (run_returns h hrun).found with ⟨hfound, t, hget, rfl⟩ | ⟨-, -, howner⟩
    · obtain ⟨hsecond, hidx⟩ := remembered?_eq_some_iff.mp hfound
      obtain ⟨t', hget', hstart⟩ := (h.remembered _ _).mp hidx
      obtain rfl := Option.some.inj (hget.symm.trans hget')
      obtain ⟨key, hkey, hne, hpieces⟩ := startKey_eq_some_iff.mp hstart
      exact happart _ t key hget hkey hne hsecond ((idempotencyIndex_eq_iff _ _ _ _).mp hpieces)
    · rw [howner]

/-- A start leaves the engine consistent. -/
theorem run_consistent (h : e₀.Consistent) (hrun : first.run e₀ = .ok wl e₁) : e₁.Consistent := by
  have hspec : Ensures e₀.Follows first.run (fun _ => e₀.Follows) e₀.RaisedFollows :=
    WorkloadEngine.start_follows
  have hfollows := hspec e₀ h.follows
  rw [hrun] at hfollows
  exact hfollows.consistent h

end KeyedStart

open WorkloadEngine

/-- A start, made on an engine that any operations led to, and a second one after any further
operations are told apart by their owners and keys exactly when ids and keys that differ have
different pieces. -/
theorem keepsOwnersApart_iff {before calls : List WorkloadCall} {first second : KeyedStart}
    {e₀ e₁ e : WorkloadEngine} {wl : Workload} (hbefore : runSteps step new before = some e₀)
    (hfirst : first.run e₀ = .ok wl e₁) (hcalls : runSteps step e₁ calls = some e) :
    first.KeepsOwnersApart second wl calls e ↔ first.Distinguished second calls e := by
  have h₀ := remembers_run hbefore
  have h₁ := (KeyedStart.run_returns h₀ hfirst).grows.remembers
  have h : e.Remembers := invariant_of_run (fun _ _ _ h hstep => h.step hstep) h₁ hcalls
  have hconsistent : e.Consistent :=
    consistent_of_run (KeyedStart.run_consistent (consistent_of_run new_consistent hbefore) hfirst)
      hcalls
  rw [KeyedStart.KeepsOwnersApart, KeyedStart.returnsSame_iff h₀ hfirst hcalls,
    KeyedStart.owned_iff h hconsistent, KeyedStart.Distinguished, ← and_assoc]
  refine and_congr_left fun _ => ?_
  constructor
  · intro hiff
    refine ⟨fun hsame => ?_, fun hnot hconfused => ?_⟩
    · obtain ⟨hlive, hne, -⟩ := hiff.mpr hsame
      exact ⟨hne, hlive⟩
    · by_contra hlive
      refine hnot (hiff.mp ⟨fun call hcall => ?_, hconfused⟩)
      by_contra hshutdown
      exact hlive ⟨call, hcall, by simpa using hshutdown⟩
  · rintro ⟨hsame, hdiffer⟩
    constructor
    · rintro ⟨hlive, hconfused⟩
      by_contra hnot
      obtain ⟨call, hcall, hshutdown⟩ := hdiffer hnot hconfused
      exact absurd (hshutdown.symm.trans (hlive call hcall)) (by decide)
    · intro hstarts
      obtain ⟨hne, hlive⟩ := hsame hstarts
      exact ⟨hlive, hne, hstarts.2 ▸ hne, hstarts.keyPieces_eq⟩

/-- A start of the service for a job and an instance, with a key. -/
def keyedService (jobId instanceId : String) : KeyedStart where
  world := localWorld (.ok { status := .ready })
  spec := localService
  owner := some { jobId := some jobId, instanceId := some instanceId }
  key := "k"

/-- An engine with the runtime of the service. -/
def serviceEngine : List WorkloadCall := [.doInitialize false false none {"local"}]

/-- The service started twice for the same job and instance: the second start returns the first
workload. -/
theorem keepsOwnersApart_iff_service : ∃ e₀ e₁ wl,
    runSteps step new serviceEngine = some e₀ ∧ (keyedService "a" "b").run e₀ = .ok wl e₁ ∧
      ((keyedService "a" "b").KeepsOwnersApart (keyedService "a" "b") wl [] e₁ ↔
        (keyedService "a" "b").Distinguished (keyedService "a" "b") [] e₁) :=
  ⟨_, _, _, rfl, rfl, @keepsOwnersApart_iff serviceEngine [] _ _ _ _ _ _ rfl rfl rfl⟩

/-- The workload that was started for the job "a|b" and the instance "c" is returned to the start
for the job "a" and the instance "b|c". -/
theorem keepsOwnersApart_fails : ¬ ∀ (before calls : List WorkloadCall) (first second : KeyedStart)
    (e₀ e₁ e : WorkloadEngine) (wl : Workload), runSteps step new before = some e₀ →
      first.run e₀ = .ok wl e₁ → runSteps step e₁ calls = some e →
        first.KeepsOwnersApart second wl calls e := by
  intro h
  have hapart := h serviceEngine [] (keyedService "a|b" "c") (keyedService "a" "b|c") _ _ _ _
    rfl rfl rfl
  have hsame := hapart.1.mp ⟨List.forall_mem_nil _, _, _, rfl, rfl⟩
  exact absurd hsame.1 (by decide)

end PalmEngine.Workloads
