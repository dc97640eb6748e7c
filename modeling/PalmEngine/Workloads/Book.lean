import PalmEngine.Workloads.Idempotency

/-!
# The book of the workloads

What a reader of the records sees of a call. A start or an adoption that returns leaves the record
that it returns under its id and the other records as they are, and one that raises leaves all; a
poll, a command or a stop keeps what each record is about; and a stop that returns has ended its
workload.
-/

namespace PalmEngine.Workloads

open PalmEngine.Lib

/-- What a record is about: its id and what was asked for. -/
def Tracked.body (t : Tracked) : String × WorkloadSpec := (t.record.workloadId, t.record.spec)

section Record

variable {c : Context} {wid : String}

/-- The record is about the same workload. -/
def About (b : String × WorkloadSpec) (s : Scope) : Prop := s.tracked.body = b

/-- The program keeps what the record is about, however it ends. -/
def KeepsBody {α : Type} (m : RecordM α) : Prop :=
  ∀ b, Ensures (About b) m (fun _ => About b) fun _ => About b

/-- One program after the other. -/
theorem KeepsBody.bind {α β : Type} {m : RecordM α} {f : α → RecordM β} (hm : KeepsBody m)
    (hf : ∀ a, KeepsBody (f a)) : KeepsBody (m >>= f) :=
  fun b => Ensures.bind (hm b) fun a => hf a b

/-- Returning a value. -/
theorem KeepsBody.pure {α : Type} (a : α) : KeepsBody (Pure.pure a : RecordM α) :=
  fun _ => Ensures.pure fun _ => id

/-- Raising an error. -/
theorem KeepsBody.throw {α : Type} (e : WorkloadError) : KeepsBody (throw e : RecordM α) :=
  fun _ => Ensures.throw fun _ => id

/-- A change of the state of the program. -/
theorem KeepsBody.modify {f : Scope → Scope} (hf : ∀ s, (f s).tracked.body = s.tracked.body) :
    KeepsBody (modify f) :=
  fun _ => Ensures.update fun s hs => (hf s).trans hs

/-- Reading the record. -/
theorem record_keepsBody : KeepsBody record :=
  fun _ => record_keeps.imp (fun _ => id) (fun _ _ h => h.2) fun _ _ => id

/-- A note of a message and of the time. -/
theorem note_keepsBody {message : Option String} {now : String} :
    KeepsBody (change fun wl => (wl.noteMessage message).touch now) := by
  refine .modify fun s => ?_
  unfold Tracked.body Workload.touch Workload.noteMessage
  split <;> rfl

/-- A change of the status. -/
theorem transition_keepsBody {next : WorkloadStatus} {message : Option String} :
    KeepsBody (transition c next message) := by
  refine record_keepsBody.bind fun wl => ?_
  split
  · exact note_keepsBody
  · split
    · exact .throw _
    · exact KeepsBody.bind (.modify fun _ => rfl) fun _ => note_keepsBody

/-- A published event. -/
theorem emit_keepsBody {eventType : WorkloadEventType} : KeepsBody (emit c eventType) := by
  refine .modify fun s => ?_
  split <;> rfl

/-- The binding of a runtime. -/
theorem bindRuntime_keepsBody {name : String} : KeepsBody (bindRuntime c name) := by
  intro b
  refine Ensures.bind (Ensures.get (Q := fun s' s => s' = s ∧ About b s) fun _ hs => ⟨rfl, hs⟩)
    fun s' => ?_
  split
  · refine Ensures.update (f := fun _ => _) fun s hs => ?_
    obtain ⟨rfl, hs⟩ := hs
    exact hs
  · exact Ensures.throw fun s hs => hs.2

/-- A failure. -/
theorem fail_keepsBody {error : String} : KeepsBody (fail c error) :=
  transition_keepsBody.bind fun _ => KeepsBody.bind (.modify fun _ => rfl) fun _ => emit_keepsBody

/-- The publication of a status. -/
theorem announce_keepsBody {status : WorkloadStatus} : KeepsBody (announce c status) := by
  cases status with
  | ready | failed | stopped => exact emit_keepsBody
  | pending | starting | running | stopping => exact .pure ()

/-- What follows a poll. -/
theorem afterPoll_keepsBody {returned : Except String RuntimeOutcome} :
    KeepsBody (afterPoll c returned) := by
  cases returned with
  | error error => exact fail_keepsBody
  | ok outcome =>
    refine KeepsBody.bind (.modify fun _ => rfl) fun _ => record_keepsBody.bind fun wl => ?_
    split
    · exact .modify fun _ => rfl
    · split
      · exact transition_keepsBody.bind fun _ => emit_keepsBody
      · exact transition_keepsBody.bind fun _ => announce_keepsBody

/-- What follows a stop. -/
theorem afterStop_keepsBody {returned : Except String RuntimeStopOutcome} :
    KeepsBody (afterStop c returned) := by
  cases returned with
  | error error => exact KeepsBody.bind (.modify fun _ => rfl) fun _ => fail_keepsBody
  | ok outcome =>
    refine KeepsBody.bind (.modify fun _ => rfl) fun _ => ?_
    exact transition_keepsBody.bind fun _ => record_keepsBody.bind fun wl => emit_keepsBody

/-- A command. -/
theorem execUnlocked_keepsBody {command : List String} :
    KeepsBody (execUnlocked c wid command) := by
  refine record_keepsBody.bind fun wl => ?_
  split
  · exact .throw _
  · split
    · exact .throw _
    · split
      · exact .throw _
      · refine bindRuntime_keepsBody.bind fun _ => transition_keepsBody.bind fun _ => ?_
        cases (c.world.runtime wl.runtime).exec wid command with
        | error error => exact fail_keepsBody.bind fun _ => .pure _
        | ok result =>
          refine KeepsBody.bind (.modify fun _ => rfl) fun _ => ?_
          exact transition_keepsBody.bind fun _ => .pure _

/-- A poll. -/
theorem statusUnlocked_keepsBody {refresh : Bool} : KeepsBody (statusUnlocked c wid refresh) := by
  refine record_keepsBody.bind fun wl => ?_
  split
  · refine bindRuntime_keepsBody.bind fun _ => ?_
    exact afterPoll_keepsBody.bind fun _ => record_keepsBody
  · exact record_keepsBody

/-- A stop. -/
theorem stopUnlocked_keepsBody : KeepsBody (stopUnlocked c wid) := by
  refine record_keepsBody.bind fun wl => ?_
  split
  · exact record_keepsBody
  · refine transition_keepsBody.bind fun _ => KeepsBody.bind ?_ fun _ => record_keepsBody
    unfold stopBody
    split
    · exact transition_keepsBody.bind fun _ => emit_keepsBody
    · exact bindRuntime_keepsBody.bind fun _ => afterStop_keepsBody

/-- A transition that returns has reached its status. -/
theorem transition_reaches {next : WorkloadStatus} {message : Option String} :
    Ensures (fun _ => True) (transition c next message)
      (fun _ s => s.tracked.record.status = next) fun _ _ => True := by
  have hnote {f : Scope → Prop} (hf : ∀ s, f s → s.tracked.record.status = next) :
      Ensures f (change fun wl => (wl.noteMessage message).touch c.world.now)
        (fun _ s => s.tracked.record.status = next) fun _ _ => True :=
    Ensures.update fun s hs => (Workload.noteMessage_status _ _).trans (hf s hs)
  refine record_keeps.bind fun wl => ?_
  split
  · rename_i heq
    exact hnote fun s hs => hs.1 ▸ heq
  · split
    · exact Ensures.throw fun _ _ => trivial
    · exact Ensures.bind (Ensures.update (Q := fun _ s => s.tracked.record.status = next)
        fun _ _ => rfl) fun _ => hnote fun _ => id

/-- An event leaves the status. -/
theorem emit_keeps_status {eventType : WorkloadEventType} {status : WorkloadStatus} :
    Ensures (fun s => s.tracked.record.status = status) (emit c eventType)
      (fun _ s => s.tracked.record.status = status) fun _ _ => True := by
  refine Ensures.update fun s hs => ?_
  split <;> exact hs

/-- The workload has ended. -/
def Ended (s : Scope) : Prop := isTerminal s.tracked.record.status = true

/-- A transition to a last status and its event. -/
theorem ends_at {next : WorkloadStatus} {message : Option String} {α : Type}
    {k : Unit → RecordM α} (hnext : isTerminal next = true)
    (hk : Ensures (fun s => s.tracked.record.status = next) (k ())
      (fun _ s => s.tracked.record.status = next) fun _ _ => True) :
    Ensures (fun _ => True) (transition c next message >>= k) (fun _ => Ended) fun _ _ => True :=
  Ensures.bind transition_reaches fun _ =>
    hk.imp (fun _ => id) (fun _ s hs => by rw [Ended, hs]; exact hnext) fun _ _ => id

/-- What follows a stop ends the workload. -/
theorem afterStop_ends {returned : Except String RuntimeStopOutcome} :
    Ensures (fun _ => True) (afterStop c returned) (fun _ => Ended) fun _ _ => True := by
  cases returned with
  | error error =>
    refine Ensures.bind (Ensures.update (Q := fun _ _ => True) fun _ _ => trivial) fun _ => ?_
    refine ends_at rfl ?_
    exact Ensures.bind (Ensures.update fun _ hs => hs) fun _ => emit_keeps_status
  | ok outcome =>
    refine Ensures.bind (Ensures.update (Q := fun _ _ => True) fun _ _ => trivial) fun _ => ?_
    refine ends_at ?_ ?_
    · split
      · next hend => rcases hend with hend | hend <;> rw [hend] <;> rfl
      · rfl
    · exact Ensures.bind (record_keeps.imp (fun _ => id) (fun _ _ h => h.2) fun _ _ => id)
        fun _ => emit_keeps_status

/-- A stop that returns has ended the workload. -/
theorem stopUnlocked_ends :
    Ensures (fun _ => True) (stopUnlocked c wid) (fun _ => Ended) fun _ _ => True := by
  have hrecord : Ensures Ended record (fun _ => Ended) fun _ _ => True :=
    record_keeps.imp (fun _ => id) (fun _ _ h => h.2) fun _ _ => id
  refine record_keeps.bind fun wl => ?_
  split
  · next hended =>
    refine hrecord.imp (fun s hs => ?_) (fun _ _ => id) fun _ _ => id
    rw [Ended, ← hs.1]
    exact hended
  · refine Ensures.bind (transition_reaches.imp (fun _ _ => trivial) (fun _ _ => id) fun _ _ => id)
      fun _ => ?_
    refine Ensures.bind (Q := fun _ => Ended) ?_ fun _ => hrecord
    refine Ensures.imp (P := fun _ => True) ?_ (fun _ _ => trivial) (fun _ _ => id) fun _ _ => id
    unfold stopBody
    split
    · exact ends_at rfl emit_keeps_status
    · refine Ensures.bind (Q := fun _ _ => True) ?_ fun _ => afterStop_ends
      intro s _
      split <;> trivial

/-- A recorded workload is started, which raises no error and returns its record. -/
theorem launch_returns {wl : Workload} (hpending : wl.status = .pending) :
    Ensures (fun s => s.tracked = .fresh wl) (launch c wid)
      (fun a s => a = s.tracked.record ∧ a.workloadId = wl.workloadId) fun _ _ => False := by
  have hsettles : Ensures (fun s => s.tracked = .fresh wl) (launch c wid) (fun _ _ => True)
      fun _ _ => False := by
    refine launch_settles.imp (fun s hs => ?_) (fun _ _ _ => trivial) fun _ _ => id
    rw [In, hs, ← hpending]
    exact Tracked.fresh_at wl
  have hkeeps : Ensures (fun s => s.tracked = .fresh wl) (launch c wid)
      (fun a s => a = s.tracked.record ∧ a.workloadId = wl.workloadId) fun _ _ => True := by
    have hstart : Ensures (Scope.Of wl) (launch c wid)
        (fun a s => a = s.tracked.record ∧ Scope.Of wl s) fun _ => Scope.Of wl := launch_keepsStart
    refine hstart.imp (fun s hs => ?_) (fun a s hs => ?_) fun _ _ _ => trivial
    · rw [Scope.Of, hs]
      exact .refl wl
    · exact ⟨hs.1, hs.1 ▸ hs.2.workloadId_eq⟩
  exact (hsettles.and hkeeps).imp (fun _ => id) (fun _ _ h => h.2) fun _ _ h => h.1

/-- A body is bound to a recorded workload, or nothing has changed. -/
theorem rebind_returns {t : Tracked} {bound : WorkloadHandle} {owner : WorkloadOwner} :
    Ensures (fun s => s.tracked = t) (rebind c bound owner wid)
      (fun a s => a = s.tracked.record ∧ a.workloadId = t.record.workloadId)
      fun _ s => s.tracked = t := by
  refine record_keeps.bind fun wl => ?_
  split
  · exact Ensures.throw fun _ hs => hs.2
  · refine Ensures.bind (Ensures.update
      (Q := fun _ s => s.tracked.record.workloadId = t.record.workloadId)
      fun s hs => by rw [← hs.2]; rfl) fun _ => ?_
    exact record_keeps.imp (fun _ => id) (fun _ _ h => ⟨h.1, h.1 ▸ h.2⟩) fun _ _ h => h

/-- An adopted workload is announced and returned. -/
theorem announced_returns {wl : Workload} :
    Ensures (fun s => s.tracked = .fresh wl) (do emit c .ready; record)
      (fun a s => a = s.tracked.record ∧ a.workloadId = wl.workloadId) fun _ _ => False := by
  refine Ensures.bind (Ensures.update (Q := fun _ s => s.tracked.record.workloadId = wl.workloadId)
    fun s hs => ?_) fun _ => ?_
  · split <;> exact congrArg (·.record.workloadId) hs
  · exact record_keeps.imp (fun _ => id) (fun _ _ h => ⟨h.1, h.1 ▸ h.2⟩) fun _ _ h => h

end Record

namespace WorkloadEngine

variable {e₀ e : WorkloadEngine} {w : World} {wid : String}

/-- The records are about the same workloads. -/
structure Keeps (e₀ e : WorkloadEngine) : Prop where
  initialized_eq : e.initialized = e₀.initialized
  bodies_eq : ∀ i, (e.workloads.get? i).map Tracked.body = (e₀.workloads.get? i).map Tracked.body

/-- The records are the same. -/
structure SameBook (e₀ e : WorkloadEngine) : Prop where
  initialized_eq : e.initialized = e₀.initialized
  workloads_eq : ∀ i, e.workloads.get? i = e₀.workloads.get? i

/-- One record is a given one, and the others are the same. -/
structure Books (e₀ : WorkloadEngine) (wid : String) (t : Tracked) (e : WorkloadEngine) :
    Prop where
  initialized_eq : e.initialized = e₀.initialized
  booked : e.workloads.get? wid = some t
  others : ∀ i, i ≠ wid → e.workloads.get? i = e₀.workloads.get? i

/-- A returned workload is recorded under its id, and the other records are the same. -/
def Gives (e₀ : WorkloadEngine) (wl : Workload) (e : WorkloadEngine) : Prop :=
  ∃ t, t.record = wl ∧ e₀.Books wl.workloadId t e

/-- Nothing has changed. -/
theorem SameBook.refl (e : WorkloadEngine) : e.SameBook e := ⟨rfl, fun _ => rfl⟩

/-- A record that is there is booked. -/
theorem SameBook.books {t : Tracked} (h : e₀.SameBook e) (hget : e.workloads.get? wid = some t) :
    e₀.Books wid t e :=
  ⟨h.initialized_eq, hget, fun i _ => h.workloads_eq i⟩

/-- A program on a workload whose record is booked. -/
theorem onWorkload_books {α : Type} {m : RecordM α} {t : Tracked} {Q : α → Tracked → Prop}
    {R : Tracked → Prop}
    (hm : Ensures (fun s => s.tracked = t) m (fun a s => Q a s.tracked) fun _ s => R s.tracked) :
    Ensures (e₀.Books wid t) (onWorkload wid m) (fun a e => ∃ t', Q a t' ∧ e₀.Books wid t' e)
      fun _ e => ∃ t', R t' ∧ e₀.Books wid t' e := by
  intro e he
  have hset (runtimes : Finset String) (t' : Tracked) : e₀.Books wid t'
      { e with runtimes := runtimes, workloads := e.workloads.set wid t' } :=
    ⟨he.initialized_eq, Dict.get?_set_self _ _ _, fun i hi =>
      (Dict.get?_set_ne _ _ hi).trans (he.others i hi)⟩
  have hrun := hm ⟨e.runtimes, t⟩ rfl
  unfold onWorkload
  rw [he.booked]
  dsimp only
  cases hms : m ⟨e.runtimes, t⟩ with
  | ok a s =>
    rw [hms] at hrun
    exact ⟨s.tracked, hrun, hset _ _⟩
  | error error s =>
    rw [hms] at hrun
    exact ⟨s.tracked, hrun, hset _ _⟩

/-- A program that keeps what a record is about keeps what all are about. -/
theorem onWorkload_keeps {α : Type} {m : RecordM α} (hm : KeepsBody m) :
    Ensures e₀.Keeps (onWorkload wid m) (fun _ => e₀.Keeps) fun _ => e₀.Keeps := by
  intro e he
  have hset (runtimes : Finset String) (t t' : Tracked) (hget : e.workloads.get? wid = some t)
      (hbody : t'.body = t.body) : e₀.Keeps
        { e with runtimes := runtimes, workloads := e.workloads.set wid t' } := by
    refine ⟨he.initialized_eq, fun i => ?_⟩
    by_cases hi : i = wid
    · subst hi
      rw [Dict.get?_set_self, ← he.bodies_eq, hget, Option.map_some, Option.map_some, hbody]
    · rw [Dict.get?_set_ne _ _ hi, he.bodies_eq]
  unfold onWorkload
  cases hget : e.workloads.get? wid with
  | none => exact he
  | some t =>
    have hrun := hm t.body ⟨e.runtimes, t⟩ rfl
    dsimp only
    cases hms : m ⟨e.runtimes, t⟩ with
    | ok a s =>
      rw [hms] at hrun
      exact hset _ t _ hget hrun
    | error error s =>
      rw [hms] at hrun
      exact hset _ t _ hget hrun

/-- A program that returns the record of a booked workload, and raises without a change. -/
theorem onWorkload_gives {m : RecordM Workload} {t : Tracked} {R : Tracked → Prop}
    (hid : t.record.workloadId = wid) (hraised : ∀ e t', R t' → e₀.Books wid t' e → e₀.SameBook e)
    (hm : Ensures (fun s => s.tracked = t) m
      (fun a s => a = s.tracked.record ∧ a.workloadId = t.record.workloadId)
      fun _ s => R s.tracked) :
    Ensures (e₀.Books wid t) (onWorkload wid m) e₀.Gives fun _ => e₀.SameBook := by
  refine (onWorkload_books (Q := fun a t' => a = t'.record ∧ a.workloadId = t.record.workloadId)
    hm).imp (fun _ => id) (fun wl e he => ?_) fun _ e he => ?_
  · obtain ⟨t', ⟨rfl, hwl⟩, hbooks⟩ := he
    refine ⟨t', rfl, ?_⟩
    rw [hwl, hid]
    exact hbooks
  · obtain ⟨t', ht', hbooks⟩ := he
    exact hraised e t' ht' hbooks

/-- Only an initialized engine goes on, and nothing has changed. -/
theorem requireInitialized_same :
    Ensures (· = e₀) requireInitialized (fun _ e => e = e₀) fun _ => e₀.SameBook :=
  requireInitialized_grows.imp (fun _ => id) (fun _ _ h => h.2) fun _ _ h => h.2 ▸ .refl e₀

/-- A value that is gone on with, or an error that is raised. -/
theorem orRaise_same {α : Type} {x : Except WorkloadError α} :
    Ensures e₀.SameBook (orRaise x) (fun _ => e₀.SameBook) fun _ => e₀.SameBook :=
  orRaise_grows.imp (fun _ => id) (fun _ _ h => h.2) fun _ _ => id

/-- A record that is looked up is there, and nothing has changed. -/
theorem require_same :
    Ensures (· = e₀) (require wid) (fun t e => e₀.workloads.get? wid = some t ∧ e = e₀)
      fun _ => e₀.SameBook := by
  refine Ensures.bind (Ensures.get (Q := fun e' e => e' = e₀ ∧ e = e₀) fun _ he => ⟨he, he⟩)
    fun e' => Ensures.of_fact fun heq => ?_
  subst e'
  split
  · next hget => exact Ensures.pure fun _ he => ⟨hget, he⟩
  · exact Ensures.throw fun _ he => he ▸ .refl _

/-- Recording a workload books it. -/
theorem track_books {wl : Workload} {raised : WorkloadError → WorkloadEngine → Prop} :
    Ensures e₀.SameBook (track wid wl) (fun _ => e₀.Books wid (.fresh wl)) raised :=
  Ensures.update fun _ he => ⟨he.initialized_eq, Dict.get?_set_self _ _ _, fun i hi =>
    (Dict.get?_set_ne _ _ hi).trans (he.workloads_eq i)⟩

/-- Remembering a start changes no record. -/
theorem remember_books {t : Tracked} {owner : WorkloadOwner} {key : Option String} {id : String}
    {raised : WorkloadError → WorkloadEngine → Prop} :
    Ensures (e₀.Books wid t) (remember owner key id) (fun _ => e₀.Books wid t) raised := by
  unfold remember
  split
  · exact Ensures.pure fun _ he => he
  · exact Ensures.update fun _ he => ⟨he.initialized_eq, he.booked, he.others⟩

/-- What a start does to the book. -/
theorem start_gives {spec : WorkloadSpec} {owner : Option WorkloadOwner}
    {workloadId key hostId : Option String}
    (hnamed : ∀ wid t, e₀.workloads.get? wid = some t → t.record.workloadId = wid) :
    Ensures (· = e₀) (start w spec owner workloadId key hostId) e₀.Gives
      fun _ => e₀.SameBook := by
  refine Ensures.bind requireInitialized_same fun _ => ?_
  refine Ensures.bind (Ensures.get (Q := fun e' e => e' = e₀ ∧ e = e₀) fun _ he => ⟨he, he⟩)
    fun e' => Ensures.of_fact fun heq => ?_
  subst e'
  dsimp only
  split
  · rename_i wid _
    refine Ensures.bind require_same fun t => Ensures.of_fact fun hget => ?_
    refine Ensures.pure fun e he => ⟨t, rfl, ?_⟩
    rw [he, hnamed wid t hget]
    exact (SameBook.refl e₀).books hget
  · refine Ensures.bind (orRaise_same.imp (fun _ he => he ▸ .refl _) (fun _ _ => id) fun _ _ => id)
      fun name => ?_
    refine Ensures.bind orRaise_same fun runtimes => ?_
    refine Ensures.bind (Ensures.update (Q := fun _ => e₀.SameBook) fun e he =>
      ⟨he.initialized_eq, he.workloads_eq⟩) fun _ => ?_
    refine Ensures.bind orRaise_same fun _ => ?_
    refine Ensures.bind orRaise_same fun _ => ?_
    split
    · exact Ensures.throw fun _ => id
    · refine Ensures.bind track_books fun _ => Ensures.bind remember_books fun _ => ?_
      exact onWorkload_gives (R := fun _ => False) rfl (fun _ _ hfalse _ => hfalse.elim)
        (launch_returns rfl)

/-- What an adoption does to the book. -/
theorem adopt_gives {workloadId : String} {handle : Option WorkloadHandle}
    {owner : Option WorkloadOwner}
    (hnamed : ∀ wid t, e₀.workloads.get? wid = some t → t.record.workloadId = wid) :
    Ensures (· = e₀) (adopt w workloadId handle owner) e₀.Gives fun _ => e₀.SameBook := by
  have hself : ∀ e, e = e₀ → e₀.SameBook e := fun _ he => he ▸ .refl _
  refine Ensures.bind requireInitialized_same fun _ => ?_
  dsimp only
  split
  · exact Ensures.throw hself
  · split
    · exact Ensures.throw hself
    · split
      · exact Ensures.throw hself
      · refine Ensures.bind (Ensures.get (Q := fun e' e => e' = e₀ ∧ e = e₀) fun _ he => ⟨he, he⟩)
          fun e' => Ensures.of_fact fun heq => ?_
        subst e'
        split
        · rename_i hsome
          obtain ⟨t, hget⟩ := Option.isSome_iff_exists.mp hsome
          refine (onWorkload_gives (R := (· = t)) (hnamed _ t hget) (fun e t' ht' hbooks => ?_)
            rebind_returns).imp (fun e he => he ▸ (SameBook.refl e₀).books hget) (fun _ _ => id)
            fun _ _ => id
          subst ht'
          refine ⟨hbooks.initialized_eq, fun i => ?_⟩
          by_cases hi : i = strip workloadId
          · rw [hi, hbooks.booked, hget]
          · exact hbooks.others i hi
        · refine Ensures.bind (track_books.imp hself (fun _ _ => id) fun _ _ => id) fun _ => ?_
          exact onWorkload_gives (R := fun _ => False) rfl (fun _ _ hfalse _ => hfalse.elim)
            announced_returns

/-- A stop that returns has ended its workload. -/
theorem stop_ends :
    Ensures (fun _ => True) (stop w wid) (fun _ e => ∀ t, e.workloads.get? wid = some t →
      isTerminal t.record.status = true) fun _ _ => True := by
  refine Ensures.bind (Q := fun _ _ => True) ?_ fun _ => ?_
  · exact Ensures.of_state fun e _ =>
      requireInitialized_same.imp (fun _ => id) (fun _ _ _ => trivial) fun _ _ _ => trivial
  refine Ensures.bind (Ensures.get (Q := fun _ _ => True) fun _ _ => trivial) fun e' => ?_
  intro e _
  unfold onWorkload
  cases hget : e.workloads.get? wid with
  | none => trivial
  | some t =>
    have hrun := @stopUnlocked_ends (e'.context w) wid ⟨e.runtimes, t⟩ trivial
    dsimp only
    cases hms : stopUnlocked (e'.context w) wid ⟨e.runtimes, t⟩ with
    | error error s => trivial
    | ok a s =>
      rw [hms] at hrun
      intro t' ht'
      rw [Dict.get?_set_self] at ht'
      exact Option.some.inj ht' ▸ hrun

/-- An engine that is set up goes on. -/
theorem requireInitialized_ok (h : e.initialized = true) : requireInitialized e = .ok () e := by
  simp [requireInitialized, bind, EStateM.bind, MonadState.get, getThe, MonadStateOf.get,
    EStateM.get, pure, EStateM.pure, h]

/-- An engine that is not set up raises. -/
theorem requireInitialized_error (h : e.initialized = false) :
    requireInitialized e = .error (.state "WorkloadEngine is not initialized") e := by
  simp [requireInitialized, bind, EStateM.bind, MonadState.get, getThe, MonadStateOf.get,
    EStateM.get, throw, throwThe, MonadExceptOf.throw, EStateM.throw, h]

/-- What an engine that is set up returns of one record. -/
theorem get_eq (h : e.initialized = true) (wid : String) :
    get wid e = (e.workloads.get? wid).elim (.error (.notFound wid) e) fun t => .ok t.record e := by
  cases hget : e.workloads.get? wid <;>
    simp [get, bind, EStateM.bind, requireInitialized_ok h, require, MonadState.get, getThe,
      MonadStateOf.get, EStateM.get, pure, EStateM.pure, throw, throwThe, MonadExceptOf.throw,
      EStateM.throw, hget]

/-- An engine that is not set up returns no record. -/
theorem get_error (h : e.initialized = false) (wid : String) :
    get wid e = .error (.state "WorkloadEngine is not initialized") e := by
  simp [get, bind, EStateM.bind, requireInitialized_error h]

/-- What an engine that is set up returns of all records. -/
theorem list_eq (h : e.initialized = true) :
    list {} none none e = .ok (e.workloads.values.map (·.record)) e := by
  simp [list, bind, EStateM.bind, requireInitialized_ok h, MonadState.get, getThe, MonadStateOf.get,
    EStateM.get, pure, EStateM.pure, WorkloadOwner.matches, OwnerFilter.isEmpty]

/-- What an engine keeps when nothing has changed. -/
theorem SameBook.keeps (h : e₀.SameBook e) : e₀.Keeps e :=
  ⟨h.initialized_eq, fun i => by rw [h.workloads_eq]⟩

/-- A call about one workload keeps what the records are about. -/
theorem call_keeps {α : Type} {m : Context → RecordM α} (hm : ∀ c, KeepsBody (m c)) :
    Ensures (· = e₀) (do requireInitialized; onWorkload wid (m ((← MonadState.get).context w)))
      (fun _ => e₀.Keeps) fun _ => e₀.Keeps := by
  have hself : ∀ e, e = e₀ → e₀.Keeps e := fun _ he => he ▸ (SameBook.refl e₀).keeps
  refine Ensures.bind (requireInitialized_same.imp (fun _ => id) (fun _ _ => id)
    fun _ _ he => he.keeps) fun _ => ?_
  refine Ensures.bind (Ensures.get (Q := fun _ => e₀.Keeps) hself) fun e' => ?_
  exact onWorkload_keeps (hm _)

/-- Running a command keeps what the records are about. -/
theorem exec_keeps {command : List String} :
    Ensures (· = e₀) (exec w wid command) (fun _ => e₀.Keeps) fun _ => e₀.Keeps := by
  unfold exec
  split
  · refine Ensures.bind (requireInitialized_same.imp (fun _ => id) (fun _ _ => id)
      fun _ _ he => he.keeps) fun _ => ?_
    exact Ensures.throw fun _ he => he ▸ (SameBook.refl e₀).keeps
  · exact call_keeps (m := (execUnlocked · wid command)) fun _ => execUnlocked_keepsBody

/-- Polling keeps what the records are about. -/
theorem status_keeps {refresh : Bool} :
    Ensures (· = e₀) (status w wid refresh) (fun _ => e₀.Keeps) fun _ => e₀.Keeps :=
  call_keeps (m := (statusUnlocked · wid refresh)) fun _ => statusUnlocked_keepsBody

/-- Stopping keeps what the records are about. -/
theorem stop_keeps : Ensures (· = e₀) (stop w wid) (fun _ => e₀.Keeps) fun _ => e₀.Keeps :=
  call_keeps (m := (stopUnlocked · wid)) fun _ => stopUnlocked_keepsBody

/-- Stopping the workloads of an owner keeps what the records are about. -/
theorem stopOwned_keeps {f : OwnerFilter} :
    Ensures (· = e₀) (stopOwned w f) (fun _ => e₀.Keeps) fun _ => e₀.Keeps := by
  have hself : ∀ e, e = e₀ → e₀.Keeps e := fun _ he => he ▸ (SameBook.refl e₀).keeps
  refine Ensures.bind (requireInitialized_same.imp (fun _ => id) (fun _ _ => id)
    fun _ _ he => he.keeps) fun _ => ?_
  refine Ensures.bind (Ensures.get (Q := fun _ => e₀.Keeps) hself) fun e' => ?_
  exact Ensures.mapM fun _ _ => onWorkload_keeps stopUnlocked_keepsBody

end WorkloadEngine

/-- The operations by which what happens to a workload becomes known: polls, commands and stops. -/
def WorkloadCall.IsOutcome : WorkloadCall → Prop
  | .exec _ _ _ | .status _ _ _ | .stop _ _ | .stopOwned _ _ => True
  | _ => False

instance : DecidablePred WorkloadCall.IsOutcome
  | .exec _ _ _ | .status _ _ _ | .stop _ _ | .stopOwned _ _ => inferInstanceAs (Decidable True)
  | .doInitialize _ _ _ _ | .shutdown _ | .registerRuntime _ | .start _ _ _ _ _ _ | .adopt _ _ _ _
  | .get _ | .list _ _ _ => inferInstanceAs (Decidable False)

namespace WorkloadEngine

/-- An outcome keeps what the records are about. -/
theorem outcome_keeps {e : WorkloadEngine} {call : WorkloadCall} (h : call.IsOutcome) :
    e.Keeps (stateAfter call.perform e) := by
  have hafter {m : EngineM Unit} (hm : Ensures (· = e) m (fun _ => e.Keeps) fun _ => e.Keeps) :
      e.Keeps (stateAfter m e) := hm.stateAfter (fun _ _ => id) rfl
  cases call with
  | exec w wid command => exact hafter exec_keeps.discard
  | status w wid refresh => exact hafter status_keeps.discard
  | stop w wid => exact hafter stop_keeps.discard
  | stopOwned w f => exact hafter stopOwned_keeps.discard
  | _ => exact h.elim

/-- An outcome leaves the records of workloads that had ended. -/
theorem outcome_follows {e : WorkloadEngine} {call : WorkloadCall} (h : call.IsOutcome)
    (he : e.Consistent) : e.Follows (stateAfter call.perform e) := by
  have hafter {m : EngineM Unit} (hm : Ensures e.Follows m (fun _ => e.Follows) (RaisedFollows e)) :
      e.Follows (stateAfter m e) := hm.stateAfter (fun _ _ hr => hr.2) he.follows
  cases call with
  | exec w wid command => exact hafter exec_follows.discard
  | status w wid refresh => exact hafter status_follows.discard
  | stop w wid => exact hafter stop_follows.discard
  | stopOwned w f => exact hafter stopOwned_follows.discard
  | _ => exact h.elim

end WorkloadEngine

end PalmEngine.Workloads
