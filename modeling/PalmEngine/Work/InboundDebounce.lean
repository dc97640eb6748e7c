import Mathlib

/-!
# Debounced inbound signals

The signals and the flushes of one inbound binding, in the order of their calls. A signal is held
back until it has been quiet for a while, and a later signal takes its place. Signals are numbered
in the order in which they come in. Every call reads the clock itself, a signal twice, and may find
that the callback that enqueues work raises. A flush that another binding keeps from getting to this
one is none of its flushes.
-/

namespace PalmEngine.Work

/-- How signals come in. -/
inductive InboundMode where
  | webhook
  | internal
  | stream
  | poll
  deriving DecidableEq, Repr

/-- What a binding says about when to enqueue. -/
structure InboundSpec where
  mode : InboundMode
  debounceSeconds : ℚ

/-- Whether signals are held back. -/
def InboundSpec.debounces (spec : InboundSpec) : Bool :=
  0 < spec.debounceSeconds && spec.mode ≠ .poll

variable {E : Type}

/-- The service as far as the binding goes: the signal held back with its number, until when, and
the work enqueued. -/
structure Inbound (E : Type) where
  received : ℕ := 0
  pending : Option (ℕ × E) := none
  debounceUntil : Option ℚ := none
  enqueued : List (ℕ × E) := []

/-- A call, with what the clock reads and whether the callback raises in it. -/
inductive InboundCall (E : Type) where
  | signal (envelope : E) (now flushNow : ℚ) (raises : Bool)
  | flush (now : ℚ) (raises : Bool)

namespace InboundCall

/-- What the clock reads first. -/
def now : InboundCall E → ℚ
  | signal _ now _ _ => now
  | flush now _ => now

/-- The callback raises. -/
def raises : InboundCall E → Bool
  | signal _ _ _ raises => raises
  | flush _ raises => raises

/-- The call is a signal. -/
def isSignal : InboundCall E → Bool
  | signal _ _ _ _ => true
  | flush _ _ => false

end InboundCall

namespace Inbound

/-- Enqueue the work of a signal. -/
def enqueueIntent (s : Inbound E) (signal : ℕ × E) (raises : Bool) : Inbound E :=
  if raises then s else { s with enqueued := s.enqueued ++ [signal] }

/-- Whether the time of the signal held back has come. -/
def due (s : Inbound E) (now : ℚ) : Bool := s.debounceUntil.any fun u => u ≤ now

/-- Enqueue the signal held back if its time has come. -/
def flushDebounced (s : Inbound E) (now : ℚ) (raises : Bool) : Inbound E :=
  if s.due now then
    let taken := { s with pending := none, debounceUntil := none }
    s.pending.elim taken fun signal => taken.enqueueIntent signal raises
  else s

/-- A signal comes in. -/
def signal (spec : InboundSpec) (s : Inbound E) (envelope : E) (now flushNow : ℚ)
    (raises : Bool) : Inbound E :=
  let numbered := { s with received := s.received + 1 }
  if spec.debounces then
    flushDebounced
      { numbered with
        pending := some (s.received, envelope)
        debounceUntil := some (now + spec.debounceSeconds) } flushNow raises
  else numbered.enqueueIntent (s.received, envelope) raises

/-- The state after a call. -/
def call (spec : InboundSpec) (s : Inbound E) : InboundCall E → Inbound E
  | .signal envelope now flushNow raises => s.signal spec envelope now flushNow raises
  | .flush now raises => s.flushDebounced now raises

/-- The state after a sequence of calls. -/
def run (spec : InboundSpec) (s : Inbound E) (calls : List (InboundCall E)) : Inbound E :=
  calls.foldl (call spec) s

/-- Whether a signal is held back. -/
def holds (s : Inbound E) (n : ℕ) : Bool := s.pending.any fun signal => signal.1 = n

/-- How often the work of a signal has been enqueued. -/
def times (s : Inbound E) (n : ℕ) : ℕ := s.enqueued.countP fun signal => signal.1 = n

end Inbound

/-- In a sequence of calls, a signal that is followed by flushes only until a quiet period is over,
and the call after that. -/
structure SettledSignal (spec : InboundSpec) (calls front : List (InboundCall E)) (envelope : E)
    (now flushNow : ℚ) (raises : Bool) (mid : List (InboundCall E)) (next : InboundCall E)
    (back : List (InboundCall E)) : Prop where
  calls_eq : calls = front ++ .signal envelope now flushNow raises :: (mid ++ next :: back)
  quiet : ∀ c ∈ mid, c.isSignal = false ∧ c.now < now + spec.debounceSeconds
  settled : now + spec.debounceSeconds ≤ next.now

/-- Every signal that settles is enqueued once, by the end of the call after its quiet period, and
it is not enqueued again. -/
def EnqueuesSettled (spec : InboundSpec) (calls : List (InboundCall E)) : Prop :=
  ∀ (front : List (InboundCall E)) (envelope : E) (now flushNow : ℚ) (raises : Bool)
    (mid : List (InboundCall E)) (next : InboundCall E) (back : List (InboundCall E)),
    SettledSignal spec calls front envelope now flushNow raises mid next back →
      (Inbound.run spec {} (front ++ .signal envelope now flushNow raises :: (mid ++ [next]))).times
        (front.countP InboundCall.isSignal) = 1 ∧
      (Inbound.run spec {} calls).times (front.countP InboundCall.isSignal) = 1

/-- Every signal that settles is enqueued in its own call, since it is not held back or the clock
has moved on, or the call after its quiet period is a flush; and the callback does not raise
there. -/
def FlushesSettled (spec : InboundSpec) (calls : List (InboundCall E)) : Prop :=
  ∀ (front : List (InboundCall E)) (envelope : E) (now flushNow : ℚ) (raises : Bool)
    (mid : List (InboundCall E)) (next : InboundCall E) (back : List (InboundCall E)),
    SettledSignal spec calls front envelope now flushNow raises mid next back →
      if spec.debounces = true ∧ flushNow < now + spec.debounceSeconds then
        next.isSignal = false ∧ next.raises = false
      else raises = false

namespace Inbound

variable {spec : InboundSpec} {s : Inbound E} {n : ℕ}

/-- Enqueueing the work of a signal counts it, unless the callback raises. -/
theorem times_enqueueIntent (signal : ℕ × E) (raises : Bool) :
    (s.enqueueIntent signal raises).times n =
      s.times n + if raises = false ∧ signal.1 = n then 1 else 0 := by
  unfold enqueueIntent times
  cases raises <;> simp [List.countP_append, List.countP_cons]

/-- Enqueueing receives nothing and holds nothing back. -/
theorem enqueueIntent_frame (signal : ℕ × E) (raises : Bool) :
    (s.enqueueIntent signal raises).received = s.received ∧
      (s.enqueueIntent signal raises).pending = s.pending := by
  unfold enqueueIntent
  split <;> exact ⟨rfl, rfl⟩

/-- Before its time has come nothing is flushed. -/
theorem flushDebounced_of_not_due {now : ℚ} (raises : Bool) (h : s.due now = false) :
    s.flushDebounced now raises = s := by
  rw [flushDebounced, if_neg (by simp [h])]

/-- When its time has come, the signal held back is taken and its work is enqueued, unless the
callback raises. -/
theorem flushDebounced_of_due {now : ℚ} (raises : Bool) (h : s.due now = true) :
    (s.flushDebounced now raises).received = s.received ∧
      (s.flushDebounced now raises).pending = none ∧
      ∀ n, (s.flushDebounced now raises).times n =
        s.times n + if raises = false ∧ s.holds n = true then 1 else 0 := by
  rw [flushDebounced, if_pos h]
  cases hpending : s.pending with
  | none => exact ⟨rfl, rfl, fun n => by simp [times, holds, hpending]⟩
  | some signal =>
    obtain ⟨hreceived, hnone⟩ := enqueueIntent_frame
      (s := { s with pending := none, debounceUntil := none }) signal raises
    refine ⟨hreceived, hnone, fun n => ?_⟩
    have htimes := times_enqueueIntent (n := n)
      (s := { s with pending := none, debounceUntil := none }) signal raises
    simpa [holds, hpending, times] using htimes

/-- Every number in use is that of a signal received. -/
structure Numbered (s : Inbound E) : Prop where
  pending : ∀ n, s.received ≤ n → s.holds n = false
  enqueued : ∀ n, s.received ≤ n → s.times n = 0

/-- A call receives a signal or none. -/
theorem received_call (s : Inbound E) (c : InboundCall E) :
    (s.call spec c).received = s.received + if c.isSignal then 1 else 0 := by
  have hflush (s : Inbound E) (now : ℚ) (raises : Bool) :
      (s.flushDebounced now raises).received = s.received := by
    cases hdue : s.due now with
    | false => rw [flushDebounced_of_not_due raises hdue]
    | true => exact (flushDebounced_of_due raises hdue).1
  cases c with
  | flush now raises => exact hflush s now raises
  | signal envelope now flushNow raises =>
    simp only [call, signal]
    split
    · exact hflush _ _ _
    · exact (enqueueIntent_frame _ _).1

/-- A flush holds back and enqueues only what was held back. -/
theorem Numbered.flushDebounced (h : s.Numbered) (now : ℚ) (raises : Bool) :
    (s.flushDebounced now raises).Numbered := by
  cases hdue : s.due now with
  | false => rwa [flushDebounced_of_not_due raises hdue]
  | true =>
    obtain ⟨hreceived, hpending, htimes⟩ := flushDebounced_of_due raises hdue
    refine ⟨fun n _ => by simp [holds, hpending], fun n hn => ?_⟩
    rw [hreceived] at hn
    simp [htimes, h.enqueued n hn, h.pending n hn]

/-- Calls keep the numbers. -/
theorem Numbered.call (h : s.Numbered) (c : InboundCall E) : (s.call spec c).Numbered := by
  cases c with
  | flush now raises => exact h.flushDebounced now raises
  | signal envelope now flushNow raises =>
    simp only [Inbound.call, signal]
    split
    · refine Numbered.flushDebounced ⟨fun n hn => ?_, fun n hn => ?_⟩ _ _
      · have hne : s.received ≠ n := fun heq => absurd hn (by simp [heq])
        simp [holds, hne]
      · exact h.enqueued n (Nat.le_of_succ_le hn)
    · obtain ⟨hreceived, hpending⟩ := enqueueIntent_frame
        (s := { s with received := s.received + 1 }) (s.received, envelope) raises
      refine ⟨fun n hn => ?_, fun n hn => ?_⟩
      · rw [hreceived] at hn
        rw [holds, hpending]
        exact h.pending n (Nat.le_of_succ_le hn)
      · rw [hreceived] at hn
        have hne : s.received ≠ n := fun heq => absurd hn (by simp [heq])
        rw [times_enqueueIntent]
        simp only [hne, and_false, if_false]
        exact h.enqueued n (Nat.le_of_succ_le hn)

/-- A signal that was received and is not held back. -/
def Gone (s : Inbound E) (n : ℕ) : Prop := n < s.received ∧ s.holds n = false

/-- A flush does not enqueue a signal that is gone. -/
theorem Gone.flushDebounced (h : s.Gone n) (now : ℚ) (raises : Bool) :
    (s.flushDebounced now raises).Gone n ∧ (s.flushDebounced now raises).times n = s.times n := by
  cases hdue : s.due now with
  | false => rw [flushDebounced_of_not_due raises hdue]; exact ⟨h, rfl⟩
  | true =>
    obtain ⟨hreceived, hpending, htimes⟩ := flushDebounced_of_due raises hdue
    refine ⟨⟨hreceived ▸ h.1, by simp [holds, hpending]⟩, ?_⟩
    simp [htimes, h.2]

/-- A signal that is held back takes the place of the one before it, which is gone. -/
theorem gone_signal (hdebounces : spec.debounces = true) (hn : n < s.received) (envelope : E)
    (now flushNow : ℚ) (raises : Bool) :
    (s.signal spec envelope now flushNow raises).Gone n ∧
      (s.signal spec envelope now flushNow raises).times n = s.times n := by
  have hne : s.received ≠ n := hn.ne'
  simp only [signal, hdebounces, if_true]
  exact Gone.flushDebounced ⟨Nat.lt_succ_of_lt hn, by simp [holds, hne]⟩ flushNow raises

/-- A signal that is gone is not enqueued again. -/
theorem Gone.call (h : s.Gone n) (c : InboundCall E) :
    (s.call spec c).Gone n ∧ (s.call spec c).times n = s.times n := by
  cases c with
  | flush now raises => exact h.flushDebounced now raises
  | signal envelope now flushNow raises =>
    cases hdebounces : spec.debounces with
    | true => exact gone_signal hdebounces h.1 envelope now flushNow raises
    | false =>
      have hne : s.received ≠ n := h.1.ne'
      simp only [Inbound.call, signal, hdebounces, Bool.false_eq_true, if_false]
      obtain ⟨hreceived, hpending⟩ := enqueueIntent_frame
        (s := { s with received := s.received + 1 }) (s.received, envelope) raises
      refine ⟨⟨?_, ?_⟩, ?_⟩
      · rw [hreceived]
        exact Nat.lt_succ_of_lt h.1
      · rw [holds, hpending]
        exact h.2
      · rw [times_enqueueIntent]
        simp [hne, times]

/-- A signal that is gone is never enqueued again. -/
theorem Gone.run (h : s.Gone n) (calls : List (InboundCall E)) :
    (s.run spec calls).Gone n ∧ (s.run spec calls).times n = s.times n := by
  induction calls generalizing s with
  | nil => exact ⟨h, rfl⟩
  | cons c rest ih =>
    obtain ⟨hgone, htimes⟩ : (s.call spec c).Gone n ∧ (s.call spec c).times n = s.times n :=
      h.call c
    exact ⟨(ih hgone).1, (ih hgone).2.trans htimes⟩

/-- The numbers after any calls, the signals among them counted. -/
theorem numbered_run (calls : List (InboundCall E)) (h : s.Numbered) :
    (s.run spec calls).Numbered ∧
      (s.run spec calls).received = s.received + calls.countP InboundCall.isSignal := by
  induction calls generalizing s with
  | nil => exact ⟨h, rfl⟩
  | cons c rest ih =>
    have hcall : (s.call spec c).Numbered := h.call c
    obtain ⟨hnumbered, hreceived⟩ := ih hcall
    refine ⟨hnumbered, hreceived.trans ?_⟩
    rw [received_call, List.countP_cons]
    omega

/-- The state after two sequences of calls. -/
theorem run_append (calls calls' : List (InboundCall E)) :
    s.run spec (calls ++ calls') = (s.run spec calls).run spec calls' := List.foldl_append

/-- Flushes before the time has come leave the signal held back. -/
theorem run_of_quiet {u : ℚ} (hpending : s.debounceUntil = some u)
    {mid : List (InboundCall E)} (hquiet : ∀ c ∈ mid, c.isSignal = false ∧ c.now < u) :
    s.run spec mid = s := by
  induction mid with
  | nil => rfl
  | cons c rest ih =>
    obtain ⟨hsignal, hnow⟩ := hquiet c List.mem_cons_self
    have hcall : s.call spec c = s := by
      cases c with
      | signal envelope now flushNow raises => cases hsignal
      | flush now raises =>
        refine flushDebounced_of_not_due raises ?_
        simpa [due, hpending, InboundCall.now] using hnow
    rw [run, List.foldl_cons, hcall]
    exact ih fun c hc => hquiet c (List.mem_cons_of_mem _ hc)

/-- How often a signal that settles is enqueued by the end of the call after its quiet period; it is
gone then. -/
theorem run_settles (h : s.Numbered) {envelope : E} {now flushNow : ℚ} {raises : Bool}
    {mid : List (InboundCall E)} {next : InboundCall E}
    (hquiet : ∀ c ∈ mid, c.isSignal = false ∧ c.now < now + spec.debounceSeconds)
    (hsettled : now + spec.debounceSeconds ≤ next.now) :
    (s.run spec (.signal envelope now flushNow raises :: (mid ++ [next]))).Gone s.received ∧
      (s.run spec (.signal envelope now flushNow raises :: (mid ++ [next]))).times s.received =
        if spec.debounces = true ∧ flushNow < now + spec.debounceSeconds then
          if next.isSignal = false ∧ next.raises = false then 1 else 0
        else if raises = false then 1 else 0 := by
  have hfresh := h.enqueued s.received le_rfl
  have hrun : s.run spec (.signal envelope now flushNow raises :: (mid ++ [next])) =
      (s.signal spec envelope now flushNow raises).run spec (mid ++ [next]) := rfl
  rw [hrun]
  cases hdebounces : spec.debounces with
  | false =>
    have hsignal : s.signal spec envelope now flushNow raises =
        enqueueIntent { s with received := s.received + 1 } (s.received, envelope) raises := by
      simp [signal, hdebounces]
    obtain ⟨hreceived, hpending⟩ := enqueueIntent_frame
      (s := { s with received := s.received + 1 }) (s.received, envelope) raises
    have hgone : (s.signal spec envelope now flushNow raises).Gone s.received := by
      rw [hsignal]
      refine ⟨hreceived ▸ Nat.lt_succ_self _, ?_⟩
      rw [holds, hpending]
      exact h.pending s.received le_rfl
    refine ⟨(hgone.run _).1, (hgone.run _).2.trans ?_⟩
    rw [hsignal, times_enqueueIntent]
    simpa [times] using hfresh
  | true =>
    have hsignal : s.signal spec envelope now flushNow raises =
        flushDebounced ⟨s.received + 1, some (s.received, envelope),
          some (now + spec.debounceSeconds), s.enqueued⟩ flushNow raises := by
      simp [signal, hdebounces]
    by_cases hearly : flushNow < now + spec.debounceSeconds
    · have hdue : due (⟨s.received + 1, some (s.received, envelope),
          some (now + spec.debounceSeconds), s.enqueued⟩ : Inbound E) flushNow = false := by
        simpa [due] using hearly
      rw [flushDebounced_of_not_due raises hdue] at hsignal
      have hmid : (s.signal spec envelope now flushNow raises).run spec (mid ++ [next]) =
          (s.signal spec envelope now flushNow raises).call spec next := by
        rw [run_append, run_of_quiet (congrArg debounceUntil hsignal) hquiet]
        rfl
      rw [hmid, hsignal, if_pos ⟨rfl, hearly⟩]
      cases next with
      | flush now' raises' =>
        have hdue' : due (⟨s.received + 1, some (s.received, envelope),
            some (now + spec.debounceSeconds), s.enqueued⟩ : Inbound E) now' = true := by
          simpa [due, InboundCall.now] using hsettled
        obtain ⟨hreceived, hpending, htimes⟩ := flushDebounced_of_due raises' hdue'
        refine ⟨⟨hreceived ▸ Nat.lt_succ_self _, ?_⟩, ?_⟩
        · simp only [call, holds, hpending]
          rfl
        · simp only [call, htimes]
          simpa [times, holds, InboundCall.isSignal, InboundCall.raises] using hfresh
      | signal envelope' now' flushNow' raises' =>
        have hgone := gone_signal (n := s.received) hdebounces (s := ⟨s.received + 1,
          some (s.received, envelope), some (now + spec.debounceSeconds), s.enqueued⟩)
          (Nat.lt_succ_self _) envelope' now' flushNow' raises'
        refine ⟨hgone.1, hgone.2.trans ?_⟩
        simpa [times, InboundCall.isSignal] using hfresh
    · have hdue : due (⟨s.received + 1, some (s.received, envelope),
          some (now + spec.debounceSeconds), s.enqueued⟩ : Inbound E) flushNow = true := by
        simpa [due] using hearly
      obtain ⟨hreceived, hpending, htimes⟩ := flushDebounced_of_due raises hdue
      have hgone : (s.signal spec envelope now flushNow raises).Gone s.received := by
        rw [hsignal]
        refine ⟨hreceived ▸ Nat.lt_succ_self _, ?_⟩
        rw [holds, hpending]
        rfl
      refine ⟨(hgone.run _).1, (hgone.run _).2.trans ?_⟩
      rw [hsignal, htimes, if_neg (fun hboth => hearly hboth.2 :
        ¬ (true = true ∧ flushNow < now + spec.debounceSeconds))]
      have htimes' : times (⟨s.received + 1, some (s.received, envelope),
          some (now + spec.debounceSeconds), s.enqueued⟩ : Inbound E) s.received = 0 := hfresh
      rw [htimes']
      simp [holds]

end Inbound

/-- For every sequence of calls: each signal that settles is enqueued once if and only if each is
flushed before the next signal comes in, and the callback does not raise there. -/
theorem enqueuesSettled_iff (spec : InboundSpec) (calls : List (InboundCall E)) :
    EnqueuesSettled spec calls ↔ FlushesSettled spec calls := by
  have hsettles (front : List (InboundCall E)) (envelope : E) (now flushNow : ℚ) (raises : Bool)
      (mid : List (InboundCall E)) (next : InboundCall E) (back : List (InboundCall E))
      (h : SettledSignal spec calls front envelope now flushNow raises mid next back) :
      ((Inbound.run spec {}
            (front ++ .signal envelope now flushNow raises :: (mid ++ [next]))).times
          (front.countP InboundCall.isSignal) = 1 ∧
        (Inbound.run spec {} calls).times (front.countP InboundCall.isSignal) = 1) ↔
      if spec.debounces = true ∧ flushNow < now + spec.debounceSeconds then
        next.isSignal = false ∧ next.raises = false
      else raises = false := by
    obtain ⟨hnumbered, hreceived⟩ := @Inbound.numbered_run E spec {} front
      ⟨fun _ _ => rfl, fun _ _ => rfl⟩
    have hreceived' : (Inbound.run spec {} front).received = front.countP InboundCall.isSignal :=
      hreceived.trans (Nat.zero_add _)
    obtain ⟨hgone, htimes⟩ := @Inbound.run_settles E spec _ hnumbered envelope now flushNow raises
      mid next h.quiet h.settled
    rw [hreceived'] at hgone htimes
    have hcalls : calls = front ++ .signal envelope now flushNow raises :: (mid ++ [next]) ++
        back := by
      rw [h.calls_eq]
      simp
    have hfirst := @Inbound.run_append E spec {} front
      (.signal envelope now flushNow raises :: (mid ++ [next]))
    have hlast : (Inbound.run spec {} calls).times (front.countP InboundCall.isSignal) =
        (Inbound.run spec {}
          (front ++ .signal envelope now flushNow raises :: (mid ++ [next]))).times
            (front.countP InboundCall.isSignal) := by
      rw [hcalls, Inbound.run_append, hfirst]
      exact (hgone.run back).2
    rw [hlast, and_self, hfirst, htimes]
    by_cases hearly : spec.debounces = true ∧ flushNow < now + spec.debounceSeconds
    · rw [if_pos hearly, if_pos hearly]
      split <;> simp_all
    · rw [if_neg hearly, if_neg hearly]
      split <;> simp_all
  constructor
  · intro h front envelope now flushNow raises mid next back hsettle
    exact (hsettles _ _ _ _ _ _ _ _ hsettle).mp (h _ _ _ _ _ _ _ _ hsettle)
  · intro h front envelope now flushNow raises mid next back hsettle
    exact (hsettles _ _ _ _ _ _ _ _ hsettle).mpr (h _ _ _ _ _ _ _ _ hsettle)

/-- A signal that has been quiet for five times as long as asked for is lost to the next one. -/
theorem enqueuesSettled_fails : ¬ ∀ (spec : InboundSpec) (calls : List (InboundCall String)),
    EnqueuesSettled spec calls := by
  intro h
  have hsettled : SettledSignal ⟨.webhook, 1⟩ [.signal "a" 0 0 false, .signal "b" 5 5 false, .flush 10 false]
      [] "a" 0 0 false [] (.signal "b" 5 5 false) [.flush 10 false] :=
    ⟨rfl, fun _ hc => absurd hc List.not_mem_nil, by norm_num [InboundCall.now]⟩
  exact absurd (h _ _ _ _ _ _ _ _ _ _ hsettled).2 (by decide +kernel)

end PalmEngine.Work
