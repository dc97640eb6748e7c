import PalmEngine.Lib.Runs
import PalmEngine.Work.Store

/-!
# Who may change a claimed intent, and when an intent is over

`ack` and `fail` refuse a claimer when the entry names another owner. They do not ask whether
the entry is claimed at all: a claimer whose lease was reclaimed still changes the pending
entry, and an intent that is over has no owner to protect it. The exact condition on each
`ack` and `fail` is the status its intent is found in.
-/

namespace PalmEngine.Work

open PalmEngine.Lib

variable {P : Type}

/-- What one call does to ownership: with a claimer it changes the stored intent only if that
claimer has it, and no call but an enqueue changes an intent that is done or failed. -/
structure Owned (s : WorkIntentStore P) (op : StoreOp P) (u : WorkIntentStore P) : Prop where
  owner : ∀ (id c : String), (op = .ack id (some c) ∨ ∃ error, op = .fail id error (some c)) →
    u.entries id ≠ s.entries id →
      ∃ e, s.entries id = some e ∧ e.status = .claimed ∧ e.claimedBy = some c
  absorbing : (∀ intent, op ≠ .enqueue intent) → ∀ (id : String) (e : WorkIntent P),
    s.entries id = some e → e.status = .done ∨ e.status = .failed → u.entries id = some e

/-- The call finds its intent in a status that `ack` and `fail` do not expect: a failed intent, for
a `fail` also one that is done, and for a claimer one that is pending. -/
def FindsUnclaimed (s : WorkIntentStore P) : StoreOp P → Prop
  | .ack id claimerId => ∃ e, s.entries id = some e ∧
      (e.status = .failed ∨ (e.status = .pending ∧ claimerId ≠ none))
  | .fail id _ claimerId => ∃ e, s.entries id = some e ∧
      (e.status = .done ∨ e.status = .failed ∨ (e.status = .pending ∧ claimerId ≠ none))
  | _ => False

/-- Every entry is stamped. -/
def AllStamped (s : WorkIntentStore P) : Prop :=
  ∀ (id : String) (e : WorkIntent P), s.entries id = some e → e.Stamped

/-- Nobody is refused at an entry without an owner. -/
theorem refuses_of_unclaimed {e : WorkIntent P} (h : e.claimedBy = none)
    (claimerId : Option String) : WorkIntentStore.refuses e claimerId = false := by
  cases claimerId <;> simp [WorkIntentStore.refuses, h]

/-- A claimer that is not refused at a claimed entry is its owner. -/
private theorem owner_of_not_refuses {e : WorkIntent P} {c : String} (hclaimed : e.claimedBy ≠ none)
    (h : WorkIntentStore.refuses e (some c) = false) : e.claimedBy = some c := by
  obtain ⟨owner, howner⟩ := Option.ne_none_iff_exists'.mp hclaimed
  simp only [WorkIntentStore.refuses, howner, decide_eq_false_iff_not, not_not] at h
  rw [howner, h]

/-- What `ack` and `fail` do to the entries: nothing, or a change to the one they name, which does
not refuse the claimer and is unclaimed afterwards. -/
structure Settles (s : WorkIntentStore P) (id : String) (claimerId : Option String)
    (change : WorkIntent P → WorkIntent P) (u : WorkIntentStore P) : Prop where
  other : ∀ i, i ≠ id → u.entries i = s.entries i
  missing : s.entries id = none → u.entries id = none
  refused : ∀ e, s.entries id = some e → WorkIntentStore.refuses e claimerId = true →
    u.entries id = some e
  changed : ∀ e, s.entries id = some e → WorkIntentStore.refuses e claimerId = false →
    u.entries id = some (change e)

/-- The change an `ack` makes. -/
def acked (e : WorkIntent P) : WorkIntent P :=
  { e with status := .done, claimedBy := none, leaseUntil := none }

/-- The change a `fail` makes. -/
def failed (error : String) (e : WorkIntent P) : WorkIntent P :=
  WorkIntentStore.failedOnce e error (if 5 ≤ e.attempt + 1 then .failed else .pending)

/-- A call that finds no entry, or is refused at it, leaves the entries. -/
private theorem Settles.of_refused {s u : WorkIntentStore P} {id : String} {claimerId : Option String}
    {change : WorkIntent P → WorkIntent P} (hu : u.entries = s.entries)
    (h : ∀ e, s.entries id = some e → WorkIntentStore.refuses e claimerId = true) :
    Settles s id claimerId change u := by
  refine ⟨fun _ _ => by rw [hu], fun hnone => by rw [hu, hnone], fun e he _ => by rw [hu, he],
    fun e he hnot => ?_⟩
  rw [h e he] at hnot
  cases hnot

/-- A call that is not refused changes its entry. -/
private theorem Settles.of_changed {s u : WorkIntentStore P} {id : String} {claimerId : Option String}
    {change : WorkIntent P → WorkIntent P} {e : WorkIntent P} (he : s.entries id = some e)
    (hnot : ¬ WorkIntentStore.refuses e claimerId = true)
    (hu : u.entries = (s.setEntry id (change e)).entries) : Settles s id claimerId change u := by
  refine ⟨fun i hi => by simp [hu, WorkIntentStore.setEntry, hi], fun hnone => ?_,
    fun f hf hyes => ?_, fun f hf _ => ?_⟩
  · exact (Option.some_ne_none e (he.symm.trans hnone)).elim
  · cases Option.some.inj (he.symm.trans hf)
    exact (hnot hyes).elim
  · cases Option.some.inj (he.symm.trans hf)
    simp [hu, WorkIntentStore.setEntry]

/-- What an `ack` does to the entries. -/
theorem ack_settles (s : WorkIntentStore P) (id : String) (claimerId : Option String) :
    Settles s id claimerId acked (s.ack id claimerId).2 := by
  unfold WorkIntentStore.ack
  split
  · exact .of_refused rfl (by simp [*])
  · split
    · exact .of_refused rfl (by simp [*])
    · refine .of_changed ‹_› ‹_› ?_
      dsimp only
      split
      · split <;> rfl
      · rfl

/-- What a `fail` does to the entries. -/
theorem fail_settles (s : WorkIntentStore P) (id error : String) (claimerId : Option String) :
    Settles s id claimerId (failed error) (s.fail id error claimerId).2 := by
  unfold WorkIntentStore.fail
  split
  · exact .of_refused rfl (by simp [*])
  · split
    · exact .of_refused rfl (by simp [*])
    · refine .of_changed ‹_› ‹_› ?_
      split <;> rename_i hattempt
      · simp [failed, hattempt, WorkIntentStore.removePending]
      · simp [failed, hattempt]

/-- An intent that an `ack` left is stamped. -/
private theorem acked_stamped (e : WorkIntent P) : (acked e).Stamped :=
  ⟨fun h => (nomatch h), fun _ => ⟨rfl, rfl⟩⟩

/-- An intent that a `fail` left is stamped. -/
private theorem failed_stamped (error : String) (e : WorkIntent P) : (failed error e).Stamped := by
  refine ⟨fun h => ?_, fun _ => ⟨rfl, rfl⟩⟩
  simp only [failed, WorkIntentStore.failedOnce] at h
  split at h <;> cases h

/-- A `fail` always changes its intent: the attempts go up. -/
private theorem failed_ne (error : String) (e : WorkIntent P) : failed error e ≠ e := by
  intro h
  have hattempt : e.attempt + 1 = e.attempt := congrArg WorkIntent.attempt h
  omega

/-- An `ack` leaves a stamped intent exactly when it is done. -/
private theorem acked_eq_iff {e : WorkIntent P} (h : e.Stamped) : acked e = e ↔ e.status = .done := by
  constructor
  · intro heq
    exact (congrArg WorkIntent.status heq).symm
  · intro hdone
    obtain ⟨howner, hlease⟩ := h.unclaimed (by simp [hdone])
    cases e
    simp only at hdone howner hlease
    simp [acked, hdone, howner, hlease]

/-- The ownership law of a call that settles an intent, in terms of the status it finds. -/
private theorem settles_iff {s u : WorkIntentStore P} {id : String} {claimerId : Option String}
    {change : WorkIntent P → WorkIntent P} (hs : AllStamped s) (h : Settles s id claimerId change u)
    (lost : IntentStatus → Prop) (hlost : ∀ st, lost st → st = .done ∨ st = .failed)
    (hchange : ∀ e, e.Stamped →
      (change e = e ↔ (e.status = .done ∨ e.status = .failed) ∧ ¬ lost e.status)) :
    ((∀ c, claimerId = some c → u.entries id ≠ s.entries id →
        ∃ e, s.entries id = some e ∧ e.status = .claimed ∧ e.claimedBy = some c) ∧
      ∀ (i : String) (e : WorkIntent P), s.entries i = some e →
        e.status = .done ∨ e.status = .failed → u.entries i = some e) ↔
      ¬ ∃ e, s.entries id = some e ∧
        (lost e.status ∨ (e.status = .pending ∧ claimerId ≠ none)) := by
  constructor
  · rintro ⟨howner, habsorbing⟩ ⟨e, he, hfound⟩
    have hnotclaimed : e.status ≠ .claimed := by
      rcases hfound with hfound | hfound
      · rcases hlost _ hfound with h | h <;> simp [h]
      · simp [hfound.1]
    have hchanged := h.changed e he
      (refuses_of_unclaimed ((hs id e he).unclaimed hnotclaimed).1 claimerId)
    rcases hfound with hfound | ⟨hpending, hclaimer⟩
    · have hkept := habsorbing id e he (hlost _ hfound)
      have heq : change e = e := Option.some.inj (hchanged.symm.trans hkept)
      exact ((hchange e (hs id e he)).mp heq).2 hfound
    · obtain ⟨c, hc⟩ := Option.ne_none_iff_exists'.mp hclaimer
      have hne : u.entries id ≠ s.entries id := by
        rw [hchanged, he]
        intro heq
        have := ((hchange e (hs id e he)).mp (Option.some.inj heq)).1
        simp [hpending] at this
      obtain ⟨f, hf, hclaimed, -⟩ := howner c hc hne
      cases Option.some.inj (he.symm.trans hf)
      exact hnotclaimed hclaimed
  · intro hfound
    refine ⟨fun c hc hne => ?_, fun i e he hdone => ?_⟩
    · cases he : s.entries id with
      | none => exact (hne (by rw [h.missing he, he])).elim
      | some e =>
        cases hrefuses : WorkIntentStore.refuses e claimerId with
        | true => exact (hne (by rw [h.refused e he hrefuses, he])).elim
        | false =>
          have hclaimed : e.status = .claimed := by
            by_contra hnot
            have hchanged := h.changed e he hrefuses
            have hdone : e.status = .done ∨ e.status = .failed := by
              cases hstatus : e.status with
              | pending => exact (hfound ⟨e, he, .inr ⟨hstatus, by simp [hc]⟩⟩).elim
              | claimed => exact (hnot hstatus).elim
              | done => exact .inl rfl
              | failed => exact .inr rfl
            have heq := (hchange e (hs id e he)).mpr ⟨hdone, fun ho => hfound ⟨e, he, .inl ho⟩⟩
            exact hne (by rw [hchanged, heq, he])
          subst hc
          exact ⟨e, rfl, hclaimed, owner_of_not_refuses ((hs id e he).claimed hclaimed) hrefuses⟩
    · by_cases hi : i = id
      · subst hi
        have hunclaimed : e.status ≠ .claimed := by rcases hdone with h | h <;> simp [h]
        rw [h.changed e he (refuses_of_unclaimed ((hs i e he).unclaimed hunclaimed).1 claimerId),
          (hchange e (hs i e he)).mpr ⟨hdone, fun ho => hfound ⟨e, he, .inl ho⟩⟩]
      · rw [h.other i hi, he]

/-- The ownership law reads the entry a call names, and the entries that are over. -/
private theorem owned_iff {s u : WorkIntentStore P} {op : StoreOp P} {id : String}
    {claimerId : Option String} (hop : op = .ack id claimerId ∨ ∃ error, op = .fail id error claimerId) :
    Owned s op u ↔
      (∀ c, claimerId = some c → u.entries id ≠ s.entries id →
        ∃ e, s.entries id = some e ∧ e.status = .claimed ∧ e.claimedBy = some c) ∧
      ∀ (i : String) (e : WorkIntent P), s.entries i = some e →
        e.status = .done ∨ e.status = .failed → u.entries i = some e := by
  constructor
  · rintro ⟨howner, habsorbing⟩
    refine ⟨fun c hc => howner id c ?_, habsorbing ?_⟩
    · rcases hop with rfl | ⟨error, rfl⟩
      · exact .inl (by rw [hc])
      · exact .inr ⟨error, by rw [hc]⟩
    · rcases hop with rfl | ⟨error, rfl⟩ <;> simp
  · rintro ⟨howner, habsorbing⟩
    refine ⟨fun i c hic => ?_, fun _ => habsorbing⟩
    rcases hop with rfl | ⟨error, rfl⟩ <;> rcases hic with heq | ⟨error', heq⟩ <;> cases heq <;>
      exact howner c rfl

/-- A call that is neither an `ack` nor a `fail`, and keeps the intents that are over, keeps the
ownership law. -/
private theorem owned_of_relabels {s u : WorkIntentStore P} {op : StoreOp P} {old new : IntentStatus}
    (hold : old = .pending ∨ old = .claimed) (h : WorkIntentStore.Relabels old new s u)
    (hop : ∀ id c, op ≠ .ack id c ∧ ∀ error, op ≠ .fail id error c) : Owned s op u := by
  refine ⟨fun id c hic => ?_, fun _ id e he hdone => ?_⟩
  · rcases hic with heq | ⟨error, heq⟩
    · exact ((hop id (some c)).1 heq).elim
    · exact ((hop id (some c)).2 error heq).elim
  · rcases h.entry id with heq | ⟨f, -, hf, hstatus, -⟩
    · rw [heq, he]
    · cases Option.some.inj (he.symm.trans hf)
      rcases hold with rfl | rfl <;> rcases hdone with hd | hd <;> rw [hd] at hstatus <;> cases hstatus

/-- Over stamped entries, a call keeps the ownership law exactly when it finds its intent in an
expected status. -/
theorem owned_step_iff {s u : WorkIntentStore P} {op : StoreOp P} (hs : AllStamped s)
    (h : s.step op = some u) : Owned s op u ↔ ¬ FindsUnclaimed s op := by
  cases op with
  | enqueue intent =>
    refine iff_of_true ⟨fun id c hic => ?_, fun hno => (hno intent rfl).elim⟩ not_false
    rcases hic with heq | ⟨error, heq⟩ <;> cases heq
  | claimDue c =>
    cases h
    exact iff_of_true (owned_of_relabels (.inl rfl) (WorkIntentStore.claimLoop_relabels _ _ _ _)
      (by simp)) not_false
  | reclaimExpired now defaults =>
    cases h
    exact iff_of_true (owned_of_relabels (.inr rfl) (WorkIntentStore.reclaimLoop_relabels _ _ _ _ _)
      (by simp)) not_false
  | ack id claimerId =>
    cases h
    rw [owned_iff (.inl rfl), settles_iff hs (ack_settles s id claimerId) (· = .failed) (by simp)]
    · rfl
    · intro e he
      rw [acked_eq_iff he]
      cases e.status <;> simp
  | fail id error claimerId =>
    cases h
    rw [owned_iff (.inr ⟨error, rfl⟩), settles_iff hs (fail_settles s id error claimerId)
      (fun st => st = .done ∨ st = .failed) (fun _ hst => hst)]
    · simp only [FindsUnclaimed, or_assoc]
    · exact fun e he => iff_of_false (failed_ne error e) (by tauto)

/-- Every call keeps the entries stamped. -/
theorem AllStamped.step {s u : WorkIntentStore P} {op : StoreOp P} (hs : AllStamped s)
    (h : s.step op = some u) : AllStamped u := by
  have hrelabels {old new : IntentStatus} (h : WorkIntentStore.Relabels old new s u) :
      AllStamped u := by
    intro id e he
    rcases h.entry id with heq | ⟨f, f', -, -, hf', -, hstamped, -⟩
    · exact hs id e (heq.symm.trans he)
    · exact Option.some.inj (hf'.symm.trans he) ▸ hstamped
  have hsettles {id : String} {claimerId : Option String} {change : WorkIntent P → WorkIntent P}
      (h : Settles s id claimerId change u) (hchange : ∀ e, (change e).Stamped) : AllStamped u := by
    intro i e he
    by_cases hi : i = id
    · subst hi
      cases hsi : s.entries i with
      | none => rw [h.missing hsi] at he; cases he
      | some f =>
        cases hrefuses : WorkIntentStore.refuses f claimerId with
        | true => exact hs i e (hsi.trans ((h.refused f hsi hrefuses).symm.trans he))
        | false => exact Option.some.inj ((h.changed f hsi hrefuses).symm.trans he) ▸ hchange f
    · exact hs i e ((h.other i hi).symm.trans he)
  cases op with
  | enqueue intent =>
    cases h
    intro id e he
    rw [WorkIntentStore.enqueue_entries] at he
    by_cases hid : id = intent.id
    · subst hid
      rw [Function.update_self] at he
      cases he
      exact ⟨fun hclaimed => (nomatch hclaimed), fun _ => ⟨rfl, rfl⟩⟩
    · rw [Function.update_of_ne hid] at he
      exact hs id e he
  | claimDue c =>
    cases h
    exact hrelabels (WorkIntentStore.claimLoop_relabels _ _ _ _)
  | reclaimExpired now defaults =>
    cases h
    exact hrelabels (WorkIntentStore.reclaimLoop_relabels _ _ _ _ _)
  | ack id claimerId =>
    cases h
    exact hsettles (ack_settles s id claimerId) acked_stamped
  | fail id error claimerId =>
    cases h
    exact hsettles (fail_settles s id error claimerId) (failed_stamped error)

/-- In every run of the store, with any claimers and any clock values, ownership is kept exactly
when every `ack` and `fail` finds its intent in an expected status. -/
theorem owned_run_iff (ops : List (StoreOp P)) :
    AllSteps WorkIntentStore.step Owned (.empty : WorkIntentStore P) ops ↔
      AllSteps WorkIntentStore.step (fun s op _ => ¬ FindsUnclaimed s op) .empty ops :=
  allSteps_congr AllStamped (fun _ _ _ hs h _ => hs.step h)
    (fun _ _ _ hs h => owned_step_iff hs h) fun _ _ he => nomatch he

/-- A claim of one intent by a claimer, with a lease of ten seconds. -/
def claimOne (claimerId : String) (now : Instant) : WorkIntentStore.Claim :=
  { limit := 1, claimerId := claimerId, now := now, lease := 10000000,
    defaults := fun _ => ⟨"fresh", "now"⟩ }

/-- A claimer's lease runs out, its intent is reclaimed, and it acknowledges the intent after all. -/
def lateAckTrace : List (StoreOp Unit) :=
  [.enqueue { kind := "run_flow", target := "a", id := "x", payload := () },
    .claimDue (claimOne "a" 0), .reclaimExpired 20000000 fun _ => ⟨"fresh", "now"⟩,
    .ack "x" (some "a")]

/-- A claimer that lost its lease ends an intent that is pending again. -/
theorem owned_run_fails :
    ¬ ∀ ops : List (StoreOp Unit), AllSteps WorkIntentStore.step Owned .empty ops := by
  intro h
  obtain ⟨-, h⟩ := h lateAckTrace _ rfl
  obtain ⟨-, h⟩ := h _ rfl
  obtain ⟨-, h⟩ := h _ rfl
  obtain ⟨hlast, -⟩ := h _ rfl
  obtain ⟨e, he, hclaimed, -⟩ := hlast.owner "x" "a" (.inl rfl) (by decide)
  have hstatus := congrArg (Option.map WorkIntent.status) he
  rw [Option.map_some, hclaimed] at hstatus
  exact absurd hstatus (by decide)

end PalmEngine.Work
