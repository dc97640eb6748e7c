import PalmEngine.Events.Outbox

/-!
# Recovery of the outbox

Recovery processes batches of fifty ids until one publishes nothing. An entry that failed stays
at its place in the index, and so does an id whose entry is gone. Recovery attempts every pending
entry exactly when each batch that publishes nothing leaves no pending entry outside its fifty
ids.
-/

namespace PalmEngine.Events

open PalmEngine.Lib

/-- What one recovery did: the entries it attempted in order, the stores at which its batches
began, how many it published, and the store it left. -/
structure Recovery where
  attempted : List OutboxEntry
  begins : List OutboxStore
  total : ℕ
  store : OutboxStore

/-- Process batches until one publishes nothing. -/
def recoverPending (attempt : OutboxEntry → Option String) (s : OutboxStore) : Recovery :=
  if _ : (processBatch attempt 50 s).1 = 0 then
    ⟨s.listPending 50, [s], 0, (processBatch attempt 50 s).2⟩
  else
    let rest := recoverPending attempt (processBatch attempt 50 s).2
    { attempted := s.listPending 50 ++ rest.attempted
      begins := s :: rest.begins
      total := (processBatch attempt 50 s).1 + rest.total
      store := rest.store }
termination_by s.index.items.length
decreasing_by exact length_processBatch_lt attempt 50 s ‹_›

/-- Every pending entry is attempted, and those published are the ones of which an attempt
succeeded. -/
structure Recovered (attempt : OutboxEntry → Option String) (s : OutboxStore) : Prop where
  attempted : ∀ id e, s.entries.get? id = some e → e.status = .pending →
    ∃ a ∈ (recoverPending attempt s).attempted, a.id = id
  published_iff : ∀ id e, s.entries.get? id = some e → e.status = .pending →
    ((∃ e', (recoverPending attempt s).store.entries.get? id = some e' ∧ e'.status = .published) ↔
      ∃ a ∈ (recoverPending attempt s).attempted, a.id = id ∧ attempt a = none)

/-- Some pending entry among the first fifty ids of the index is published, or no pending entry
stands elsewhere. -/
def OutboxStore.Reaches (attempt : OutboxEntry → Option String) (s : OutboxStore) : Prop :=
  (∃ e ∈ s.listPending 50, attempt e = none) ∨
    ∀ id e, s.entries.get? id = some e → e.status = .pending → id ∈ s.index.items.take 50

section

variable {attempt : OutboxEntry → Option String} {s : OutboxStore}

/-- A batch publishes nothing when every attempt fails. -/
theorem processed_eq_zero_iff :
    (processBatch attempt 50 s).1 = 0 ↔ ¬ ∃ e ∈ s.listPending 50, attempt e = none := by
  simp [processBatch, List.countP_eq_zero]

/-- The entries of the first batch are attempted. -/
theorem listPending_subset_attempted :
    s.listPending 50 ⊆ (recoverPending attempt s).attempted := by
  rw [recoverPending]
  split
  · exact List.Subset.refl _
  · exact List.subset_append_left _ _

/-- Recovery ends with its first batch if that publishes nothing. -/
theorem attempted_of_processed_eq_zero (h : (processBatch attempt 50 s).1 = 0) :
    (recoverPending attempt s).attempted = s.listPending 50 := by
  rw [recoverPending, dif_pos h]

/-- What a batch leaves of an entry that does not wait in its ids. -/
theorem get?_processBatch_of_not_waits {id : String} {e : OutboxEntry}
    (hget : s.entries.get? id = some e) (hnot : ¬ s.Waits 50 id) :
    (processBatch attempt 50 s).2.entries.get? id = some e := by
  rw [get?_processBatch, hget]
  simp [hnot]

/-- What a batch leaves of an entry that waits in its ids. -/
theorem get?_processBatch_of_waits {id : String} {e : OutboxEntry}
    (hget : s.entries.get? id = some e) (hwaits : s.Waits 50 id) :
    (processBatch attempt 50 s).2.entries.get? id = some (e.settle attempt) := by
  rw [get?_processBatch, hget]
  simp [hwaits]

/-- An entry that is pending after a batch was pending before. -/
theorem pending_of_processBatch {id : String} {e : OutboxEntry}
    (hget : (processBatch attempt 50 s).2.entries.get? id = some e) (hpending : e.status = .pending) :
    ∃ e', s.entries.get? id = some e' ∧ e'.status = .pending := by
  rw [get?_processBatch] at hget
  obtain ⟨e', hget', heq⟩ := Option.map_eq_some_iff.mp hget
  refine ⟨e', hget', ?_⟩
  split at heq
  · exact (OutboxEntry.pending_of_settle (heq ▸ hpending)).1
  · exact heq ▸ hpending

/-- An entry that is not pending is left alone. -/
theorem recoverPending_of_not_pending {id : String} {e : OutboxEntry}
    (hget : s.entries.get? id = some e) (hstatus : e.status ≠ .pending) :
    (recoverPending attempt s).store.entries.get? id = some e ∧
      ∀ a ∈ (recoverPending attempt s).attempted, a.id ≠ id := by
  have hnot {t : OutboxStore} (hget : t.entries.get? id = some e) : ¬ t.Waits 50 id := by
    intro hwaits
    obtain ⟨-, e', hget', hpending⟩ := OutboxStore.waits_iff.mp hwaits
    exact hstatus (Option.some.inj (hget.symm.trans hget') ▸ hpending)
  fun_induction recoverPending attempt s with
  | case1 s hnone =>
    refine ⟨get?_processBatch_of_not_waits hget (hnot hget), fun a ha heq => ?_⟩
    exact hnot hget (heq ▸ List.mem_map_of_mem ha)
  | case2 s hsome rest ih =>
    obtain ⟨hstore, hrest⟩ := ih (get?_processBatch_of_not_waits hget (hnot hget))
    refine ⟨hstore, fun a ha heq => ?_⟩
    rcases List.mem_append.mp ha with ha | ha
    · exact hnot hget (heq ▸ List.mem_map_of_mem ha)
    · exact hrest a ha heq

/-- The attempts of a batch at a stored entry are one, if it waits in the batch's ids. -/
theorem exists_attempt_iff {id : String} {e : OutboxEntry} (hget : s.entries.get? id = some e) :
    (∃ a ∈ s.listPending 50, a.id = id ∧ attempt a = none) ↔ s.Waits 50 id ∧ attempt e = none := by
  constructor
  · rintro ⟨a, ha, rfl, hsuccess⟩
    obtain rfl : e = a :=
      Option.some.inj (hget.symm.trans (OutboxStore.mem_listPending.mp ha).2.1)
    exact ⟨List.mem_map_of_mem ha, hsuccess⟩
  · rintro ⟨hwaits, hsuccess⟩
    obtain ⟨a, ha, rfl⟩ := List.mem_map.mp hwaits
    obtain rfl : e = a :=
      Option.some.inj (hget.symm.trans (OutboxStore.mem_listPending.mp ha).2.1)
    exact ⟨e, ha, rfl, hsuccess⟩

/-- A pending entry is published by a batch exactly when an attempt of the batch succeeded. -/
theorem published_processBatch {id : String} {e : OutboxEntry}
    (hget : s.entries.get? id = some e) (hpending : e.status = .pending) :
    (∃ e', (processBatch attempt 50 s).2.entries.get? id = some e' ∧ e'.status = .published) ↔
      ∃ a ∈ s.listPending 50, a.id = id ∧ attempt a = none := by
  rw [exists_attempt_iff hget, get?_processBatch, hget]
  by_cases hwaits : s.Waits 50 id
  · cases hattempt : attempt e with
    | none => simp [hwaits, OutboxEntry.settle, hattempt]
    | some error =>
      have hfail : (e.fail error).status ≠ .published := by
        simp only [OutboxEntry.fail, hpending]
        split <;> simp
      simp [hwaits, OutboxEntry.settle, hattempt, hfail]
  · simp [hwaits, hpending]

/-- The published entries are the ones of which an attempt succeeded. -/
theorem published_recoverPending {id : String} {e : OutboxEntry}
    (hget : s.entries.get? id = some e) (hpending : e.status = .pending) :
    (∃ e', (recoverPending attempt s).store.entries.get? id = some e' ∧ e'.status = .published) ↔
      ∃ a ∈ (recoverPending attempt s).attempted, a.id = id ∧ attempt a = none := by
  fun_induction recoverPending attempt s generalizing e with
  | case1 s hnone => exact published_processBatch hget hpending
  | case2 s hsome rest =>
    rename_i ih
    have hbatch : _ ↔ ∃ a ∈ s.listPending 50, a.id = id ∧ attempt a = none :=
      published_processBatch hget hpending
    obtain ⟨e₁, hget₁⟩ : ∃ e₁, (processBatch attempt 50 s).2.entries.get? id = some e₁ := by
      rw [get?_processBatch, hget]
      exact ⟨_, rfl⟩
    simp only [List.mem_append, or_and_right, exists_or]
    rw [← hbatch]
    by_cases hpending₁ : e₁.status = .pending
    · have hnot : ¬ ∃ e', (processBatch attempt 50 s).2.entries.get? id = some e' ∧
          e'.status = .published := by
        simp [hget₁, hpending₁]
      rw [ih hget₁ hpending₁]
      exact ⟨.inr, fun h => h.resolve_left hnot⟩
    · obtain ⟨hstore, hrest⟩ := recoverPending_of_not_pending hget₁ hpending₁
      have hnone : ¬ ∃ a ∈ (recoverPending attempt (processBatch attempt 50 s).2).attempted,
          a.id = id ∧ attempt a = none := by
        rintro ⟨a, ha, hid, -⟩
        exact hrest a ha hid
      rw [hstore, hget₁]
      exact ⟨.inl, fun h => h.resolve_right hnone⟩

/-- All pending entries are attempted exactly when each batch that publishes nothing leaves none
elsewhere. -/
theorem attempted_recoverPending_iff :
    (∀ id e, s.entries.get? id = some e → e.status = .pending →
      ∃ a ∈ (recoverPending attempt s).attempted, a.id = id) ↔
    ∀ t ∈ (recoverPending attempt s).begins, t.Reaches attempt := by
  fun_induction recoverPending attempt s with
  | case1 s hnone =>
    simp only [List.mem_singleton, forall_eq]
    have hfails := processed_eq_zero_iff.mp hnone
    constructor
    · refine fun h => .inr fun id e hget hpending => ?_
      obtain ⟨a, ha, rfl⟩ := h id e hget hpending
      exact (OutboxStore.mem_listPending.mp ha).1
    · intro h id e hget hpending
      have hid := h.resolve_left hfails id e hget hpending
      exact List.mem_map.mp (OutboxStore.waits_iff.mpr ⟨hid, e, hget, hpending⟩)
  | case2 s hsome rest ih =>
    have hreaches : s.Reaches attempt := .inl (not_not.mp (processed_eq_zero_iff.not.mp hsome))
    refine Iff.trans ?_ (List.forall_mem_cons.trans ((and_iff_right hreaches).trans ih.symm)).symm
    constructor
    · intro h id e hget hpending
      obtain ⟨e₀, hget₀, hpending₀⟩ := pending_of_processBatch hget hpending
      obtain ⟨a, ha, rfl⟩ := h id e₀ hget₀ hpending₀
      rcases List.mem_append.mp ha with ha | ha
      · have hid := mem_take_processBatch attempt 50 s (OutboxStore.mem_listPending.mp ha).1 hget
          hpending
        obtain ⟨a', ha', heq⟩ :=
          List.mem_map.mp (OutboxStore.waits_iff.mpr ⟨hid, e, hget, hpending⟩)
        exact ⟨a', listPending_subset_attempted ha', heq⟩
      · exact ⟨a, ha, rfl⟩
    · intro h id e hget hpending
      by_cases hwaits : s.Waits 50 id
      · obtain ⟨a, ha, rfl⟩ := List.mem_map.mp hwaits
        exact ⟨a, List.mem_append_left _ ha, rfl⟩
      · obtain ⟨a, ha, rfl⟩ := h id e (get?_processBatch_of_not_waits hget hwaits) hpending
        exact ⟨a, List.mem_append_right _ ha, rfl⟩

end

/-- Recovery attempts every pending entry and publishes those of which an attempt succeeded,
exactly when each of its batches publishes an entry or finds all pending ones in its ids. -/
theorem recovered_iff (attempt : OutboxEntry → Option String) (s : OutboxStore) :
    Recovered attempt s ↔ ∀ t ∈ (recoverPending attempt s).begins, t.Reaches attempt :=
  ⟨fun h => attempted_recoverPending_iff.mp h.attempted, fun h =>
    ⟨attempted_recoverPending_iff.mpr h, fun _ _ => published_recoverPending⟩⟩

/-- Fifty events of one type and then one of another. -/
def crowdedOutbox : OutboxStore :=
  ((List.range 50).foldl
    (fun s n => OutboxStore.enqueue s (.bare "refused" (toString n))) OutboxStore.empty).enqueue
      (.bare "accepted" "last")

/-- Events of one type fail and the others succeed. -/
def refuse (e : OutboxEntry) : Option String :=
  if e.eventType = "refused" then some "no" else none

/-- Fifty entries that fail keep recovery from the one behind them. -/
theorem recovered_fails : ¬ ∀ (attempt : OutboxEntry → Option String) (s : OutboxStore),
    Recovered attempt s := by
  intro h
  obtain ⟨a, ha, hid⟩ := (h refuse crowdedOutbox).attempted "last"
    (.fromEvent (.bare "accepted" "last")) (OutboxStore.get?_enqueue_self _ _) rfl
  have hfirst : (processBatch refuse 50 crowdedOutbox).1 = 0 := by decide +kernel
  have hbatch : ∀ a ∈ crowdedOutbox.listPending 50, a.id ≠ "last" := by decide +kernel
  rw [attempted_of_processed_eq_zero hfirst] at ha
  exact hbatch a ha hid

end PalmEngine.Events
