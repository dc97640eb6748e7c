import PalmEngine.Design.Proposal
import PalmEngine.Lib.Lockstep

/-!
# The two proposal repositories side by side

The repository with a storage answers like the one in memory as long as no call names the index, no
proposal with empty texts is there when it is created again, and a list asks for nothing that is not
in the index in its order, which has the open proposals only.
-/

namespace PalmEngine.Design

open PalmEngine.Lib

variable {β : Type}

/-- A document is the proposal in memory, what is cached too, what is not cached has no empty texts,
and the index has the open ones. -/
structure Agrees (m : DesignProposalRepository β) (s : StorageDesignProposalRepository β) : Prop where
  stored : ∀ i, i ≠ indexName → s.storage.get? i = (m.proposals.get? i).map .proposal
  cached : ∀ i p, s.cache.get? i = some p → m.proposals.get? i = some p
  plain : ∀ i p, m.proposals.get? i = some p → s.cache.get? i = none → p.Plain
  opened : ∀ i, i ∈ s.indexRead ↔ ∃ p, m.proposals.get? i = some p ∧ p.status = openStatus
  named : ∀ i p, m.proposals.get? i = some p → p.proposalId = i ∧ i ≠ indexName

/-- The proposals that a list asks for of one time are in the index, in their order in memory. -/
def ListsIndexed (m : DesignProposalRepository β) (s : StorageDesignProposalRepository β)
    (flowId status : Option String) : Prop :=
  ∀ p ∈ m.proposals.values, p.selected flowId status = true →
    (m.proposals.values.filter fun q => q.selected flowId status && q.updatedAt = p.updatedAt).map
        DesignProposal.proposalId =
      s.indexRead.filter fun i => (m.proposals.get? i).any fun q =>
        q.selected flowId status && q.updatedAt = p.updatedAt

/-- The condition on a call: it does not name the index, a list asks for what is in the index, and
all proposals are without empty texts when the repository is created again. -/
def AnsweredAlike (m : DesignProposalRepository β) (s : StorageDesignProposalRepository β) :
    ProposalCall β → Prop
  | .create _ _ => True
  | .save p _ => p.proposalId ≠ indexName
  | .get i _ | .delete i => i ≠ indexName
  | .listProposals flowId status _ => ListsIndexed m s flowId status
  | .recreate => ∀ p ∈ m.proposals.values, p.Plain

instance (m : DesignProposalRepository β) (s : StorageDesignProposalRepository β) :
    ∀ call, Decidable (AnsweredAlike m s call)
  | .create _ _ => .isTrue trivial
  | .save p _ => inferInstanceAs (Decidable (p.proposalId ≠ indexName))
  | .get i _ | .delete i => inferInstanceAs (Decidable (i ≠ indexName))
  | .listProposals flowId status _ => inferInstanceAs (Decidable (∀ p ∈ m.proposals.values,
      p.selected flowId status = true → _ = _))
  | .recreate => inferInstanceAs (Decidable (∀ p ∈ m.proposals.values, p.Plain))

/-- The id of a new proposal does not name the index. -/
theorem ProposalRequest.proposalId_ne (request : ProposalRequest β) :
    request.proposal.proposalId ≠ indexName := by
  intro h
  have hchars := congrArg String.toList h
  rw [ProposalRequest.proposal, String.toList_append] at hchars
  have hhead := congrArg List.head? hchars
  simp [indexName] at hhead

namespace StorageDesignProposalRepository

variable {s : StorageDesignProposalRepository β} {i : String}

@[simp] theorem indexRead_indexWrite (s : StorageDesignProposalRepository β) (ids : List String) :
    (s.indexWrite ids).indexRead = ids := by
  simp [indexRead, indexWrite]

@[simp] theorem cache_indexWrite (s : StorageDesignProposalRepository β) (ids : List String) :
    (s.indexWrite ids).cache = s.cache := rfl

/-- Storing the index leaves the proposals. -/
theorem get?_indexWrite (s : StorageDesignProposalRepository β) (ids : List String)
    (hi : i ≠ indexName) : (s.indexWrite ids).storage.get? i = s.storage.get? i :=
  s.storage.get?_set_ne _ hi

/-- Storing a proposal leaves the index. -/
theorem indexRead_persist (s : StorageDesignProposalRepository β) {p : DesignProposal β}
    (hname : p.proposalId ≠ indexName) : (s.persist p).indexRead = s.indexRead := by
  simp [indexRead, persist, Dict.get?_set_ne _ _ (Ne.symm hname)]

/-- Keeping a proposal writes no other document, caches the proposal and puts it into the index or
out of it. -/
theorem save_spec (s : StorageDesignProposalRepository β) {p : DesignProposal β} (now : String)
    (hname : p.proposalId ≠ indexName) :
    (s.save p now).cache = s.cache.set p.proposalId { p with updatedAt := now } ∧
      (∀ i, i ≠ indexName → (s.save p now).storage.get? i =
        if i = p.proposalId then some (.proposal { p with updatedAt := now })
        else s.storage.get? i) ∧
      ∀ i, i ∈ (s.save p now).indexRead ↔
        (i = p.proposalId ∧ p.status = openStatus) ∨ (i ≠ p.proposalId ∧ i ∈ s.indexRead) := by
  have hread := s.indexRead_persist (p := { p with updatedAt := now }) hname
  have hget : ∀ i, (s.persist { p with updatedAt := now }).storage.get? i =
      if i = p.proposalId then some (.proposal { p with updatedAt := now })
      else s.storage.get? i := by
    intro i
    by_cases hi : i = p.proposalId
    · simp [persist, hi]
    · simp [persist, hi, Dict.get?_set_ne]
  unfold save
  by_cases hstatus : p.status = openStatus
  · simp only [if_pos hstatus, indexAdd, hread]
    by_cases hmem : p.proposalId ∈ s.indexRead
    · rw [if_pos hmem]
      refine ⟨rfl, fun i _ => hget i, fun i => ?_⟩
      rw [hread]
      by_cases hi : i = p.proposalId <;> simp [hi, hmem, hstatus]
    · rw [if_neg hmem]
      refine ⟨rfl, fun i hi => (get?_indexWrite _ _ hi).trans (hget i), fun i => ?_⟩
      by_cases hi : i = p.proposalId <;> simp [hi, hstatus]
  · simp only [if_neg hstatus, indexRemove, hread]
    refine ⟨rfl, fun i hi => (get?_indexWrite _ _ hi).trans (hget i), fun i => ?_⟩
    by_cases hi : i = p.proposalId <;> simp [hi, hstatus]

end StorageDesignProposalRepository

namespace Agrees

variable {m : DesignProposalRepository β} {s : StorageDesignProposalRepository β}

/-- A value in memory is the proposal of its id. -/
theorem get?_of_mem (h : Agrees m s) {p : DesignProposal β} (hp : p ∈ m.proposals.values) :
    m.proposals.get? p.proposalId = some p := by
  obtain ⟨e, he, rfl⟩ := List.mem_map.mp hp
  have hget := (m.proposals.get?_eq_some_iff e.1 e.2).mpr he
  rw [(h.named _ _ hget).1, hget]

/-- Empty repositories agree. -/
theorem empty : Agrees (β := β) .empty .empty where
  stored _ _ := rfl
  cached _ _ hp := by cases hp
  plain _ _ hp := by cases hp
  opened _ := ⟨fun hi => (by cases hi), fun ⟨_, hp, _⟩ => (by cases hp)⟩
  named _ _ hp := by cases hp

/-- A proposal that is kept in both repositories leaves them in agreement. -/
theorem save (h : Agrees m s) {p : DesignProposal β} (now : String)
    (hname : p.proposalId ≠ indexName) : Agrees (m.save p now) (s.save p now) := by
  obtain ⟨hcache, hstorage, hindex⟩ := s.save_spec now hname
  have hget : ∀ i, (m.save p now).proposals.get? i =
      if i = p.proposalId then some { p with updatedAt := now } else m.proposals.get? i := by
    intro i
    by_cases hi : i = p.proposalId
    · simp [DesignProposalRepository.save, hi]
    · simp [DesignProposalRepository.save, hi, Dict.get?_set_ne]
  have hcached : ∀ i, (s.save p now).cache.get? i =
      if i = p.proposalId then some { p with updatedAt := now } else s.cache.get? i := by
    intro i
    rw [hcache]
    by_cases hi : i = p.proposalId <;> simp [hi, Dict.get?_set_ne]
  constructor
  case stored =>
    intro i hi
    rw [hstorage i hi, hget]
    split
    · rfl
    · exact h.stored i hi
  case cached =>
    intro i q
    rw [hcached, hget]
    split
    · exact id
    · exact h.cached i q
  case plain =>
    intro i q
    rw [hcached, hget]
    split
    · exact fun _ hnone => by cases hnone
    · exact h.plain i q
  case opened =>
    intro i
    rw [hindex, hget, h.opened]
    by_cases hi : i = p.proposalId <;> simp [hi]
  case named =>
    intro i q
    rw [hget]
    split
    · rename_i hi
      rintro hq
      cases hq
      exact ⟨hi.symm, hi ▸ hname⟩
    · exact h.named i q

/-- A proposal that is removed from both repositories leaves them in agreement. -/
theorem delete (h : Agrees m s) {i : String} (hname : i ≠ indexName) :
    Agrees ⟨m.proposals.erase i⟩ (s.delete i) := by
  have hread : StorageDesignProposalRepository.indexRead
      ⟨s.storage.erase i, s.cache.erase i⟩ = s.indexRead := by
    simp [StorageDesignProposalRepository.indexRead, Dict.get?_erase, Ne.symm hname]
  constructor
  case stored =>
    intro j hj
    rw [StorageDesignProposalRepository.delete, StorageDesignProposalRepository.indexRemove,
      StorageDesignProposalRepository.get?_indexWrite _ _ hj]
    simp only [Dict.get?_erase]
    split
    · rfl
    · exact h.stored j hj
  case cached =>
    intro j q
    simp only [StorageDesignProposalRepository.delete, StorageDesignProposalRepository.indexRemove,
      StorageDesignProposalRepository.cache_indexWrite, Dict.get?_erase]
    split
    · exact id
    · exact h.cached j q
  case plain =>
    intro j q
    simp only [StorageDesignProposalRepository.delete, StorageDesignProposalRepository.indexRemove,
      StorageDesignProposalRepository.cache_indexWrite, Dict.get?_erase]
    split
    · exact fun hq => by cases hq
    · exact h.plain j q
  case opened =>
    intro j
    simp only [StorageDesignProposalRepository.delete, StorageDesignProposalRepository.indexRemove,
      StorageDesignProposalRepository.indexRead_indexWrite, hread, List.mem_filter, h.opened,
      Dict.get?_erase]
    by_cases hj : j = i <;> simp [hj]
  case named =>
    intro j q
    simp only [Dict.get?_erase]
    split
    · exact fun hq => by cases hq
    · exact h.named j q

/-- A get returns what is in memory. -/
theorem get (h : Agrees m s) {i : String} (now : String) (hname : i ≠ indexName) :
    Agrees m (s.get i now).1 ∧ (s.get i now).2 = .found i (m.proposals.get? i) ∧
      (s.get i now).1.indexRead = s.indexRead := by
  unfold StorageDesignProposalRepository.get
  cases hcache : s.cache.get? i with
  | some p =>
    rw [h.cached i p hcache]
    exact ⟨h, rfl, rfl⟩
  | none =>
    simp only [h.stored i hname]
    cases hget : m.proposals.get? i with
    | none => exact ⟨h, rfl, rfl⟩
    | some p =>
      have hplain := (h.plain i p hget hcache).fromDict_eq now
      simp only [Option.map_some, hplain]
      refine ⟨⟨h.stored, fun j q hq => ?_, fun j q hq hnone => ?_, h.opened, h.named⟩, rfl, rfl⟩
      · by_cases hj : j = i
        · rw [hj, Dict.get?_set_self] at hq
          rw [hj, hget, hq]
        · exact h.cached j q ((Dict.get?_set_ne _ _ hj).symm.trans hq)
      · by_cases hj : j = i
        · rw [hj, Dict.get?_set_self] at hnone
          cases hnone
        · exact h.plain j q hq ((Dict.get?_set_ne _ _ hj).symm.trans hnone)

/-- The proposals of the index are found in memory. -/
theorem rows (h : Agrees m s) (now : String) (found : List (DesignProposal β)) {ids : List String}
    (hids : ∀ i ∈ ids, ∃ p, m.proposals.get? i = some p) :
    Agrees m (s.rows now found ids).1 ∧
      (s.rows now found ids).2 = .ok (found ++ ids.filterMap m.proposals.get?) := by
  induction ids generalizing s found with
  | nil => exact ⟨h, by simp [StorageDesignProposalRepository.rows]⟩
  | cons i ids ih =>
    obtain ⟨p, hp⟩ := hids i List.mem_cons_self
    obtain ⟨hagrees, hanswer, -⟩ := h.get now (h.named i p hp).2
    have hnext : s.get i now = ((s.get i now).1, .proposal p) := Prod.ext rfl (hanswer.trans (by
      rw [hp]
      rfl))
    have hrest := ih hagrees (found ++ [p]) fun j hj => hids j (List.mem_cons_of_mem _ hj)
    rw [StorageDesignProposalRepository.rows, hnext, List.filterMap_cons_some hp]
    rwa [List.append_assoc] at hrest

/-- If a list asks for what is in the index in its order, then the proposals of the index are sorted
like those in memory. -/
theorem listedRows_eq (h : Agrees m s) {flowId status : Option String}
    (hlists : ListsIndexed m s flowId status) :
    listedRows (s.indexRead.filterMap m.proposals.get?) flowId status =
      listedRows m.proposals.values flowId status := by
  refine sortDescending_eq_iff.mpr fun time => ?_
  let asked (q : DesignProposal β) : Bool := q.selected flowId status && q.updatedAt = time
  have hsame : ∀ rows : List (DesignProposal β),
      (rows.filter (·.selected flowId status)).filter (·.updatedAt = time) = rows.filter asked := by
    intro rows
    rw [List.filter_filter]
    exact List.filter_congr fun q _ => Bool.and_comm _ _
  have hindex : (s.indexRead.filterMap m.proposals.get?).filter asked =
      (s.indexRead.filter fun i => (m.proposals.get? i).any asked).filterMap m.proposals.get? := by
    rw [List.filter_filterMap, List.filterMap_filter]
    refine List.filterMap_congr fun i _ => ?_
    cases m.proposals.get? i with
    | none => rfl
    | some p => cases hp : asked p <;> simp [hp]
  have hvalues : ((m.proposals.values.filter asked).map DesignProposal.proposalId).filterMap
      m.proposals.get? = m.proposals.values.filter asked := by
    rw [List.filterMap_map]
    refine (List.filterMap_congr fun p hp => ?_).trans List.filterMap_some
    exact h.get?_of_mem (List.mem_filter.mp hp).1
  rw [hsame, hsame, hindex]
  by_cases hsome : ∃ p ∈ m.proposals.values, asked p = true
  · obtain ⟨p, hp, hasked⟩ := hsome
    obtain ⟨hselected, htime⟩ : p.selected flowId status = true ∧ p.updatedAt = time := by
      simpa [asked] using hasked
    have hids := hlists p hp hselected
    rw [htime] at hids
    rw [← hvalues]
    exact congrArg (List.filterMap m.proposals.get?) hids.symm
  · -- nothing in memory has this time, so nothing of the index has it
    have hnone : m.proposals.values.filter asked = [] :=
      List.filter_eq_nil_iff.mpr fun p hp hasked => hsome ⟨p, hp, hasked⟩
    rw [hnone, ← hindex]
    refine List.filter_eq_nil_iff.mpr fun p hp hasked => hsome ⟨p, ?_, hasked⟩
    obtain ⟨i, -, hi⟩ := List.mem_filterMap.mp hp
    exact List.mem_map.mpr ⟨(i, p), (m.proposals.get?_eq_some_iff i p).mp hi, rfl⟩

/-- A list of what is in the index in its order returns what is in memory. -/
theorem listProposals (h : Agrees m s) {flowId status : Option String} (now : String)
    (hlists : ListsIndexed m s flowId status) :
    Agrees m (s.listProposals flowId status now).1 ∧ (s.listProposals flowId status now).2 =
      .rows (listedRows m.proposals.values flowId status) := by
  have hids : ∀ i ∈ s.indexRead, ∃ p, m.proposals.get? i = some p := by
    intro i hi
    obtain ⟨p, hp, -⟩ := (h.opened i).mp hi
    exact ⟨p, hp⟩
  obtain ⟨hagrees, hrows⟩ := h.rows now [] hids
  have hnext : s.rows now [] s.indexRead =
      ((s.rows now [] s.indexRead).1, .ok (s.indexRead.filterMap m.proposals.get?)) :=
    Prod.ext rfl (by simpa using hrows)
  rw [StorageDesignProposalRepository.listProposals, hnext]
  exact ⟨hagrees, congrArg ProposalAnswer.rows (h.listedRows_eq hlists)⟩

/-- A call that meets the condition has the same answer from both repositories and leaves them in
agreement. -/
theorem step (h : Agrees m s) {call : ProposalCall β} (hcall : AnsweredAlike m s call) :
    Agrees (m.step call).1 (s.step call).1 ∧ (m.step call).2 = (s.step call).2 := by
  cases call with
  | create request now => exact ⟨h.save now request.proposalId_ne, rfl⟩
  | save p now => exact ⟨h.save now hcall, rfl⟩
  | get i now =>
    obtain ⟨hagrees, hanswer, -⟩ := h.get now hcall
    exact ⟨hagrees, hanswer.symm⟩
  | delete i =>
    refine ⟨h.delete hcall, congrArg ProposalAnswer.deleted ?_⟩
    rw [h.stored i hcall, Option.isSome_map]
    cases hcache : s.cache.get? i with
    | none => simp
    | some p => simp [h.cached i p hcache]
  | listProposals flowId status now =>
    obtain ⟨hagrees, hanswer⟩ := h.listProposals now hcall
    exact ⟨hagrees, hanswer.symm⟩
  | recreate =>
    refine ⟨⟨h.stored, fun _ _ hp => (by cases hp), fun i p hp _ => ?_, h.opened, h.named⟩, rfl⟩
    refine hcall p (List.mem_map.mpr ⟨(i, p), ?_, rfl⟩)
    exact (m.proposals.get?_eq_some_iff i p).mp hp

end Agrees

end PalmEngine.Design
