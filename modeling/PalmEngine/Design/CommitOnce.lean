import PalmEngine.Design.ProposalCalls

/-!
# A proposal is committed once

A commit checks the status of the proposal long before it writes it, and a discard does not check
it. As long as no two calls get in each other's way, at most one revision is published from the
proposal, and once it is committed it stays committed with that revision.
-/

namespace PalmEngine.Design

open PalmEngine.Lib

variable {β : Type}

/-- What matters of a proposal. -/
structure ProposalFacts where
  status : String
  kind : String
  committedRevision : Option ℕ

/-- What matters of a proposal. -/
def DesignProposal.facts (p : DesignProposal β) : ProposalFacts :=
  ⟨p.status, p.kind, p.committedRevision⟩

/-- A proposal that is not committed has no revision. -/
def ProposalFacts.Draft (f : ProposalFacts) : Prop :=
  f.status ≠ committedStatus ∧ f.committedRevision = none

namespace ProposalDesk

variable {d : ProposalDesk β}

/-- What matters of an object. -/
def facts (d : ProposalDesk β) (o : ℕ) : Option ProposalFacts :=
  (d.objects[o]?).map DesignProposal.facts

/-- Changing an object leaves the others. -/
theorem facts_modify (d : ProposalDesk β) (o i : ℕ) (f : DesignProposal β → DesignProposal β) :
    (d.modify o f).facts i = if o = i then (d.objects[i]?).map fun p => (f p).facts
      else d.facts i := by
  unfold facts modify
  simp only [List.getElem?_modify]
  split <;> simp [Option.map_map, Function.comp_def]

/-- A change that leaves what matters. -/
theorem facts_modify_of_facts (d : ProposalDesk β) (o i : ℕ) {f : DesignProposal β → DesignProposal β}
    (hf : ∀ p, (f p).facts = p.facts) : (d.modify o f).facts i = d.facts i := by
  rw [facts_modify]
  split
  · simp [facts, hf]
  · rfl

/-- Saving leaves what matters. -/
theorem facts_save (d : ProposalDesk β) (o i : ℕ) (a : Answer β) :
    (d.save o a).facts i = d.facts i :=
  d.facts_modify_of_facts o i fun _ => rfl

/-- A new object comes after the others. -/
theorem facts_append (d : ProposalDesk β) (p : DesignProposal β) (cache : Option ℕ) (o : ℕ) :
    facts { d with objects := d.objects ++ [p], cache := cache } o =
      if o = d.objects.length then some p.facts else d.facts o := by
  unfold facts
  split
  · rename_i ho
    simp [ho]
  · rename_i ho
    rcases Nat.lt_or_gt_of_ne ho with hlt | hgt
    · simp [List.getElem?_append_left hlt]
    · rw [List.getElem?_eq_none (by simpa using hgt), List.getElem?_eq_none hgt.le]

/-- What is stored by saving is what was stored, or the object. -/
theorem doc_save {doc : DesignProposal β} {o : ℕ} {a : Answer β} (h : doc ∈ (d.save o a).doc) :
    doc ∈ d.doc ∨ d.facts o = some doc.facts := by
  unfold save at h
  simp only at h
  split at h
  · exact .inl h
  · refine .inr ?_
    rw [← d.facts_save o o a]
    exact congrArg (Option.map DesignProposal.facts) h

/-- The desk by itself: at most one revision is published, a committed object is in the cache and
records it, and the document is committed only if that object is. -/
structure Sound (d : ProposalDesk β) : Prop where
  few : d.published.length ≤ 1
  bound : ∀ o, d.cache = some o → (d.facts o).isSome
  committed : ∀ i f, d.facts i = some f → f.status = committedStatus →
    d.published = [f.committedRevision] ∧ d.cache = some i
  draft : ∀ i f, d.facts i = some f → f.status ≠ committedStatus → f.committedRevision = none
  doc_committed : ∀ doc ∈ d.doc, doc.status = committedStatus →
    ∃ i f, d.cache = some i ∧ d.facts i = some f ∧ f.status = committedStatus
  doc_draft : ∀ doc ∈ d.doc, doc.status ≠ committedStatus → doc.committedRevision = none

/-- Nothing is committed. -/
def Uncommitted (d : ProposalDesk β) : Prop :=
  ∀ i f, d.facts i = some f → f.status ≠ committedStatus

/-- A committed document is that of a committed object. -/
theorem Sound.doc_of_uncommitted (h : d.Sound) (hnone : d.Uncommitted) {doc : DesignProposal β}
    (hdoc : doc ∈ d.doc) : doc.status ≠ committedStatus := by
  intro hstatus
  obtain ⟨j, f, -, hf, hcommitted⟩ := h.doc_committed doc hdoc hstatus
  exact hnone j f hf hcommitted

end ProposalDesk

namespace DesignProc

/-- A commit has passed the check of the status and has not published. -/
def unpublished : DesignProc β → Bool
  | recording _ _ _ | saving _ => false
  | proc => proc.committing

/-- It is not at a step that says something of its own. -/
def plain : DesignProc β → Bool
  | loading _ _ _ | recording _ _ _ | saving _ => false
  | _ => true

/-- A discard has written its status. -/
def ending : DesignProc β → Bool
  | discarding _ | deleting _ => true
  | _ => false

/-- What holds of a call: it has objects, which are in the cache unless they are discarded, and what
the step it is at says of them. -/
structure Sound (d : ProposalDesk β) (proc : DesignProc β) : Prop where
  bound : ∀ o ∈ proc.held, (d.facts o).isSome
  cached : ∀ o ∈ proc.held, ∀ f, d.facts o = some f → f.status ≠ discardedStatus → d.cache = some o
  loaded : ∀ task own doc, proc = loading task own doc → doc.facts.Draft
  keeps : proc.committing = true → ∀ o ∈ proc.held, ∀ f, d.facts o = some f →
    f.status ≠ discardedStatus
  fresh : proc.unpublished = true → d.published = []
  recorded : ∀ o revision publishedId, proc = recording o revision publishedId →
    d.published = [revision] ∧ d.Uncommitted ∧
      ∀ f, d.facts o = some f → f.kind = "resource" → revision = none
  saved : ∀ o, proc = saving o → ∃ f, d.facts o = some f ∧ f.status = committedStatus
  ends : proc.ending = true → ∀ o ∈ proc.held, ∀ f, d.facts o = some f → f.status = discardedStatus

/-- What holds of a call still holds if nothing that matters changes and its object stays in the
cache. -/
theorem Sound.transfer {d d' : ProposalDesk β} {proc : DesignProc β} (h : proc.Sound d)
    (hfacts : ∀ o, d'.facts o = d.facts o) (hpublished : d'.published = d.published)
    (hcache : ∀ o ∈ proc.held, d.cache = some o → d'.cache = some o) : proc.Sound d' where
  bound o ho := hfacts o ▸ h.bound o ho
  cached o ho f hf hne := hcache o ho (h.cached o ho f (hfacts o ▸ hf) hne)
  loaded := h.loaded
  keeps hproc o ho f hf := h.keeps hproc o ho f (hfacts o ▸ hf)
  fresh hproc := hpublished.trans (h.fresh hproc)
  recorded o revision publishedId hproc := by
    obtain ⟨hlist, hnone, hkind⟩ := h.recorded o revision publishedId hproc
    exact ⟨hpublished.trans hlist, fun j f hf => hnone j f (hfacts j ▸ hf),
      fun f hf => hkind f (hfacts o ▸ hf)⟩
  saved o hproc := by
    obtain ⟨f, hf, hstatus⟩ := h.saved o hproc
    exact ⟨f, (hfacts o).trans hf, hstatus⟩
  ends hproc o ho f hf := h.ends hproc o ho f (hfacts o ▸ hf)

/-- A call that has passed the check is under way. -/
theorem underway_of_committing {proc : DesignProc β} (h : proc.committing = true) :
    proc.underway = true := by
  cases proc <;> simp_all [committing, underway]

/-- A commit that has not published has passed the check. -/
theorem committing_of_unpublished {proc : DesignProc β} (h : proc.unpublished = true) :
    proc.committing = true := by
  cases proc with
  | recording o revision publishedId | saving o => cases h
  | lookup task own | loading task own doc | working task own o | resolving o | publishing o
  | discarding o | deleting o | finished => exact h

/-- What holds of a call outside a commit holds on another desk if it holds of its objects. -/
theorem Sound.of_idle {d d' : ProposalDesk β} {proc : DesignProc β} (h : proc.Sound d)
    (hidle : proc.committing = false) (hbound : ∀ o ∈ proc.held, (d'.facts o).isSome)
    (hcached : ∀ o ∈ proc.held, ∀ f, d'.facts o = some f → f.status ≠ discardedStatus →
      d'.cache = some o)
    (hends : proc.ending = true → ∀ o ∈ proc.held, ∀ f, d'.facts o = some f →
      f.status = discardedStatus) : proc.Sound d' := by
  have hnot : proc.committing = true → False := fun hproc => by
    rw [hidle] at hproc
    cases hproc
  refine ⟨hbound, hcached, h.loaded, fun hproc => (hnot hproc).elim,
    fun hproc => (hnot (committing_of_unpublished hproc)).elim, ?_, ?_, hends⟩
  · rintro o revision publishedId rfl
    exact (hnot rfl).elim
  · rintro o rfl
    exact (hnot rfl).elim

/-- Nothing is said of a call that is not under way. -/
theorem sound_of_not_underway {d : ProposalDesk β} {proc : DesignProc β}
    (h : proc.underway = false) : proc.Sound d := by
  have hheld : proc.held = [] := by
    cases proc with
    | lookup task own => cases own <;> simp_all [held, underway]
    | finished => rfl
    | loading task own doc | working task own o | resolving o | publishing o
    | recording o revision publishedId | saving o | discarding o | deleting o => cases h
  have hcommitting : proc.committing = false := by
    by_contra hproc
    exact absurd (underway_of_committing (by simpa using hproc)) (by simp [h])
  constructor
  case bound | cached | keeps | ends => simp [hheld]
  case loaded =>
    rintro task own doc rfl
    cases h
  case fresh =>
    intro hproc
    rw [committing_of_unpublished hproc] at hcommitting
    cases hcommitting
  case recorded =>
    rintro o revision publishedId rfl
    cases h
  case saved =>
    rintro o rfl
    cases h

/-- A commit that has passed the check has an object. -/
theorem exists_held_of_committing {proc : DesignProc β} (h : proc.committing = true) :
    ∃ o, o ∈ proc.held := by
  cases proc with
  | lookup task own | loading task own doc | working task own o =>
    obtain ⟨o, ho⟩ := Option.isSome_iff_exists.mp h
    exact ⟨o, by simp [held, ho]⟩
  | resolving o | publishing o | recording o revision publishedId | saving o =>
    exact ⟨o, List.mem_singleton_self o⟩
  | discarding o | deleting o | finished => cases h

/-- A discard that has written its status has an object. -/
theorem exists_held_of_ending {proc : DesignProc β} (h : proc.ending = true) :
    ∃ o, o ∈ proc.held := by
  cases proc with
  | discarding o | deleting o => exact ⟨o, List.mem_singleton_self o⟩
  | lookup task own | loading task own doc | working task own o | resolving o | publishing o
  | recording o revision publishedId | saving o | finished => cases h

/-- A call that has an object is under way. -/
theorem underway_of_held {proc : DesignProc β} {o : ℕ} (h : o ∈ proc.held) :
    proc.underway = true := by
  cases proc with
  | lookup task own => cases own <;> simp_all [held, underway]
  | finished => simp [held] at h
  | _ => rfl

end DesignProc

namespace ProposalPool

/-- The object is in the cache or a call has it. -/
def Holds (pool : ProposalPool β) (o : ℕ) : Prop :=
  pool.shared.cache = some o ∨ ∃ proc ∈ pool.procs, o ∈ proc.held

/-- What holds while the calls do not get in each other's way: there is one object, and at most one
commit has passed the check. -/
structure Sound (pool : ProposalPool β) : Prop where
  desk : pool.shared.Sound
  procs : ∀ proc ∈ pool.procs, proc.Sound pool.shared
  one : ∀ i j, pool.Holds i → pool.Holds j → i = j
  single : pool.procs.countP DesignProc.committing ≤ 1

variable {pool : ProposalPool β} {i : ℕ} {p q : DesignProc β} {d : ProposalDesk β}

/-- After a turn that holds no new object the pool is sound if the desk and the calls are. -/
theorem Sound.next (h : pool.Sound) (hp : pool.procs[i]? = some p) (hdesk : d.Sound)
    (hprocs : ∀ r ∈ pool.procs.set i q, r.Sound d)
    (hholds : ∀ j, d.cache = some j ∨ j ∈ q.held → pool.Holds j)
    (hcommitting : q.committing = true → p.committing = true) :
    Sound ⟨d, pool.procs.set i q⟩ := by
  have hold : ∀ j, Holds ⟨d, pool.procs.set i q⟩ j → pool.Holds j := by
    rintro j (hcache | ⟨r, hr, hj⟩)
    · exact hholds j (.inl hcache)
    · rcases Pool.mem_set_cases hr with rfl | hr
      · exact hholds j (.inr hj)
      · exact .inr ⟨r, hr, hj⟩
  refine ⟨hdesk, hprocs, fun j k hj hk => h.one j k (hold j hj) (hold k hk), ?_⟩
  have hcount := Pool.countP_set (q := q) DesignProc.committing hp
  have hsingle := h.single
  by_cases hq : q.committing = true
  · rw [if_pos hq, if_pos (hcommitting hq)] at hcount
    change (pool.procs.set i q).countP DesignProc.committing ≤ 1
    omega
  · rw [if_neg hq] at hcount
    change (pool.procs.set i q).countP DesignProc.committing ≤ 1
    split at hcount <;> omega

/-- A call that moves has its objects in common with the pool. -/
theorem holds_of_held (hp : pool.procs[i]? = some p) {o : ℕ} (ho : o ∈ p.held) : pool.Holds o :=
  .inr ⟨p, List.mem_of_getElem? hp, ho⟩

/-- A turn that changes nothing that matters keeps the pool sound: it may save an object, store it,
or read the document. -/
theorem Sound.quiet (h : pool.Sound) (hp : pool.procs[i]? = some p)
    (hfacts : ∀ o, d.facts o = pool.shared.facts o)
    (hpublished : d.published = pool.shared.published)
    (hcache : d.cache = pool.shared.cache ∨ ∃ o ∈ p.held, d.cache = some o)
    (hdoc : ∀ doc ∈ d.doc, doc ∈ pool.shared.doc ∨
      ∃ o, d.cache = some o ∧ pool.shared.facts o = some doc.facts)
    (hheld : ∀ j ∈ q.held, j ∈ p.held ∨ pool.shared.cache = some j)
    (hcommitting : q.committing = true → p.committing = true)
    (hfresh : q.unpublished = true → p.unpublished = true)
    (hplain : q.plain = true ∨ ∃ task own doc, q = .loading task own doc ∧
      pool.shared.cache = none ∧ pool.shared.doc = some doc)
    (hending : q.ending = true → p.ending = true) :
    Sound ⟨d, pool.procs.set i q⟩ := by
  have hpsound := h.procs p (List.mem_of_getElem? hp)
  have hqholds : ∀ j ∈ q.held, pool.Holds j := fun j hj =>
    (hheld j hj).elim (holds_of_held hp) .inl
  have hkept : ∀ j, pool.shared.cache = some j → d.cache = some j := by
    intro j hj
    rcases hcache with hsame | ⟨o, ho, hcache⟩
    · exact hsame.trans hj
    · rw [hcache, h.one o j (holds_of_held hp ho) (.inl hj)]
  refine h.next hp ?_ ?_ ?_ hcommitting
  · constructor
    case few => exact hpublished ▸ h.desk.few
    case bound =>
      intro o ho
      rw [hfacts]
      rcases hcache with hsame | ⟨o', ho', hcache⟩
      · exact h.desk.bound o (hsame.symm.trans ho)
      · exact Option.some.inj (hcache.symm.trans ho) ▸ hpsound.bound o' ho'
    case committed =>
      intro j f hf hstatus
      obtain ⟨hlist, hcached⟩ := h.desk.committed j f (hfacts j ▸ hf) hstatus
      exact ⟨hpublished.trans hlist, hkept j hcached⟩
    case draft => exact fun j f hf => h.desk.draft j f (hfacts j ▸ hf)
    case doc_committed =>
      intro doc hmem hstatus
      rcases hdoc doc hmem with hold | ⟨o, hcached, hf⟩
      · obtain ⟨j, f, hcached, hf, hcommitted⟩ := h.desk.doc_committed doc hold hstatus
        exact ⟨j, f, hkept j hcached, (hfacts j).trans hf, hcommitted⟩
      · exact ⟨o, doc.facts, hcached, (hfacts o).trans hf, hstatus⟩
    case doc_draft =>
      intro doc hmem hstatus
      rcases hdoc doc hmem with hold | ⟨o, -, hf⟩
      · exact h.desk.doc_draft doc hold hstatus
      · exact h.desk.draft o doc.facts hf hstatus
  · intro r hr
    rcases Pool.mem_set_cases hr with rfl | hr
    · constructor
      case bound =>
        intro j hj
        rw [hfacts]
        exact (hheld j hj).elim (hpsound.bound j) (h.desk.bound j)
      case cached =>
        intro j hj f hf hne
        exact hkept j ((hheld j hj).elim
          (fun hmem => hpsound.cached j hmem f (hfacts j ▸ hf) hne) id)
      case loaded =>
        rintro task own doc rfl
        obtain hproc | ⟨_, _, _, hproc, hnone, hread⟩ := hplain
        · cases hproc
        obtain ⟨rfl, rfl, rfl⟩ := DesignProc.loading.inj hproc
        have hstatus : doc.status ≠ committedStatus := by
          intro hstatus
          obtain ⟨j, -, hcached, -⟩ := h.desk.doc_committed doc hread hstatus
          rw [hnone] at hcached
          cases hcached
        exact ⟨hstatus, h.desk.doc_draft doc hread hstatus⟩
      case keeps =>
        intro hproc j hj f hf
        obtain ⟨o, ho⟩ := DesignProc.exists_held_of_committing (hcommitting hproc)
        obtain rfl := h.one o j (holds_of_held hp ho) (hqholds j hj)
        exact hpsound.keeps (hcommitting hproc) o ho f (hfacts o ▸ hf)
      case fresh => exact fun hproc => hpublished.trans (hpsound.fresh (hfresh hproc))
      case recorded =>
        rintro o revision publishedId rfl
        obtain hproc | ⟨_, _, _, hproc, -⟩ := hplain <;> cases hproc
      case saved =>
        rintro o rfl
        obtain hproc | ⟨_, _, _, hproc, -⟩ := hplain <;> cases hproc
      case ends =>
        intro hproc j hj f hf
        obtain ⟨o, ho⟩ := DesignProc.exists_held_of_ending (hending hproc)
        obtain rfl := h.one o j (holds_of_held hp ho) (hqholds j hj)
        exact hpsound.ends (hending hproc) o ho f (hfacts o ▸ hf)
    · exact (h.procs r hr).transfer hfacts hpublished fun o _ => hkept o
  · rintro j (hj | hj)
    · rcases hcache with hsame | ⟨o, ho, hcache⟩
      · exact .inl (hsame.symm.trans hj)
      · exact Option.some.inj (hcache.symm.trans hj) ▸ holds_of_held hp ho
    · exact hqholds j hj

/-- Making an object of the document keeps the pool sound if no other call is under way and there is
none in the cache. -/
theorem Sound.load (h : pool.Sound) {task : DesignTask} {own : Option ℕ} {doc : DesignProposal β}
    (hp : pool.procs[i]? = some (.loading task own doc)) (hnone : pool.shared.cache = none)
    (hothers : pool.procs.countP DesignProc.underway ≤ 1) (now : String) :
    Sound ⟨{ pool.shared with
        objects := pool.shared.objects ++ [doc.fromDict now]
        cache := some pool.shared.objects.length },
      pool.procs.set i (.working task own pool.shared.objects.length)⟩ := by
  have hpsound := h.procs _ (List.mem_of_getElem? hp)
  obtain rfl : own = none := by
    -- the object of a commit would be in the cache
    cases own with
    | none => rfl
    | some o =>
      have ho : o ∈ (DesignProc.loading task (some o) doc).held := by simp [DesignProc.held]
      obtain ⟨f, hf⟩ := Option.isSome_iff_exists.mp (hpsound.bound o ho)
      have hcached := hpsound.cached o ho f hf (hpsound.keeps rfl o ho f hf)
      rw [hnone] at hcached
      cases hcached
  have huncommitted : pool.shared.Uncommitted := by
    intro j f hf hstatus
    have hcached := (h.desk.committed j f hf hstatus).2
    rw [hnone] at hcached
    cases hcached
  obtain ⟨hstatus, hrevision⟩ := hpsound.loaded task none doc rfl
  have hnew : (doc.fromDict now).facts.Draft := by
    refine ⟨?_, hrevision⟩
    change DesignProposal.textOr doc.status openStatus ≠ committedStatus
    unfold DesignProposal.textOr
    split
    · decide
    · exact hstatus
  have hfacts := pool.shared.facts_append (doc.fromDict now) (some pool.shared.objects.length)
  have hrest : ∀ r ∈ pool.procs.set i (.working task none pool.shared.objects.length),
      r = .working task none pool.shared.objects.length ∨ r.underway = false := fun r hr =>
    (Pool.mem_set_or_not hp rfl hothers hr).imp_right And.right
  constructor
  case desk =>
    constructor
    case few => exact h.desk.few
    case bound =>
      intro o ho
      rw [hfacts, if_pos (Option.some.inj ho).symm]
      rfl
    case committed =>
      intro j f hf hcommitted
      rw [hfacts] at hf
      split at hf
      · exact absurd hcommitted (Option.some.inj hf ▸ hnew.1)
      · exact absurd hcommitted (huncommitted j f hf)
    case draft =>
      intro j f hf
      rw [hfacts] at hf
      split at hf
      · exact fun _ => Option.some.inj hf ▸ hnew.2
      · exact h.desk.draft j f hf
    case doc_committed =>
      intro doc' hdoc' hcommitted
      obtain ⟨j, f, -, hf, hstatus⟩ := h.desk.doc_committed doc' hdoc' hcommitted
      exact absurd hstatus (huncommitted j f hf)
    case doc_draft => exact h.desk.doc_draft
  case procs =>
    intro r hr
    rcases hrest r hr with rfl | hquiet
    · constructor
      case bound =>
        intro o ho
        obtain rfl : o = pool.shared.objects.length := by simpa [DesignProc.held] using ho
        rw [hfacts, if_pos rfl]
        rfl
      case cached =>
        intro o ho f _ _
        obtain rfl : o = pool.shared.objects.length := by simpa [DesignProc.held] using ho
        rfl
      case loaded => exact fun _ _ _ hproc => by cases hproc
      case keeps | fresh | ends => exact fun hproc => by cases hproc
      case recorded => exact fun _ _ _ hproc => by cases hproc
      case saved => exact fun _ hproc => by cases hproc
    · exact DesignProc.sound_of_not_underway hquiet
  case one =>
    have honly : ∀ j, Holds ⟨{ pool.shared with
          objects := pool.shared.objects ++ [doc.fromDict now]
          cache := some pool.shared.objects.length },
        pool.procs.set i (.working task none pool.shared.objects.length)⟩ j →
          j = pool.shared.objects.length := by
      rintro j (hj | ⟨r, hr, hj⟩)
      · exact (Option.some.inj hj).symm
      · rcases hrest r hr with rfl | hquiet
        · simpa [DesignProc.held] using hj
        · rw [DesignProc.underway_of_held hj] at hquiet
          cases hquiet
    exact fun j k hj hk => (honly j hj).trans (honly k hk).symm
  case single =>
    have hcount := Pool.countP_set
      (q := DesignProc.working task none pool.shared.objects.length) DesignProc.committing hp
    have hsingle := h.single
    change (pool.procs.set i _).countP DesignProc.committing ≤ 1
    simp only [DesignProc.committing, Option.isSome_none, Bool.false_eq_true, if_false] at hcount
    omega

/-- A commit passes the check of the status while no other one has passed it and nothing is
published. -/
theorem Sound.check (h : pool.Sound) {own : Option ℕ} {o : ℕ}
    (hp : pool.procs[i]? = some (.working .commit own o))
    (hopen : (pool.shared.objects[o]?).map DesignProposal.status = some openStatus)
    (hpublished : pool.shared.published = [])
    (hcount : pool.procs.countP DesignProc.committing = 0) :
    Sound ⟨pool.shared, pool.procs.set i (.lookup .validate (some o))⟩ := by
  have hpsound := h.procs _ (List.mem_of_getElem? hp)
  have ho : o ∈ (DesignProc.working .commit own o : DesignProc β).held := by
    simp [DesignProc.held]
  constructor
  case desk => exact h.desk
  case procs =>
    intro r hr
    rcases Pool.mem_set_cases hr with rfl | hr
    · have hheld : ∀ j ∈ (DesignProc.lookup .validate (some o) : DesignProc β).held, j = o := by
        simp [DesignProc.held]
      constructor
      case bound => exact fun j hj => hheld j hj ▸ hpsound.bound o ho
      case cached =>
        intro j hj
        obtain rfl := hheld j hj
        exact hpsound.cached j ho
      case keeps =>
        intro _ j hj f hf hstatus
        obtain rfl := hheld j hj
        have hfopen : f.status = openStatus := by
          obtain ⟨p, hget, rfl⟩ := Option.map_eq_some_iff.mp hf
          rw [hget] at hopen
          exact Option.some.inj hopen
        rw [hfopen] at hstatus
        exact absurd hstatus (by decide)
      case fresh => exact fun _ => hpublished
      case loaded => exact fun _ _ _ hproc => by cases hproc
      case ends => exact fun hproc => by cases hproc
      case recorded => exact fun _ _ _ hproc => by cases hproc
      case saved => exact fun _ hproc => by cases hproc
    · exact h.procs r hr
  case one =>
    have hold : ∀ j, Holds ⟨pool.shared, pool.procs.set i (.lookup .validate (some o))⟩ j →
        pool.Holds j := by
      rintro j (hj | ⟨r, hr, hj⟩)
      · exact .inl hj
      · rcases Pool.mem_set_cases hr with rfl | hr
        · obtain rfl : j = o := by simpa [DesignProc.held] using hj
          exact holds_of_held hp ho
        · exact .inr ⟨r, hr, hj⟩
    exact fun j k hj hk => h.one j k (hold j hj) (hold k hk)
  case single =>
    have hset := Pool.countP_set (q := (DesignProc.lookup .validate (some o) : DesignProc β))
      DesignProc.committing hp
    change (pool.procs.set i _).countP DesignProc.committing ≤ 1
    split at hset <;> split at hset <;> omega

/-- A discard writes its status while no commit has passed the check, into what is not committed. -/
theorem Sound.discard (h : pool.Sound) {own : Option ℕ} {o : ℕ}
    (hp : pool.procs[i]? = some (.working .discard own o))
    (hcount : pool.procs.countP DesignProc.committing = 0)
    (hstatus : (pool.shared.objects[o]?).map DesignProposal.status ≠ some committedStatus) :
    Sound ⟨pool.shared.modify o fun p => { p with status := discardedStatus },
      pool.procs.set i (.discarding o)⟩ := by
  have hpsound := h.procs _ (List.mem_of_getElem? hp)
  have ho : o ∈ (DesignProc.working .discard own o : DesignProc β).held := by
    simp [DesignProc.held]
  have hone : ∀ j, pool.Holds j → j = o := fun j hj => h.one j o hj (holds_of_held hp ho)
  have hfacts := pool.shared.facts_modify o (f := fun p => { p with status := discardedStatus })
  have hdraft : ∀ f, pool.shared.facts o = some f → f.status ≠ committedStatus := by
    intro f hf hcommitted
    obtain ⟨p, hget, rfl⟩ := Option.map_eq_some_iff.mp hf
    rw [hget] at hstatus
    exact hstatus (congrArg some hcommitted)
  have huncommitted : pool.shared.Uncommitted := by
    intro j f hf hcommitted
    obtain rfl := hone j (.inl (h.desk.committed j f hf hcommitted).2)
    exact hdraft f hf hcommitted
  have hidle : ∀ r ∈ pool.procs, r.committing = false := fun r hr => by
    simpa using List.countP_eq_zero.mp hcount r hr
  -- the object is discarded, the others are as they were
  have hself : ∀ f, (pool.shared.modify o fun p => { p with status := discardedStatus }).facts o =
      some f → f.status = discardedStatus ∧ ∃ f', pool.shared.facts o = some f' ∧
        f'.committedRevision = f.committedRevision := by
    intro f hf
    rw [hfacts, if_pos rfl] at hf
    obtain ⟨p, hget, rfl⟩ := Option.map_eq_some_iff.mp hf
    exact ⟨rfl, p.facts, congrArg (Option.map _) hget, rfl⟩
  have hbound : ∀ j, (pool.shared.facts j).isSome →
      ((pool.shared.modify o fun p => { p with status := discardedStatus }).facts j).isSome := by
    intro j hj
    rw [hfacts]
    split
    · simpa [ProposalDesk.facts] using hj
    · exact hj
  refine h.next hp ?_ ?_ ?_ fun hproc => by cases hproc
  · constructor
    case few => exact h.desk.few
    case bound => exact fun j hj => hbound j (h.desk.bound j hj)
    case committed =>
      intro j f hf hcommitted
      by_cases hj : o = j
      · subst hj
        rw [(hself f hf).1] at hcommitted
        exact absurd hcommitted (by decide)
      · rw [hfacts, if_neg hj] at hf
        exact absurd hcommitted (huncommitted j f hf)
    case draft =>
      intro j f hf hne
      by_cases hj : o = j
      · subst hj
        obtain ⟨-, f', hf', hrevision⟩ := hself f hf
        exact hrevision ▸ h.desk.draft o f' hf' (hdraft f' hf')
      · rw [hfacts, if_neg hj] at hf
        exact h.desk.draft j f hf hne
    case doc_committed =>
      exact fun doc hdoc hcommitted =>
        absurd hcommitted (h.desk.doc_of_uncommitted huncommitted hdoc)
    case doc_draft => exact h.desk.doc_draft
  · intro r hr
    rcases Pool.mem_set_cases hr with rfl | hr
    · have hheld : ∀ j ∈ (DesignProc.discarding o : DesignProc β).held, j = o := by
        simp [DesignProc.held]
      constructor
      case bound => exact fun j hj => hheld j hj ▸ hbound o (hpsound.bound o ho)
      case cached =>
        intro j hj f hf hne
        obtain rfl := hheld j hj
        exact absurd (hself f hf).1 hne
      case ends =>
        intro _ j hj f hf
        obtain rfl := hheld j hj
        exact (hself f hf).1
      case loaded => exact fun _ _ _ hproc => by cases hproc
      case keeps | fresh => exact fun hproc => by cases hproc
      case recorded => exact fun _ _ _ hproc => by cases hproc
      case saved => exact fun _ hproc => by cases hproc
    · have hrsound := h.procs r hr
      have hdiscarded : ∀ j ∈ r.held, ∀ f, (pool.shared.modify o fun p =>
          { p with status := discardedStatus }).facts j = some f → f.status = discardedStatus := by
        intro j hj f hf
        obtain rfl := hone j (.inr ⟨r, hr, hj⟩)
        exact (hself f hf).1
      exact hrsound.of_idle (hidle r hr) (fun j hj => hbound j (hrsound.bound j hj))
        (fun j hj f hf hne => absurd (hdiscarded j hj f hf) hne) fun _ => hdiscarded
  · rintro j (hj | hj)
    · exact .inl hj
    · obtain rfl : j = o := by simpa [DesignProc.held] using hj
      exact holds_of_held hp ho

/-- A commit publishes, and goes on to write what it has published, or fails. -/
theorem Sound.publish (h : pool.Sound) {o : ℕ} {revision : Option ℕ}
    (hp : pool.procs[i]? = some (.publishing o))
    (hkind : ∀ f, pool.shared.facts o = some f → f.kind = "resource" → revision = none)
    (hq : q = .finished ∨ ∃ publishedId, q = .recording o revision publishedId) :
    Sound ⟨{ pool.shared with published := pool.shared.published ++ [revision] },
      pool.procs.set i q⟩ := by
  have hpsound := h.procs _ (List.mem_of_getElem? hp)
  have hnone : pool.shared.published = [] := hpsound.fresh rfl
  have huncommitted : pool.shared.Uncommitted := by
    intro j f hf hcommitted
    obtain ⟨hlist, -⟩ := h.desk.committed j f hf hcommitted
    rw [hnone] at hlist
    cases hlist
  refine h.next hp ?_ ?_ ?_ fun _ => rfl
  · refine ⟨?_, h.desk.bound, fun j f hf hcommitted => absurd hcommitted (huncommitted j f hf),
      h.desk.draft, h.desk.doc_committed, h.desk.doc_draft⟩
    simp [hnone]
  · intro r hr
    rcases Pool.mem_set_or_not hp rfl h.single hr with rfl | ⟨hr, hidle⟩
    · rcases hq with rfl | ⟨publishedId, rfl⟩
      · exact DesignProc.sound_of_not_underway rfl
      · refine ⟨hpsound.bound, hpsound.cached, fun _ _ _ hproc => (by cases hproc),
          fun _ => hpsound.keeps rfl, fun hproc => (by cases hproc), ?_,
          fun _ hproc => (by cases hproc), fun hproc => (by cases hproc)⟩
        intro o' revision' publishedId' hproc
        cases hproc
        exact ⟨by simp [hnone], huncommitted, hkind⟩
    · have hrsound := h.procs r hr
      exact hrsound.of_idle hidle hrsound.bound hrsound.cached hrsound.ends
  · rintro j (hj | hj)
    · exact .inl hj
    · refine holds_of_held hp ?_
      rcases hq with rfl | ⟨publishedId, rfl⟩
      · cases hj
      · exact hj

/-- A commit writes what it has published. -/
theorem Sound.record (h : pool.Sound) {o : ℕ} {revision : Option ℕ} {publishedId : String}
    (hp : pool.procs[i]? = some (.recording o revision publishedId)) :
    Sound ⟨pool.shared.modify o (·.commit revision publishedId),
      pool.procs.set i (.saving o)⟩ := by
  have hpsound := h.procs _ (List.mem_of_getElem? hp)
  have ho : o ∈ (DesignProc.recording o revision publishedId : DesignProc β).held :=
    List.mem_singleton_self o
  have hone : ∀ j, pool.Holds j → j = o := fun j hj => h.one j o hj (holds_of_held hp ho)
  obtain ⟨hpublished, huncommitted, hkind⟩ := hpsound.recorded o revision publishedId rfl
  have hfacts := pool.shared.facts_modify o (f := (·.commit revision publishedId))
  have hself : ∀ f, (pool.shared.modify o (·.commit revision publishedId)).facts o = some f →
      f.status = committedStatus ∧ f.committedRevision = revision := by
    intro f hf
    rw [hfacts, if_pos rfl] at hf
    obtain ⟨p, hget, rfl⟩ := Option.map_eq_some_iff.mp hf
    have hpfacts : pool.shared.facts o = some p.facts := congrArg (Option.map _) hget
    have hdraft := h.desk.draft o p.facts hpfacts (huncommitted o p.facts hpfacts)
    unfold DesignProposal.commit
    split
    · rename_i hresource
      exact ⟨rfl, hdraft.trans (hkind p.facts hpfacts hresource).symm⟩
    · exact ⟨rfl, rfl⟩
  have hbound : ∀ j, (pool.shared.facts j).isSome →
      ((pool.shared.modify o (·.commit revision publishedId)).facts j).isSome := by
    intro j hj
    rw [hfacts]
    split
    · simpa [ProposalDesk.facts] using hj
    · exact hj
  have hcached : pool.shared.cache = some o := by
    obtain ⟨f, hf⟩ := Option.isSome_iff_exists.mp (hpsound.bound o ho)
    exact hpsound.cached o ho f hf (hpsound.keeps rfl o ho f hf)
  refine h.next hp ?_ ?_ ?_ fun _ => rfl
  · constructor
    case few => exact h.desk.few
    case bound => exact fun j hj => hbound j (h.desk.bound j hj)
    case committed =>
      intro j f hf hcommitted
      by_cases hj : o = j
      · subst hj
        exact ⟨(hself f hf).2 ▸ hpublished, hcached⟩
      · rw [hfacts, if_neg hj] at hf
        exact absurd hcommitted (huncommitted j f hf)
    case draft =>
      intro j f hf hne
      by_cases hj : o = j
      · subst hj
        exact absurd (hself f hf).1 hne
      · rw [hfacts, if_neg hj] at hf
        exact h.desk.draft j f hf hne
    case doc_committed =>
      exact fun doc hdoc hcommitted =>
        absurd hcommitted (h.desk.doc_of_uncommitted huncommitted hdoc)
    case doc_draft => exact h.desk.doc_draft
  · intro r hr
    rcases Pool.mem_set_or_not hp rfl h.single hr with rfl | ⟨hr, hidle⟩
    · have hheld : ∀ j ∈ (DesignProc.saving o : DesignProc β).held, j = o := by
        simp [DesignProc.held]
      constructor
      case bound => exact fun j hj => hheld j hj ▸ hbound o (hpsound.bound o ho)
      case cached => exact fun j hj _ _ _ => hheld j hj ▸ hcached
      case keeps =>
        intro _ j hj f hf
        obtain rfl := hheld j hj
        rw [(hself f hf).1]
        decide
      case saved =>
        rintro o' hproc
        cases hproc
        obtain ⟨f, hf⟩ := Option.isSome_iff_exists.mp (hbound o (hpsound.bound o ho))
        exact ⟨f, hf, (hself f hf).1⟩
      case loaded => exact fun _ _ _ hproc => by cases hproc
      case fresh | ends => exact fun hproc => by cases hproc
      case recorded => exact fun _ _ _ hproc => by cases hproc
    · have hrsound := h.procs r hr
      refine hrsound.of_idle hidle (fun j hj => hbound j (hrsound.bound j hj)) ?_ ?_
      · intro j hj _ _ _
        exact hone j (.inr ⟨r, hr, hj⟩) ▸ hcached
      · -- no discard has written its status into the object of a commit
        intro hending j hj f hf
        obtain rfl := hone j (.inr ⟨r, hr, hj⟩)
        obtain ⟨f', hf'⟩ := Option.isSome_iff_exists.mp (hpsound.bound j ho)
        exact absurd (hrsound.ends hending j hj f' hf') (hpsound.keeps rfl j ho f' hf')
  · rintro j (hj | hj)
    · exact .inl hj
    · exact holds_of_held hp hj

/-- A discard deletes the proposal, which is discarded. -/
theorem Sound.delete (h : pool.Sound) {o : ℕ} (hp : pool.procs[i]? = some (.deleting o))
    (a : Answer β) : Sound ⟨pool.shared.delete a, pool.procs.set i .finished⟩ := by
  have hpsound := h.procs _ (List.mem_of_getElem? hp)
  have ho : o ∈ (DesignProc.deleting o : DesignProc β).held := List.mem_singleton_self o
  have hdiscarded : ∀ j, pool.Holds j → ∀ f, pool.shared.facts j = some f →
      f.status = discardedStatus := by
    intro j hj
    obtain rfl := h.one j o hj (holds_of_held hp ho)
    exact hpsound.ends rfl j ho
  have huncommitted : pool.shared.Uncommitted := by
    intro j f hf hcommitted
    have hheld := hdiscarded j (.inl (h.desk.committed j f hf hcommitted).2) f hf
    rw [hcommitted] at hheld
    exact absurd hheld (by decide)
  have hdoc : ∀ doc ∈ (pool.shared.delete a).doc, doc ∈ pool.shared.doc := by
    intro doc hdoc
    unfold ProposalDesk.delete at hdoc
    simp only at hdoc
    split at hdoc
    · cases hdoc
    · exact hdoc
  refine h.next hp ?_ ?_ ?_ fun hproc => by cases hproc
  · constructor
    case few => exact h.desk.few
    case bound => exact fun _ hj => by cases hj
    case committed => exact fun j f hf hcommitted => absurd hcommitted (huncommitted j f hf)
    case draft => exact h.desk.draft
    case doc_committed =>
      exact fun doc hmem hcommitted =>
        absurd hcommitted (h.desk.doc_of_uncommitted huncommitted (hdoc doc hmem))
    case doc_draft => exact fun doc hmem => h.desk.doc_draft doc (hdoc doc hmem)
  · intro r hr
    rcases Pool.mem_set_cases hr with rfl | hr
    · exact DesignProc.sound_of_not_underway rfl
    · have hrsound := h.procs r hr
      refine ⟨hrsound.bound, fun j hj f hf hne => ?_, hrsound.loaded, hrsound.keeps, hrsound.fresh,
        hrsound.recorded, hrsound.saved, hrsound.ends⟩
      exact absurd (hdiscarded j (.inr ⟨r, hr, hj⟩) f hf) hne
  · rintro j (hj | hj) <;> cases hj

/-- Saving an object in which nothing that matters has changed. -/
theorem Sound.saves (h : pool.Sound) (hp : pool.procs[i]? = some p) {o : ℕ} (ho : o ∈ p.held)
    (a : Answer β) (hfacts : ∀ j, d.facts j = pool.shared.facts j)
    (hpublished : d.published = pool.shared.published) (hdoc : d.doc = pool.shared.doc)
    (hheld : ∀ j ∈ q.held, j ∈ p.held) (hcommitting : q.committing = true → p.committing = true)
    (hfresh : q.unpublished = true → p.unpublished = true) (hplain : q.plain = true)
    (hending : q.ending = true → p.ending = true) :
    Sound ⟨d.save o a, pool.procs.set i q⟩ := by
  refine h.quiet hp (fun j => (d.facts_save o j a).trans (hfacts j)) hpublished (.inr ⟨o, ho, rfl⟩)
    (fun doc hmem => ?_) (fun j hj => .inl (hheld j hj)) hcommitting hfresh (.inl hplain) hending
  rcases ProposalDesk.doc_save hmem with hold | hf
  · exact .inl (hdoc ▸ hold)
  · exact .inr ⟨o, rfl, (hfacts o).symm.trans hf⟩

/-- A call goes on or ends without a change of the desk. -/
theorem Sound.goesOn (h : pool.Sound) (hp : pool.procs[i]? = some p)
    (hheld : ∀ j ∈ q.held, j ∈ p.held) (hcommitting : q.committing = true → p.committing = true)
    (hfresh : q.unpublished = true → p.unpublished = true) (hplain : q.plain = true)
    (hending : q.ending = true → p.ending = true) :
    Sound ⟨pool.shared, pool.procs.set i q⟩ :=
  h.quiet hp (fun _ => rfl) rfl (.inl rfl) (fun _ => .inl) (fun j hj => .inl (hheld j hj))
    hcommitting hfresh (.inl hplain) hending

/-- A call ends. -/
theorem Sound.finish (h : pool.Sound) (hp : pool.procs[i]? = some p) :
    Sound ⟨pool.shared, pool.procs.set i .finished⟩ :=
  h.goesOn hp (fun _ hj => by cases hj) (fun hproc => by cases hproc) (fun hproc => by cases hproc)
    rfl fun hproc => by cases hproc

/-- A validation or an analysis is over. -/
theorem Sound.resume (h : pool.Sound) {task : DesignTask} {own : Option ℕ} {o : ℕ}
    (hp : pool.procs[i]? = some (.working task own o)) {next : ℕ → DesignProc β}
    (hnext : next = .resolving ∨ next = .publishing) {f : DesignProposal β → DesignProposal β}
    (hf : ∀ p, (f p).facts = p.facts) (a : Answer β)
    (hq : q = .resume own next ∨ q = .finished) :
    Sound ⟨(pool.shared.modify o f).save o a, pool.procs.set i q⟩ := by
  have ho : o ∈ (DesignProc.working task own o : DesignProc β).held := by simp [DesignProc.held]
  refine h.saves hp ho a (fun j => pool.shared.facts_modify_of_facts o j hf) rfl rfl ?_ ?_ ?_ ?_ ?_
  all_goals
    obtain rfl | rfl := hq
    · cases own with
      | none => simp [DesignProc.resume, DesignProc.held, DesignProc.committing,
          DesignProc.unpublished, DesignProc.plain, DesignProc.ending]
      | some c =>
        obtain rfl | rfl := hnext <;>
          simp [DesignProc.resume, DesignProc.held, DesignProc.committing,
            DesignProc.unpublished, DesignProc.plain, DesignProc.ending]
    · simp [DesignProc.held, DesignProc.committing, DesignProc.unpublished, DesignProc.plain,
        DesignProc.ending]

/-- A call works on the proposal. -/
theorem Sound.work (h : pool.Sound) {task : DesignTask} {own : Option ℕ} {o : ℕ} {a : Answer β}
    (hp : pool.procs[i]? = some (.working task own o))
    (halone : pool.Alone a (.working task own o))
    (hwork : DesignProc.work a pool.shared own o task = (d, q)) : Sound ⟨d, pool.procs.set i q⟩ := by
  cases task with
  | validate =>
    simp only [DesignProc.work] at hwork
    split at hwork
    · obtain ⟨rfl, rfl⟩ := Prod.mk.inj hwork
      refine h.resume hp (.inl rfl) ?_ a ?_
      · exact fun _ => rfl
      · split <;> simp
    · obtain ⟨rfl, rfl⟩ := Prod.mk.inj hwork
      exact h.finish hp
  | impact =>
    simp only [DesignProc.work] at hwork
    split at hwork
    · obtain ⟨rfl, rfl⟩ := Prod.mk.inj hwork
      refine h.resume hp (.inr rfl) ?_ a ?_
      · exact fun _ => rfl
      · split <;> simp
    · obtain ⟨rfl, rfl⟩ := Prod.mk.inj hwork
      exact h.finish hp
  | commit =>
    simp only [DesignProc.work] at hwork
    split at hwork
    · rename_i hpasses
      obtain ⟨rfl, rfl⟩ := Prod.mk.inj hwork
      obtain ⟨hpublished, hcount⟩ := halone hpasses.1 hpasses.2
      exact h.check hp hpasses.1 hpublished hcount
    · obtain ⟨rfl, rfl⟩ := Prod.mk.inj hwork
      exact h.finish hp
  | discard =>
    obtain ⟨rfl, rfl⟩ := Prod.mk.inj hwork
    exact h.discard hp halone.1 halone.2

/-- A call looks the proposal up. -/
theorem Sound.look (h : pool.Sound) {task : DesignTask} {own : Option ℕ}
    (hp : pool.procs[i]? = some (.lookup task own)) :
    Sound ⟨pool.shared, pool.procs.set i (DesignProc.look pool.shared task own)⟩ := by
  unfold DesignProc.look
  split
  · rename_i o _ hcache
    refine h.quiet hp (fun _ => rfl) rfl (.inl rfl) (fun _ => .inl) ?_ id id (.inl rfl) id
    intro j hj
    rcases List.mem_append.mp hj with hown | hnew
    · exact .inl hown
    · exact .inr (List.mem_singleton.mp hnew ▸ hcache)
  · rename_i doc hcache hdoc
    exact h.quiet hp (fun _ => rfl) rfl (.inl rfl) (fun _ => .inl) (fun _ => .inl) id id
      (.inr ⟨task, own, doc, rfl, hcache, hdoc⟩) id
  · exact h.finish hp

/-- A commit publishes or is refused. -/
theorem Sound.publishes (h : pool.Sound) {o : ℕ} {a : Answer β}
    (hp : pool.procs[i]? = some (.publishing o))
    (hpublish : DesignProc.publish a pool.shared o = (d, q)) : Sound ⟨d, pool.procs.set i q⟩ := by
  unfold DesignProc.publish at hpublish
  split at hpublish
  · obtain ⟨rfl, rfl⟩ := Prod.mk.inj hpublish
    exact h.finish hp
  · rename_i p hget
    have hkind : ∀ f, pool.shared.facts o = some f → f.kind = "resource" →
        p.revisionAfter a.latest = none := by
      intro f hf hresource
      rw [ProposalDesk.facts, hget] at hf
      obtain rfl := Option.some.inj hf
      exact if_pos hresource
    simp only at hpublish
    split at hpublish
    · obtain ⟨rfl, rfl⟩ := Prod.mk.inj hpublish
      exact h.finish hp
    · obtain ⟨rfl, rfl⟩ := Prod.mk.inj hpublish
      exact h.publish hp hkind (.inl rfl)
    · obtain ⟨rfl, rfl⟩ := Prod.mk.inj hpublish
      exact h.publish hp hkind (.inr ⟨_, rfl⟩)

/-- A turn that meets the condition keeps the pool sound. -/
theorem Sound.afterTurn (h : pool.Sound) {turn : ℕ × Answer β} {next : ProposalPool β}
    (hstep : pool.step turn = some next) (halone : pool.TurnAlone turn next) : next.Sound := by
  obtain ⟨p, d, q, hp, hmove, rfl⟩ := Pool.step_cases hstep
  have hmeets := halone p hp
  cases p with
  | lookup task own =>
    cases hmove
    exact h.look hp
  | loading task own doc =>
    cases hmove
    exact h.load hp hmeets.1 hmeets.2 _
  | working task own o => exact h.work hp hmeets (Option.some.inj hmove)
  | resolving o =>
    cases hmove
    split
    · split
      · exact h.goesOn hp (fun _ hj => hj) id id rfl id
      · exact h.goesOn hp (fun _ hj => hj) (fun _ => rfl) (fun _ => rfl) rfl id
    · exact h.finish hp
  | publishing o => exact h.publishes hp (Option.some.inj hmove)
  | recording o revision publishedId =>
    cases hmove
    exact h.record hp
  | saving o =>
    cases hmove
    refine h.saves hp (List.mem_singleton_self o) _ (fun _ => rfl) rfl rfl (fun _ hj => by cases hj)
      (fun hproc => by cases hproc) (fun hproc => by cases hproc) rfl fun hproc => by cases hproc
  | discarding o =>
    cases hmove
    refine h.saves hp (List.mem_singleton_self o) _ (fun _ => rfl) rfl rfl ?_ ?_ ?_ ?_ fun _ => rfl
    all_goals
      split <;> simp [DesignProc.held, DesignProc.committing, DesignProc.unpublished,
        DesignProc.plain]
  | deleting o =>
    cases hmove
    exact h.delete hp _
  | finished => cases hmove

/-- At the beginning nothing is committed and no call has an object. -/
theorem Starts.sound (h : pool.Starts) : pool.Sound := by
  have hopen : ∀ j f, pool.shared.facts j = some f →
      f.status ≠ committedStatus ∧ f.committedRevision = none := by
    intro j f hf
    obtain ⟨p, hget, rfl⟩ := Option.map_eq_some_iff.mp hf
    obtain ⟨hstatus, hrevision⟩ := h.objects p (List.mem_of_getElem? hget)
    refine ⟨?_, hrevision⟩
    change p.status ≠ committedStatus
    rw [hstatus]
    decide
  have hdoc : ∀ doc ∈ pool.shared.doc, doc.status ≠ committedStatus := by
    intro doc hmem
    rw [(h.doc doc hmem).1]
    decide
  have hheld : ∀ r ∈ pool.procs, r.underway = false ∧ r.committing = false ∧ r.held = [] := by
    intro r hr
    obtain ⟨task, rfl⟩ := h.procs r hr
    exact ⟨rfl, rfl, rfl⟩
  constructor
  case desk =>
    refine ⟨by simp [h.published_eq], fun o ho => ?_,
      fun j f hf hstatus => absurd hstatus (hopen j f hf).1, fun j f hf _ => (hopen j f hf).2,
      fun doc hmem hstatus => absurd hstatus (hdoc doc hmem), fun doc hmem _ => (h.doc doc hmem).2⟩
    simpa [ProposalDesk.facts] using h.cache o ho
  case procs => exact fun r hr => DesignProc.sound_of_not_underway (hheld r hr).1
  case one =>
    have hcached : ∀ j, pool.Holds j → pool.shared.cache = some j := by
      rintro j (hj | ⟨r, hr, hj⟩)
      · exact hj
      · rw [(hheld r hr).2.2] at hj
        cases hj
    exact fun j k hj hk => Option.some.inj ((hcached j hj).symm.trans (hcached k hk))
  case single =>
    have hnone : pool.procs.countP DesignProc.committing = 0 :=
      List.countP_eq_zero.mpr fun r hr => by simp [(hheld r hr).2.1]
    exact hnone ▸ Nat.zero_le 1

/-- A turn that meets the condition keeps the committed object in the cache as it is. -/
theorem Sound.keepsCommitted (h : pool.Sound) {turn : ℕ × Answer β} {next : ProposalPool β}
    (hstep : pool.step turn = some next) (halone : pool.TurnAlone turn next) {o : ℕ}
    {f : ProposalFacts} (hcache : pool.shared.cache = some o) (hf : pool.shared.facts o = some f)
    (hstatus : f.status = committedStatus) :
    next.shared.cache = some o ∧ next.shared.facts o = some f := by
  obtain ⟨p, d, q, hp, hmove, rfl⟩ := Pool.step_cases hstep
  have hmeets := halone p hp
  have hpsound := h.procs p (List.mem_of_getElem? hp)
  have hone : ∀ j ∈ p.held, j = o := fun j hj => h.one j o (holds_of_held hp hj) (.inl hcache)
  cases p with
  | lookup task own | resolving o' =>
    cases hmove
    exact ⟨hcache, hf⟩
  | loading task own doc =>
    have hnone := hmeets.1
    rw [hcache] at hnone
    cases hnone
  | working task own o' =>
    obtain rfl := hone o' (by simp [DesignProc.held])
    have hwork := Option.some.inj hmove
    cases task with
    | validate | impact =>
      simp only [DesignProc.work] at hwork
      split at hwork
      · obtain ⟨rfl, rfl⟩ := Prod.mk.inj hwork
        refine ⟨rfl, (ProposalDesk.facts_save _ _ _ _).trans ?_⟩
        refine (pool.shared.facts_modify_of_facts _ _ ?_).trans hf
        exact fun _ => rfl
      · obtain ⟨rfl, rfl⟩ := Prod.mk.inj hwork
        exact ⟨hcache, hf⟩
    | commit =>
      simp only [DesignProc.work] at hwork
      split at hwork <;> obtain ⟨rfl, rfl⟩ := Prod.mk.inj hwork <;> exact ⟨hcache, hf⟩
    | discard =>
      obtain ⟨p, hget, rfl⟩ := Option.map_eq_some_iff.mp hf
      have hdraft := hmeets.2
      rw [hget] at hdraft
      exact absurd (congrArg some hstatus) hdraft
  | publishing o' =>
    have hpublished := (h.desk.committed o f hf hstatus).1
    rw [hpsound.fresh rfl] at hpublished
    cases hpublished
  | recording o' revision publishedId =>
    exact absurd hstatus ((hpsound.recorded o' revision publishedId rfl).2.1 o f hf)
  | saving o' | discarding o' =>
    obtain rfl := hone o' (List.mem_singleton_self o')
    cases hmove
    exact ⟨rfl, (pool.shared.facts_save _ _ _).trans hf⟩
  | deleting o' =>
    obtain rfl := hone o' (List.mem_singleton_self o')
    rw [hpsound.ends rfl o' (List.mem_singleton_self o') f hf] at hstatus
    exact absurd hstatus (by decide)
  | finished => cases hmove

/-- A committed proposal that a get returns is the object in the cache, and what it records is all
that is published. -/
theorem Sound.committed_iff (h : pool.Sound) {revision : Option ℕ} :
    pool.shared.Committed revision ↔ ∃ o f, pool.shared.cache = some o ∧
      pool.shared.facts o = some f ∧ f.status = committedStatus ∧ f.committedRevision = revision := by
  unfold ProposalDesk.Committed ProposalDesk.current
  cases hcache : pool.shared.cache with
  | some o =>
    simp only [Option.some.injEq]
    constructor
    · rintro ⟨p, hget, hstatus, hrevision⟩
      exact ⟨o, p.facts, rfl, congrArg (Option.map _) hget, hstatus, hrevision⟩
    · rintro ⟨_, f, rfl, hf, hstatus, hrevision⟩
      obtain ⟨p, hget, rfl⟩ := Option.map_eq_some_iff.mp hf
      exact ⟨p, hget, hstatus, hrevision⟩
  | none =>
    refine ⟨fun ⟨doc, hdoc, hstatus, _⟩ => ?_, fun ⟨_, _, hnone, _⟩ => by cases hnone⟩
    obtain ⟨o, -, hcached, -⟩ := h.desk.doc_committed doc hdoc hstatus
    rw [hcache] at hcached
    cases hcached

/-- A run whose turns meet the condition keeps the pool sound. -/
theorem Sound.run (h : pool.Sound) {turns : List (ℕ × Answer β)} {next : ProposalPool β}
    (halone : AllSteps step TurnAlone pool turns) (hrun : runSteps step pool turns = some next) :
    next.Sound :=
  invariant_of_allSteps (fun _ _ _ h hstep hturn => h.afterTurn hstep hturn) h halone hrun

/-- A run whose turns meet the condition keeps a committed proposal. -/
theorem Sound.committed_run (h : pool.Sound) {turns : List (ℕ × Answer β)} {next : ProposalPool β}
    (halone : AllSteps step TurnAlone pool turns)
    (hrun : runSteps step pool turns = some next)
    {revision : Option ℕ} (hcommitted : pool.shared.Committed revision) :
    next.shared.Committed revision := by
  have hkeep : ∀ (s : ProposalPool β) (turn : ℕ × Answer β) (t : ProposalPool β),
      s.Sound ∧ s.shared.Committed revision → step s turn = some t → s.TurnAlone turn t →
        t.Sound ∧ t.shared.Committed revision := by
    rintro s turn t ⟨hs, hcommitted⟩ hstep hturn
    have ht := hs.afterTurn hstep hturn
    obtain ⟨o, f, hcache, hf, hstatus, hrevision⟩ := hs.committed_iff.mp hcommitted
    obtain ⟨hcache', hf'⟩ := hs.keepsCommitted hstep hturn hcache hf hstatus
    exact ⟨ht, ht.committed_iff.mpr ⟨o, f, hcache', hf', hstatus, hrevision⟩⟩
  exact (invariant_of_allSteps hkeep ⟨h, hcommitted⟩ halone hrun).2

/-- In every run whose turns meet the condition at most one revision is published, and once a get
returns the proposal as committed it does so from then on, with the revision that is published. -/
theorem commitsOnce_run {front back : List (ℕ × Answer β)} {mid last : ProposalPool β}
    (hstart : pool.Starts) (halone : AllSteps step TurnAlone pool (front ++ back))
    (hfront : runSteps step pool front = some mid) (hback : runSteps step mid back = some last) :
    last.shared.published.length ≤ 1 ∧ ∀ revision, mid.shared.Committed revision →
      last.shared.Committed revision ∧ last.shared.published = [revision] := by
  have hmid := hstart.sound.run halone.left hfront
  have hlast := hmid.run (halone.of_append hfront) hback
  refine ⟨hlast.desk.few, fun revision hcommitted => ?_⟩
  have hkept := hmid.committed_run (halone.of_append hfront) hback hcommitted
  obtain ⟨o, f, -, hf, hstatus, rfl⟩ := hlast.committed_iff.mp hkept
  exact ⟨hkept, (hlast.desk.committed o f hf hstatus).1⟩

/-- A new proposal, in the cache and stored, with a commit and another call that have not begun. -/
def draftAndCommit (task : DesignTask) : ProposalPool Unit :=
  let p : DesignProposal Unit :=
    ⟨"prop-a", (), openStatus, "flow", none, some "onboard", none, none, none, none, none, "1", "1"⟩
  ⟨⟨[p], some 0, some p, []⟩, [.lookup .commit none, .lookup task none]⟩

/-- A turn in which nothing fails. -/
def smoothly (i : ℕ) : ℕ × Answer Unit :=
  (i, ⟨true, true, (), .saved, true, .published, 0, "onboard", "2"⟩)

/-- Nothing has begun. -/
theorem draftAndCommit_starts (task : DesignTask) : (draftAndCommit task).Starts where
  published_eq := rfl
  cache := by simp [draftAndCommit]
  objects p hp := by
    obtain rfl := List.mem_singleton.mp hp
    exact ⟨rfl, rfl⟩
  doc p hp := by
    obtain rfl := Option.some.inj hp
    exact ⟨rfl, rfl⟩
  procs proc hproc := by
    rcases List.mem_cons.mp hproc with rfl | hproc
    · exact ⟨.commit, rfl⟩
    · exact ⟨task, List.mem_singleton.mp hproc⟩

/-- The turns of a commit in which nothing fails, from its beginning to its end. -/
def commitTurns : List (ℕ × Answer Unit) := List.replicate 10 (smoothly 0)

/-- What a get returns is committed as the first revision. -/
def firstRevision (pool : ProposalPool Unit) : Bool :=
  pool.shared.current.any fun p => p.status = committedStatus ∧ p.committedRevision = some 1

/-- What is found committed as the first revision is. -/
theorem committed_of_firstRevision {pool : ProposalPool Unit} (h : firstRevision pool = true) :
    pool.shared.Committed (some 1) := by
  obtain ⟨p, hp, hfirst⟩ := (Option.any_eq_true _ _).mp h
  obtain ⟨hstatus, hrevision⟩ := of_decide_eq_true hfirst
  exact ⟨p, hp, hstatus, hrevision⟩

/-- A proposal is committed and validated afterwards. -/
theorem commitsOnce_run_validated :
    ∃ mid last, runSteps step (draftAndCommit .validate) commitTurns = some mid ∧
      runSteps step mid [smoothly 1, smoothly 1] = some last ∧
      last.shared.Committed (some 1) ∧ last.shared.published = [some 1] := by
  obtain ⟨mid, hmid, hrest⟩ := (Option.any_eq_true
    (fun mid => firstRevision mid && (runSteps step mid [smoothly 1, smoothly 1]).isSome) _).mp
    (by decide +kernel : (runSteps step (draftAndCommit .validate) commitTurns).any _ = true)
  obtain ⟨hfirst, hlast⟩ := Bool.and_eq_true_iff.mp hrest
  obtain ⟨last, hlast⟩ := Option.isSome_iff_exists.mp hlast
  have halone : AllSteps step TurnAlone (draftAndCommit .validate)
      (commitTurns ++ [smoothly 1, smoothly 1]) := by
    decide +kernel
  refine ⟨mid, last, hmid, hlast, ?_⟩
  exact (commitsOnce_run (draftAndCommit_starts .validate) halone hmid hlast).2 _
    (committed_of_firstRevision hfirst)

/-- A proposal is committed and discarded afterwards. -/
theorem commitsOnce_run_fails :
    ∃ mid last, runSteps step (draftAndCommit .discard) commitTurns = some mid ∧
      runSteps step mid (List.replicate 4 (smoothly 1)) = some last ∧
      mid.shared.Committed (some 1) ∧ ¬ last.shared.Committed (some 1) := by
  obtain ⟨mid, hmid, hrest⟩ := (Option.any_eq_true
    (fun mid => firstRevision mid && (runSteps step mid (List.replicate 4 (smoothly 1))).any
      fun last => last.shared.current.isNone) _).mp
    (by decide +kernel : (runSteps step (draftAndCommit .discard) commitTurns).any _ = true)
  obtain ⟨hfirst, hlast⟩ := Bool.and_eq_true_iff.mp hrest
  obtain ⟨last, hlast, hnone⟩ := (Option.any_eq_true _ _).mp hlast
  refine ⟨mid, last, hmid, hlast, committed_of_firstRevision hfirst, fun ⟨p, hp, _⟩ => ?_⟩
  rw [hp] at hnone
  cases hnone

end ProposalPool

end PalmEngine.Design
