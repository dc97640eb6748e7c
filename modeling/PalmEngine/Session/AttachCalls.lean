import PalmEngine.Session.Plane
import PalmEngine.Lib.Pool

/-!
# Concurrent attaching and detaching

Attaching reads the record and the owner of the instance; both attaching and detaching then
write the record, the index of the sessions and the owners of the instances that the record
lists or lists no more, each in a step of its own. Other calls can come between.

The calls leave the owners and the lists in agreement, and lose no instance that was attached,
as long as each write of a record drops no instance of the list but the detached one and lists
none of another session, and each write of an owner goes by the lists or is made up for by a
write that another call is about to make.
-/

namespace PalmEngine.Session

open PalmEngine.Lib PalmEngine.Events

/-- An attaching or a detaching, with the order in which it goes through a set of instances. -/
structure AttachCall where
  isAttach : Bool
  sid : String
  instanceId : String
  order : List String → List String
  order_perm : ∀ ids, (order ids).Perm ids.dedup

namespace AttachCall

/-- The trimmed instance id. -/
def iid (call : AttachCall) : String := strip call.instanceId

@[simp] theorem mem_order (call : AttachCall) (ids : List String) (i : String) :
    i ∈ call.order ids ↔ i ∈ ids := by
  rw [(call.order_perm ids).mem_iff, List.mem_dedup]

end AttachCall

/-- The storage, and the attachments made: the pairs of a session and an instance that an attaching
put into the list or found in it, and that no detaching has taken out of it since. -/
structure AttachState where
  store : SessionStore
  attached : List (String × String)

/-- A call at one of its steps. -/
inductive AttachProc where
  /-- It has not read the record. -/
  | start (call : AttachCall)
  /-- An attaching that is about to read the owner of the instance. -/
  | ownerGet (call : AttachCall) (r : SessionRecord)
  /-- It is about to read the record again, before it writes it. -/
  | oldGet (call : AttachCall) (r : SessionRecord)
  /-- It is about to write the record. -/
  | entrySet (call : AttachCall) (r : SessionRecord) (old : List String)
  /-- It is about to read the index, with the owners to clear and to set after it. -/
  | indexGet (sid : String) (clears sets : List String)
  /-- It is about to write the index. -/
  | indexSet (sid : String) (index : DistinctList String) (clears sets : List String)
  /-- It is about to read the first owner to clear, or to set the first one. -/
  | owners (sid : String) (clears sets : List String)
  /-- It is about to clear an owner. -/
  | ownerErase (sid i : String) (clears sets : List String)
  /-- It has returned. -/
  | returned
  /-- It has raised an error. -/
  | raised (error : SessionPlaneError)

namespace SessionStore

/-- Write the index. -/
def setIndex (s : SessionStore) (index : DistinctList String) : SessionStore :=
  { s with index := index }

/-- Clear an owner. -/
def eraseOwner (s : SessionStore) (i : String) : SessionStore :=
  { s with byInstance := s.byInstance.erase i }

/-- The instances that a session lists, none if it is not there. -/
def listed (s : SessionStore) (sid : String) : List String :=
  ((s.entries.get? sid).map SessionRecord.instanceIds).getD []

/-- The lists after writing a record. -/
theorem listed_setEntry (s : SessionStore) (r : SessionRecord) (sid : String) :
    (s.setEntry r).listed sid = if sid = r.sessionId then r.instanceIds else s.listed sid := by
  unfold listed
  by_cases hsid : sid = r.sessionId
  · simp [hsid]
  · simp [hsid, Dict.get?_set_ne _ _ hsid]

/-- What a session lists is in its record. -/
theorem mem_listed_iff {s : SessionStore} {sid i : String} :
    i ∈ s.listed sid ↔ ∃ r, s.entries.get? sid = some r ∧ i ∈ r.instanceIds := by
  unfold listed
  cases s.entries.get? sid <;> simp

/-- A record that is read has its id and the instances of its session. -/
theorem get_spec {s : SessionStore} {sid : String} {r : SessionRecord} (h : s.get sid = some r) :
    r.sessionId = sid ∧ s.listed sid = r.instanceIds := by
  obtain ⟨stored, hget, rfl⟩ := Option.map_eq_some_iff.mp h
  exact ⟨s.id_eq sid stored hget, by simp [listed, hget, SessionRecord.fromDict]⟩

/-- A session that lists an instance is there. -/
theorem mem_keys_of_listed {s : SessionStore} {sid i : String} (h : i ∈ s.listed sid) :
    sid ∈ s.entries.keys := by
  obtain ⟨r, hget, -⟩ := mem_listed_iff.mp h
  exact (s.entries.mem_keys_iff sid).mpr ⟨r, hget⟩

end SessionStore

namespace AttachState

/-- Nothing is attached but what the lists hold. -/
def start (s : SessionStore) : AttachState :=
  ⟨s, s.entries.entries.flatMap fun e => e.2.instanceIds.map fun i => (e.1, i)⟩

/-- Note that an instance is attached. -/
def note (st : AttachState) (sid i : String) : AttachState :=
  { st with attached := (sid, i) :: st.attached }

/-- Write the record of a call. -/
def write (st : AttachState) (call : AttachCall) (r : SessionRecord) : AttachState where
  store := st.store.setEntry r
  attached :=
    if call.isAttach then (call.sid, call.iid) :: st.attached
    else st.attached.filter (· ≠ (call.sid, call.iid))

/-- Write the storage. -/
def withStore (st : AttachState) (s : SessionStore) : AttachState := { st with store := s }

end AttachState

namespace AttachProc

/-- The next step of a call. -/
def move (st : AttachState) : AttachProc → Option (AttachState × AttachProc)
  | start call =>
    if call.iid = "" then some (st, raised .instanceIdRequired)
    else match st.store.get call.sid with
      | none => some (st, raised (.notFound call.sid))
      | some r =>
        if call.isAttach then
          if r.status = .closed then some (st, raised (.closed call.sid))
          else some (if call.iid ∈ r.instanceIds then st.note call.sid call.iid else st,
            ownerGet call r)
        else match r.detach call.iid with
          | none => some (st, returned)
          | some changed => some (st, oldGet call changed)
  | ownerGet call r =>
    match (st.store.sessionIdForInstance call.iid).filter (· ≠ r.sessionId) with
    | some owner => some (st, raised (.alreadyAttached call.iid owner))
    | none =>
      match r.attach call.iid with
      | none => some (st, returned)
      | some changed => some (st, oldGet call changed)
  | oldGet call r =>
    some (st, entrySet call r (((st.store.get r.sessionId).map SessionRecord.instanceIds).getD []))
  | entrySet call r old =>
    some (st.write call r, indexGet r.sessionId (call.order (old.filter (· ∉ r.instanceIds)))
      (call.order r.instanceIds))
  | indexGet sid clears sets =>
    some (st, if sid ∈ st.store.index then owners sid clears sets
      else indexSet sid (st.store.index.add sid) clears sets)
  | indexSet sid index clears sets =>
    some (st.withStore (st.store.setIndex index), owners sid clears sets)
  | owners sid (i :: clears) sets =>
    if strip i = "" then some (st, owners sid clears sets)
    else match (st.store.byInstance.get? (strip i)).filter (· ≠ sid) with
      | some _ => some (st, owners sid clears sets)
      | none => some (st, ownerErase sid (strip i) clears sets)
  | ownerErase sid i clears sets =>
    some (st.withStore (st.store.eraseOwner i), owners sid clears sets)
  | owners sid [] (i :: sets) =>
    some (st.withStore (st.store.setInstanceOwner sid i), owners sid [] sets)
  | owners _ [] [] => some (st, returned)
  | returned | raised _ => none

/-- The call has returned or raised. -/
def isDone : AttachProc → Bool
  | returned | raised _ => true
  | _ => false

/-- The call is about to clear the owner of an instance if it is the session. -/
def clearsOwner (sid i : String) : AttachProc → Bool
  | indexGet sid' clears _ | indexSet sid' _ clears _ | owners sid' clears _ =>
    sid' = sid ∧ i ∈ clears
  | ownerErase sid' j clears _ => sid' = sid ∧ (i = j ∨ i ∈ clears)
  | _ => false

/-- The call is about to make the session the owner of an instance. -/
def setsOwner (sid i : String) : AttachProc → Bool
  | indexGet sid' _ sets | indexSet sid' _ _ sets | owners sid' _ sets | ownerErase sid' _ _ sets =>
    sid' = sid ∧ i ∈ sets
  | _ => false

end AttachProc

/-- Concurrent calls on the sessions. -/
abbrev AttachPool := Pool AttachState AttachProc

namespace AttachPool

/-- An instance that the session lists is about to get the session as its owner. -/
def SetsListed (pool : AttachPool) (sid i : String) : Prop :=
  i ∈ pool.shared.store.listed sid → ∃ p ∈ pool.procs, p.setsOwner sid i

instance (pool : AttachPool) (sid i : String) : Decidable (pool.SetsListed sid i) :=
  inferInstanceAs (Decidable (_ → _))

/-- The write goes by the lists. One of a record keeps the listed instances but for the one that it
detaches and clears, and lists none that another session lists. One that sets an owner finds the
instance listed or about to be cleared, and one that sets or clears an owner finds it listed by no
other session that is not about to become the owner. -/
def GoesByLists (pool : AttachPool) : AttachProc → Prop
  | .entrySet call r old =>
    (∀ i ∈ pool.shared.store.listed r.sessionId,
      i ∈ r.instanceIds ∨ call.isAttach = false ∧ i = call.iid ∧ i ∈ old) ∧
    ∀ i ∈ r.instanceIds, ∀ sid ∈ pool.shared.store.entries.keys, sid ≠ r.sessionId →
      i ∉ pool.shared.store.listed sid
  | .owners sid [] (i :: _) =>
    (i ∈ pool.shared.store.listed sid ∨ ∃ p ∈ pool.procs, p.clearsOwner sid i) ∧
    ∀ sid' ∈ pool.shared.store.entries.keys, sid' ≠ sid → pool.SetsListed sid' i
  | .ownerErase _ i _ _ => ∀ sid ∈ pool.shared.store.entries.keys, pool.SetsListed sid i
  | _ => True

instance (pool : AttachPool) : ∀ p, Decidable (pool.GoesByLists p)
  | .entrySet _ _ _ => inferInstanceAs (Decidable (_ ∧ _))
  | .owners _ [] (_ :: _) => inferInstanceAs (Decidable (_ ∧ _))
  | .ownerErase _ _ _ _ => inferInstanceAs (Decidable (∀ _ ∈ _, _))
  | .owners _ [] [] | .owners _ (_ :: _) _ | .start _ | .ownerGet _ _ | .oldGet _ _
  | .indexGet _ _ _ | .indexSet _ _ _ _ | .returned | .raised _ => .isTrue trivial

end AttachPool

/-- The instances are trimmed names. -/
def Trimmed (ids : List String) : Prop := ∀ i ∈ ids, strip i = i ∧ i ≠ ""

/-- What a call has read and is about to write names its session and trimmed instances, and an
attaching writes its instance. -/
def AttachProc.Ready : AttachProc → Prop
  | .ownerGet call r => call.iid ≠ "" ∧ r.sessionId = call.sid ∧ Trimmed r.instanceIds
  | .oldGet call r =>
    r.sessionId = call.sid ∧ Trimmed r.instanceIds ∧ (call.isAttach → call.iid ∈ r.instanceIds)
  | .entrySet call r old =>
    r.sessionId = call.sid ∧ Trimmed r.instanceIds ∧ Trimmed old ∧
      (call.isAttach → call.iid ∈ r.instanceIds)
  | .indexGet _ clears sets | .indexSet _ _ clears sets | .owners _ clears sets
  | .ownerErase _ _ clears sets => Trimmed clears ∧ Trimmed sets
  | .start _ | .returned | .raised _ => True

/-- An instance is listed by at most one session; that session is its owner, or about to become it;
an owner lists the instance, or is about to be cleared; and what is attached is listed. -/
structure AttachPool.Consistent (pool : AttachPool) : Prop where
  unique : ∀ i sid sid', i ∈ pool.shared.store.listed sid → i ∈ pool.shared.store.listed sid' →
    sid = sid'
  owner_or_set : ∀ sid, ∀ i ∈ pool.shared.store.listed sid,
    pool.shared.store.byInstance.get? i = some sid ∨ ∃ p ∈ pool.procs, p.setsOwner sid i
  listed_or_cleared : ∀ sid i, pool.shared.store.byInstance.get? i = some sid →
    i ∈ pool.shared.store.listed sid ∨ ∃ p ∈ pool.procs, p.clearsOwner sid i
  attached_listed : ∀ sid i, (sid, i) ∈ pool.shared.attached → i ∈ pool.shared.store.listed sid
  trimmed : ∀ sid, Trimmed (pool.shared.store.listed sid)
  ready : ∀ p ∈ pool.procs, p.Ready

/-- The lists and the reverse index agree, and nothing attached is lost. -/
structure AttachState.Agreed (st : AttachState) : Prop where
  unique : ∀ i sid sid', i ∈ st.store.listed sid → i ∈ st.store.listed sid' → sid = sid'
  owner_iff : ∀ i sid, st.store.byInstance.get? i = some sid ↔ i ∈ st.store.listed sid
  attached_listed : ∀ sid i, (sid, i) ∈ st.attached → i ∈ st.store.listed sid

namespace AttachPool.Consistent

variable {pool : AttachPool} {n : ℕ} {p q : AttachProc} {st : AttachState}

/-- A turn that writes neither a record nor an owner. -/
theorem quiet (h : pool.Consistent) (hp : pool.procs[n]? = some p)
    (hentries : st.store.entries = pool.shared.store.entries)
    (hbyInstance : st.store.byInstance = pool.shared.store.byInstance)
    (hattached : ∀ sid i, (sid, i) ∈ st.attached →
      (sid, i) ∈ pool.shared.attached ∨ i ∈ pool.shared.store.listed sid)
    (hsets : ∀ sid i, p.setsOwner sid i → q.setsOwner sid i)
    (hclears : ∀ sid i, p.clearsOwner sid i →
      q.clearsOwner sid i ∨ pool.shared.store.byInstance.get? i ≠ some sid)
    (hready : q.Ready) : AttachPool.Consistent ⟨st, pool.procs.set n q⟩ := by
  have hlisted (sid : String) : st.store.listed sid = pool.shared.store.listed sid := by
    simp only [SessionStore.listed, hentries]
  refine ⟨?_, ?_, ?_, ?_, ?_, ?_⟩
  · simp only [hlisted]
    exact h.unique
  · intro sid i hi
    simp only [hlisted, hbyInstance] at hi ⊢
    exact (h.owner_or_set sid i hi).imp_right (Pool.exists_mem_set hp (hsets sid i))
  · intro sid i howner
    simp only [hlisted, hbyInstance] at howner ⊢
    refine (h.listed_or_cleared sid i howner).imp_right fun hex => ?_
    exact Pool.exists_mem_set hp (fun hc => (hclears sid i hc).resolve_right (· howner)) hex
  · intro sid i hi
    simp only [hlisted]
    exact (hattached sid i hi).elim (h.attached_listed sid i) id
  · simp only [hlisted]
    exact h.trimmed
  · intro r hr
    rcases Pool.mem_set_cases hr with rfl | hr
    · exact hready
    · exact h.ready r hr

/-- A turn that sets the owner of an instance. -/
theorem setOwner (h : pool.Consistent) {sid i : String} {sets : List String}
    (hp : pool.procs[n]? = some (.owners sid [] (i :: sets)))
    (hok : pool.GoesByLists (.owners sid [] (i :: sets))) :
    AttachPool.Consistent ⟨pool.shared.withStore (pool.shared.store.setInstanceOwner sid i),
      pool.procs.set n (.owners sid [] sets)⟩ := by
  obtain ⟨htrim, htrims⟩ := h.ready _ (List.mem_of_getElem? hp)
  obtain ⟨hstrip, hne⟩ := htrims i List.mem_cons_self
  obtain ⟨hlisted, hothers⟩ := hok
  have hstore : pool.shared.store.setInstanceOwner sid i =
      { pool.shared.store with byInstance := pool.shared.store.byInstance.set i sid } := by
    simp [SessionStore.setInstanceOwner, hstrip, hne]
  rw [hstore]
  refine ⟨h.unique, fun sid' j hj => ?_, fun sid' j howner => ?_, h.attached_listed, h.trimmed,
    fun r hr => ?_⟩
  · change (pool.shared.store.byInstance.set i sid).get? j = some sid' ∨ _
    have hset (hsame : sid' = sid → j ≠ i) (hex : ∃ p ∈ pool.procs, p.setsOwner sid' j) :
        ∃ p ∈ pool.procs.set n (.owners sid [] sets), p.setsOwner sid' j := by
      refine Pool.exists_mem_set hp (fun hsets => ?_) hex
      simp only [AttachProc.setsOwner, decide_eq_true_eq, List.mem_cons] at hsets ⊢
      exact ⟨hsets.1, hsets.2.resolve_left (hsame hsets.1.symm)⟩
    by_cases hji : j = i
    · subst hji
      by_cases hsid : sid' = sid
      · subst hsid
        exact .inl (Dict.get?_set_self _ _ _)
      · have hkey := SessionStore.mem_keys_of_listed hj
        exact .inr (hset (fun heq => absurd heq hsid) (hothers sid' hkey hsid hj))
    · rw [Dict.get?_set_ne _ _ hji]
      exact (h.owner_or_set sid' j hj).imp_right (hset fun _ => hji)
  · change (pool.shared.store.byInstance.set i sid).get? j = some sid' at howner
    have hclear (hex : ∃ p ∈ pool.procs, p.clearsOwner sid' j) :
        ∃ p ∈ pool.procs.set n (.owners sid [] sets), p.clearsOwner sid' j :=
      Pool.exists_mem_set hp (fun hclears => hclears) hex
    by_cases hji : j = i
    · subst hji
      obtain rfl : sid = sid' := by simpa using howner
      exact hlisted.imp_right hclear
    · rw [Dict.get?_set_ne _ _ hji] at howner
      exact (h.listed_or_cleared sid' j howner).imp_right hclear
  · rcases Pool.mem_set_cases hr with rfl | hr
    · exact ⟨htrim, fun j hj => htrims j (List.mem_cons_of_mem _ hj)⟩
    · exact h.ready r hr

/-- A turn that clears the owner of an instance. -/
theorem eraseOwner (h : pool.Consistent) {sid i : String} {clears sets : List String}
    (hp : pool.procs[n]? = some (.ownerErase sid i clears sets))
    (hok : pool.GoesByLists (.ownerErase sid i clears sets)) :
    AttachPool.Consistent ⟨pool.shared.withStore (pool.shared.store.eraseOwner i),
      pool.procs.set n (.owners sid clears sets)⟩ := by
  have hready := h.ready _ (List.mem_of_getElem? hp)
  refine ⟨h.unique, fun sid' j hj => ?_, fun sid' j howner => ?_, h.attached_listed, h.trimmed,
    fun r hr => ?_⟩
  · change (pool.shared.store.byInstance.erase i).get? j = some sid' ∨ _
    have hset (hex : ∃ p ∈ pool.procs, p.setsOwner sid' j) :
        ∃ p ∈ pool.procs.set n (.owners sid clears sets), p.setsOwner sid' j :=
      Pool.exists_mem_set hp (fun hsets => hsets) hex
    by_cases hji : j = i
    · subst hji
      exact .inr (hset (hok sid' (SessionStore.mem_keys_of_listed hj) hj))
    · rw [Dict.get?_erase, if_neg hji]
      exact (h.owner_or_set sid' j hj).imp_right hset
  · change (pool.shared.store.byInstance.erase i).get? j = some sid' at howner
    rw [Dict.get?_erase] at howner
    split at howner
    · cases howner
    · rename_i hji
      refine (h.listed_or_cleared sid' j howner).imp_right fun hex => ?_
      refine Pool.exists_mem_set hp (fun hclears => ?_) hex
      simp only [AttachProc.clearsOwner, decide_eq_true_eq] at hclears ⊢
      exact ⟨hclears.1, hclears.2.resolve_left hji⟩
  · rcases Pool.mem_set_cases hr with rfl | hr
    · exact hready
    · exact h.ready r hr

/-- A turn that writes a record. -/
theorem write (h : pool.Consistent) {call : AttachCall} {r : SessionRecord} {old : List String}
    (hp : pool.procs[n]? = some (.entrySet call r old))
    (hok : pool.GoesByLists (.entrySet call r old)) :
    AttachPool.Consistent ⟨pool.shared.write call r,
      pool.procs.set n (.indexGet r.sessionId (call.order (old.filter (· ∉ r.instanceIds)))
        (call.order r.instanceIds))⟩ := by
  obtain ⟨hid, htrim, htrimOld, hwrites⟩ := h.ready _ (List.mem_of_getElem? hp)
  obtain ⟨hkeeps, hothers⟩ := hok
  have hlisted (sid : String) : (pool.shared.write call r).store.listed sid =
      if sid = r.sessionId then r.instanceIds else pool.shared.store.listed sid :=
    pool.shared.store.listed_setEntry r sid
  have hother (sid i : String) (hsid : sid ≠ r.sessionId) (hi : i ∈ r.instanceIds) :
      i ∉ pool.shared.store.listed sid := fun hmem =>
    hothers i hi sid (SessionStore.mem_keys_of_listed hmem) hsid hmem
  refine ⟨fun i sid sid' hi hi' => ?_, fun sid i hi => ?_, fun sid i howner => ?_,
    fun sid i hattached => ?_, fun sid => ?_, fun p hp' => ?_⟩
  · simp only [hlisted] at hi hi'
    split at hi <;> split at hi'
    · simp [*]
    · exact absurd hi' (hother sid' i ‹_› hi)
    · exact absurd hi (hother sid i ‹_› hi')
    · exact h.unique i sid sid' hi hi'
  · simp only [hlisted] at hi
    split at hi
    · rename_i hsid
      refine .inr ⟨_, Pool.mem_set_self hp, ?_⟩
      simp [AttachProc.setsOwner, hsid, hi]
    · refine (h.owner_or_set sid i hi).imp_right fun hex => ?_
      exact Pool.exists_mem_set hp (fun hsets => (nomatch hsets)) hex
  · simp only [hlisted]
    have hclear (hex : ∃ p ∈ pool.procs, p.clearsOwner sid i) :
        ∃ p ∈ pool.procs.set n (.indexGet r.sessionId
          (call.order (old.filter (· ∉ r.instanceIds))) (call.order r.instanceIds)),
          p.clearsOwner sid i :=
      Pool.exists_mem_set hp (fun hclears => (nomatch hclears)) hex
    rcases h.listed_or_cleared sid i howner with hi | hex
    · split
      · rename_i hsid
        subst hsid
        by_cases hnew : i ∈ r.instanceIds
        · exact .inl hnew
        · obtain ⟨-, -, hold⟩ := (hkeeps i hi).resolve_left hnew
          refine .inr ⟨_, Pool.mem_set_self hp, ?_⟩
          simp [AttachProc.clearsOwner, hold, hnew]
      · exact .inl hi
    · exact .inr (hclear hex)
  · have hkept (hold : (sid, i) ∈ pool.shared.attached)
        (hnot : ¬ (call.isAttach = false ∧ (sid, i) = (call.sid, call.iid))) :
        i ∈ (pool.shared.write call r).store.listed sid := by
      have hi := h.attached_listed sid i hold
      rw [hlisted]
      split
      · rename_i hsid
        subst hsid
        refine (hkeeps i hi).resolve_right fun ⟨hdetach, heq, _⟩ => hnot ⟨hdetach, ?_⟩
        rw [heq, hid]
      · exact hi
    unfold AttachState.write at hattached
    simp only at hattached
    split at hattached
    · rename_i hattach
      rcases List.mem_cons.mp hattached with heq | hold
      · cases heq
        rw [hlisted, if_pos hid.symm]
        exact hwrites hattach
      · exact hkept hold fun hnot => by simp [hattach] at hnot
    · obtain ⟨hold, hne⟩ := List.mem_filter.mp hattached
      exact hkept hold fun hnot => by simp [hnot.2] at hne
  · rw [hlisted]
    split
    · exact htrim
    · exact h.trimmed sid
  · rcases Pool.mem_set_cases hp' with rfl | hp'
    · refine ⟨fun i hi => ?_, fun i hi => ?_⟩
      · exact htrimOld i (List.mem_filter.mp ((call.mem_order _ i).mp hi)).1
      · exact htrim i ((call.mem_order _ i).mp hi)
    · exact h.ready p hp'

/-- A turn of a call that has written nothing yet. -/
theorem early (h : pool.Consistent) (hp : pool.procs[n]? = some p)
    (hsets : ∀ sid i, p.setsOwner sid i = false) (hclears : ∀ sid i, p.clearsOwner sid i = false)
    (hready : q.Ready) : AttachPool.Consistent ⟨pool.shared, pool.procs.set n q⟩ :=
  h.quiet hp rfl rfl (fun _ _ => .inl) (fun sid i hs => absurd (hs.symm.trans (hsets sid i)) nofun)
    (fun sid i hc => absurd (hc.symm.trans (hclears sid i)) nofun) hready

/-- The first turn of a call. -/
theorem begin (h : pool.Consistent) {call : AttachCall}
    (hp : pool.procs[n]? = some (.start call))
    (hmove : AttachProc.move pool.shared (.start call) = some (st, q)) :
    AttachPool.Consistent ⟨st, pool.procs.set n q⟩ := by
  simp only [AttachProc.move] at hmove
  split at hmove
  · cases hmove
    exact h.early hp (fun _ _ => rfl) (fun _ _ => rfl) trivial
  · rename_i hne
    split at hmove
    · cases hmove
      exact h.early hp (fun _ _ => rfl) (fun _ _ => rfl) trivial
    · rename_i r hget
      obtain ⟨hid, hlisted⟩ := SessionStore.get_spec hget
      have htrim : Trimmed r.instanceIds := hlisted ▸ h.trimmed call.sid
      split at hmove
      · split at hmove <;> cases hmove
        · exact h.early hp (fun _ _ => rfl) (fun _ _ => rfl) trivial
        · split
          · rename_i hi
            refine h.quiet hp rfl rfl (fun sid i hmem => ?_) (fun _ _ hs => (nomatch hs))
              (fun _ _ hc => (nomatch hc)) ⟨hne, hid, htrim⟩
            rcases List.mem_cons.mp hmem with heq | hold
            · cases heq
              exact .inr (hlisted ▸ hi)
            · exact .inl hold
          · exact h.early hp (fun _ _ => rfl) (fun _ _ => rfl) ⟨hne, hid, htrim⟩
      · rename_i hdetach
        split at hmove <;> cases hmove
        · exact h.early hp (fun _ _ => rfl) (fun _ _ => rfl) trivial
        · rename_i changed hchanged
          obtain ⟨hid', hmem⟩ := SessionRecord.detach_spec hchanged
          exact h.early hp (fun _ _ => rfl) (fun _ _ => rfl)
            ⟨hid'.trans hid, fun i hi => htrim i (hmem i hi), fun hattach => absurd hattach hdetach⟩

/-- The turn of an attaching that reads the owner. -/
theorem readOwner (h : pool.Consistent) {call : AttachCall} {r : SessionRecord}
    (hp : pool.procs[n]? = some (.ownerGet call r))
    (hmove : AttachProc.move pool.shared (.ownerGet call r) = some (st, q)) :
    AttachPool.Consistent ⟨st, pool.procs.set n q⟩ := by
  obtain ⟨hne, hid, htrim⟩ := h.ready _ (List.mem_of_getElem? hp)
  simp only [AttachProc.move] at hmove
  split at hmove
  · cases hmove
    exact h.early hp (fun _ _ => rfl) (fun _ _ => rfl) trivial
  · split at hmove <;> cases hmove
    · exact h.early hp (fun _ _ => rfl) (fun _ _ => rfl) trivial
    · rename_i changed hchanged
      obtain ⟨hid', hmem, hold⟩ := SessionRecord.attach_spec hchanged
      refine h.early hp (fun _ _ => rfl) (fun _ _ => rfl)
        ⟨hid'.trans hid, fun i hi => ?_, fun _ => hmem⟩
      rcases hold i hi with hi | rfl
      · exact htrim i hi
      · exact ⟨strip_strip _, hne⟩

/-- The turn that reads the owner of an instance to clear. -/
theorem readCleared (h : pool.Consistent) {sid i : String} {clears sets : List String}
    (hp : pool.procs[n]? = some (.owners sid (i :: clears) sets))
    (hmove : AttachProc.move pool.shared (.owners sid (i :: clears) sets) = some (st, q)) :
    AttachPool.Consistent ⟨st, pool.procs.set n q⟩ := by
  obtain ⟨htrim, htrims⟩ := h.ready _ (List.mem_of_getElem? hp)
  obtain ⟨hstrip, hne⟩ := htrim i List.mem_cons_self
  have hrest : Trimmed clears := fun j hj => htrim j (List.mem_cons_of_mem _ hj)
  simp only [AttachProc.move, hstrip, if_neg hne] at hmove
  split at hmove <;> cases hmove
  · rename_i owner howner
    refine h.quiet hp rfl rfl (fun _ _ => .inl) (fun _ _ hs => hs) (fun sid' j hc => ?_)
      ⟨hrest, htrims⟩
    obtain ⟨hget, hother⟩ := Option.filter_eq_some_iff.mp howner
    simp only [AttachProc.clearsOwner, decide_eq_true_eq, List.mem_cons] at hc ⊢
    obtain ⟨rfl, rfl | hj⟩ := hc
    · right
      rw [hget]
      simpa using hother
    · exact .inl ⟨rfl, hj⟩
  · refine h.quiet hp rfl rfl (fun _ _ => .inl) (fun _ _ hs => hs) (fun sid' j hc => .inl ?_)
      ⟨hrest, htrims⟩
    simpa [AttachProc.clearsOwner] using hc

/-- A turn that goes by the lists keeps lists, owners and pending writes consistent. -/
theorem step {pool pool' : AttachPool} (h : pool.Consistent)
    (hstep : pool.step AttachProc.move n = some pool')
    (hok : Pool.OnTurn AttachPool.GoesByLists pool n pool') : pool'.Consistent := by
  obtain ⟨p, st, q, hp, hmove, rfl⟩ := Pool.step_cases hstep
  have hgoes := hok p hp
  have hready := h.ready p (List.mem_of_getElem? hp)
  cases p with
  | start call => exact h.begin hp hmove
  | ownerGet call r => exact h.readOwner hp hmove
  | oldGet call r =>
    cases hmove
    obtain ⟨hid, htrim, hwrites⟩ := hready
    refine h.early hp (fun _ _ => rfl) (fun _ _ => rfl) ⟨hid, htrim, ?_, hwrites⟩
    cases hget : pool.shared.store.get r.sessionId with
    | none => exact fun i hi => (nomatch hi)
    | some old =>
      have hold := h.trimmed r.sessionId
      rw [(SessionStore.get_spec hget).2] at hold
      exact hold
  | entrySet call r old =>
    cases hmove
    exact h.write hp hgoes
  | indexGet sid clears sets =>
    cases hmove
    split <;> exact h.quiet hp rfl rfl (fun _ _ => .inl) (fun _ _ hs => hs)
      (fun _ _ hc => .inl hc) hready
  | indexSet sid index clears sets =>
    cases hmove
    exact h.quiet hp rfl rfl (fun _ _ => .inl) (fun _ _ hs => hs) (fun _ _ hc => .inl hc) hready
  | owners sid clears sets =>
    cases clears with
    | nil =>
      cases sets with
      | nil =>
        cases hmove
        exact h.early hp (by simp [AttachProc.setsOwner]) (by simp [AttachProc.clearsOwner]) trivial
      | cons i sets =>
        cases hmove
        exact h.setOwner hp hgoes
    | cons i clears => exact h.readCleared hp hmove
  | ownerErase sid i clears sets =>
    cases hmove
    exact h.eraseOwner hp hgoes
  | returned | raised _ => cases hmove

/-- Once all calls are done nothing is about to be written. -/
theorem agreed (h : pool.Consistent) (hdone : ∀ p ∈ pool.procs, p.isDone) :
    pool.shared.Agreed where
  unique := h.unique
  owner_iff i sid := by
    constructor
    · intro howner
      refine (h.listed_or_cleared sid i howner).resolve_right fun ⟨p, hp, hclears⟩ => ?_
      have := hdone p hp
      cases p <;> simp_all [AttachProc.isDone, AttachProc.clearsOwner]
    · intro hi
      refine (h.owner_or_set sid i hi).resolve_right fun ⟨p, hp, hsets⟩ => ?_
      have := hdone p hp
      cases p <;> simp_all [AttachProc.isDone, AttachProc.setsOwner]
  attached_listed := h.attached_listed

end AttachPool.Consistent

namespace AttachPool

/-- No call has begun. -/
def start (s : SessionStore) (calls : List AttachCall) : AttachPool :=
  ⟨.start s, calls.map .start⟩

/-- A store with exact owners is consistent while nothing is about to be written. -/
theorem start_consistent {s : SessionStore} (h : s.Owned) (calls : List AttachCall) :
    (start s calls).Consistent where
  unique i sid sid' hi hi' := by
    have howner := (h.owner_iff i sid).mpr (SessionStore.mem_listed_iff.mp hi)
    have howner' := (h.owner_iff i sid').mpr (SessionStore.mem_listed_iff.mp hi')
    exact Option.some.inj (howner.symm.trans howner')
  owner_or_set sid i hi := .inl ((h.owner_iff i sid).mpr (SessionStore.mem_listed_iff.mp hi))
  listed_or_cleared sid i howner :=
    .inl (SessionStore.mem_listed_iff.mpr ((h.owner_iff i sid).mp howner))
  attached_listed sid i hi := by
    obtain ⟨e, he, hpair⟩ := List.mem_flatMap.mp hi
    obtain ⟨j, hj, heq⟩ := List.mem_map.mp hpair
    cases heq
    exact SessionStore.mem_listed_iff.mpr ⟨e.2, (Dict.get?_eq_some_iff _ _ _).mpr he, hj⟩
  trimmed sid i hi := by
    obtain ⟨r, hget, hi⟩ := SessionStore.mem_listed_iff.mp hi
    exact (h.clean sid r hget).stripped i hi
  ready p hp := by
    obtain ⟨call, -, rfl⟩ := List.mem_map.mp hp
    trivial

end AttachPool

/-- Concurrent attaching and detaching on a store with exact owners, in any interleaving of their
steps in which every write goes by the lists, leave every instance listed by at most one session,
the reverse index in agreement with the lists, and no attached instance out of its list. -/
theorem agreed_run {s : SessionStore} {calls : List AttachCall} {turns : List ℕ}
    {pool : AttachPool} (howned : s.Owned)
    (hrun : runSteps (Pool.step AttachProc.move) (AttachPool.start s calls) turns = some pool)
    (hok : AllSteps (Pool.step AttachProc.move) (Pool.OnTurn AttachPool.GoesByLists)
      (AttachPool.start s calls) turns)
    (hdone : ∀ p ∈ pool.procs, p.isDone) : pool.shared.Agreed :=
  (invariant_of_allSteps (fun _ _ _ h hstep hok => AttachPool.Consistent.step h hstep hok)
    (AttachPool.start_consistent howned calls) hok hrun).agreed hdone

/-- One session without instances. -/
def oneSession : SessionStore := SessionStore.empty.put ⟨"s", .opened, [], none, .empty⟩

/-- The session owns nothing. -/
theorem oneSession_owned : oneSession.Owned :=
  SessionStore.empty_owned.put ⟨by simp, by simp, by simp⟩ (by simp)

/-- A call that goes through sets of instances in the order of their lists. -/
def listOrderCall (isAttach : Bool) (sid instanceId : String) : AttachCall :=
  ⟨isAttach, sid, instanceId, List.dedup, fun _ => .refl _⟩

/-- An instance is attached, and then detached. -/
theorem agreed_run_sequence : ∃ pool : AttachPool,
    runSteps (Pool.step AttachProc.move) (AttachPool.start oneSession
      [listOrderCall true "s" "i", listOrderCall false "s" "i"])
      [0, 0, 0, 0, 0, 0, 0, 1, 1, 1, 1, 1, 1, 1] = some pool ∧ pool.shared.Agreed := by
  refine ⟨_, rfl, @agreed_run oneSession
    [listOrderCall true "s" "i", listOrderCall false "s" "i"]
    [0, 0, 0, 0, 0, 0, 0, 1, 1, 1, 1, 1, 1, 1] _ oneSession_owned rfl ?_ ?_⟩
  · decide
  · decide

/-- Two instances attached to one session by calls that read the record one after the other and
then write it. -/
theorem agreed_run_fails : ¬ ∀ (s : SessionStore) (calls : List AttachCall) (turns : List ℕ)
    (pool : AttachPool), s.Owned →
    runSteps (Pool.step AttachProc.move) (AttachPool.start s calls) turns = some pool →
      (∀ p ∈ pool.procs, p.isDone) → pool.shared.Agreed := by
  intro h
  have hagreed := h oneSession [listOrderCall true "s" "i", listOrderCall true "s" "j"]
    [0, 1, 0, 1, 0, 1, 0, 1, 0, 1, 0, 1, 0, 1] _ oneSession_owned rfl (by decide)
  have hlost := hagreed.attached_listed "s" "i" (by decide)
  revert hlost
  decide

end PalmEngine.Session
