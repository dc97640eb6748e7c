import PalmEngine.Events.Payload
import PalmEngine.Lib.DistinctList
import PalmEngine.Lib.Strip

/-!
# The session store

Session records by their ids, the index of their ids, and the reverse index from instances to
the sessions that own them, which are documents of their own. Writing a record clears the owner
of the instances it no longer lists and sets that of those it lists; deleting a record clears
the owner of all its instances. An owner is cleared only if it is the session itself.
-/

namespace PalmEngine.Session

open PalmEngine.Lib PalmEngine.Events

/-- The states of a session. -/
inductive SessionStatus where
  | opened
  | active
  | closed
  deriving DecidableEq, Repr

/-- A session with its attached instances in order and the one in focus. -/
structure SessionRecord where
  sessionId : String
  status : SessionStatus
  instanceIds : List String
  activeInstanceId : Option String
  metadata : Payload

/-- The record read back from its document, without a focus on what is not attached. -/
def SessionRecord.fromDict (r : SessionRecord) : SessionRecord :=
  { r with activeInstanceId :=
      (r.activeInstanceId.map strip).filter fun i => i ≠ "" ∧ i ∈ r.instanceIds }

/-- The attached instances are distinct trimmed names, and the one in focus is among them. -/
structure SessionRecord.Clean (r : SessionRecord) : Prop where
  stripped : ∀ i ∈ r.instanceIds, strip i = i ∧ i ≠ ""
  nodup : r.instanceIds.Nodup
  active_mem : ∀ i ∈ r.activeInstanceId, i ∈ r.instanceIds

/-- A clean record is read back as it was. -/
theorem SessionRecord.Clean.fromDict_eq {r : SessionRecord} (h : r.Clean) : r.fromDict = r := by
  cases hactive : r.activeInstanceId with
  | none => cases r; simp_all [fromDict]
  | some i =>
    have hmem := h.active_mem i hactive
    obtain ⟨hstrip, hne⟩ := h.stripped i hmem
    cases r; simp_all [fromDict, Option.filter]

/-- The records by session id, their index, and the owners by instance id. -/
structure SessionStore where
  entries : Dict String SessionRecord
  index : DistinctList String
  byInstance : Dict String String
  id_eq : ∀ sid r, entries.get? sid = some r → r.sessionId = sid

namespace SessionStore

/-- The store over an empty storage. -/
def empty : SessionStore := ⟨.empty, .empty, .empty, fun _ _ h => (nomatch h)⟩

/-- Write a record under its id. -/
def setEntry (s : SessionStore) (r : SessionRecord) : SessionStore where
  entries := s.entries.set r.sessionId r
  index := s.index
  byInstance := s.byInstance
  id_eq sid r' h := by
    by_cases hid : sid = r.sessionId
    · rw [hid, Dict.get?_set_self] at h
      exact hid ▸ Option.some.inj h ▸ rfl
    · rw [Dict.get?_set_ne _ _ hid] at h
      exact s.id_eq sid r' h

/-- Delete a record. -/
def eraseEntry (s : SessionStore) (sid : String) : SessionStore where
  entries := s.entries.erase sid
  index := s.index
  byInstance := s.byInstance
  id_eq sid' r h := by
    rw [Dict.get?_erase] at h
    split at h
    · cases h
    · exact s.id_eq sid' r h

/-- Read a record. -/
def get (s : SessionStore) (sid : String) : Option SessionRecord :=
  (s.entries.get? sid).map SessionRecord.fromDict

/-- The session that owns an instance. -/
def sessionIdForInstance (s : SessionStore) (instanceId : String) : Option String :=
  if strip instanceId = "" then none else s.byInstance.get? (strip instanceId)

/-- Set the owner of an instance. -/
def setInstanceOwner (sid : String) (s : SessionStore) (instanceId : String) : SessionStore :=
  if strip instanceId = "" then s
  else { s with byInstance := s.byInstance.set (strip instanceId) sid }

/-- Clear the owner of an instance if it is the expected session. -/
def clearInstanceOwner (expected : String) (s : SessionStore) (instanceId : String) :
    SessionStore :=
  if strip instanceId = "" then s
  else match s.byInstance.get? (strip instanceId) with
    | none => { s with byInstance := s.byInstance.erase (strip instanceId) }
    | some owner =>
      if owner = expected then { s with byInstance := s.byInstance.erase (strip instanceId) } else s

/-- Write a record and bring the owners of its instances in line. -/
def put (s : SessionStore) (r : SessionRecord) : SessionStore :=
  let old := ((s.get r.sessionId).map SessionRecord.instanceIds).getD []
  let stored := s.setEntry r
  let indexed := { stored with index := stored.index.add r.sessionId }
  let cleared := (old.dedup.filter (· ∉ r.instanceIds)).foldl (clearInstanceOwner r.sessionId) indexed
  r.instanceIds.dedup.foldl (setInstanceOwner r.sessionId) cleared

/-- Delete a record and clear the owners of its instances. -/
def delete (s : SessionStore) (sid : String) : SessionStore :=
  match s.get sid with
  | none => { s with index := s.index.remove sid }
  | some r =>
    let cleared := r.instanceIds.foldl (clearInstanceOwner sid) s
    let erased := cleared.eraseEntry sid
    { erased with index := erased.index.remove sid }

@[simp] theorem entries_setEntry (s : SessionStore) (r : SessionRecord) :
    (s.setEntry r).entries = s.entries.set r.sessionId r := rfl

@[simp] theorem byInstance_setEntry (s : SessionStore) (r : SessionRecord) :
    (s.setEntry r).byInstance = s.byInstance := rfl

@[simp] theorem entries_eraseEntry (s : SessionStore) (sid : String) :
    (s.eraseEntry sid).entries = s.entries.erase sid := rfl

@[simp] theorem byInstance_eraseEntry (s : SessionStore) (sid : String) :
    (s.eraseEntry sid).byInstance = s.byInstance := rfl

@[simp] theorem entries_setInstanceOwner (s : SessionStore) (sid i : String) :
    (setInstanceOwner sid s i).entries = s.entries := by
  unfold setInstanceOwner
  split <;> rfl

@[simp] theorem entries_clearInstanceOwner (s : SessionStore) (sid i : String) :
    (clearInstanceOwner sid s i).entries = s.entries := by
  unfold clearInstanceOwner
  split
  · rfl
  · split
    · rfl
    · split <;> rfl

/-- Setting owners leaves the records. -/
theorem entries_foldl_setInstanceOwner (s : SessionStore) (sid : String) (ids : List String) :
    (ids.foldl (setInstanceOwner sid) s).entries = s.entries := by
  induction ids generalizing s with
  | nil => rfl
  | cons i ids ih => rw [List.foldl_cons, ih, entries_setInstanceOwner]

/-- Clearing owners leaves the records. -/
theorem entries_foldl_clearInstanceOwner (s : SessionStore) (sid : String) (ids : List String) :
    (ids.foldl (clearInstanceOwner sid) s).entries = s.entries := by
  induction ids generalizing s with
  | nil => rfl
  | cons i ids ih => rw [List.foldl_cons, ih, entries_clearInstanceOwner]

/-- The owners after setting that of some trimmed instances. -/
theorem get?_foldl_setInstanceOwner {s : SessionStore} {sid : String} {ids : List String}
    (hids : ∀ i ∈ ids, strip i = i ∧ i ≠ "") (i : String) :
    (ids.foldl (setInstanceOwner sid) s).byInstance.get? i =
      if i ∈ ids then some sid else s.byInstance.get? i := by
  induction ids generalizing s with
  | nil => simp
  | cons j ids ih =>
    obtain ⟨hstrip, hne⟩ := hids j List.mem_cons_self
    rw [List.foldl_cons, ih fun i hi => hids i (List.mem_cons_of_mem _ hi)]
    simp only [setInstanceOwner, hstrip, if_neg hne]
    by_cases hi : i = j
    · simp [hi]
    · simp [hi, Dict.get?_set_ne _ _ hi]

/-- The owners after clearing that of some trimmed instances. -/
theorem get?_foldl_clearInstanceOwner {s : SessionStore} {sid : String} {ids : List String}
    (hids : ∀ i ∈ ids, strip i = i ∧ i ≠ "") (i : String) :
    (ids.foldl (clearInstanceOwner sid) s).byInstance.get? i =
      if i ∈ ids ∧ s.byInstance.get? i = some sid then none else s.byInstance.get? i := by
  induction ids generalizing s with
  | nil => simp
  | cons j ids ih =>
    obtain ⟨hstrip, hne⟩ := hids j List.mem_cons_self
    rw [List.foldl_cons, ih fun i hi => hids i (List.mem_cons_of_mem _ hi)]
    have hj : (clearInstanceOwner sid s j).byInstance.get? i =
        if i = j ∧ s.byInstance.get? i = some sid then none else s.byInstance.get? i := by
      simp only [clearInstanceOwner, hstrip, if_neg hne]
      split
      · rename_i hnone
        by_cases hi : i = j <;> simp [hi, Dict.get?_erase, hnone]
      · rename_i owner hsome
        by_cases hi : i = j <;> by_cases howner : owner = sid <;>
          simp [hi, howner, Dict.get?_erase, hsome]
    rw [hj]
    by_cases hi : i = j <;> by_cases howner : s.byInstance.get? i = some sid <;>
      simp [hi, howner]

/-- Each stored record is clean, and the owner of an instance is the session that lists it. -/
structure Owned (s : SessionStore) : Prop where
  clean : ∀ sid r, s.entries.get? sid = some r → r.Clean
  owner_iff : ∀ i sid, s.byInstance.get? i = some sid ↔
    ∃ r, s.entries.get? sid = some r ∧ i ∈ r.instanceIds

/-- Nothing is owned at the start. -/
theorem empty_owned : empty.Owned where
  clean _ _ h := nomatch h
  owner_iff _ _ := ⟨fun h => (nomatch h), fun ⟨_, h, _⟩ => (nomatch h)⟩

namespace Owned

variable {s : SessionStore} {sid : String} {r : SessionRecord}

/-- A read returns what is stored. -/
theorem get_eq (h : s.Owned) (sid : String) : s.get sid = s.entries.get? sid := by
  unfold SessionStore.get
  cases hget : s.entries.get? sid with
  | none => rfl
  | some r => exact congrArg some (h.clean sid r hget).fromDict_eq

/-- An instance that a session lists has that session as its owner. -/
theorem owner_of_mem (h : s.Owned) (hget : s.entries.get? sid = some r) {i : String}
    (hi : i ∈ r.instanceIds) : s.byInstance.get? i = some sid :=
  (h.owner_iff i sid).mpr ⟨r, hget, hi⟩

/-- The owners after writing a record: the session owns what the record lists and nothing else,
and what others own stays theirs. -/
theorem get?_byInstance_put (h : s.Owned) (hr : r.Clean) (i : String) :
    (s.put r).byInstance.get? i =
      if i ∈ r.instanceIds then some r.sessionId
      else if s.byInstance.get? i = some r.sessionId then none else s.byInstance.get? i := by
  have hold : ∀ j ∈ ((s.get r.sessionId).map SessionRecord.instanceIds).getD [],
      strip j = j ∧ j ≠ "" := by
    rw [h.get_eq]
    cases hget : s.entries.get? r.sessionId with
    | none => simp
    | some old => exact (h.clean _ _ hget).stripped
  have hlisted : s.byInstance.get? i = some r.sessionId →
      i ∈ ((s.get r.sessionId).map SessionRecord.instanceIds).getD [] := by
    intro howner
    obtain ⟨old, hget, hi⟩ := (h.owner_iff i _).mp howner
    rw [h.get_eq, hget]
    exact hi
  unfold SessionStore.put
  simp only
  rw [get?_foldl_setInstanceOwner fun j hj => hr.stripped j (List.mem_dedup.mp hj),
    get?_foldl_clearInstanceOwner fun j hj =>
      hold j (List.mem_dedup.mp (List.mem_filter.mp hj).1)]
  by_cases hi : i ∈ r.instanceIds
  · simp [hi]
  · by_cases howner : s.byInstance.get? i = some r.sessionId
    · simp [hi, howner, hlisted howner]
    · simp [hi, howner]

/-- Writing a clean record whose instances no other session owns keeps the owners exact. -/
theorem put (h : s.Owned) (hr : r.Clean)
    (howner : ∀ i ∈ r.instanceIds, ∀ owner, s.byInstance.get? i = some owner →
      owner = r.sessionId) : (s.put r).Owned := by
  have hentries : (s.put r).entries = s.entries.set r.sessionId r := by
    simp [SessionStore.put, entries_foldl_setInstanceOwner, entries_foldl_clearInstanceOwner]
  refine ⟨fun sid r' hget => ?_, fun i sid => ?_⟩
  · rw [hentries] at hget
    by_cases hsid : sid = r.sessionId
    · rw [hsid, Dict.get?_set_self] at hget
      exact Option.some.inj hget ▸ hr
    · rw [Dict.get?_set_ne _ _ hsid] at hget
      exact h.clean sid r' hget
  · rw [hentries, h.get?_byInstance_put hr]
    by_cases hsid : sid = r.sessionId
    · subst hsid
      by_cases hi : i ∈ r.instanceIds
      · simp [hi]
      · by_cases hold : s.byInstance.get? i = some r.sessionId <;> simp [hi, hold]
    · rw [Dict.get?_set_ne _ _ hsid, ← h.owner_iff]
      by_cases hi : i ∈ r.instanceIds
      · simp only [if_pos hi, Option.some.injEq, Ne.symm hsid, false_iff]
        exact fun hother => hsid (howner i hi sid hother)
      · by_cases hold : s.byInstance.get? i = some r.sessionId <;>
          simp [hi, hold, Ne.symm hsid]

/-- Deleting a record keeps the owners exact. -/
theorem delete (h : s.Owned) (sid : String) : (s.delete sid).Owned := by
  unfold SessionStore.delete
  rw [h.get_eq]
  cases hget : s.entries.get? sid with
  | none => exact ⟨h.clean, h.owner_iff⟩
  | some r =>
    have hclean := h.clean sid r hget
    refine ⟨fun sid' r' hget' => ?_, fun i sid' => ?_⟩
    · simp only [entries_eraseEntry, entries_foldl_clearInstanceOwner, Dict.get?_erase] at hget'
      split at hget'
      · cases hget'
      · exact h.clean sid' r' hget'
    · simp only [entries_eraseEntry, entries_foldl_clearInstanceOwner, byInstance_eraseEntry,
        get?_foldl_clearInstanceOwner hclean.stripped, Dict.get?_erase]
      by_cases hsid : sid' = sid
      · subst hsid
        have hlisted : s.byInstance.get? i = some sid' → i ∈ r.instanceIds := by
          intro howner
          obtain ⟨r', hget', hi⟩ := (h.owner_iff i sid').mp howner
          exact Option.some.inj (hget'.symm.trans hget) ▸ hi
        by_cases howner : s.byInstance.get? i = some sid'
        · simp [howner, hlisted howner]
        · simp [howner]
      · simp only [if_neg hsid]
        rw [← h.owner_iff]
        by_cases howner : s.byInstance.get? i = some sid
        · simp [howner, Ne.symm hsid]
        · simp [howner]

end Owned

end SessionStore

end PalmEngine.Session
