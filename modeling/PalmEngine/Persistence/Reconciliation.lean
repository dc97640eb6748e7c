import Mathlib.Data.List.Sort
import PalmEngine.Persistence.InstanceRoundTrip

/-!
# Reconciling stored instances at startup

A repository keeps the record of each instance under a key of the storage, and a list of ids under
the key of the index, which would also be that of an instance with the id `index`. What is stored
may be anything: ids without records, records that cannot be decoded, entries of the index that are
no texts, records that carry another id than the one they are stored under.

Reconciliation goes through the ids of the cache and of the index. It takes an id without a record,
or with a running one that cannot be decoded, out of the index, and stores a running instance as
waiting, under the id that its record carries.
-/

namespace PalmEngine.Persistence.Stored

open PalmEngine.Lib

/-- The values of the language, in which a value is compared with a text, a list is no dictionary and
all there is to a list is its members. -/
structure StoredValues (K V : Type) extends ScriptValues K V where
  /-- Whether a value is a text. -/
  eqText : V → String → Bool
  eqText_iff : ∀ v s, eqText v s = true ↔ v = text s
  asDict_list : ∀ l, asDict (list l) = none
  eq_list_of_asList : ∀ v l, asList v = some l → v = list l

/-- What is stored is plain values. -/
def plainStoredValues : StoredValues String Context.Value where
  toScriptValues := Context.plainValues
  eqText v s := v.asStr = some s
  eqText_iff v s := by cases v <;> simp [Context.Value.asStr, Context.plainValues]
  asDict_list _ := rfl
  eq_list_of_asList v l h := by
    cases v <;> cases h
    rfl

/-- What a reconciliation has done. -/
structure ReconciliationReport where
  staleMarked : List String := []
  orphansRemoved : List String := []
  deriving DecidableEq, Repr

/-- A repository with an open storage. -/
structure InstanceRepository (K V : Type) where
  keyPrefix : String := "palm:instances"
  storage : Dict String V
  cache : Dict String (ProcessInstance K V) := .empty

variable {K V : Type}

section Model

variable [DecidableEq K]

/-- The status of a record. -/
def recordStatus (ops : StoredValues K V) (record : Dict K V) : String :=
  textOr ops.toScriptValues record "status" ""

/-- The id that a record carries. -/
def recordId (ops : StoredValues K V) (record : Dict K V) : Option String :=
  requiredText ops.toScriptValues record "instance_id"

/-- A record can be decoded. -/
def Decodes (ops : StoredValues K V) (record : Dict K V) : Prop :=
  ∃ now p, ProcessInstance.fromDict ops.toScriptValues now record = some p

/-- An instance that has been running is marked as waiting. -/
def ProcessInstance.reconciled (ops : StoredValues K V) (p : ProcessInstance K V)
    (now status : String) : ProcessInstance K V :=
  p.appendStatus ops.toScriptValues now "WAITING_FOR_INPUT"
    [("event", ops.text "reconciled_stale"), ("previous_status", ops.text status)]

namespace InstanceRepository

variable (ops : StoredValues K V) (r : InstanceRepository K V)

/-- The key of the record of an instance. -/
def key (i : String) : String := r.keyPrefix ++ ":" ++ i

/-- The key of the index. -/
def indexKey : String := r.keyPrefix ++ ":index"

/-- The index, if it is a list. -/
def index : Option (List V) := (r.storage.get? r.indexKey).bind ops.asList

/-- The entries of the index. -/
def indexEntries : List V := (r.index ops).getD []

/-- The ids that the entries of the index show. -/
def indexIds : List String := (r.indexEntries ops).map ops.str

/-- The ids of the cache and of the index, each of them once and in order. -/
def listInstanceIds : List String :=
  (r.cache.keys ++ r.indexIds ops).dedup.insertionSort (· ≤ ·)

/-- The record of an instance, if a dictionary is stored for it. -/
def loadRecord (i : String) : Option (Dict K V) := (r.storage.get? (r.key i)).bind ops.asDict

/-- Whether the index has the text of an id. -/
def hasId (i : String) : Bool := (r.indexEntries ops).any fun v => ops.eqText v i

/-- Put an id into the index unless it is there. -/
def updateIndex (i : String) : InstanceRepository K V :=
  if r.hasId ops i then r
  else { r with storage := r.storage.set r.indexKey (ops.list (r.indexEntries ops ++ [ops.text i])) }

/-- Take an id out of the index if it is a list. -/
def removeFromIndex (i : String) : InstanceRepository K V :=
  match r.index ops with
  | none => r
  | some ids =>
    { r with storage := r.storage.set r.indexKey (ops.list (ids.filter fun v => !ops.eqText v i)) }

/-- Store the record of an instance. -/
def storeRecord (p : ProcessInstance K V) : InstanceRepository K V :=
  { r with storage := r.storage.set (r.key p.instanceId) (ops.dict (p.toDict ops.toScriptValues)) }

/-- Save an instance under its id, in the cache and in the storage. -/
def save (p : ProcessInstance K V) : InstanceRepository K V :=
  let r := { r with cache := r.cache.set p.instanceId p }
  (r.storeRecord ops p).updateIndex ops p.instanceId

/-- Look at one of the listed ids. -/
def reconcileOne (clock : String → String) (s : InstanceRepository K V × ReconciliationReport)
    (i : String) : InstanceRepository K V × ReconciliationReport :=
  let orphan := { s.2 with orphansRemoved := s.2.orphansRemoved ++ [i] }
  match s.1.loadRecord ops i with
  | none => (s.1.removeFromIndex ops i, orphan)
  | some record =>
    let status := recordStatus ops record
    if status ≠ "RUNNING" then s
    else
      match ProcessInstance.fromDict ops.toScriptValues (clock i) record with
      | none => (s.1.removeFromIndex ops i, orphan)
      | some p =>
        (s.1.save ops (p.reconciled ops (clock i) status),
          { s.2 with staleMarked := s.2.staleMarked ++ [i] })

/-- Look at all listed ids. -/
def reconcile (clock : String → String) : InstanceRepository K V × ReconciliationReport :=
  (r.listInstanceIds ops).foldl (reconcileOne ops clock) (r, {})

/-- The record of an instance is a running one that can be decoded. -/
def IsStale (i : String) (record : Dict K V) : Prop :=
  r.loadRecord ops i = some record ∧ recordStatus ops record = "RUNNING" ∧ Decodes ops record

/-- An instance has a record, which can be decoded if it is a running one. -/
def Kept (i : String) : Prop :=
  ∃ record, r.loadRecord ops i = some record ∧
    (recordStatus ops record = "RUNNING" → Decodes ops record)

/-- What a reconciliation is to achieve: no listed instance with a record that can be decoded is
running, the index has the ids that it had and that are kept, a record that was not running is as
it was, and another reconciliation changes nothing. -/
structure Reconciles (r r' : InstanceRepository K V) : Prop where
  settled : ∀ i, i ∈ r.listInstanceIds ops ∨ i ∈ r'.listInstanceIds ops →
    ∀ record, ¬r'.IsStale ops i record
  index : ∀ i, i ∈ r'.indexIds ops ↔ i ∈ r.indexIds ops ∧ r.Kept ops i
  frame : ∀ i record, r.loadRecord ops i = some record → recordStatus ops record ≠ "RUNNING" →
    r'.loadRecord ops i = some record
  again : ∀ clock, (r'.reconcile ops clock).1 = r'

/-- Every listed running record that can be decoded carries the id it is stored under, which is in
the index, and the entries of the index are texts, but for those that show an id that is kept. -/
structure StoredByOwnId : Prop where
  own : ∀ i ∈ r.listInstanceIds ops, ∀ record, r.IsStale ops i record →
    recordId ops record = some i ∧ i ∈ r.indexIds ops
  texts : ∀ v ∈ r.indexEntries ops, v = ops.text (ops.str v) ∨ r.Kept ops (ops.str v)

end InstanceRepository

end Model

section Decoding

variable [DecidableEq K] {ops : StoredValues K V} {record : Dict K V} {p : ProcessInstance K V} {now : String}

/-- A decoded instance has the id that its record carries. -/
theorem recordId_of_fromDict
    (h : ProcessInstance.fromDict ops.toScriptValues now record = some p) :
    recordId ops record = some p.instanceId := by
  unfold ProcessInstance.fromDict at h
  iterate 5 obtain ⟨_, -, h⟩ := Option.bind_eq_some_iff.mp h
  obtain ⟨i, hi, h⟩ := Option.bind_eq_some_iff.mp h
  iterate 8 obtain ⟨_, -, h⟩ := Option.bind_eq_some_iff.mp h
  cases Option.some.inj h
  exact hi

/-- Whether a record can be decoded does not depend on the clock. -/
theorem Decodes.exists_fromDict (h : Decodes ops record) (now : String) :
    ∃ p, ProcessInstance.fromDict ops.toScriptValues now record = some p := by
  have hbind : ∀ {α : Type} (x : Option α) (f g : α → Option (ProcessInstance K V)),
      (∀ a, (f a).isSome = (g a).isSome) → (x.bind f).isSome = (x.bind g).isSome := by
    intro α x f g hfg
    cases x with
    | none => rfl
    | some a => exact hfg a
  obtain ⟨now', p, h⟩ := h
  refine Option.isSome_iff_exists.mp (Eq.trans ?_ (Option.isSome_iff_exists.mpr ⟨p, h⟩))
  unfold ProcessInstance.fromDict
  iterate 14 refine hbind _ _ _ fun _ => ?_
  rfl

/-- An instance that was marked is stored as waiting. -/
theorem recordStatus_reconciled (p : ProcessInstance K V) (now status : String) :
    recordStatus ops ((p.reconciled ops now status).toDict ops.toScriptValues) =
      "WAITING_FOR_INPUT" := by
  have hnodup : (((p.reconciled ops now status).written ops.toScriptValues).map Prod.fst).Nodup :=
    ProcessInstance.names_written (p.reconciled ops now status) ▸ by decide
  have hstatus : ("status", ops.text "WAITING_FOR_INPUT") ∈
      (p.reconciled ops now status).written ops.toScriptValues :=
    List.mem_of_getElem? (i := 4) rfl
  rw [recordStatus, textOr, ProcessInstance.toDict, requiredText_record hnodup hstatus,
    Option.getD_some]

end Decoding

namespace InstanceRepository

section Listing

variable {ops : StoredValues K V} {r s : InstanceRepository K V} {i j : String} {v : V}

/-- The index is where the record of an instance with the id `index` would be. -/
theorem indexKey_eq (r : InstanceRepository K V) : r.indexKey = r.key "index" := by
  rw [key, String.append_assoc]
  rfl

/-- Different ids have different keys. -/
theorem key_inj : r.key i = r.key j ↔ i = j := String.append_right_inj _

/-- The listed ids are those of the cache and of the index. -/
theorem mem_listInstanceIds :
    i ∈ r.listInstanceIds ops ↔ i ∈ r.cache.keys ∨ i ∈ r.indexIds ops := by
  rw [listInstanceIds, List.mem_insertionSort, List.mem_dedup, List.mem_append]

/-- No id is listed twice. -/
theorem nodup_listInstanceIds (r : InstanceRepository K V) : (r.listInstanceIds ops).Nodup :=
  (List.perm_insertionSort _ _).nodup_iff.mpr (List.nodup_dedup _)

/-- An id that the index has as a text is in the index. -/
theorem mem_indexIds_of_text (h : ops.text i ∈ r.indexEntries ops) : i ∈ r.indexIds ops :=
  List.mem_map.mpr ⟨_, h, ops.str_text i⟩

/-- Where the index is a list there is no record for the id `index`. -/
theorem loadRecord_index (h : r.index ops ≠ none) : r.loadRecord ops "index" = none := by
  unfold index at h
  rw [loadRecord, ← indexKey_eq]
  cases hvalue : r.storage.get? r.indexKey with
  | none => rfl
  | some v =>
    obtain ⟨l, hl⟩ := Option.ne_none_iff_exists'.mp (hvalue ▸ h)
    rw [ops.eq_list_of_asList v l hl]
    exact ops.asDict_list l

/-- An index with entries is a list. -/
theorem index_ne_none_of_mem (h : v ∈ r.indexEntries ops) : r.index ops ≠ none := by
  intro hnone
  simp [indexEntries, hnone] at h

/-- The index has the text of an id if it is among its entries. -/
theorem hasId_iff : r.hasId ops i = true ↔ ops.text i ∈ r.indexEntries ops := by
  simp [hasId, ops.eqText_iff]

/-- The index after an id was put into it. -/
theorem index_updateIndex : (r.updateIndex ops i).index ops = some (if r.hasId ops i then
    r.indexEntries ops else r.indexEntries ops ++ [ops.text i]) := by
  unfold updateIndex
  split
  · next hmem =>
    obtain ⟨l, hl⟩ := Option.ne_none_iff_exists'.mp (index_ne_none_of_mem (hasId_iff.mp hmem))
    rw [indexEntries, hl, Option.getD_some]
  · simp [index, indexKey]

/-- The index is not in the cache. -/
theorem cache_updateIndex : (r.updateIndex ops i).cache = r.cache := by
  unfold updateIndex
  split <;> rfl

/-- Putting an id into the index changes no record of another one than `index`. -/
theorem loadRecord_updateIndex (hj : j ≠ "index") :
    (r.updateIndex ops i).loadRecord ops j = r.loadRecord ops j := by
  unfold updateIndex
  split
  · rfl
  · have hkey : r.key j ≠ r.indexKey := by
      rw [indexKey_eq]
      exact fun heq => hj (key_inj.mp heq)
    unfold loadRecord
    exact congrArg (Option.bind · ops.asDict) (Dict.get?_set_ne _ _ hkey)

/-- Taking an id out of the index changes no record. -/
theorem loadRecord_removeFromIndex :
    (r.removeFromIndex ops i).loadRecord ops j = r.loadRecord ops j := by
  unfold removeFromIndex
  cases hindex : r.index ops with
  | none => rfl
  | some ids =>
    by_cases hj : j = "index"
    · have hnone : r.loadRecord ops "index" = none := loadRecord_index (by simp [hindex])
      subst hj
      rw [hnone, loadRecord, ← indexKey_eq]
      exact (congrArg (Option.bind · ops.asDict) (Dict.get?_set_self _ _ _)).trans
        (ops.asDict_list _)
    · have hkey : r.key j ≠ r.indexKey := by
        rw [indexKey_eq]
        exact fun heq => hj (key_inj.mp heq)
      exact congrArg (Option.bind · ops.asDict) (Dict.get?_set_ne _ _ hkey)

/-- What stays in the index when an id is taken out of it. -/
theorem mem_indexEntries_removeFromIndex : v ∈ (r.removeFromIndex ops i).indexEntries ops ↔
    v ∈ r.indexEntries ops ∧ v ≠ ops.text i := by
  unfold removeFromIndex
  cases hindex : r.index ops with
  | none => simp [indexEntries, hindex]
  | some ids =>
    rw [show r.indexEntries ops = ids by rw [indexEntries, hindex, Option.getD_some]]
    simp [indexEntries, index, indexKey, ← ops.eqText_iff]

/-- Taking an id out of the index leaves it a list or not. -/
theorem index_removeFromIndex_eq_none :
    (r.removeFromIndex ops i).index ops = none ↔ r.index ops = none := by
  unfold removeFromIndex
  cases hindex : r.index ops with
  | none => simp [hindex]
  | some ids => simp [index, indexKey]

/-- Taking out an id that is not in the index changes nothing. -/
theorem removeFromIndex_of_not_mem (h : ops.text i ∉ r.indexEntries ops) :
    r.removeFromIndex ops i = r := by
  unfold removeFromIndex
  cases hindex : r.index ops with
  | none => rfl
  | some ids =>
    have hfilter : (ids.filter fun v => !ops.eqText v i) = ids := by
      refine List.filter_eq_self.mpr fun v hv => ?_
      rw [Bool.not_eq_true', Bool.eq_false_iff]
      intro heq
      rw [indexEntries, hindex, ← (ops.eqText_iff v i).mp heq] at h
      exact h hv
    obtain ⟨value, hvalue, hlist⟩ := Option.bind_eq_some_iff.mp hindex
    have hset : r.storage.set r.indexKey (ops.list ids) = r.storage :=
      Dict.set_of_get? (ops.eq_list_of_asList value ids hlist ▸ hvalue)
    simp only [hfilter, hset]

section Saving

variable [DecidableEq K] {p : ProcessInstance K V}

/-- The records after an instance was saved, but for the id `index`. -/
theorem loadRecord_save (hj : j ≠ "index") : (r.save ops p).loadRecord ops j =
    if j = p.instanceId then some (p.toDict ops.toScriptValues) else r.loadRecord ops j := by
  rw [save, loadRecord_updateIndex hj, storeRecord, loadRecord]
  show ((r.storage.set (r.key p.instanceId) _).get? (r.key j)).bind ops.asDict = _
  rw [Dict.get?_set]
  by_cases heq : j = p.instanceId
  · rw [if_pos (congrArg r.key heq), if_pos heq, Option.bind_some, ops.asDict_dict]
  · rw [if_neg fun hkey => heq (key_inj.mp hkey), if_neg heq, loadRecord]

/-- A saved instance is in the cache. -/
theorem cache_save : (r.save ops p).cache = r.cache.set p.instanceId p := cache_updateIndex

/-- After an instance was saved its id is in the index. -/
theorem text_mem_save : ops.text p.instanceId ∈ (r.save ops p).indexEntries ops := by
  rw [save, indexEntries, index_updateIndex, Option.getD_some]
  split
  · next hmem => exact hasId_iff.mp hmem
  · simp

/-- Saving an instance with another id than `index` keeps the entries of the index. -/
theorem mem_indexEntries_save (hp : p.instanceId ≠ "index") :
    v ∈ (r.save ops p).indexEntries ops ↔ v ∈ r.indexEntries ops ∨ v = ops.text p.instanceId := by
  have hentries :
      (({ r with cache := r.cache.set p.instanceId p } : InstanceRepository K V).storeRecord
        ops p).indexEntries ops = r.indexEntries ops := by
    have hkey : r.indexKey ≠ r.key p.instanceId := by
      rw [indexKey_eq]
      exact fun heq => hp (key_inj.mp heq).symm
    unfold indexEntries index
    exact congrArg (fun w : Option V => (w.bind ops.asList).getD []) (Dict.get?_set_ne _ _ hkey)
  rw [save, indexEntries, index_updateIndex, Option.getD_some, hentries]
  split
  · next hmem =>
    rw [hasId_iff, hentries] at hmem
    exact ⟨Or.inl, fun h => h.elim id fun heq => heq ▸ hmem⟩
  · rw [List.mem_append, List.mem_singleton]

end Saving

end Listing

end InstanceRepository

end PalmEngine.Persistence.Stored
