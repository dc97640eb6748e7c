import PalmEngine.Events.Engine
import PalmEngine.Events.Journal
import PalmEngine.Lib.DistinctList

/-!
# The event outbox

An event that must not be lost is stored as an entry before it is delivered. An index lists the
ids of the entries that wait. Processing a batch takes the first ids of the index, attempts the
pending entries among them in order, and marks each published or failed; the fifth failure gives
an entry up. Recovery processes batches until one publishes nothing.

Every entry is stored under its id and the index has no repetitions: the operations keep both,
so they are part of the store. Calls here run one after the other.
-/

namespace PalmEngine.Events

open PalmEngine.Lib

/-- The states of an entry. -/
inductive OutboxStatus where
  | pending
  | published
  | failed
  deriving DecidableEq, Repr

/-- A stored event that waits for delivery. -/
structure OutboxEntry where
  id : String
  eventType : String
  payload : Payload
  context : Option Payload
  timestamp : String
  status : OutboxStatus
  attempts : ℕ
  lastError : Option String

namespace OutboxEntry

/-- The entry of an event. -/
def fromEvent (event : Event) : OutboxEntry where
  id := event.id
  eventType := event.eventType
  payload := event.payload
  context := storedContext (event.context.map EventContext.toDict)
  timestamp := event.timestamp
  status := .pending
  attempts := 0
  lastError := none

/-- The entry once it is published. -/
def publish (e : OutboxEntry) : OutboxEntry := { e with status := .published }

/-- The entry after one more failure. The fifth gives it up. -/
def fail (e : OutboxEntry) (error : String) : OutboxEntry where
  id := e.id
  eventType := e.eventType
  payload := e.payload
  context := e.context
  timestamp := e.timestamp
  status := if 5 ≤ e.attempts + 1 then .failed else e.status
  attempts := e.attempts + 1
  lastError := some error

@[simp] theorem id_fromEvent (event : Event) : (fromEvent event).id = event.id := rfl

@[simp] theorem id_publish (e : OutboxEntry) : e.publish.id = e.id := rfl

@[simp] theorem id_fail (e : OutboxEntry) (error : String) : (e.fail error).id = e.id := rfl

@[simp] theorem status_publish (e : OutboxEntry) : e.publish.status = .published := rfl

end OutboxEntry

/-- The entries by their ids, and the index of those that wait. -/
structure OutboxStore where
  entries : Dict String OutboxEntry
  index : DistinctList String
  id_eq : ∀ id e, entries.get? id = some e → e.id = id

namespace OutboxStore

/-- The store over an empty storage. -/
def empty : OutboxStore := ⟨.empty, .empty, fun _ _ h => (nomatch h)⟩

/-- Store an entry under its id. -/
def put (s : OutboxStore) (e : OutboxEntry) : OutboxStore where
  entries := s.entries.set e.id e
  index := s.index
  id_eq id e' h := by
    by_cases hid : id = e.id
    · rw [hid, Dict.get?_set_self] at h
      exact hid ▸ Option.some.inj h ▸ rfl
    · rw [Dict.get?_set_ne _ _ hid] at h
      exact s.id_eq id e' h

/-- Write the index. -/
def setIndex (s : OutboxStore) (index : DistinctList String) : OutboxStore :=
  { s with index := index }

/-- Store the entry of an event and put it into the index. -/
def enqueue (s : OutboxStore) (event : Event) : OutboxStore :=
  let stored := s.put (.fromEvent event)
  stored.setIndex (stored.index.add event.id)

/-- The pending entries among the first ids of the index. -/
def listPending (s : OutboxStore) (limit : ℕ) : List OutboxEntry :=
  (s.index.items.take limit).filterMap fun id =>
    (s.entries.get? id).filter fun e => e.status = .pending

/-- Mark an entry as published and take it out of the index. -/
def markPublished (s : OutboxStore) (id : String) : OutboxStore :=
  match s.entries.get? id with
  | none => s
  | some e => (s.put e.publish).setIndex (s.index.remove id)

/-- Count a failed attempt and take the entry out of the index if it was the fifth. -/
def markFailed (s : OutboxStore) (id : String) (error : String) : OutboxStore :=
  match s.entries.get? id with
  | none => s
  | some e =>
    let failed := e.fail error
    if 5 ≤ failed.attempts then (s.setIndex (s.index.remove id)).put failed else s.put failed

@[simp] theorem index_put (s : OutboxStore) (e : OutboxEntry) : (s.put e).index = s.index := rfl

@[simp] theorem entries_put (s : OutboxStore) (e : OutboxEntry) :
    (s.put e).entries = s.entries.set e.id e := rfl

@[simp] theorem index_setIndex (s : OutboxStore) (index : DistinctList String) :
    (s.setIndex index).index = index := rfl

@[simp] theorem entries_setIndex (s : OutboxStore) (index : DistinctList String) :
    (s.setIndex index).entries = s.entries := rfl

/-- An enqueued event is stored as pending. -/
theorem get?_enqueue_self (s : OutboxStore) (event : Event) :
    (s.enqueue event).entries.get? event.id = some (.fromEvent event) :=
  Dict.get?_set_self _ _ _

/-- The listed entries are those stored as pending under the first ids of the index. -/
theorem mem_listPending {s : OutboxStore} {limit : ℕ} {e : OutboxEntry} :
    e ∈ s.listPending limit ↔ e.id ∈ s.index.items.take limit ∧
      s.entries.get? e.id = some e ∧ e.status = .pending := by
  simp only [listPending, List.mem_filterMap, Option.filter_eq_some_iff, decide_eq_true_eq]
  constructor
  · rintro ⟨id, hid, hget, hpending⟩
    obtain rfl := s.id_eq id e hget
    exact ⟨hid, hget, hpending⟩
  · exact fun h => ⟨e.id, h⟩

/-- What is looked up under the members of a list and names them is named in their order. -/
private theorem map_filterMap_sublist {α β : Type*} {f : α → Option β} {name : β → α}
    (h : ∀ a b, f a = some b → name b = a) (l : List α) :
    ((l.filterMap f).map name).Sublist l := by
  induction l with
  | nil => exact .refl _
  | cons a l ih =>
    cases hf : f a with
    | none =>
      rw [List.filterMap_cons_none hf]
      exact ih.cons a
    | some b =>
      rw [List.filterMap_cons_some hf, List.map_cons, h a b hf]
      exact ih.cons_cons a

/-- An entry is listed once. -/
theorem nodup_listPending (s : OutboxStore) (limit : ℕ) :
    ((s.listPending limit).map OutboxEntry.id).Nodup := by
  have hsub : ((s.listPending limit).map OutboxEntry.id).Sublist (s.index.items.take limit) :=
    map_filterMap_sublist (fun id e h => s.id_eq id e (Option.filter_eq_some_iff.mp h).1) _
  exact s.index.nodup.sublist (hsub.trans (List.take_sublist _ _))

end OutboxStore

/-- Attempt an entry and mark it by the outcome: none, or the text of the error. -/
def processEntry (attempt : OutboxEntry → Option String) (s : OutboxStore) (e : OutboxEntry) :
    OutboxStore :=
  match attempt e with
  | none => s.markPublished e.id
  | some error => s.markFailed e.id error

/-- Process the pending entries among the first ids of the index, and count those published. -/
def processBatch (attempt : OutboxEntry → Option String) (limit : ℕ) (s : OutboxStore) :
    ℕ × OutboxStore :=
  let batch := s.listPending limit
  (batch.countP fun e => (attempt e).isNone, batch.foldl (processEntry attempt) s)

/-- The entry after its attempt. -/
def OutboxEntry.settle (attempt : OutboxEntry → Option String) (e : OutboxEntry) : OutboxEntry :=
  match attempt e with
  | none => e.publish
  | some error => e.fail error

@[simp] theorem OutboxEntry.id_settle (attempt : OutboxEntry → Option String) (e : OutboxEntry) :
    (e.settle attempt).id = e.id := by
  unfold settle
  split <;> rfl

/-- An entry that is pending after its attempt was pending before. -/
theorem OutboxEntry.pending_of_settle {attempt : OutboxEntry → Option String} {e : OutboxEntry}
    (h : (e.settle attempt).status = .pending) : e.status = .pending ∧ (attempt e).isSome := by
  unfold settle at h
  split at h
  · cases h
  · rename_i error herror
    simp only [fail] at h
    split at h
    · cases h
    · exact ⟨h, by simp [herror]⟩

/-- What processing one pending entry does: it stores the entry after its attempt, which leaves
the index unless it is still pending. -/
theorem processEntry_spec (attempt : OutboxEntry → Option String) {s : OutboxStore}
    {e : OutboxEntry} (h : s.entries.get? e.id = some e) (hpending : e.status = .pending) :
    (processEntry attempt s e).entries = s.entries.set e.id (e.settle attempt) ∧
      (processEntry attempt s e).index =
        if (e.settle attempt).status = .pending then s.index else s.index.remove e.id := by
  unfold processEntry OutboxEntry.settle
  cases hattempt : attempt e with
  | none => simp [OutboxStore.markPublished, h]
  | some error =>
    by_cases hlast : 5 ≤ e.attempts + 1
    · simp [OutboxStore.markFailed, OutboxEntry.fail, h, hlast]
    · simp [OutboxStore.markFailed, OutboxEntry.fail, h, hlast, hpending]

/-- What processing entries does: each is stored after its attempt, and those that are not pending
any more have left the index. -/
theorem foldl_processEntry_spec {attempt : OutboxEntry → Option String} {es : List OutboxEntry}
    {s : OutboxStore} (hnodup : (es.map OutboxEntry.id).Nodup)
    (hes : ∀ e ∈ es, s.entries.get? e.id = some e ∧ e.status = .pending) :
    (∀ id, (es.foldl (processEntry attempt) s).entries.get? id =
      (s.entries.get? id).map fun e =>
        if id ∈ es.map OutboxEntry.id then e.settle attempt else e) ∧
    (es.foldl (processEntry attempt) s).index.items = s.index.items.filter fun id =>
      es.all fun e => e.id ≠ id ∨ (e.settle attempt).status = .pending := by
  induction es generalizing s with
  | nil => simp
  | cons e es ih =>
    obtain ⟨hnot, hnodup⟩ := List.nodup_cons.mp hnodup
    obtain ⟨hget, hpending⟩ := hes e List.mem_cons_self
    obtain ⟨hentries, hindex⟩ := processEntry_spec attempt hget hpending
    obtain ⟨hrest, hrestIndex⟩ := ih hnodup (s := processEntry attempt s e) fun e' he' => by
      have hne : e'.id ≠ e.id := fun heq => hnot (List.mem_map.mpr ⟨e', he', heq⟩)
      rw [hentries, Dict.get?_set_ne _ _ hne]
      exact hes e' (List.mem_cons_of_mem _ he')
    rw [List.foldl_cons]
    refine ⟨fun id => ?_, ?_⟩
    · rw [hrest, hentries]
      by_cases hid : id = e.id
      · subst hid
        simp [hget, hnot]
      · rw [Dict.get?_set_ne _ _ hid]
        simp [hid]
    · rw [hrestIndex, hindex]
      split
      · rename_i hstill
        simp [hstill]
      · rename_i hdone
        rw [DistinctList.items_remove, List.filter_filter]
        refine List.filter_congr fun id _ => ?_
        rw [List.all_cons, Bool.and_comm]
        congr 1
        rw [Bool.eq_iff_iff]
        simpa [hdone] using ne_comm

/-- The entry stored under an id is among the pending ones of the first ids of the index. -/
def OutboxStore.Waits (s : OutboxStore) (limit : ℕ) (id : String) : Prop :=
  id ∈ (s.listPending limit).map OutboxEntry.id

instance (s : OutboxStore) (limit : ℕ) (id : String) : Decidable (s.Waits limit id) :=
  inferInstanceAs (Decidable (_ ∈ _))

/-- The ids of the pending entries among the first ones of the index. -/
theorem OutboxStore.waits_iff {s : OutboxStore} {limit : ℕ} {id : String} :
    s.Waits limit id ↔ id ∈ s.index.items.take limit ∧
      ∃ e, s.entries.get? id = some e ∧ e.status = .pending := by
  constructor
  · intro h
    obtain ⟨e, he, rfl⟩ := List.mem_map.mp h
    obtain ⟨hid, hget, hpending⟩ := mem_listPending.mp he
    exact ⟨hid, e, hget, hpending⟩
  · rintro ⟨hid, e, hget, hpending⟩
    obtain rfl := s.id_eq id e hget
    exact List.mem_map_of_mem (mem_listPending.mpr ⟨hid, hget, hpending⟩)

section Batch

variable (attempt : OutboxEntry → Option String) (limit : ℕ) (s : OutboxStore)

/-- A batch stores the entries that wait after their attempt and no other. -/
theorem get?_processBatch (id : String) :
    (processBatch attempt limit s).2.entries.get? id =
      (s.entries.get? id).map fun e => if s.Waits limit id then e.settle attempt else e :=
  (foldl_processEntry_spec (s.nodup_listPending limit) fun _ he =>
    (OutboxStore.mem_listPending.mp he).2).1 id

/-- A batch takes out of the index the entries that it attempted and that are not pending any
more. -/
theorem items_processBatch :
    (processBatch attempt limit s).2.index.items = s.index.items.filter fun id =>
      (s.listPending limit).all fun e => e.id ≠ id ∨ (e.settle attempt).status = .pending :=
  (foldl_processEntry_spec (s.nodup_listPending limit) fun _ he =>
    (OutboxStore.mem_listPending.mp he).2).2

/-- An entry still pending after a batch keeps its place among the first ids of the index. -/
theorem mem_take_processBatch {id : String} {n : ℕ} {e : OutboxEntry}
    (hmem : id ∈ s.index.items.take n)
    (hget : (processBatch attempt limit s).2.entries.get? id = some e)
    (hpending : e.status = .pending) :
    id ∈ (processBatch attempt limit s).2.index.items.take n := by
  rw [items_processBatch]
  refine mem_take_filter hmem (List.all_eq_true.mpr fun e' he' => ?_)
  by_cases hid : e'.id = id
  · subst hid
    have hwaits : s.Waits limit e'.id := List.mem_map_of_mem he'
    rw [get?_processBatch, (OutboxStore.mem_listPending.mp he').2.1] at hget
    obtain rfl : e'.settle attempt = e := by simpa [hwaits] using hget
    simp [hpending]
  · simp [hid]

/-- A batch that publishes an entry shortens the index. -/
theorem length_processBatch_lt (h : (processBatch attempt limit s).1 ≠ 0) :
    (processBatch attempt limit s).2.index.items.length < s.index.items.length := by
  obtain ⟨e, he, hsuccess⟩ := List.countP_pos_iff.mp (Nat.pos_of_ne_zero h)
  obtain ⟨hid, hget, hpending⟩ := OutboxStore.mem_listPending.mp he
  rw [items_processBatch, List.length_filter_lt_length_iff_exists]
  refine ⟨e.id, List.mem_of_mem_take hid, fun hall => ?_⟩
  have hsettled := List.all_eq_true.mp hall e he
  have hnone : attempt e = none := by simpa using hsuccess
  simp [OutboxEntry.settle, hnone] at hsettled

end Batch

end PalmEngine.Events
