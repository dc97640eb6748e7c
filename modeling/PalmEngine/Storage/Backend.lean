import PalmEngine.Lib.Dict
import PalmEngine.Lib.KeyValue

/-!
# Storage backends

A backend reads, writes, deletes and lists values by key. A call returns or raises, and leaves
the backend in a state either way: a run of writes goes on after one that raised. The memory
backend keeps a dictionary.

All backends here are open. Keys are the characters of the key string, and nothing is a value
like any other: a key set to nothing is listed and reads like a missing one.
-/

namespace PalmEngine.Storage

open PalmEngine.Lib

/-- A storage key. -/
abbrev Key := List Char

/-- What a call returns or raises, with the state it leaves. -/
abbrev Outcome (S E A : Type*) := Except E A × S

/-- The calls of a backend with states `S`, values `V` and errors `E`. -/
structure BaseBackend (S V E : Type*) where
  get : S → Key → Outcome S E (Option V)
  set : S → Key → Option V → Outcome S E Unit
  delete : S → Key → Outcome S E Unit
  keysWithPrefix : S → Key → Except E (List Key)

/-- Sort keys by code points. -/
def sortedKeys (keys : List Key) : List Key := keys.insertionSort (· ≤ ·)

namespace BaseBackend

variable {S V E : Type*} (b : BaseBackend S V E)

/-- The state after a write, whether it raised or not. -/
def apply (s : S) : MapOp Key (Option V) → S
  | .set k v => (b.set s k v).2
  | .delete k => (b.delete s k).2

/-- The state after a list of writes. -/
def run (s : S) (ops : List (MapOp Key (Option V))) : S := ops.foldl b.apply s

@[simp] theorem run_concat (s : S) (ops : List (MapOp Key (Option V)))
    (op : MapOp Key (Option V)) : b.run s (ops ++ [op]) = b.apply (b.run s ops) op := by
  rw [run, List.foldl_append]
  rfl

/-- A run of one set. -/
theorem run_set {s u : S} {k : Key} {v : Option V} {result : Except E Unit}
    (h : b.set s k v = (result, u)) : b.run s [.set k v] = u :=
  congrArg Prod.snd h

/-- The backend is a key-value map on the keys `K`: a read returns what the last write left, and
a write changes neither what another key reads nor whether setting another key succeeds. -/
structure IsMap (start : S) (K : Key → Prop) : Prop where
  get_eq : ∀ ops, (∀ op ∈ ops, K op.key) → ∀ k, K k →
    (b.get (b.run start ops) k).1 = .ok (lastWrite ops k).join
  get_frame : ∀ ops op, (∀ o ∈ ops ++ [op], K o.key) → ∀ k, K k → k ≠ op.key →
    (b.get (b.run start (ops ++ [op])) k).1 = (b.get (b.run start ops) k).1
  set_frame : ∀ ops op, (∀ o ∈ ops ++ [op], K o.key) → ∀ k v, K k → k ≠ op.key →
    (b.set (b.run start (ops ++ [op])) k v).1.isOk = (b.set (b.run start ops) k v).1.isOk

variable {b}

/-- Reads that return what the last write left, with sets that always succeed, make a map. -/
theorem IsMap.of_get {start : S} {K : Key → Prop}
    (hget : ∀ ops, (∀ op ∈ ops, K op.key) → ∀ k, K k →
      (b.get (b.run start ops) k).1 = .ok (lastWrite ops k).join)
    (hset : ∀ ops, (∀ op ∈ ops, K op.key) → ∀ k v, K k →
      (b.set (b.run start ops) k v).1.isOk = true) : b.IsMap start K where
  get_eq := hget
  get_frame ops op h k hk hne := by
    have hops : ∀ o ∈ ops, K o.key := fun o ho => h o (List.mem_append_left _ ho)
    rw [hget _ h k hk, hget _ hops k hk, lastWrite_concat, writeTo_of_ne _ op hne]
  set_frame ops op h k v hk _ := by
    rw [hset _ h k v hk, hset _ (fun o ho => h o (List.mem_append_left _ ho)) k v hk]

end BaseBackend

/-- The listing of the keys of a map that start with a prefix: ascending, each once. -/
structure IsListing {W : Type*} (m : Key → Option W) (pre : Key) (keys : List Key) : Prop where
  ascending : keys.Pairwise (· < ·)
  mem_iff : ∀ k, k ∈ keys ↔ (m k).isSome ∧ pre <+: k

/-- There is one such listing. -/
theorem IsListing.unique {W : Type*} {m : Key → Option W} {pre : Key} {l l' : List Key}
    (h : IsListing m pre l) (h' : IsListing m pre l') : l = l' :=
  h.ascending.sortedLT.eq_of_mem_iff h'.ascending.sortedLT fun k =>
    (h.mem_iff k).trans (h'.mem_iff k).symm

/-- Sorting distinct keys lists them. -/
theorem isListing_sortedKeys {W : Type*} {m : Key → Option W} {pre : Key} {keys : List Key}
    (hnodup : keys.Nodup) (hmem : ∀ k, k ∈ keys ↔ (m k).isSome ∧ pre <+: k) :
    IsListing m pre (sortedKeys keys) where
  ascending := by
    have hperm := List.perm_insertionSort (· ≤ ·) keys
    have hle := List.pairwise_insertionSort (· ≤ ·) keys
    exact (hle.and (hperm.nodup_iff.mpr hnodup)).imp fun h => lt_of_le_of_ne h.1 h.2
  mem_iff k := (List.mem_insertionSort _).trans (hmem k)

/-- The memory backend: a dictionary of the values set. -/
def memoryBackend (V E : Type*) : BaseBackend (Dict Key (Option V)) V E where
  get data key := (.ok (data.get? key).join, data)
  set data key value := (.ok (), data.set key value)
  delete data key := (.ok (), data.erase key)
  keysWithPrefix data pre := .ok (sortedKeys (data.keys.filter fun key => pre <+: key))

/-- The dictionary holds what the last writes left. -/
theorem memory_get?_run (V E : Type*) (ops : List (MapOp Key (Option V))) :
    ((memoryBackend V E).run .empty ops).get? = lastWrite ops := by
  refine related_of_run (P := fun _ => True) (R := fun (d : Dict Key (Option V)) m => d.get? = m)
    (fun d m op hd _ => ?_) rfl fun _ _ => trivial
  subst hd
  funext k
  by_cases hk : k = op.key
  · subst hk
    rw [writeTo_self]
    cases op with
    | set k v => exact d.get?_set_self k v
    | delete k => exact (d.get?_erase k k).trans (if_pos rfl)
  · rw [writeTo_of_ne _ op hk]
    cases op with
    | set k' v => exact d.get?_set_ne v hk
    | delete k' => exact (d.get?_erase k' k).trans (if_neg hk)

/-- The memory backend is a map on all keys. -/
theorem memory_isMap (V E : Type*) : (memoryBackend V E).IsMap .empty fun _ => True :=
  .of_get (fun ops _ k _ => by rw [← memory_get?_run V E ops]; rfl) fun _ _ _ _ _ => rfl

/-- The memory backend lists exactly the stored keys that start with the prefix. -/
theorem memory_isListing (V E : Type*) (ops : List (MapOp Key (Option V))) (pre : Key) :
    ∃ keys, (memoryBackend V E).keysWithPrefix ((memoryBackend V E).run .empty ops) pre = .ok keys ∧
      IsListing (lastWrite ops) pre keys := by
  refine ⟨_, rfl, isListing_sortedKeys (List.Nodup.filter _ (Dict.nodup _)) fun k => ?_⟩
  rw [List.mem_filter, Dict.mem_keys_iff, memory_get?_run, Option.isSome_iff_exists]
  simp

end PalmEngine.Storage
