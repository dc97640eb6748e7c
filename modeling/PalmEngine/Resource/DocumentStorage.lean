import PalmEngine.Lib.Framing
import PalmEngine.Lib.Strip
import PalmEngine.Storage.Backend

/-!
# Keys of the key-value resources

A namespace and a logical key make the key of a value, in the process memory or in a storage
backend. A listing strips the namespace from the keys that start with it.

A namespace has no colon, so the key tells the namespace and the logical key. The prefix of a
listing is the namespace without the colon after it, which a longer namespace starts with too.
-/

namespace PalmEngine.Resource

open PalmEngine.Lib PalmEngine.Storage

/-- A text. -/
abbrev Text := List Char

/-- Why a namespace or a logical key is rejected. -/
inductive KvKeyError where
  | invalidNamespace (ns : Text)
  | emptyKey
  | invalidKey (key : Text)
  deriving DecidableEq, Repr

/-- What the storage keys of the key-value resources start with. -/
def kvStoragePrefix : Key := "palm:resources:kv".toList

/-- The namespace of a resource that names none. -/
def defaultNamespace : Text := "default".toList

/-- `namespace or "default"`. -/
def namespaceOrDefault (ns : Text) : Text := if ns = [] then defaultNamespace else ns

/-- A namespace is stripped and has neither a colon nor a path separator. -/
def normalizeNamespace (ns : Text) : Except KvKeyError Text :=
  let stripped := stripChars (namespaceOrDefault ns)
  if stripped = [] then .ok defaultNamespace
  else if ':' ∈ stripped ∨ '/' ∈ stripped ∨ '\\' ∈ stripped then .error (.invalidNamespace ns)
  else .ok stripped

/-- Path separators become colons. -/
def colonSegment (c : Char) : Char := if c = '\\' ∨ c = '/' then ':' else c

/-- Normalize author-facing keys to colon segments for storage backends. -/
def normalizeLogicalKey (key : Text) : Except KvKeyError Text :=
  let stripped := stripChars key
  if stripped = [] then .error .emptyKey
  else if ['.', '.'] <:+: stripped then .error (.invalidKey key)
  else .ok (stripped.map colonSegment)

/-- The prefix of a listing that is normalized like a key, unless it is blank. -/
def normalizePrefix (pre : Text) : Except KvKeyError Text :=
  if stripChars pre = [] then .ok [] else normalizeLogicalKey pre

/-- Map a logical key to a key of the storage. -/
def buildStorageKey (ns key : Text) : Except KvKeyError Key := do
  let ns ← normalizeNamespace ns
  let key ← normalizeLogicalKey key
  return kvStoragePrefix ++ ':' :: (ns ++ ':' :: key)

/-- Map a logical key to a key of the process memory. -/
def buildMemoryKey (ns key : Text) : Except KvKeyError Key := do
  let ns ← normalizeNamespace ns
  let key ← normalizeLogicalKey key
  return ns ++ ':' :: key

/-- The prefix of a listing of the storage. -/
def buildStoragePrefix (ns pre : Text) : Except KvKeyError Key := do
  let ns ← normalizeNamespace ns
  let trimmed ← normalizePrefix pre
  return if trimmed = [] then kvStoragePrefix ++ ':' :: ns
    else kvStoragePrefix ++ ':' :: (ns ++ ':' :: trimmed)

/-- The prefix of a listing of the process memory. -/
def buildMemoryPrefix (ns pre : Text) : Except KvKeyError Key := do
  let ns ← normalizeNamespace ns
  let trimmed ← normalizePrefix pre
  return if trimmed = [] then ns else ns ++ ':' :: trimmed

/-- What follows a prefix of a key, without the colons and then the slashes at its start; none if
nothing is left or the key does not start with the prefix. -/
def logicalKey? (base key : Key) : Option Text :=
  if base <+: key then
    let suffix := ((key.drop base.length).dropWhile (· = ':')).dropWhile (· = '/')
    if suffix = [] then none else some suffix
  else none

/-- Strip a namespace prefix and return the sorted logical keys. -/
def logicalKeysFromPrefixed (fullKeys : List Key) (keyPrefix : Key) : List Text :=
  sortedKeys (fullKeys.filterMap (logicalKey? (keyPrefix.rdropWhile (· = ':'))))

/-- A stripped text is not stripped again. -/
theorem stripChars_map_colonSegment (cs : List Char) :
    stripChars ((stripChars cs).map colonSegment) = (stripChars cs).map colonSegment := by
  have hblank : ∀ c, isBlank (colonSegment c) = isBlank c := by
    intro c
    unfold colonSegment
    split
    · rename_i h
      rcases h with rfl | rfl <;> rfl
    · rfl
  have hcomp : isBlank ∘ colonSegment = isBlank := funext hblank
  have hrdrop : ∀ l : List Char,
      (l.map colonSegment).rdropWhile isBlank = (l.rdropWhile isBlank).map colonSegment := by
    intro l
    rw [List.rdropWhile, ← List.map_reverse, List.dropWhile_map, hcomp, ← List.map_reverse]
    rfl
  have hidem := stripChars_idem cs
  calc stripChars ((stripChars cs).map colonSegment)
    _ = (stripChars (stripChars cs)).map colonSegment := by
      rw [stripChars, List.dropWhile_map, hcomp, hrdrop]
      rfl
    _ = (stripChars cs).map colonSegment := by rw [hidem]

/-- A normalized namespace stays as it is. -/
theorem normalizeNamespace_idem {ns ns' : Text} (h : normalizeNamespace ns = .ok ns') :
    normalizeNamespace ns' = .ok ns' := by
  unfold normalizeNamespace at h
  dsimp only at h
  split at h
  · cases h
    decide
  · split at h
    · cases h
    · rename_i hne hclean
      cases h
      have hsame : namespaceOrDefault (stripChars (namespaceOrDefault ns)) =
          stripChars (namespaceOrDefault ns) := if_neg hne
      rw [normalizeNamespace, hsame, stripChars_idem]
      exact (if_neg hne).trans (if_neg hclean)

/-- A normalized key stays as it is. -/
theorem normalizeLogicalKey_idem {key key' : Text} (h : normalizeLogicalKey key = .ok key') :
    normalizeLogicalKey key' = .ok key' := by
  unfold normalizeLogicalKey at h
  dsimp only at h
  split at h
  · cases h
  · split at h
    · cases h
    · rename_i hne hdots
      cases h
      have hcolon : ∀ c, colonSegment (colonSegment c) = colonSegment c := by
        intro c
        unfold colonSegment
        split <;> simp_all
      rw [normalizeLogicalKey, stripChars_map_colonSegment, if_neg (by simpa using hne), if_neg,
        List.map_map]
      · exact congrArg Except.ok (List.map_congr_left fun c _ => hcolon c)
      · rintro ⟨front, back, hsplit⟩
        refine hdots ?_
        rw [List.append_assoc] at hsplit
        obtain ⟨front', rest, hstripped, -, hrest⟩ := List.map_eq_append_iff.mp hsplit.symm
        obtain ⟨dots, back', rfl, hdots', -⟩ := List.map_eq_append_iff.mp hrest
        have hdot : ∀ c, colonSegment c = '.' → c = '.' := by
          intro c hc
          unfold colonSegment at hc
          split at hc
          · exact absurd hc (by decide)
          · exact hc
        have hsame : dots = ['.', '.'] := by
          obtain ⟨a, rest', rfl, ha, hrest'⟩ := List.map_eq_cons_iff.mp hdots'
          obtain ⟨b, rest'', rfl, hb, hnil⟩ := List.map_eq_cons_iff.mp hrest'
          rw [hdot a ha, hdot b hb, List.map_eq_nil_iff.mp hnil]
        exact ⟨front', back', by rw [hstripped, hsame, List.append_assoc]⟩

/-- A namespace and a logical key, both normalized. -/
structure KvName where
  ns : Text
  key : Text
  ns_ok : normalizeNamespace ns = .ok ns
  key_ok : normalizeLogicalKey key = .ok key
  deriving DecidableEq

/-- What a namespace and a key that are given name. -/
def kvName (ns key : Text) : Except KvKeyError KvName :=
  match hns : normalizeNamespace ns with
  | .error e => .error e
  | .ok ns' =>
    match hkey : normalizeLogicalKey key with
    | .error e => .error e
    | .ok key' => .ok ⟨ns', key', normalizeNamespace_idem hns, normalizeLogicalKey_idem hkey⟩

/-- A normalized namespace has no colon. -/
theorem colon_not_mem_namespace {ns : Text} (h : normalizeNamespace ns = .ok ns) : ':' ∉ ns := by
  unfold normalizeNamespace at h
  dsimp only at h
  split at h
  · rw [← Except.ok.inj h]
    decide
  · split at h
    · cases h
    · rename_i hclean
      rw [not_or] at hclean
      rw [← Except.ok.inj h]
      exact hclean.1

/-- A normalized namespace is not empty. -/
theorem namespace_ne_nil {ns : Text} (h : normalizeNamespace ns = .ok ns) : ns ≠ [] := by
  unfold normalizeNamespace at h
  dsimp only at h
  split at h
  · rw [← Except.ok.inj h]
    decide
  · split at h
    · cases h
    · rename_i hne _
      rw [← Except.ok.inj h]
      exact hne

/-- A normalized key is stripped, not empty and has no slash. -/
theorem logicalKey_spec {key : Text} (h : normalizeLogicalKey key = .ok key) :
    stripChars key = key ∧ key ≠ [] ∧ '/' ∉ key := by
  unfold normalizeLogicalKey at h
  dsimp only at h
  split at h
  · cases h
  · rename_i hne
    split at h
    · cases h
    · have hkey := Except.ok.inj h
      refine ⟨?_, ?_, ?_⟩
      · rw [← hkey, stripChars_map_colonSegment]
      · rw [← hkey]
        simpa using hne
      · rw [← hkey]
        intro hmem
        obtain ⟨c, -, hc⟩ := List.mem_map.mp hmem
        unfold colonSegment at hc
        split at hc
        · exact absurd hc (by decide)
        · rename_i hnot
          exact hnot (.inr hc)

end PalmEngine.Resource
