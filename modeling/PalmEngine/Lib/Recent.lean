import Mathlib

/-!
# Bounded memories of recent keys

A memory of at most `bound` keys in the order of their last use. Adding a remembered key moves
it to the end; adding a new one forgets the oldest keys beyond the bound.
-/

namespace PalmEngine.Lib

/-- The keys remembered, the least recently used first. -/
structure Recent (K : Type*) (bound : ℕ) where
  keys : List K
  nodup : keys.Nodup
  length_le : keys.length ≤ bound

namespace Recent

variable {K : Type*} {bound : ℕ}

/-- The memory without keys. -/
def empty : Recent K bound := ⟨[], List.nodup_nil, Nat.zero_le _⟩

instance : Membership K (Recent K bound) := ⟨fun r k => k ∈ r.keys⟩

variable [DecidableEq K]

instance (k : K) (r : Recent K bound) : Decidable (k ∈ r) :=
  inferInstanceAs (Decidable (k ∈ r.keys))

/-- A key moved to the end, or appended, is among distinct keys. -/
private theorem nodup_erase_append {keys : List K} (h : keys.Nodup) (k : K) :
    (keys.erase k ++ [k]).Nodup := by
  rw [List.nodup_append]
  refine ⟨h.erase k, List.nodup_singleton k, ?_⟩
  rintro a ha b hb rfl
  exact ((h.mem_erase_iff.mp ha).1 (List.mem_singleton.mp hb)).elim

/-- Record a key; the answer says whether it is new. -/
def add (r : Recent K bound) (k : K) : Bool × Recent K bound :=
  if h : k ∈ r.keys then
    (false, ⟨r.keys.erase k ++ [k], nodup_erase_append r.nodup k, by
      have hpos := List.length_pos_of_mem h
      have hlength := r.length_le
      rw [List.length_append, List.length_erase_of_mem h, List.length_singleton]
      omega⟩)
  else
    (true, ⟨(r.keys ++ [k]).drop (r.keys.length + 1 - bound), by
      refine List.Nodup.sublist (List.drop_sublist _ _) ?_
      have happend := nodup_erase_append r.nodup k
      rwa [List.erase_of_not_mem h] at happend, by
      rw [List.length_drop, List.length_append, List.length_singleton]
      omega⟩)

/-- Adding a key makes no other key remembered. -/
theorem mem_of_mem_add {r : Recent K bound} {k i : K} (h : i ∈ (r.add k).2) : i = k ∨ i ∈ r := by
  unfold add at h
  split at h
  · rcases List.mem_append.mp h with hold | hnew
    · exact .inr (List.mem_of_mem_erase hold)
    · exact .inl (List.mem_singleton.mp hnew)
  · rcases List.mem_append.mp (List.mem_of_mem_drop h) with hold | hnew
    · exact .inr hold
    · exact .inl (List.mem_singleton.mp hnew)

end Recent

end PalmEngine.Lib
