import Mathlib

/-!
# Key-value maps and what implements them

A map sends a key to a value or to nothing, and a write changes it at one key. A store runs
the same writes on states of its own. It keeps a relation between its states and maps when
every single write keeps it, and a run of writes then ends in a state related to the map that
the last writes make.
-/

namespace PalmEngine.Lib

/-- A write to a key-value map. -/
inductive MapOp (K V : Type*) where
  | set (k : K) (v : V)
  | delete (k : K)
  deriving DecidableEq, Repr

namespace MapOp

variable {K V : Type*}

/-- The key a write is about. -/
def key : MapOp K V → K
  | set k _ | delete k => k

/-- What a write leaves at its key. -/
def written : MapOp K V → Option V
  | set _ v => some v
  | delete _ => none

@[simp] theorem key_set (k : K) (v : V) : (set k v).key = k := rfl

@[simp] theorem key_delete (k : K) : (delete k : MapOp K V).key = k := rfl

@[simp] theorem written_set (k : K) (v : V) : (set k v).written = some v := rfl

@[simp] theorem written_delete (k : K) : (delete k : MapOp K V).written = none := rfl

end MapOp

section LastWrite

variable {K V : Type*} [DecidableEq K]

/-- The map after one write. -/
def writeTo (m : K → Option V) (op : MapOp K V) : K → Option V :=
  Function.update m op.key op.written

/-- The map that a list of writes makes of the empty map: the last write to a key wins. -/
def lastWrite (ops : List (MapOp K V)) : K → Option V := ops.foldl writeTo fun _ => none

@[simp] theorem lastWrite_nil (k : K) : lastWrite ([] : List (MapOp K V)) k = none := rfl

/-- One more write changes the map at its key. -/
@[simp] theorem lastWrite_concat (ops : List (MapOp K V)) (op : MapOp K V) :
    lastWrite (ops ++ [op]) = writeTo (lastWrite ops) op := by
  rw [lastWrite, List.foldl_append]
  rfl

/-- The key of a write has what the write leaves there. -/
theorem writeTo_self (m : K → Option V) (op : MapOp K V) : writeTo m op op.key = op.written :=
  Function.update_self _ _ _

/-- The other keys keep their values. -/
theorem writeTo_of_ne (m : K → Option V) (op : MapOp K V) {k : K} (h : k ≠ op.key) :
    writeTo m op k = m k :=
  Function.update_of_ne h _ _

end LastWrite

section Simulation

variable {K V S : Type*} [DecidableEq K] {apply : S → MapOp K V → S} {P : K → Prop}
  {R : S → (K → Option V) → Prop}

/-- A relation between states and maps that every write to the keys in question keeps holds at
the end of every run of such writes. -/
theorem related_of_run (hstep : ∀ s m op, R s m → P op.key → R (apply s op) (writeTo m op))
    {s : S} (hs : R s fun _ => none) {ops : List (MapOp K V)} (hops : ∀ op ∈ ops, P op.key) :
    R (ops.foldl apply s) (lastWrite ops) := by
  induction ops using List.reverseRecOn with
  | nil => exact hs
  | append_singleton ops op ih =>
    rw [List.foldl_append, lastWrite_concat]
    exact hstep _ _ op (ih fun o ho => hops o (List.mem_append_left _ ho))
      (hops op (List.mem_append_right _ (List.mem_singleton_self op)))

end Simulation

end PalmEngine.Lib
