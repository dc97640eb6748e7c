import PalmEngine.Context.Positions
import PalmEngine.Lib.DecimalText
import PalmEngine.Lib.Fallible

/-!
# Dot paths

A dot path is read through dictionaries and lists and written through dictionaries only, which are
made where they are missing or null. The values that a path reads do not depend on the identity of
dictionaries and lists, but a write does: it changes an object in place. A mapping is written to as
a copy, whose objects are new.
-/

namespace PalmEngine.Transform

open PalmEngine.Lib PalmEngine.Context

/-- The segments of a dot path. -/
def segments (path : String) : List String := (path.toList.splitOn '.').map String.ofList

section Entries

variable {k : String} {entries : List (String × Value)}

end Entries

section Laws

variable {v w : Value} {path : List String} {entries updated : List (String × Value)}

/-- The keys of every dictionary in a value are distinct. -/
inductive DistinctKeys : Value → Prop where
  | null : DistinctKeys .null
  | bool (b : Bool) : DistinctKeys (.bool b)
  | int (n : ℤ) : DistinctKeys (.int n)
  | str (s : String) : DistinctKeys (.str s)
  | other (n : ℕ) : DistinctKeys (.other n)
  | list {items : List Value} (inside : ∀ item ∈ items, DistinctKeys item) :
    DistinctKeys (.list items)
  | dict {entries : List (String × Value)} (nodup : (entries.map Prod.fst).Nodup)
    (inside : ∀ e ∈ entries, DistinctKeys e.2) : DistinctKeys (.dict entries)

end Laws

end PalmEngine.Transform
