import PalmEngine.Context.State
import PalmEngine.Lib.ScriptValues

/-!
# Stored values as the values of the language

The values that a state holds, with text keys. Only texts are shown, only integers are read as
integers, and only dictionaries and lists are made dictionaries and lists of.
-/

namespace PalmEngine.Context

open PalmEngine.Lib

/-- The dictionary of some entries: the last one of a key counts. -/
def entriesDict (entries : List (String × Value)) : Dict String Value :=
  entries.foldl (fun d e => d.set e.1 e.2) .empty

/-- The dictionary that a value is. -/
def dictOf? : Value → Option (Dict String Value)
  | .dict entries => some (entriesDict entries)
  | _ => none

/-- The list that a value is. -/
def listOf? : Value → Option (List Value)
  | .list items => some items
  | _ => none

/-- The integer that a value is. -/
def intOf? : Value → Option ℤ
  | .int n => some n
  | _ => none

/-- The stored values as the values of the language. -/
def plainValues : ScriptValues String Value where
  key := id
  keyText := id
  null := .null
  text := .str
  int := .int
  bool := .bool
  list := .list
  dict d := .dict d.entries
  isNull := Value.isNull
  isText v := v.asStr.isSome
  truthy := truthy fun _ => true
  str v := v.asStr.getD ""
  toInt := intOf?
  toFloat v := (intOf? v).map .int
  iter := listOf?
  asList := listOf?
  asDict := dictOf?
  toDict := dictOf?
  keyText_key _ := rfl
  isNull_null := rfl
  isNull_text _ := rfl
  isNull_int _ := rfl
  isNull_dict _ := rfl
  isText_list _ := rfl
  truthy_null := rfl
  truthy_text _ := rfl
  truthy_int _ := rfl
  truthy_list l := by cases l <;> rfl
  truthy_dict d := by cases h : d.entries <;> simp [truthy, h]
  str_text _ := rfl
  toInt_int _ := rfl
  toFloat_toFloat v w h := by
    cases v with
    | int n =>
      obtain rfl := Option.some.inj h
      exact ⟨rfl, rfl⟩
    | _ => cases h
  iter_list _ := rfl
  asList_null := rfl
  asList_list _ := rfl
  asDict_dict d := congrArg some (Dict.update_empty d)
  toDict_dict d := congrArg some (Dict.update_empty d)

end PalmEngine.Context
