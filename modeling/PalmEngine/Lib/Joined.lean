import Mathlib

/-!
# Joined texts

Texts joined with a separator give the same text exactly when they have the same pieces, each text
cut at the separators in it. Joining is therefore injective only on texts without the separator.
-/

namespace PalmEngine.Lib

variable {α : Type*} [DecidableEq α]

/-- Cutting a joined list at the separator cuts every part. -/
theorem splitOn_intercalate_flatMap (sep : α) {parts : List (List α)} (h : parts ≠ []) :
    ([sep].intercalate parts).splitOn sep = parts.flatMap (·.splitOn sep) := by
  induction parts with
  | nil => exact absurd rfl h
  | cons part rest ih =>
    cases rest with
    | nil => simp
    | cons next rest =>
      rw [List.intercalate_cons_cons, List.append_assoc, List.singleton_append,
        List.splitOn_append_cons_self, ih (List.cons_ne_nil next rest)]
      rfl

/-- Two joined lists are the same exactly when their parts have the same pieces. -/
theorem intercalate_eq_iff (sep : α) {parts others : List (List α)} (h : parts ≠ [])
    (hothers : others ≠ []) :
    [sep].intercalate parts = [sep].intercalate others ↔
      parts.flatMap (·.splitOn sep) = others.flatMap (·.splitOn sep) := by
  rw [← splitOn_intercalate_flatMap sep h, ← splitOn_intercalate_flatMap sep hothers]
  constructor
  · exact congrArg _
  · intro hpieces
    calc [sep].intercalate parts
      _ = [sep].intercalate (([sep].intercalate parts).splitOn sep) :=
        (List.intercalate_splitOn sep).symm
      _ = [sep].intercalate others := by rw [hpieces, List.intercalate_splitOn]

/-- The pieces of texts at a separator. -/
def pieces (sep : Char) (texts : List String) : List (List Char) :=
  texts.flatMap (·.toList.splitOn sep)

/-- Two joined texts are the same exactly when the texts have the same pieces. -/
theorem joined_eq_iff (sep : Char) {texts others : List String} (h : texts ≠ [])
    (hothers : others ≠ []) :
    (String.singleton sep).intercalate texts = (String.singleton sep).intercalate others ↔
      pieces sep texts = pieces sep others := by
  rw [← String.toList_inj, String.toList_intercalate, String.toList_intercalate,
    String.toList_singleton, intercalate_eq_iff sep (by simpa) (by simpa)]
  simp only [pieces, List.flatMap_map]

end PalmEngine.Lib
