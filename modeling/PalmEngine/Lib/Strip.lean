import Mathlib

/-!
# Stripping texts

The text without the blank characters at its two ends, the way of a scripting language: blank
are the characters that Unicode calls whitespace or separators of lines and paragraphs, and the
four information separators.
-/

namespace PalmEngine.Lib

/-- The code points of the blank characters. -/
def blankCodes : List ℕ :=
  [9, 10, 11, 12, 13, 28, 29, 30, 31, 32, 0x85, 0xA0, 0x1680, 0x2000, 0x2001, 0x2002, 0x2003,
    0x2004, 0x2005, 0x2006, 0x2007, 0x2008, 0x2009, 0x200A, 0x2028, 0x2029, 0x202F, 0x205F, 0x3000]

/-- The character is blank. -/
def isBlank (c : Char) : Bool := c.toNat ∈ blankCodes

/-- The characters without the blank ones at both ends. -/
def stripChars (cs : List Char) : List Char := (cs.dropWhile isBlank).rdropWhile isBlank

/-- The text without the blank characters at both ends. -/
def strip (s : String) : String := String.ofList (stripChars s.toList)

/-- Stripping once is enough. -/
theorem stripChars_idem (cs : List Char) : stripChars (stripChars cs) = stripChars cs := by
  have hfront : (stripChars cs).dropWhile isBlank = stripChars cs := by
    obtain ⟨back, hback⟩ := List.rdropWhile_prefix isBlank (l := cs.dropWhile isBlank)
    cases hstripped : stripChars cs with
    | nil => rfl
    | cons c rest =>
      have hhead : cs.dropWhile isBlank = c :: (rest ++ back) := by
        rw [← hback]
        exact congrArg (· ++ back) hstripped
      have hc : isBlank c = false := by
        have hnot := List.head_dropWhile_not isBlank (l := cs) (by simp [hhead])
        simpa [hhead] using hnot
      simp [hc]
  rw [stripChars, hfront]
  exact List.rdropWhile_idempotent isBlank (cs.dropWhile isBlank)

@[simp] theorem strip_strip (s : String) : strip (strip s) = strip s := by
  simp [strip, stripChars_idem]

end PalmEngine.Lib
