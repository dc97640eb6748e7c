import PalmEngine.Lib.Strip

/-!
# Integers as texts

Reading an integer the way of a scripting language: blank characters around it are ignored, a sign
may stand before it, single underscores may stand between its digits, and the decimal digits of
every script count. Writing an integer in decimal and reading it gives it back.
-/

namespace PalmEngine.Lib

/-- The code points of the zeros of the decimal digits; nine more digits follow each. -/
def decimalZeros : List ℕ :=
  [48, 1632, 1776, 1984, 2406, 2534, 2662, 2790, 2918, 3046, 3174, 3302, 3430, 3558, 3664, 3792,
    3872, 4160, 4240, 6112, 6160, 6470, 6608, 6784, 6800, 6992, 7088, 7232, 7248, 42528, 43216,
    43264, 43472, 43504, 43600, 44016, 65296, 66720, 68912, 69734, 69872, 69942, 70096, 70384,
    70736, 70864, 71248, 71360, 71472, 71904, 72016, 72784, 73040, 73120, 92768, 92864, 93008,
    120782, 120792, 120802, 120812, 120822, 123200, 123632, 125264, 130032]

/-- The value of a decimal digit. -/
def digitValue (c : Char) : Option ℕ :=
  (decimalZeros.find? fun zero => zero ≤ c.toNat ∧ c.toNat < zero + 10).map (c.toNat - ·)

/-- Read the digits that follow those of a value, with underscores between them. -/
def digitsFrom (value : ℕ) : List Char → Option ℕ
  | [] => some value
  | '_' :: c :: rest => (digitValue c).bind fun d => digitsFrom (10 * value + d) rest
  | c :: rest => (digitValue c).bind fun d => digitsFrom (10 * value + d) rest

/-- Read a number that has at least one digit and begins with one. -/
def parseDigits : List Char → Option ℕ
  | [] => none
  | c :: rest => (digitValue c).bind fun d => digitsFrom d rest

/-- Read a number with an optional sign. -/
def parseSigned : List Char → Option ℤ
  | '-' :: rest => (parseDigits rest).map fun n => -(n : ℤ)
  | '+' :: rest => (parseDigits rest).map fun n => (n : ℤ)
  | cs => (parseDigits cs).map fun n => (n : ℤ)

/-- A blank character around a number; the four information separators are none here. -/
def isNumberBlank (c : Char) : Bool := isBlank c && !(28 ≤ c.toNat && c.toNat ≤ 31)

/-- `int`: read an integer. -/
def parseInt (s : String) : Option ℤ :=
  parseSigned ((s.toList.dropWhile isNumberBlank).rdropWhile isNumberBlank)

/-- The digits from zero to nine are the first script. -/
theorem digitValue_of_isDigit {c : Char} (h : c.isDigit = true) :
    digitValue c = some (c.toNat - '0'.toNat) := by
  have hrange : 48 ≤ c.toNat ∧ c.toNat < 48 + 10 := by
    simp only [Char.isDigit, Bool.and_eq_true, decide_eq_true_eq, ge_iff_le, UInt32.le_iff_toNat_le,
      Char.toNat_val] at h
    exact ⟨h.1, Nat.lt_succ_of_le h.2⟩
  simp [digitValue, decimalZeros, List.find?_cons, hrange]

/-- Digits are read as the number they write. -/
theorem digitsFrom_of_isDigit {cs : List Char} (h : ∀ c ∈ cs, c.isDigit = true) (value : ℕ) :
    digitsFrom value cs = some (Nat.ofDigitChars 10 cs value) := by
  induction cs generalizing value with
  | nil => simp [digitsFrom]
  | cons c rest ih =>
    have hc := h c (by simp)
    have hne : c ≠ '_' := by
      rintro rfl
      exact absurd hc (by decide)
    rw [digitsFrom.eq_3 value c rest (fun _ _ heq _ => hne heq), digitValue_of_isDigit hc,
      Nat.ofDigitChars_cons]
    exact ih (fun d hd => h d (List.mem_cons_of_mem c hd)) _

/-- A digit is not blank. -/
theorem isNumberBlank_of_isDigit {c : Char} (h : c.isDigit = true) : isNumberBlank c = false := by
  have hrange : 48 ≤ c.toNat ∧ c.toNat ≤ 57 := by
    simp only [Char.isDigit, Bool.and_eq_true, decide_eq_true_eq, ge_iff_le, UInt32.le_iff_toNat_le,
      Char.toNat_val] at h
    exact h
  have hblank : isBlank c = false := by
    simp only [isBlank, blankCodes, List.mem_cons, List.not_mem_nil, or_false,
      decide_eq_false_iff_not]
    omega
  simp [isNumberBlank, hblank]

/-- The digits of a number are read as the number. -/
theorem parseDigits_toDigits (n : ℕ) : parseDigits (Nat.toDigits 10 n) = some n := by
  have hdigits : ∀ c ∈ Nat.toDigits 10 n, c.isDigit = true :=
    fun c => Nat.isDigit_of_mem_toDigits (by decide) (by decide)
  have hvalue : Nat.ofDigitChars 10 (Nat.toDigits 10 n) 0 = n := Nat.ofDigitChars_ten_toDigits
  cases hcs : Nat.toDigits 10 n with
  | nil => exact absurd hcs Nat.toDigits_ne_nil
  | cons c rest =>
    rw [hcs] at hdigits hvalue
    rw [Nat.ofDigitChars_cons] at hvalue
    rw [parseDigits, digitValue_of_isDigit (hdigits c (by simp)), Option.bind_some,
      digitsFrom_of_isDigit fun d hd => hdigits d (List.mem_cons_of_mem c hd)]
    simpa using hvalue

/-- The digits of a number are read as the number also where a sign may stand. -/
theorem parseSigned_toDigits (n : ℕ) : parseSigned (Nat.toDigits 10 n) = some (n : ℤ) := by
  have hparse := parseDigits_toDigits n
  cases hcs : Nat.toDigits 10 n with
  | nil => exact absurd hcs Nat.toDigits_ne_nil
  | cons c rest =>
    have hc : c.isDigit = true :=
      Nat.isDigit_of_mem_toDigits (by decide) (by decide) (hcs ▸ List.mem_cons_self)
    rw [hcs] at hparse
    rw [parseSigned.eq_3, hparse]
    · rfl
    · rintro rest' heq
      cases heq
      exact absurd hc (by decide)
    · rintro rest' heq
      cases heq
      exact absurd hc (by decide)

/-- Nothing is stripped from characters that are not blank. -/
theorem stripNumber_eq {cs : List Char} (h : ∀ c ∈ cs, isNumberBlank c = false) :
    (cs.dropWhile isNumberBlank).rdropWhile isNumberBlank = cs := by
  have hfront : cs.dropWhile isNumberBlank = cs := by
    cases cs with
    | nil => rfl
    | cons c rest => simp [h c (by simp)]
  rw [hfront, List.rdropWhile_eq_self_iff]
  intro hne hlast
  rw [h _ (List.getLast_mem hne)] at hlast
  cases hlast

/-- An integer that is written and read is the same. -/
theorem parseInt_toString (n : ℤ) : parseInt (toString n) = some n := by
  have hblank : ∀ m : ℕ, ∀ c ∈ Nat.toDigits 10 m, isNumberBlank c = false := fun m c hc =>
    isNumberBlank_of_isDigit (Nat.isDigit_of_mem_toDigits (by decide) (by decide) hc)
  cases n with
  | ofNat m =>
    have htext : (toString (Int.ofNat m)).toList = Nat.toDigits 10 m := by
      rw [← Nat.toList_repr]
      rfl
    rw [parseInt, htext, stripNumber_eq (hblank m)]
    exact parseSigned_toDigits m
  | negSucc m =>
    have htext : (toString (Int.negSucc m)).toList = '-' :: Nat.toDigits 10 (m + 1) := by
      rw [← Nat.toList_repr]
      exact String.toList_append
    rw [parseInt, htext, stripNumber_eq]
    · rw [parseSigned, parseDigits_toDigits]
      rfl
    · intro c hc
      rcases List.mem_cons.mp hc with rfl | hc
      · decide
      · exact hblank _ c hc

/-- The text of an integer has digits and a sign. -/
theorem mem_toString_int {n : ℤ} {c : Char} (h : c ∈ (toString n).toList) :
    c.isDigit = true ∨ c = '-' := by
  have hdigits : ∀ m : ℕ, c ∈ (Nat.repr m).toList → c.isDigit = true := fun m hc =>
    Nat.isDigit_of_mem_toDigits (by decide) (by decide) (Nat.toList_repr ▸ hc)
  cases n with
  | ofNat m => exact .inl (hdigits m h)
  | negSucc m =>
    have htext : (toString (Int.negSucc m)).toList = '-' :: (Nat.repr (m + 1)).toList :=
      String.toList_append
    rw [htext] at h
    rcases List.mem_cons.mp h with rfl | hc
    · exact .inr rfl
    · exact .inl (hdigits _ hc)

end PalmEngine.Lib
