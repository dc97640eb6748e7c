import Mathlib

/-!
# Big-endian numbers

A number in a fixed count of bytes, the most significant one first.
-/

namespace PalmEngine.Lib

/-- The lowest bytes of a number, so many of them. -/
def bigEndian : ℕ → ℕ → List UInt8
  | 0, _ => []
  | width + 1, n => bigEndian width (n / 256) ++ [UInt8.ofNat n]

/-- The number that bytes stand for. -/
def fromBigEndian (bytes : List UInt8) : ℕ := bytes.foldl (fun n b => n * 256 + b.toNat) 0

/-- There are as many bytes as asked for. -/
@[simp] theorem length_bigEndian (width n : ℕ) : (bigEndian width n).length = width := by
  induction width generalizing n with
  | zero => rfl
  | succ width ih => simp [bigEndian, ih]

/-- A number that fits is read back. -/
theorem fromBigEndian_bigEndian {width n : ℕ} (h : n < 256 ^ width) :
    fromBigEndian (bigEndian width n) = n := by
  induction width generalizing n with
  | zero => simpa [bigEndian, fromBigEndian] using (Nat.lt_one_iff.mp h).symm
  | succ width ih =>
    have hfront : n / 256 < 256 ^ width := by
      rw [pow_succ] at h
      exact Nat.div_lt_of_lt_mul (by rwa [mul_comm])
    have hlast : (UInt8.ofNat n).toNat = n % 256 := UInt8.toNat_ofNat'
    calc fromBigEndian (bigEndian (width + 1) n)
        = fromBigEndian (bigEndian width (n / 256)) * 256 + (UInt8.ofNat n).toNat := by
          simp [fromBigEndian, bigEndian]
      _ = n / 256 * 256 + n % 256 := by rw [ih hfront, hlast]
      _ = n := Nat.div_add_mod' n 256

end PalmEngine.Lib
