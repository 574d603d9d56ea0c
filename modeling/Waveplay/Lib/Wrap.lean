import Mathlib.Data.Int.Notation
import Mathlib.Data.Nat.Notation

/-! # 32-bit integers

The signed 32-bit integer with the low bits of an integer: the result of an operation that wraps around,
and of a cast from a longer type. -/

namespace Waveplay.Lib.Wrap

/-- The low 32 bits, as a signed number. -/
def toInt (x : ℤ) : ℤ := x.bmod 4294967296

theorem toInt_of_bounds {x : ℤ} (hlow : -2147483648 ≤ x) (hhigh : x < 2147483648) : toInt x = x := by
  unfold toInt
  exact Int.bmod_eq_of_le (by omega) (by omega)

theorem toInt_of_upper {x : ℤ} (hlow : 2147483648 ≤ x) (hhigh : x < 4294967296) :
    toInt x = x - 4294967296 := by
  have hmod : x % 4294967296 = x := Int.emod_eq_of_lt (by omega) hhigh
  have hbmod : ¬ x % ((4294967296 : ℕ) : ℤ) < (((4294967296 : ℕ) : ℤ) + 1) / 2 := by omega
  rw [toInt, Int.bmod_def, if_neg hbmod]
  omega

theorem toInt_bounds (x : ℤ) : -2147483648 ≤ toInt x ∧ toInt x < 2147483648 := by
  have hlow : -(((4294967296 : ℕ) : ℤ) / 2) ≤ x.bmod 4294967296 := Int.le_bmod (by decide)
  have hhigh : x.bmod 4294967296 < (((4294967296 : ℕ) : ℤ) + 1) / 2 := Int.bmod_lt (by decide)
  unfold toInt
  exact ⟨by simpa using hlow, by simpa using hhigh⟩

end Waveplay.Lib.Wrap
