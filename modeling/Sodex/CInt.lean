import Mathlib.Data.Int.Basic
import Mathlib.Tactic.Common

/-!
# 32-bit `int` arithmetic

A C `int` of the target is a two's complement number of 32 bits. Sums and
conversions are taken over the integers and brought back into range.
-/
namespace Sodex.CInt

/-- The `int` with the same low 32 bits. -/
def toInt (x : ℤ) : ℤ := (x + 2147483648) % 4294967296 - 2147483648

theorem toInt_of_range {x : ℤ} (h₀ : -2147483648 ≤ x) (h₁ : x < 2147483648) : toInt x = x := by
  unfold toInt
  omega

/-- A number past the largest `int` becomes negative. -/
theorem toInt_of_high {x : ℤ} (h₀ : 2147483648 ≤ x) (h₁ : x < 6442450944) :
    toInt x = x - 4294967296 := by
  unfold toInt
  omega

theorem toInt_range (x : ℤ) : -2147483648 ≤ toInt x ∧ toInt x < 2147483648 := by
  unfold toInt
  omega

end Sodex.CInt
