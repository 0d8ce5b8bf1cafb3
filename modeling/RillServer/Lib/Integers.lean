import Mathlib.Algebra.Ring.Int.Defs
import Mathlib.Algebra.Ring.Nat

/-!
# Integers of 64 bits

Lua's integers, whose sums and differences wrap around.
-/

namespace LuaInteger

/-- `math.maxinteger`. -/
def maxinteger : Int := 2 ^ 63 - 1

/-- `math.mininteger`. -/
def mininteger : Int := -2 ^ 63

/-- A sum or difference, as it wraps around. -/
def wrap (n : Int) : Int := Int.bmod n (2 ^ 64)

theorem wrap_of_le {n : Int} (low : mininteger ≤ n) (high : n ≤ maxinteger) : wrap n = n := by
  rw [mininteger] at low
  rw [maxinteger] at high
  apply Int.bmod_eq_of_le
  · omega
  · omega

theorem wrap_of_nonneg {n : Int} (low : 0 ≤ n) (high : n ≤ maxinteger) : wrap n = n :=
  wrap_of_le (Int.le_trans (by decide) low) high

end LuaInteger
