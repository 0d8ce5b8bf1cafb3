import RillServer.Lib.Bytes
import Mathlib.Data.Nat.Bitwise

/-!
# Reflected cyclic redundancy checks

A register takes in a byte by exclusive or and is then shifted to the right, bit by bit; a bit that
falls out brings in the polynomial (`shift`). Shifting is linear (`shift_xor`), so that shifting
`k` times depends on the lowest `k` bits, which can be looked up, and on the others, which move down
(`shifts_eq`). With a table of 256 words a byte is taken in at once (`takeIn_eq`).
-/

namespace Crc

/-- One shift of the register. -/
def shift (poly c : Nat) : Nat := if c % 2 = 1 then c / 2 ^^^ poly else c / 2

/-- So many shifts. -/
def shifts (poly : Nat) : Nat → Nat → Nat
  | 0, c => c
  | k + 1, c => shift poly (shifts poly k c)

/-- The register takes in a byte. -/
def takeIn (poly c : Nat) (b : UInt8) : Nat := shifts poly 8 (c ^^^ b.toNat)

/-- The check of a text, with what the register begins with and what is added to its end. -/
def crc (poly initial final : Nat) (bytes : Bytes) : Nat :=
  bytes.foldl (takeIn poly) initial ^^^ final

variable {poly : Nat}

theorem shift_xor (a b : Nat) : shift poly (a ^^^ b) = shift poly a ^^^ shift poly b := by
  have odd : (a ^^^ b) % 2 = 1 ↔ ¬ (a % 2 = 1 ↔ b % 2 = 1) := Nat.xor_mod_two_eq_one
  unfold shift
  rw [Nat.xor_div_two]
  by_cases oddA : a % 2 = 1 <;> by_cases oddB : b % 2 = 1
  · -- the polynomial comes in twice
    rw [if_neg (by rw [odd]; simp [oddA, oddB]), if_pos oddA, if_pos oddB]
    calc a / 2 ^^^ b / 2 = a / 2 ^^^ b / 2 ^^^ (poly ^^^ poly) := by
          rw [Nat.xor_self, Nat.xor_zero]
      _ = a / 2 ^^^ poly ^^^ (b / 2 ^^^ poly) := by ac_rfl
  · rw [if_pos (by rw [odd]; simp [oddA, oddB]), if_pos oddA, if_neg oddB]
    ac_rfl
  · rw [if_pos (by rw [odd]; simp [oddA, oddB]), if_neg oddA, if_pos oddB]
    ac_rfl
  · rw [if_neg (by rw [odd]; simp [oddA, oddB]), if_neg oddA, if_neg oddB]

/-- The bit that falls out, and the others. -/
theorem shift_eq (c : Nat) : shift poly c = shift poly (c % 2) ^^^ c / 2 := by
  rcases Nat.mod_two_eq_zero_or_one c with even | odd
  · simp [shift, even]
  · simp [shift, odd, Nat.xor_comm]

/-- The lowest `k` bits, and the others. -/
theorem shifts_eq (k c : Nat) :
    shifts poly k c = shifts poly k (c % 2 ^ k) ^^^ c / 2 ^ k := by
  induction k generalizing c with
  | zero => simp [shifts, Nat.mod_one]
  | succ k ih =>
    have low : c % 2 ^ (k + 1) % 2 ^ k = c % 2 ^ k :=
      Nat.mod_mod_of_dvd c (Nat.pow_dvd_pow 2 (Nat.le_succ k))
    have next : c % 2 ^ (k + 1) / 2 ^ k = c / 2 ^ k % 2 := by
      rw [pow_succ, Nat.mod_mul_right_div_self]
    have high : c / 2 ^ (k + 1) = c / 2 ^ k / 2 := by rw [pow_succ, Nat.div_div_eq_div_mul]
    calc shifts poly (k + 1) c
        = shift poly (shifts poly k (c % 2 ^ k) ^^^ c / 2 ^ k) := by rw [shifts, ih]
      _ = shift poly (shifts poly k (c % 2 ^ k)) ^^^
            (shift poly (c / 2 ^ k % 2) ^^^ c / 2 ^ k / 2) := by rw [shift_xor, ← shift_eq]
      _ = shift poly (shifts poly k (c % 2 ^ k) ^^^ c / 2 ^ k % 2) ^^^ c / 2 ^ k / 2 := by
          rw [shift_xor, Nat.xor_assoc]
      _ = shifts poly (k + 1) (c % 2 ^ (k + 1)) ^^^ c / 2 ^ (k + 1) := by
          rw [shifts, ih (c % 2 ^ (k + 1)), low, next, high]

/-- The table gives eight shifts of each byte. -/
def IsTable (poly : Nat) (table : Nat → Nat) : Prop := ∀ n, n < 256 → table n = shifts poly 8 n

variable {table : Nat → Nat}

/-- A byte is taken in at once. -/
theorem takeIn_eq (isTable : IsTable poly table) (c : Nat) (b : UInt8) :
    takeIn poly c b = table ((c ^^^ b.toNat) % 256) ^^^ c / 256 := by
  have byte : b.toNat / 2 ^ 8 = 0 := Nat.div_eq_of_lt b.toNat_lt
  have high : (c ^^^ b.toNat) / 2 ^ 8 = c / 2 ^ 8 := by
    rw [Nat.xor_div_two_pow, byte, Nat.xor_zero]
  rw [takeIn, shifts_eq, high, isTable _ (Nat.mod_lt _ (by decide))]
  rfl

/-- The register keeps its width. -/
theorem shifts_lt {w : Nat} (narrow : poly < 2 ^ w) {c : Nat} (inside : c < 2 ^ w) (k : Nat) :
    shifts poly k c < 2 ^ w := by
  induction k with
  | zero => exact inside
  | succ k ih =>
    have half : shifts poly k c / 2 < 2 ^ w := Nat.lt_of_le_of_lt (Nat.div_le_self _ 2) ih
    rw [shifts, shift]
    split
    · exact Nat.xor_lt_two_pow half narrow
    · exact half

end Crc
