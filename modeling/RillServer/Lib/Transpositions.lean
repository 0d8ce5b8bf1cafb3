import Mathlib.Algebra.Group.End
import Mathlib.Logic.Equiv.Basic

/-!
# Products of transpositions

`transpositions j n` is the product of the transpositions of `i` and `j i` for the `i` below `n`,
the largest first. With `j i ≤ i` each permutation of the numbers below `n` is such a product
(`exists_transpositions`), and only of one choice of the `j i` (`transpositions_injective`).
-/

namespace Transpositions

open Equiv

/-- The transpositions `(n - 1, j (n - 1)), …, (0, j 0)`, multiplied in this order. -/
def transpositions (j : Nat → Nat) : Nat → Perm Nat
  | 0 => 1
  | n + 1 => swap n (j n) * transpositions j n

variable {j k : Nat → Nat} {n : Nat}

/-- Each number is exchanged with itself or with a smaller one. -/
def Below (j : Nat → Nat) : Prop := ∀ i, j i ≤ i

theorem transpositions_of_le (below : Below j) :
    ∀ {n p : Nat}, n ≤ p → transpositions j n p = p
  | 0, _, _ => rfl
  | n + 1, p, le => by
    have fixed : transpositions j n p = p := transpositions_of_le below (by omega)
    have bound := below n
    rw [transpositions, Perm.mul_apply, fixed]
    exact swap_apply_of_ne_of_ne (by omega) (by omega)

theorem transpositions_last (below : Below j) (n : Nat) : transpositions j (n + 1) n = j n := by
  rw [transpositions, Perm.mul_apply, transpositions_of_le below (Nat.le_refl n), swap_apply_left]

theorem transpositions_lt (below : Below j) {p : Nat} (lt : p < n) :
    transpositions j n p < n := by
  by_contra outside
  -- what is mapped to a number from `n` on is that number itself
  have fixed := transpositions_of_le below (Nat.le_of_not_lt outside)
  have same := (transpositions j n).injective fixed
  omega

/-- A product in which every number but `0` is exchanged with a smaller one leaves none in its
place. -/
theorem transpositions_ne (zero : j 0 = 0) (strict : ∀ i, 0 < i → j i < i) :
    ∀ {n p : Nat}, 2 ≤ n → p < n → transpositions j n p ≠ p
  | n + 1, p, two, lt => by
    have below : Below j := by
      intro i
      rcases Nat.eq_zero_or_pos i with rfl | positive
      · rw [zero]
      · exact Nat.le_of_lt (strict i positive)
    have smaller := strict n (by omega)
    rcases Nat.lt_succ_iff_lt_or_eq.mp lt with inside | rfl
    · rw [transpositions, Perm.mul_apply]
      have bound : transpositions j n p < n := transpositions_lt below inside
      by_cases target : transpositions j n p = j n
      · rw [target, swap_apply_right]
        omega
      · rw [swap_apply_of_ne_of_ne (by omega) target]
        -- what the new exchange does not touch is moved by the earlier ones, if there are any
        rcases Nat.lt_or_ge n 2 with one | more
        · obtain rfl : n = 1 := by omega
          omega
        · exact transpositions_ne zero strict more inside
    · rw [transpositions_last below]
      omega

/-- The image of the last number tells the first transposition, and what is left after it is the
product for one number less. -/
theorem transpositions_injective (belowj : Below j) (belowk : Below k) :
    ∀ {n : Nat}, transpositions j n = transpositions k n → ∀ i < n, j i = k i
  | 0, _, i, lt => absurd lt (Nat.not_lt_zero i)
  | n + 1, same, i, lt => by
    have last : j n = k n := by
      rw [← transpositions_last belowj, ← transpositions_last belowk, same]
    have rest : transpositions j n = transpositions k n := by
      rw [transpositions, transpositions, last] at same
      exact mul_left_cancel same
    rcases Nat.lt_succ_iff_lt_or_eq.mp lt with below | rfl
    · exact transpositions_injective belowj belowk rest i below
    · exact last

/-- Only the exchanges below `n` matter. -/
theorem transpositions_congr :
    ∀ {n : Nat}, (∀ i < n, j i = k i) → transpositions j n = transpositions k n
  | 0, _ => rfl
  | n + 1, same => by
    rw [transpositions, transpositions, same n (Nat.lt_succ_self n),
      transpositions_congr fun i lt => same i (Nat.lt_succ_of_lt lt)]

/-- A permutation of the numbers below `n` is a product of transpositions. -/
theorem exists_transpositions :
    ∀ (n : Nat) (σ : Perm Nat), (∀ p, n ≤ p → σ p = p) →
      ∃ j : Nat → Nat, Below j ∧ transpositions j n = σ
  | 0, σ, fixed => by
    refine ⟨id, fun i => Nat.le_refl i, ?_⟩
    ext p
    exact (fixed p (Nat.zero_le p)).symm
  | n + 1, σ, fixed => by
    have bound : σ n ≤ n := by
      by_contra above
      have same := σ.injective (fixed (σ n) (by omega))
      omega
    -- once the last number is back in its place, the rest moves the numbers below `n` only
    obtain ⟨j, below, product⟩ := exists_transpositions n (swap n (σ n) * σ) (by
      intro p le
      rcases Nat.eq_or_lt_of_le le with rfl | lt
      · rw [Perm.mul_apply, swap_apply_right]
      · rw [Perm.mul_apply, fixed p lt]
        exact swap_apply_of_ne_of_ne (by omega) (by omega))
    refine ⟨Function.update j n (σ n), ?_, ?_⟩
    · intro i
      by_cases same : i = n
      · rw [same, Function.update_self]
        exact bound
      · rw [Function.update_of_ne same]
        exact below i
    · have earlier : transpositions (Function.update j n (σ n)) n = transpositions j n :=
        transpositions_congr fun i lt => Function.update_of_ne (Nat.ne_of_lt lt) _ _
      rw [transpositions, Function.update_self, earlier, product, ← mul_assoc, swap_mul_self,
        one_mul]

end Transpositions
