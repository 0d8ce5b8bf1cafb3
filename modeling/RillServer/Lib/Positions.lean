import RillServer.Lib.Occurrences

/-!
# Positions in a text

`find` of a plain text and `sub` of Lua's string library, whose positions count from one. A position
of zero is the same as one.
-/

namespace Positions

open Occurrences

variable {α : Type}

/-- `string.find(s, p, init, true)`: where it is first found, and where it ends. -/
def find [DecidableEq α] (s p : List α) (init : Nat) : Option (Nat × Nat) :=
  let init := max init 1
  if s.length + 1 < init then none
  else (firstAt p (s.drop (init - 1))).map fun i => (init + i, init + i + p.length - 1)

/-- `string.sub(s, i, j)`. -/
def sub (s : List α) (i j : Nat) : List α :=
  let i := max i 1
  let j := min j s.length
  if i ≤ j then (s.drop (i - 1)).take (j - i + 1) else []

section Find

variable [DecidableEq α] {s p : List α}

theorem find_eq {init : Nat} (inside : init ≤ s.length + 1) :
    find s p init = (firstAt p (s.drop (init - 1))).map fun i =>
      (max init 1 + i, max init 1 + i + p.length - 1) := by
  have start : max init 1 - 1 = init - 1 := by omega
  have fits : ¬ s.length + 1 < max init 1 := by omega
  rw [find, if_neg fits, start]

/-- What is found is behind the beginning, and ends inside the text. -/
theorem find_bounds {init st sp : Nat} (nonempty : p ≠ []) (found : find s p init = some (st, sp)) :
    init ≤ st ∧ 1 ≤ st ∧ st ≤ sp ∧ sp ≤ s.length := by
  rw [find] at found
  split at found
  · cases found
  · obtain ⟨i, first, same⟩ := Option.map_eq_some_iff.mp found
    cases same
    have ends := firstAt_add_length_le first nonempty
    have positive := List.length_pos_iff.mpr nonempty
    rw [List.length_drop] at ends
    omega

end Find

/-- From a position to the end. -/
theorem sub_length (s : List α) (i : Nat) : sub s i s.length = s.drop (i - 1) := by
  have start : max i 1 - 1 = i - 1 := by omega
  rw [sub, Nat.min_self, start]
  split
  · apply List.take_of_length_le
    rw [List.length_drop]
    omega
  · rw [List.drop_eq_nil_of_le (by omega)]

/-- From a position on, so many characters. -/
theorem sub_add (s : List α) (i n : Nat) (inside : i - 1 + n ≤ s.length) :
    sub s i (max i 1 + n - 1) = (s.drop (i - 1)).take n := by
  have start : max i 1 - 1 = i - 1 := by omega
  have stop : min (max i 1 + n - 1) s.length = max i 1 + n - 1 := by omega
  simp only [sub, start, stop]
  split
  · have count : max i 1 + n - 1 - max i 1 + 1 = n := by omega
    rw [count]
  · have none' : n = 0 := by omega
    rw [none', List.take_zero]

end Positions
