import Mathlib.Data.List.Infix

/-!
# Occurrences of a text

The first index at which a text occurs in another one (`firstAt`): there it occurs, and at no index
before (`firstAt_eq_some`), so that nothing in front of it has it (`not_infix_take`).
-/

namespace Occurrences

variable {α : Type} [DecidableEq α]

/-- The first index at which `p` occurs. -/
def firstAt (p : List α) : List α → Option Nat
  | [] => if p = [] then some 0 else none
  | c :: s => if p <+: c :: s then some 0 else (firstAt p s).map (· + 1)

variable {p : List α}

theorem firstAt_of_begins {s : List α} (here : p <+: s) : firstAt p s = some 0 := by
  cases s with
  | nil => rw [firstAt, if_pos (List.prefix_nil.mp here)]
  | cons c s => rw [firstAt, if_pos here]

theorem firstAt_cons {c : α} {s : List α} (other : ¬ p <+: c :: s) :
    firstAt p (c :: s) = (firstAt p s).map (· + 1) := by
  rw [firstAt, if_neg other]

/-- It occurs there, and at no index before. -/
theorem firstAt_eq_some : ∀ {s : List α} {i : Nat}, firstAt p s = some i ↔
    p <+: s.drop i ∧ ∀ j < i, ¬ p <+: s.drop j
  | [], i => by
    rw [firstAt]
    split
    · rename_i empty
      subst empty
      rw [Option.some_inj]
      constructor
      · intro same
        subst same
        exact ⟨List.nil_prefix, fun j before => (Nat.not_lt_zero j before).elim⟩
      · intro found
        obtain ⟨-, first⟩ := found
        exact (Nat.eq_zero_of_not_pos fun before => first 0 before List.nil_prefix).symm
    · rename_i nonempty
      simp [nonempty]
  | c :: s, i => by
    rw [firstAt]
    split
    · rename_i here
      rw [Option.some_inj]
      constructor
      · intro same
        subst same
        exact ⟨here, fun j before => (Nat.not_lt_zero j before).elim⟩
      · intro found
        obtain ⟨-, first⟩ := found
        exact (Nat.eq_zero_of_not_pos fun before => first 0 before here).symm
    · rename_i other
      rw [Option.map_eq_some_iff]
      constructor
      · intro later
        obtain ⟨i, found, rfl⟩ := later
        obtain ⟨there, first⟩ := firstAt_eq_some.mp found
        refine ⟨there, fun j before => ?_⟩
        cases j with
        | zero => exact other
        | succ j => exact first j (Nat.lt_of_succ_lt_succ before)
      · intro found
        obtain ⟨there, first⟩ := found
        cases i with
        | zero => exact (other there).elim
        | succ i =>
          refine ⟨i, firstAt_eq_some.mpr ⟨there, fun j before => ?_⟩, rfl⟩
          exact first (j + 1) (Nat.succ_lt_succ before)

/-- It occurs nowhere. -/
theorem firstAt_eq_none : ∀ {s : List α}, firstAt p s = none ↔ ¬ p <:+: s
  | [] => by
    rw [firstAt, List.infix_nil]
    split
    · rename_i empty
      simp [empty]
    · rename_i nonempty
      simp [nonempty]
  | c :: s => by
    have later : firstAt p s = none ↔ ¬ p <:+: s := firstAt_eq_none
    rw [firstAt, List.infix_cons_iff]
    split
    · rename_i here
      simp [here]
    · rename_i other
      simp [other, later]

section Found

variable {s : List α} {i : Nat}

/-- What stands in front of it, it, and what follows. -/
theorem split_firstAt (found : firstAt p s = some i) :
    s.take i ++ (p ++ s.drop (i + p.length)) = s := by
  obtain ⟨rest, there⟩ := (firstAt_eq_some.mp found).1
  have behind : s.drop (i + p.length) = rest := by
    rw [← List.drop_drop, ← there, List.drop_left]
  rw [behind, there, List.take_append_drop]

theorem firstAt_add_length_le (found : firstAt p s = some i) (nonempty : p ≠ []) :
    i + p.length ≤ s.length := by
  have fits := (firstAt_eq_some.mp found).1.length_le
  have positive := List.length_pos_iff.mpr nonempty
  rw [List.length_drop] at fits
  omega

/-- It does not occur in what stands in front of it. -/
theorem not_infix_take (found : firstAt p s = some i) (nonempty : p ≠ []) :
    ¬ p <:+: s.take i := by
  intro inside
  obtain ⟨front, rest, split⟩ := inside
  have lengths := congrArg List.length split
  have positive := List.length_pos_iff.mpr nonempty
  simp only [List.length_append, List.length_take] at lengths
  refine (firstAt_eq_some.mp found).2 front.length (by omega) ⟨rest ++ s.drop i, ?_⟩
  have whole : s = front ++ (p ++ (rest ++ s.drop i)) := by
    rw [← List.append_assoc, ← List.append_assoc, split, List.take_append_drop]
  calc p ++ (rest ++ s.drop i) = (front ++ (p ++ (rest ++ s.drop i))).drop front.length := by
        rw [List.drop_left]
    _ = s.drop front.length := by rw [← whole]

end Found

/-- A pair of different elements is found behind a text that does not have it. -/
theorem firstAt_pair {x y : α} (different : x ≠ y) (rest : List α) : ∀ {s : List α},
    ¬ [x, y] <:+: s → firstAt [x, y] (s ++ [x, y] ++ rest) = some s.length
  | [], _ => firstAt_of_begins (List.prefix_append _ _)
  | c :: s, missing => by
    rw [List.infix_cons_iff, not_or] at missing
    have other : ¬ [x, y] <+: c :: (s ++ [x, y] ++ rest) := by
      intro here
      obtain ⟨rfl, next⟩ := List.cons_prefix_cons.mp here
      cases s with
      | nil => exact different (List.cons_prefix_cons.mp next).1.symm
      | cons d s =>
        obtain ⟨rfl, -⟩ := List.cons_prefix_cons.mp next
        exact missing.1 ⟨s, rfl⟩
    rw [List.cons_append, List.cons_append, firstAt_cons other,
      firstAt_pair different rest missing.2]
    rfl

end Occurrences
