import RillServer.Lib.Positions
import RillServer.Protopack.ProtoFiles

/-!
# Splitting a text

`string.split` of `lualib/libstring.lua`, over `string.find` of plain texts and `string.sub`. It
begins at a position of zero, which is the same as one to both.

The pieces do not have the delimiter in them, and joined by it they are the text (`split_spec`).
-/

namespace RillServer.Protopack

open Occurrences Positions

/-- The loop of `string.split`, from `pos` on. -/
def splitFrom (input delimiter : Text) (nonempty : delimiter ≠ []) (pos : Nat) : List Text :=
  match found : find input delimiter pos with
  | some (st, sp) => sub input pos (st - 1) :: splitFrom input delimiter nonempty (sp + 1)
  | none => [sub input pos input.length]
termination_by input.length + 1 - pos
decreasing_by
  have bounds := find_bounds nonempty found
  omega

/-- `string.split`, which returns `false` for an empty delimiter. -/
def split (input delimiter : Text) : Option (List Text) :=
  if empty : delimiter = [] then none else some (splitFrom input delimiter empty 0)

section Split

variable {input delimiter : Text} (nonempty : delimiter ≠ [])

theorem splitFrom_of_none {pos : Nat} (inside : pos ≤ input.length + 1)
    (missing : firstAt delimiter (input.drop (pos - 1)) = none) :
    splitFrom input delimiter nonempty pos = [input.drop (pos - 1)] := by
  have nothing : find input delimiter pos = none := by
    rw [find_eq inside, missing]
    rfl
  rw [splitFrom]
  split
  · rename_i found
    rw [nothing] at found
    cases found
  · rw [sub_length]

theorem splitFrom_of_some {pos i : Nat} (inside : pos ≤ input.length + 1)
    (first : firstAt delimiter (input.drop (pos - 1)) = some i) :
    splitFrom input delimiter nonempty pos = (input.drop (pos - 1)).take i ::
      splitFrom input delimiter nonempty (max pos 1 + i + delimiter.length) := by
  have positive := List.length_pos_iff.mpr nonempty
  have ends := firstAt_add_length_le first nonempty
  rw [List.length_drop] at ends
  have something : find input delimiter pos =
      some (max pos 1 + i, max pos 1 + i + delimiter.length - 1) := by
    rw [find_eq inside, first]
    rfl
  have next : max pos 1 + i + delimiter.length - 1 + 1 = max pos 1 + i + delimiter.length := by
    omega
  rw [splitFrom]
  split
  · rename_i found
    rw [something] at found
    cases found
    rw [sub_add input pos i (by omega), next]
  · rename_i found
    rw [something] at found
    cases found

/-- From a position on: the pieces of what follows. -/
theorem splitFrom_spec : ∀ (rest pos : Nat), input.length + 1 - pos ≤ rest →
    pos ≤ input.length + 1 →
      (∀ piece ∈ splitFrom input delimiter nonempty pos, ¬ delimiter <:+: piece) ∧
      splitFrom input delimiter nonempty pos ≠ [] ∧
      delimiter.intercalate (splitFrom input delimiter nonempty pos) = input.drop (pos - 1)
  | rest, pos, enough, inside => by
    cases first : firstAt delimiter (input.drop (pos - 1)) with
    | none =>
      rw [splitFrom_of_none nonempty inside first]
      refine ⟨?_, List.cons_ne_nil _ _, List.intercalate_singleton⟩
      rw [List.forall_mem_singleton]
      exact firstAt_eq_none.mp first
    | some i =>
      have positive := List.length_pos_iff.mpr nonempty
      have ends := firstAt_add_length_le first nonempty
      rw [List.length_drop] at ends
      obtain ⟨rest', rfl⟩ : ∃ rest', rest = rest' + 1 := ⟨rest - 1, by omega⟩
      obtain ⟨later, more, joined⟩ := splitFrom_spec rest'
        (max pos 1 + i + delimiter.length) (by omega) (by omega)
      have next : max pos 1 + i + delimiter.length - 1 = pos - 1 + (i + delimiter.length) := by
        omega
      rw [splitFrom_of_some nonempty inside first]
      refine ⟨?_, List.cons_ne_nil _ _, ?_⟩
      · rw [List.forall_mem_cons]
        exact ⟨not_infix_take first nonempty, later⟩
      · rw [List.intercalate_cons_of_ne_nil more, joined, next, ← List.drop_drop,
          List.append_assoc, split_firstAt first]

end Split

/-- **`string.split` inverts joining**: for a delimiter that is not empty it ends, with pieces that
do not have the delimiter in them and that are the text when they are joined by it. The commands are
split at their dots. -/
theorem split_spec :
    (∀ input delimiter : Text, delimiter ≠ [] → ∃ pieces, split input delimiter = some pieces ∧
      (∀ piece ∈ pieces, ¬ delimiter <:+: piece) ∧ delimiter.intercalate pieces = input) ∧
    ∀ cmd : Text, split cmd ['.'] = some (cmd.splitOn '.') := by
  have whole : ∀ (input delimiter : Text) (nonempty : delimiter ≠ []),
      split input delimiter = some (splitFrom input delimiter nonempty 0) := by
    intro input delimiter nonempty
    rw [split, dif_neg nonempty]
  constructor
  · intro input delimiter nonempty
    obtain ⟨without, -, joined⟩ := splitFrom_spec nonempty _ 0 le_rfl (Nat.zero_le _)
    exact ⟨_, whole input delimiter nonempty, without, joined⟩
  · intro cmd
    have nonempty : ['.'] ≠ [] := List.cons_ne_nil _ _
    obtain ⟨without, more, joined⟩ :=
      splitFrom_spec nonempty _ 0 le_rfl (Nat.zero_le _)
    have dots : ∀ piece ∈ splitFrom cmd ['.'] nonempty 0, '.' ∉ piece := by
      intro piece member inside
      exact without piece member ((List.singleton_infix_iff '.' piece).mpr inside)
    have pieces := List.splitOn_intercalate '.' dots more
    rw [joined, Nat.zero_sub, List.drop_zero] at pieces
    rw [whole cmd ['.'] nonempty, pieces]

/-- A delimiter that overlaps itself, at both ends. -/
theorem split_spec_overlapping : ∃ pieces, split "aaabaa".toList ['a', 'a'] = some pieces ∧
    (∀ piece ∈ pieces, ¬ ['a', 'a'] <:+: piece) ∧
      ['a', 'a'].intercalate pieces = "aaabaa".toList :=
  split_spec.1 "aaabaa".toList ['a', 'a'] (by decide)

end RillServer.Protopack
