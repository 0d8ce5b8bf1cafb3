import RillServer.Lib.Integers
import Mathlib.Algebra.BigOperators.Group.List.Basic
import Mathlib.Algebra.Order.BigOperators.Group.List
import Mathlib.Data.Int.Interval
import Mathlib.Data.Set.Card

/-!
# Drawing by weights

`Table.getRandArrayEx` of `lualib/base/utils/tables.lua`. A table of weights is the list of its
entries in the order in which `pairs` goes over them, whichever that is.

A random value selects the key in whose part of `1..total` it lies: the values behind the sum of the
weights in front of the key, up to the sum that includes its own (`select_eq_some`). So each value
selects one key, and each key is selected by as many values as its weight says (`drawing_exact`), as
long as the sum of the weights is an integer of Lua; a sum that wraps around is no total
(`wrapped_not_exact`).
-/

namespace RillServer.Drawing

open LuaInteger

variable {K : Type}

/-- The first loop: `total`. -/
def total (pblist : List (K × Int)) : Int :=
  pblist.foldl (fun total entry => wrap (total + entry.2)) 0

/-- The inner loop: the key that a random value selects. -/
def select : List (K × Int) → Int → Option K
  | [], _ => none
  | (k, v) :: rest, s => if s ≤ v then some k else select rest (wrap (s - v))

/-- The values of `math.random(low, up)`, call by call. -/
structure MathRandom where
  draw : Nat → Int → Int → Int
  low_le : ∀ i low up, low ≤ up → low ≤ draw i low up
  le_up : ∀ i low up, low ≤ up → draw i low up ≤ up

/-- `math.random`. -/
def MathRandom.random (math : MathRandom) (i : Nat) (low up : Int) : Except String Int :=
  if low ≤ up then .ok (math.draw i low up)
  else .error "bad argument #1 to 'random' (interval is empty)"

/-- The outer loop, for the rounds that are left. -/
def drawFrom (math : MathRandom) (pblist : List (K × Int)) : Nat → Nat → Except String (List K)
  | _, 0 => .ok []
  | i, count + 1 => do
    let s ← math.random i 1 (total pblist)
    let tb ← drawFrom math pblist (i + 1) count
    return (select pblist s).toList ++ tb

/-- `Table.getRandArrayEx`. -/
def getRandArrayEx (math : MathRandom) (pblist : List (K × Int)) (count : Nat) :
    Except String (List K) :=
  drawFrom math pblist 0 count

/-- The sum of the weights. -/
def weight (pblist : List (K × Int)) : Int := (pblist.map Prod.snd).sum

/-- A table of weights: its keys are distinct, and its values integers that are not negative. -/
structure Weights (pblist : List (K × Int)) : Prop where
  distinct : (pblist.map Prod.fst).Nodup
  nonneg : ∀ entry ∈ pblist, 0 ≤ entry.2
  integer : ∀ entry ∈ pblist, entry.2 ≤ maxinteger

/-- Each value selects a key, and each key is selected by as many values as its weight says. What is
drawn has the wanted length, and no key without a weight. -/
structure Exact (pblist : List (K × Int)) : Prop where
  selects : ∀ s, 1 ≤ s → s ≤ total pblist → ∃ k, select pblist s = some k
  count : ∀ k v, (k, v) ∈ pblist →
    ({s | 1 ≤ s ∧ s ≤ total pblist ∧ select pblist s = some k}.ncard : Int) = v
  draws : ∀ math count, ∃ tb, getRandArrayEx math pblist count = .ok tb ∧ tb.length = count ∧
    ∀ k ∈ tb, ∃ v, (k, v) ∈ pblist ∧ v ≠ 0

/-! ## The total -/

theorem weight_cons (entry : K × Int) (rest : List (K × Int)) :
    weight (entry :: rest) = entry.2 + weight rest := List.sum_cons

theorem weight_nonneg {pblist : List (K × Int)} (nonneg : ∀ entry ∈ pblist, 0 ≤ entry.2) :
    0 ≤ weight pblist := by
  apply List.sum_nonneg
  intro v member
  obtain ⟨entry, inside, rfl⟩ := List.mem_map.mp member
  exact nonneg entry inside

theorem foldl_total {pblist : List (K × Int)} (nonneg : ∀ entry ∈ pblist, 0 ≤ entry.2) :
    ∀ {start : Int}, 0 ≤ start → start + weight pblist ≤ maxinteger →
      pblist.foldl (fun total entry => wrap (total + entry.2)) start = start + weight pblist := by
  induction pblist with
  | nil =>
    intro start _ _
    exact (Int.add_zero start).symm
  | cons entry rest ih =>
    intro start low high
    obtain ⟨here, later⟩ := List.forall_mem_cons.mp nonneg
    have others := weight_nonneg later
    rw [weight_cons] at high ⊢
    rw [List.foldl_cons, wrap_of_nonneg (by omega) (by omega), ih later (by omega) (by omega)]
    omega

/-- A sum that does not wrap around is the total. -/
theorem total_eq {pblist : List (K × Int)} (nonneg : ∀ entry ∈ pblist, 0 ≤ entry.2)
    (fits : weight pblist ≤ maxinteger) : total pblist = weight pblist := by
  rw [total, foldl_total nonneg le_rfl, Int.zero_add]
  rw [Int.zero_add]
  exact fits

/-! ## Selecting a key -/

section Select

variable {pblist : List (K × Int)}

/-- Each value up to the sum of the weights selects a key. -/
theorem exists_select (nonneg : ∀ entry ∈ pblist, 0 ≤ entry.2) :
    ∀ {s : Int}, 1 ≤ s → s ≤ weight pblist → s ≤ maxinteger → ∃ k, select pblist s = some k := by
  induction pblist with
  | nil =>
    intro s low high _
    have none' : s ≤ 0 := high
    omega
  | cons entry rest ih =>
    intro s low high integer
    obtain ⟨k, v⟩ := entry
    obtain ⟨here, later⟩ := List.forall_mem_cons.mp nonneg
    rw [weight_cons] at high
    rw [select]
    split
    · exact ⟨k, rfl⟩
    · rw [wrap_of_nonneg (by omega) (by omega)]
      exact ih later (by omega) (by omega) (by omega)

/-- A key that is selected is one of the table, with a weight. -/
theorem mem_of_select (nonneg : ∀ entry ∈ pblist, 0 ≤ entry.2) :
    ∀ {s : Int} {k : K}, 1 ≤ s → s ≤ maxinteger → select pblist s = some k →
      ∃ v, (k, v) ∈ pblist ∧ v ≠ 0 := by
  induction pblist with
  | nil =>
    intro s k _ _ selected
    cases selected
  | cons entry rest ih =>
    intro s k low integer selected
    obtain ⟨k', v⟩ := entry
    obtain ⟨here, later⟩ := List.forall_mem_cons.mp nonneg
    rw [select] at selected
    split at selected
    · cases selected
      exact ⟨v, List.mem_cons_self, by omega⟩
    · rw [wrap_of_nonneg (by omega) (by omega)] at selected
      obtain ⟨v', member, positive⟩ := ih later (by omega) (by omega) selected
      exact ⟨v', List.mem_cons_of_mem _ member, positive⟩

/-- A key is selected by the values behind the weights in front of it, up to its own. -/
theorem select_eq_some {front back : List (K × Int)} {k : K} {v : Int}
    (outside : k ∉ back.map Prod.fst) :
    k ∉ front.map Prod.fst → (∀ entry ∈ front ++ (k, v) :: back, 0 ≤ entry.2) →
      ∀ {s : Int}, 1 ≤ s → s ≤ maxinteger →
        (select (front ++ (k, v) :: back) s = some k ↔
          weight front < s ∧ s ≤ weight front + v) := by
  induction front with
  | nil =>
    intro _ nonneg s low integer
    obtain ⟨here, later⟩ := List.forall_mem_cons.mp nonneg
    have nothing : weight ([] : List (K × Int)) = 0 := rfl
    rw [List.nil_append, select, nothing]
    split
    · rename_i inside
      simp only [true_iff]
      omega
    · rename_i behind
      constructor
      · intro selected
        rw [wrap_of_nonneg (by omega) (by omega)] at selected
        obtain ⟨v', member, -⟩ := mem_of_select later (by omega) (by omega) selected
        exact (outside (List.mem_map.mpr ⟨_, member, rfl⟩)).elim
      · omega
  | cons entry front ih =>
    intro different nonneg s low integer
    obtain ⟨k', v'⟩ := entry
    obtain ⟨other, different'⟩ := not_or.mp (mt List.mem_cons.mpr different)
    obtain ⟨here, later⟩ := List.forall_mem_cons.mp nonneg
    have first : 0 ≤ weight front := weight_nonneg (List.forall_mem_append.mp later).1
    rw [List.cons_append, select, weight_cons]
    split
    · rename_i inside
      constructor
      · intro selected
        exact (other (Option.some.inj selected).symm).elim
      · omega
    · rename_i behind
      rw [wrap_of_nonneg (by omega) (by omega), ih different' later (by omega) (by omega)]
      omega

end Select

/-! ## Exactness -/

section Exact

variable {pblist : List (K × Int)}

/-- What is drawn, round by round. -/
theorem drawFrom_spec (weights : Weights pblist) (positive : 1 ≤ weight pblist)
    (fits : weight pblist ≤ maxinteger) (math : MathRandom) :
    ∀ count i, ∃ tb, drawFrom math pblist i count = .ok tb ∧ tb.length = count ∧
      ∀ k ∈ tb, ∃ v, (k, v) ∈ pblist ∧ v ≠ 0 := by
  intro count
  induction count with
  | zero =>
    intro i
    exact ⟨[], rfl, rfl, fun k member => by cases member⟩
  | succ count ih =>
    intro i
    have sum := total_eq weights.nonneg fits
    have low := math.low_le i 1 (weight pblist) positive
    have high := math.le_up i 1 (weight pblist) positive
    have drawn : math.random i 1 (total pblist) = .ok (math.draw i 1 (weight pblist)) := by
      rw [sum]
      exact if_pos positive
    obtain ⟨k, selected⟩ := exists_select weights.nonneg low high (high.trans fits)
    obtain ⟨tb, later, length, weighted⟩ := ih (i + 1)
    refine ⟨k :: tb, ?_, congrArg (· + 1) length, ?_⟩
    · rw [drawFrom, drawn, later]
      simp only [bind, Except.bind, selected, pure, Except.pure]
      rfl
    · rw [List.forall_mem_cons]
      exact ⟨mem_of_select weights.nonneg low (high.trans fits) selected, weighted⟩

/-- **Drawing by weights is exact** if the sum of the weights is a positive integer of Lua. -/
theorem drawing_exact (weights : Weights pblist) (positive : 1 ≤ weight pblist)
    (fits : weight pblist ≤ maxinteger) : Exact pblist := by
  have sum := total_eq weights.nonneg fits
  refine ⟨?_, ?_, fun math count => drawFrom_spec weights positive fits math count 0⟩
  · intro s low high
    rw [sum] at high
    exact exists_select weights.nonneg low high (high.trans fits)
  · intro k v member
    obtain ⟨front, back, rfl⟩ := List.append_of_mem member
    have distinct := weights.distinct
    rw [List.map_append, List.map_cons, List.nodup_append] at distinct
    obtain ⟨-, right, apart⟩ := distinct
    have outside : k ∉ back.map Prod.fst := (List.nodup_cons.mp right).1
    have different : k ∉ front.map Prod.fst :=
      fun inside => apart k inside k List.mem_cons_self rfl
    have parts : weight (front ++ (k, v) :: back) = weight front + (v + weight back) := by
      rw [weight, List.map_append, List.sum_append]
      exact congrArg (weight front + ·) (weight_cons (k, v) back)
    obtain ⟨nonnegFront, nonnegBack⟩ := List.forall_mem_append.mp weights.nonneg
    obtain ⟨here, behind⟩ := List.forall_mem_cons.mp nonnegBack
    have first : 0 ≤ weight front := weight_nonneg nonnegFront
    have last : 0 ≤ weight back := weight_nonneg behind
    have part : {s | 1 ≤ s ∧ s ≤ total (front ++ (k, v) :: back) ∧
        select (front ++ (k, v) :: back) s = some k} =
          (Finset.Ioc (weight front) (weight front + v) : Set Int) := by
      ext s
      rw [Set.mem_ofPred_eq, Finset.mem_coe, Finset.mem_Ioc, sum, parts]
      constructor
      · intro inside
        obtain ⟨low, high, selected⟩ := inside
        exact (select_eq_some outside different weights.nonneg low (by omega)).mp selected
      · intro inside
        refine ⟨by omega, by omega, ?_⟩
        exact (select_eq_some outside different weights.nonneg (by omega) (by omega)).mpr inside
    rw [part, Set.ncard_coe_finset, Int.card_Ioc]
    omega

end Exact

/-- Weights with a zero among them. -/
theorem drawing_exact_zero : Exact [('a', 10), ('b', 0), ('c', 30)] :=
  drawing_exact ⟨by decide, by decide, by decide⟩ (by decide) (by decide)

/-- Two weights of `math.maxinteger` wrap the total around to three, which never selects the last
key. -/
theorem wrapped_not_exact :
    ¬ ∀ pblist : List (Nat × Int), Weights pblist → 1 ≤ total pblist → Exact pblist := by
  intro exact
  let pblist : List (Nat × Int) := [(1, maxinteger), (2, maxinteger), (3, 5)]
  have count := (exact pblist ⟨by decide, by decide, by decide⟩ (by decide)).count 3 5 (by decide)
  have wrapped : total pblist = 3 := by decide
  have never : {s | 1 ≤ s ∧ s ≤ total pblist ∧ select pblist s = some 3} = ∅ := by
    apply Set.eq_empty_of_forall_notMem
    intro s inside
    obtain ⟨-, high, selected⟩ := inside
    have first : s ≤ maxinteger := by
      rw [wrapped] at high
      exact high.trans (by decide)
    have other : select pblist s = some 1 := if_pos first
    rw [other] at selected
    cases selected
  rw [never, Set.ncard_empty] at count
  cases count

end RillServer.Drawing
