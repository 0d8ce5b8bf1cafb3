import RillServer.Cards.Deck
import Mathlib.Data.Fintype.BigOperators
import Mathlib.Data.List.Permutation
import Mathlib.Data.Nat.Factorial.Basic
import Mathlib.Data.Nat.GCD.Basic

/-!
# The other two shuffles

`Table.shuffle` of `lualib/base/utils/tables.lua` and `Card.shuffleCycle` of
`lualib/common/card.lua`, beside `Card.shuffle`.

`Table.shuffle` asks for a number from the whole list each time. That makes `n ^ n` sequences of
numbers for `n!` arrangements, so that it is fair for up to two items only (`tableShuffle_fair`).
`Card.shuffleCycle` makes a cycle of the items and then asks for a number from an empty interval
(`shuffleCycle_raises`).
-/

namespace RillServer.Cards

/-! ## Fairness -/

/-- Every arrangement of the `n` positions is made by the same number of choices. -/
def Fair {χ : Type} [Fintype χ] {n : Nat} (arrange : χ → List (Fin n)) : Prop :=
  ∀ ps ps' : List (Fin n), ps.Perm (List.finRange n) → ps'.Perm (List.finRange n) →
    Fintype.card {choices // arrange choices = ps} = Fintype.card {choices // arrange choices = ps'}

section Fairness

variable {χ : Type} [Fintype χ] {n : Nat} {arrange : χ → List (Fin n)}

/-- Fair choices are shared out evenly among the arrangements. -/
theorem Fair.factorial_dvd (fair : Fair arrange)
    (perm : ∀ choices, (arrange choices).Perm (List.finRange n)) :
    n.factorial ∣ Fintype.card χ := by
  let all : Finset (List (Fin n)) := (List.finRange n).permutations.toFinset
  have mem : ∀ ps, ps ∈ all ↔ ps.Perm (List.finRange n) := by
    intro ps
    rw [List.mem_toFinset, List.mem_permutations]
  have count : all.card = n.factorial := by
    rw [List.toFinset_card_of_nodup (List.nodup_permutations _ (List.nodup_finRange n)),
      List.length_permutations, List.length_finRange]
  have fibers : Fintype.card χ =
      ∑ ps ∈ all, Fintype.card {choices // arrange choices = ps} := by
    rw [← Finset.card_univ, Finset.card_eq_sum_card_fiberwise
      (fun choices _ => Finset.mem_coe.mpr ((mem _).mpr (perm choices)))]
    refine Finset.sum_congr rfl fun ps _ => ?_
    rw [Fintype.card_subtype]
  have even : ∀ ps ∈ all, Fintype.card {choices // arrange choices = ps} =
      Fintype.card {choices // arrange choices = List.finRange n} :=
    fun ps inside => fair ps _ ((mem ps).mp inside) (List.Perm.refl _)
  rw [fibers, Finset.sum_congr rfl even, Finset.sum_const, count, smul_eq_mul]
  exact Nat.dvd_mul_right _ _

end Fairness

/-- `Card.shuffle` is fair: one sequence of choices for each arrangement. -/
theorem shuffle_fair (n : Nat) : Fair (arrangement n) := by
  have one : ∀ ps : List (Fin n), ps.Perm (List.finRange n) →
      Fintype.card {choices // arrangement n choices = ps} = 1 := by
    intro ps perm
    obtain ⟨choices, made⟩ := exists_arrangement perm
    rw [Fintype.card_eq_one_iff]
    refine ⟨⟨choices, made⟩, ?_⟩
    intro other
    exact Subtype.ext (arrangement_injective (other.2.trans made.symm))
  intro ps ps' perm perm'
  rw [one ps perm, one ps' perm']

/-! ## `Table.shuffle` -/

/-- The loop of `Table.shuffle` with `n` left, after `calls` random numbers. The numbers are from
`1..len` in every round. -/
def tableShuffleFrom {α : Type} (draws : Draws) (len : Nat) : Nat → Nat → List α → List α
  | _, 0, items => items
  | calls, n + 1, items =>
    tableShuffleFrom draws len (calls + 1) n (swap items n (draws calls (len - 1)))

/-- `Table.shuffle`. -/
def tableShuffle {α : Type} (draws : Draws) (items : List α) : List α :=
  tableShuffleFrom draws items.length 0 items.length items

/-- The random numbers of `Table.shuffle` on `n` items, less one, in the order of the calls. -/
abbrev TableChoices (n : Nat) : Type := Fin n → Fin n

/-- The number of this call, less one. -/
def TableChoices.number {n : Nat} (choices : TableChoices n) (call : Nat) : Nat :=
  if lt : call < n then choices ⟨call, lt⟩ else 0

/-- What `math.random` gives when these numbers are to come out. -/
def TableChoices.draws {n : Nat} (choices : TableChoices n) : Draws :=
  fun call m => ⟨choices.number call % (m + 1), Nat.mod_lt _ m.succ_pos⟩

/-- The numbers that come out for `n` items. -/
def Draws.tableChoices (draws : Draws) (n : Nat) : TableChoices n := fun call =>
  ⟨draws call (n - 1), by
    have := (draws call (n - 1)).isLt
    have := call.isLt
    omega⟩

/-- Where the choices take the positions from. -/
def tableArrangement (n : Nat) (choices : TableChoices n) : List (Fin n) :=
  tableShuffle choices.draws (List.finRange n)

section TableShuffle

variable {α β : Type} {draws : Draws}

theorem tableShuffleFrom_perm {len : Nat} :
    ∀ {n calls : Nat} {items : List α}, (tableShuffleFrom draws len calls n items).Perm items
  | 0, _, _ => List.Perm.refl _
  | n + 1, calls, items => by
    have rest : (tableShuffleFrom draws len (calls + 1) n
        (swap items n (draws calls (len - 1)))).Perm (swap items n (draws calls (len - 1))) :=
      tableShuffleFrom_perm
    exact rest.trans swap_perm

theorem tableShuffle_perm {items : List α} : (tableShuffle draws items).Perm items :=
  tableShuffleFrom_perm

theorem swap_map (f : α → β) (items : List α) (i j : Nat) :
    swap (items.map f) i j = (swap items i j).map f := by
  unfold swap
  rw [List.getElem?_map, List.getElem?_map]
  cases items[i]? <;> cases items[j]? <;> simp

/-- Only the numbers that are asked for matter, and not what the items are. -/
theorem tableShuffleFrom_map {draws draws' : Draws} {len : Nat} (f : α → β) :
    ∀ {n calls : Nat} {items : List α},
      (∀ call, calls ≤ call → call < calls + n →
        (draws call (len - 1) : Nat) = draws' call (len - 1)) →
      tableShuffleFrom draws len calls n (items.map f) =
        (tableShuffleFrom draws' len calls n items).map f
  | 0, _, _, _ => rfl
  | n + 1, calls, items, same => by
    have first : (draws calls (len - 1) : Nat) = draws' calls (len - 1) :=
      same calls (Nat.le_refl _) (by omega)
    rw [tableShuffleFrom, tableShuffleFrom, first, swap_map]
    exact tableShuffleFrom_map f fun call from' before => same call (by omega) (by omega)

/-- `Table.shuffle` makes the choices that `math.random` gives, whatever the items are. -/
theorem tableShuffle_eq_map (draws : Draws) (items : List α) :
    tableShuffle draws items =
      (tableArrangement items.length (draws.tableChoices items.length)).map items.get := by
  have positions : (List.finRange items.length).map items.get = items := List.map_get_finRange items
  have same : ∀ call, 0 ≤ call → call < 0 + items.length →
      (draws call (items.length - 1) : Nat) =
        (draws.tableChoices items.length).draws call (items.length - 1) := by
    intro call _ before
    have inside : call < items.length := by omega
    have bound : (draws call (items.length - 1) : Nat) < items.length - 1 + 1 :=
      (draws call (items.length - 1)).isLt
    simp only [TableChoices.draws, TableChoices.number, inside, dif_pos, Draws.tableChoices]
    exact (Nat.mod_eq_of_lt bound).symm
  conv_lhs => rw [tableShuffle, ← positions]
  rw [tableArrangement, tableShuffle, List.length_map, List.length_finRange]
  exact tableShuffleFrom_map items.get same

/-- From three items on the choices cannot be shared out evenly: `n - 1` divides `n!` but not
`n ^ n`. -/
theorem not_factorial_dvd {n : Nat} (three : 3 ≤ n) : ¬ n.factorial ∣ n ^ n := by
  intro dvd
  have factor : n - 1 ∣ n.factorial := Nat.dvd_factorial (by omega) (Nat.sub_le n 1)
  have coprime : Nat.Coprime (n - 1) (n ^ n) := by
    apply Nat.Coprime.pow_right n
    exact (Nat.coprime_self_sub_left (by omega)).mpr (Nat.coprime_one_left n)
  have one : n - 1 = 1 := coprime.eq_one_of_dvd (factor.trans dvd)
  omega

/-- Up to two items: one arrangement, or two that come from two sequences of choices each. -/
theorem tableArrangement_fair {n : Nat} (two : n ≤ 2) : Fair (tableArrangement n) := by
  intro ps ps' perm perm'
  have length : ps.length = n := by simpa using perm.length_eq
  have length' : ps'.length = n := by simpa using perm'.length_eq
  match n, two with
  | 0, _ => rw [List.eq_nil_of_length_eq_zero length, List.eq_nil_of_length_eq_zero length']
  | 1, _ =>
    obtain ⟨p, rfl⟩ := List.length_eq_one_iff.mp length
    obtain ⟨p', rfl⟩ := List.length_eq_one_iff.mp length'
    rw [Subsingleton.elim p p']
  | 2, _ =>
    obtain ⟨p, q, rfl⟩ := List.length_eq_two.mp length
    obtain ⟨p', q', rfl⟩ := List.length_eq_two.mp length'
    have counts : ∀ p q p' q' : Fin 2, [p, q].Perm (List.finRange 2) →
        [p', q'].Perm (List.finRange 2) →
        Fintype.card {choices // tableArrangement 2 choices = [p, q]} =
          Fintype.card {choices // tableArrangement 2 choices = [p', q']} := by decide
    exact counts p q p' q' perm perm'

/-- `Table.shuffle` is fair for lists of up to two items and for no others. -/
theorem tableShuffle_fair :
    (∀ n : Nat, Fair (tableArrangement n) ↔ n ≤ 2) ∧
    ∀ (draws : Draws) (items : List α),
      tableShuffle draws items =
        (tableArrangement items.length (draws.tableChoices items.length)).map items.get ∧
      (tableShuffle draws items).Perm items := by
  refine ⟨fun n => ⟨?_, tableArrangement_fair⟩,
    fun draws items => ⟨tableShuffle_eq_map draws items, tableShuffle_perm⟩⟩
  intro fair
  by_contra more
  have dvd := fair.factorial_dvd fun choices => tableShuffle_perm
  rw [Fintype.card_fun, Fintype.card_fin] at dvd
  exact not_factorial_dvd (by omega) dvd

/-- Of the 27 sequences of choices for three items four leave all items where they are, and five
exchange the last two. -/
theorem tableShuffle_unfair : ¬ ∀ n : Nat, Fair (tableArrangement n) := by
  intro fair
  have same : Fintype.card {choices // tableArrangement 3 choices = [0, 1, 2]} =
      Fintype.card {choices // tableArrangement 3 choices = [0, 2, 1]} :=
    fair 3 [0, 1, 2] [0, 2, 1] (by decide) (by decide)
  have stay : Fintype.card {choices // tableArrangement 3 choices = [0, 1, 2]} = 4 := by
    decide +kernel
  have exchanged : Fintype.card {choices // tableArrangement 3 choices = [0, 2, 1]} = 5 := by
    decide +kernel
  omega

end TableShuffle

/-! ## `Card.shuffleCycle` -/

/-- The loop of `Card.shuffleCycle` with `n` left, after `calls` random numbers: what it ends with,
and the items then. -/
def shuffleCycleFrom {α : Type} (draws : Draws) :
    Nat → Nat → List α → Except String Unit × List α
  | _, 0, items => (.ok (), items)
  | calls, n + 1, items =>
    match random draws calls n with
    | .error e => (.error e, items)
    | .ok j => shuffleCycleFrom draws (calls + 1) n (swap items n (j - 1))

/-- `Card.shuffleCycle`. -/
def shuffleCycle {α : Type} (draws : Draws) (items : List α) : Except String Unit × List α :=
  shuffleCycleFrom draws 0 items.length items

/-- The items are where a permutation takes them, and it leaves none in its position. -/
def Deranged {α : Type} (items after : List α) : Prop :=
  ∃ σ : Equiv.Perm Nat, ∀ p, p < items.length →
    σ p < items.length ∧ σ p ≠ p ∧ after[p]? = items[σ p]?

/-- What the comment of `Card.shuffleCycle` promises. -/
def ShufflesAll {α : Type} (draws : Draws) (items : List α) : Prop :=
  ∃ after : List α, shuffleCycle draws items = (.ok (), after) ∧ Deranged items after

section ShuffleCycle

variable {α : Type} {draws : Draws} {items : List α}

/-- The places that the items are exchanged with when `n` are left after `calls` random numbers. -/
def cycleDrawn (draws : Draws) (calls n : Nat) (i : Nat) : Nat :=
  draws (calls + (n - 1 - i)) (i - 1)

theorem cycleDrawn_zero {calls n : Nat} : cycleDrawn draws calls n 0 = 0 := by
  have := (draws (calls + (n - 1 - 0)) (0 - 1)).isLt
  rw [cycleDrawn]
  omega

theorem cycleDrawn_lt {calls n i : Nat} (positive : 0 < i) : cycleDrawn draws calls n i < i := by
  have := (draws (calls + (n - 1 - i)) (i - 1)).isLt
  rw [cycleDrawn]
  omega

/-- The loop exchanges each item but the first with an earlier one, and then fails. -/
theorem shuffleCycleFrom_eq (draws : Draws) :
    ∀ (n calls : Nat) (items : List α), n + 1 ≤ items.length →
      ∃ after : List α, shuffleCycleFrom draws calls (n + 1) items =
          (.error "bad argument #1 to 'random' (interval is empty)", after) ∧
        ∀ p : Nat, after[p]? =
          items[Transpositions.transpositions (cycleDrawn draws calls (n + 1)) (n + 1) p]?
  | 0, calls, items, _ => by
    refine ⟨items, rfl, fun p => ?_⟩
    rw [Transpositions.transpositions, cycleDrawn_zero, Equiv.swap_self]
    rfl
  | n + 1, calls, items, le => by
    have asked : random draws calls (n + 1) = .ok (draws calls n + 1) :=
      random_ok draws calls (Nat.succ_ne_zero n)
    have drawnIn : (draws calls n : Nat) < items.length := by
      have := (draws calls n).isLt
      omega
    obtain ⟨after, raised, moved⟩ := shuffleCycleFrom_eq draws n (calls + 1)
      (swap items (n + 1) (draws calls n)) (by rw [length_swap]; omega)
    refine ⟨after, ?_, fun p => ?_⟩
    · rw [shuffleCycleFrom, asked]
      exact raised
    · have first : cycleDrawn draws calls (n + 1 + 1) (n + 1) = draws calls n := by
        simp [cycleDrawn]
      have later : Transpositions.transpositions (cycleDrawn draws (calls + 1) (n + 1)) (n + 1) =
          Transpositions.transpositions (cycleDrawn draws calls (n + 1 + 1)) (n + 1) := by
        refine Transpositions.transpositions_congr fun i lt => ?_
        have sameCall : calls + 1 + (n + 1 - 1 - i) = calls + (n + 1 + 1 - 1 - i) := by omega
        rw [cycleDrawn, cycleDrawn, sameCall]
      have product :
          Transpositions.transpositions (cycleDrawn draws calls (n + 1 + 1)) (n + 1 + 1) =
          Equiv.swap (n + 1) (draws calls n) *
            Transpositions.transpositions (cycleDrawn draws calls (n + 1 + 1)) (n + 1) := by
        rw [← first]
        rfl
      rw [moved, getElem?_swap (by omega) drawnIn, later, product, Equiv.Perm.mul_apply]

/-- `Card.shuffleCycle` never returns: in its last round it asks for a number from an empty
interval. The items have all been moved by then. -/
theorem shuffleCycle_raises (draws : Draws) (items : List α) (two : 2 ≤ items.length) :
    ¬ ShufflesAll draws items ∧
    ∃ after : List α, shuffleCycle draws items =
        (.error "bad argument #1 to 'random' (interval is empty)", after) ∧
      Deranged items after := by
  obtain ⟨n, length⟩ : ∃ n, items.length = n + 1 := Nat.exists_eq_succ_of_ne_zero (by omega)
  obtain ⟨after, raised, moved⟩ := shuffleCycleFrom_eq draws n 0 items (Nat.le_of_eq length.symm)
  have ends : shuffleCycle draws items =
      (.error "bad argument #1 to 'random' (interval is empty)", after) := by
    rw [shuffleCycle, length]
    exact raised
  have below : Transpositions.Below (cycleDrawn draws 0 (n + 1)) := by
    intro i
    rcases Nat.eq_zero_or_pos i with rfl | positive
    · rw [cycleDrawn_zero]
    · exact Nat.le_of_lt (cycleDrawn_lt positive)
  refine ⟨?_, after, ends, Transpositions.transpositions (cycleDrawn draws 0 (n + 1)) (n + 1), ?_⟩
  · intro promised
    obtain ⟨after', returned, -⟩ := promised
    rw [ends] at returned
    cases returned
  · intro p inside
    rw [length] at inside two ⊢
    exact ⟨Transpositions.transpositions_lt below inside,
      Transpositions.transpositions_ne cycleDrawn_zero (fun i => cycleDrawn_lt) two inside,
      moved p⟩

/-- Three items when `math.random` always gives one. -/
theorem shuffleCycle_raises_three :
    ¬ ShufflesAll (fun _ _ => 0) [1, 2, 3] ∧
    ∃ after : List Nat, shuffleCycle (fun _ _ => 0) [1, 2, 3] =
        (.error "bad argument #1 to 'random' (interval is empty)", after) ∧
      Deranged [1, 2, 3] after :=
  shuffleCycle_raises (fun _ _ => 0) [1, 2, 3] (by decide)

/-- Two items: they are exchanged before the error. -/
theorem shuffleCycle_fails :
    ¬ ∀ (draws : Draws) (items : List Nat), 2 ≤ items.length → ShufflesAll draws items := by
  intro promised
  obtain ⟨after, returned, -⟩ := promised (fun _ _ => 0) [1, 2] (by decide)
  have raised : shuffleCycle (fun _ _ => 0) [1, 2] =
      (.error "bad argument #1 to 'random' (interval is empty)", [2, 1]) := rfl
  rw [raised] at returned
  cases returned

end ShuffleCycle

end RillServer.Cards
