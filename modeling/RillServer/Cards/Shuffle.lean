import RillServer.Lib.Transpositions
import Mathlib.Algebra.BigOperators.Fin
import Mathlib.Data.Fintype.BigOperators
import Mathlib.Data.List.FinRange
import Mathlib.Data.Nat.Factorial.BigOperators

/-!
# Shuffling

`Card.shuffle` of `lualib/common/card.lua`. Tables of cards are lists; the entry at the index `i` of
Lua is the one at `i - 1` here. `shuffle_unbiased` is fairness: the arrangements of `n` positions
correspond one to one to the sequences of random numbers.
-/

namespace RillServer.Cards

/-- What `math.random` gives: `draws k m` is the result, less one, of the call number `k` when it is
made with the upper bound `m + 1`. -/
abbrev Draws : Type := Nat → (m : Nat) → Fin (m + 1)

/-- `items[i], items[j] = items[j], items[i]`. -/
def swap {α : Type} (items : List α) (i j : Nat) : List α :=
  match items[i]?, items[j]? with
  | some x, some y => (items.set i y).set j x
  | _, _ => items

/-- The loop of `Card.shuffle` with `n` left, after `calls` random numbers. -/
def shuffleFrom {α : Type} (draws : Draws) : Nat → Nat → List α → List α
  | _, 0, items => items
  | calls, n + 1, items => shuffleFrom draws (calls + 1) n (swap items n (draws calls n))

/-- `Card.shuffle`. -/
def shuffle {α : Type} (draws : Draws) (items : List α) : List α :=
  shuffleFrom draws 0 items.length items

section Positions

variable {α : Type} {draws : Draws} {calls n i j : Nat} {items : List α}

@[simp] theorem length_swap : (swap items i j).length = items.length := by
  unfold swap
  split <;> simp

@[simp] theorem length_shuffleFrom :
    ∀ {n calls : Nat} {items : List α}, (shuffleFrom draws calls n items).length = items.length
  | 0, _, _ => rfl
  | n + 1, _, _ => by rw [shuffleFrom, length_shuffleFrom, length_swap]

theorem getElem?_swap (iIn : i < items.length) (jIn : j < items.length) (p : Nat) :
    (swap items i j)[p]? = items[Equiv.swap i j p]? := by
  have ati : items[i]? = some items[i] := List.getElem?_eq_getElem iIn
  have atj : items[j]? = some items[j] := List.getElem?_eq_getElem jIn
  simp only [swap, ati, atj]
  by_cases samej : p = j
  · subst samej
    rw [Equiv.swap_apply_right, ati]
    exact List.getElem?_set_self (by simpa using jIn)
  · rw [List.getElem?_set_ne (Ne.symm samej)]
    by_cases samei : p = i
    · subst samei
      rw [Equiv.swap_apply_left, atj]
      exact List.getElem?_set_self iIn
    · rw [List.getElem?_set_ne (Ne.symm samei), Equiv.swap_apply_of_ne_of_ne samei samej]

/-- The random numbers of a shuffle of `n` items that starts after `calls` others, by the bound with
which they are asked for. -/
def drawn (draws : Draws) (calls n : Nat) (i : Nat) : Nat := draws (calls + (n - 1 - i)) i

theorem drawn_below : Transpositions.Below (drawn draws calls n) :=
  fun i => Nat.le_of_lt_succ (draws _ i).isLt

/-- The loop moves the items as the product of its exchanges does. -/
theorem getElem?_shuffleFrom (draws : Draws) :
    ∀ {n : Nat} (calls : Nat) {items : List α}, n ≤ items.length → ∀ p : Nat,
      (shuffleFrom draws calls n items)[p]? =
        items[Transpositions.transpositions (drawn draws calls n) n p]?
  | 0, _, _, _, _ => rfl
  | n + 1, calls, items, le, p => by
    have drawnIn : (draws calls n : Nat) < items.length := by
      have := (draws calls n).isLt
      omega
    have rest : (shuffleFrom draws (calls + 1) n (swap items n (draws calls n)))[p]? =
        (swap items n (draws calls n))[
          Transpositions.transpositions (drawn draws (calls + 1) n) n p]? :=
      getElem?_shuffleFrom draws (calls + 1) (by rw [length_swap]; omega) p
    have first : drawn draws calls (n + 1) n = draws calls n := by simp [drawn]
    have later : Transpositions.transpositions (drawn draws (calls + 1) n) n =
        Transpositions.transpositions (drawn draws calls (n + 1)) n := by
      refine Transpositions.transpositions_congr fun i lt => ?_
      have sameCall : calls + 1 + (n - 1 - i) = calls + (n + 1 - 1 - i) := by omega
      rw [drawn, drawn, sameCall]
    rw [shuffleFrom, rest, getElem?_swap (by omega) drawnIn, later,
      Transpositions.transpositions, first, Equiv.Perm.mul_apply]

theorem swap_perm : (swap items i j).Perm items := by
  by_cases iIn : i < items.length
  · by_cases jIn : j < items.length
    · simp only [swap, List.getElem?_eq_getElem iIn, List.getElem?_eq_getElem jIn]
      exact List.set_set_perm iIn jIn
    · simp [swap, List.getElem?_eq_none (Nat.le_of_not_lt jIn)]
  · simp [swap, List.getElem?_eq_none (Nat.le_of_not_lt iIn)]

theorem shuffleFrom_perm :
    ∀ {n calls : Nat} {items : List α}, (shuffleFrom draws calls n items).Perm items
  | 0, _, _ => List.Perm.refl _
  | n + 1, calls, items => by
    have rest : (shuffleFrom draws (calls + 1) n (swap items n (draws calls n))).Perm
        (swap items n (draws calls n)) := shuffleFrom_perm
    exact rest.trans swap_perm

/-- Shuffling neither adds nor loses an item. -/
theorem shuffle_perm : (shuffle draws items).Perm items :=
  shuffleFrom_perm

end Positions

/-! ## Fairness -/

/-- The random numbers of a shuffle of `n` items: for each bound `i + 1` one in `1..i + 1`, less
one. -/
abbrev Choices (n : Nat) : Type := (i : Fin n) → Fin (i + 1)

/-- What `math.random` gives when the shuffle is to make these choices. -/
def Choices.draws {n : Nat} (choices : Choices n) : Draws :=
  fun _ m => if lt : m < n then choices ⟨m, lt⟩ else 0

/-- The choices that a shuffle of `n` items makes. -/
def Draws.choices (draws : Draws) (n : Nat) : Choices n := fun i => draws (n - 1 - i) i

/-- Where the choices take the positions from. -/
def arrangement (n : Nat) (choices : Choices n) : List (Fin n) :=
  shuffle choices.draws (List.finRange n)

variable {α : Type} {n : Nat}

/-- The permutation of the positions that choices make. -/
def Choices.moves (choices : Choices n) : Equiv.Perm Nat :=
  Transpositions.transpositions (drawn choices.draws 0 n) n

theorem Choices.drawn_apply (choices : Choices n) (i : Fin n) :
    drawn choices.draws 0 n i = choices i := by
  simp [drawn, Choices.draws]

theorem Choices.moves_of_le (choices : Choices n) {p : Nat} (le : n ≤ p) : choices.moves p = p :=
  Transpositions.transpositions_of_le drawn_below le

theorem Choices.moves_lt (choices : Choices n) {p : Nat} (lt : p < n) : choices.moves p < n :=
  Transpositions.transpositions_lt drawn_below lt

theorem getElem?_arrangement (choices : Choices n) (p : Nat) :
    (arrangement n choices)[p]? = (List.finRange n)[choices.moves p]? := by
  have le : n ≤ (List.finRange n).length := by simp
  have moved := getElem?_shuffleFrom choices.draws 0 le p
  simpa [arrangement, shuffle, Choices.moves] using moved

theorem getElem?_finRange {p : Nat} (lt : p < n) : (List.finRange n)[p]? = some ⟨p, lt⟩ := by
  simp [lt]

/-- A shuffle makes the choices that `math.random` gives, whatever the items are. -/
theorem shuffle_eq_map (draws : Draws) (items : List α) :
    shuffle draws items =
      (arrangement items.length (draws.choices items.length)).map items.get := by
  have same : Transpositions.transpositions (drawn draws 0 items.length) items.length =
      (draws.choices items.length).moves := by
    refine Transpositions.transpositions_congr fun i lt => ?_
    rw [Choices.drawn_apply _ ⟨i, lt⟩]
    simp [drawn, Draws.choices]
  apply List.ext_getElem?
  intro p
  rw [List.getElem?_map, getElem?_arrangement, shuffle,
    getElem?_shuffleFrom draws 0 (Nat.le_refl _), same]
  by_cases lt : p < items.length
  · have inside := (draws.choices items.length).moves_lt lt
    rw [getElem?_finRange inside, List.getElem?_eq_getElem inside]
    rfl
  · rw [Choices.moves_of_le _ (Nat.le_of_not_lt lt)]
    simp [lt]

theorem arrangement_injective : Function.Injective (arrangement n) := by
  intro choices choices' same
  have moves : choices.moves = choices'.moves := by
    ext p
    by_cases lt : p < n
    · have at' : (arrangement n choices)[p]? = (arrangement n choices')[p]? := by rw [same]
      rw [getElem?_arrangement, getElem?_arrangement, getElem?_finRange (choices.moves_lt lt),
        getElem?_finRange (choices'.moves_lt lt)] at at'
      simpa using at'
    · rw [choices.moves_of_le (Nat.le_of_not_lt lt), choices'.moves_of_le (Nat.le_of_not_lt lt)]
  funext i
  have drawn := Transpositions.transpositions_injective drawn_below drawn_below moves i i.isLt
  rw [choices.drawn_apply, choices'.drawn_apply] at drawn
  exact Fin.ext drawn

/-- The permutation of all numbers that moves the positions as a list of them says. -/
theorem exists_perm {ps : List (Fin n)} (perm : ps.Perm (List.finRange n)) :
    ∃ σ : Equiv.Perm Nat, (∀ p, n ≤ p → σ p = p) ∧
      ∀ p, p < n → ps[p]? = (List.finRange n)[σ p]? := by
  have length : ps.length = n := by simpa using perm.length_eq
  have nodup : ps.Nodup := perm.nodup_iff.mpr (List.nodup_finRange n)
  have injective : Function.Injective fun p : Fin n => ps.get (p.cast length.symm) := by
    intro p q same
    simpa using List.nodup_iff_injective_get.mp nodup same
  let σ : Equiv.Perm (Fin n) := Equiv.ofBijective _ (Finite.injective_iff_bijective.mp injective)
  refine ⟨σ.extendDomain Fin.equivSubtype, ?_, ?_⟩
  · intro p le
    exact σ.extendDomain_apply_not_subtype _ (Nat.not_lt.mpr le)
  · intro p lt
    have moved := σ.extendDomain_apply_image Fin.equivSubtype ⟨p, lt⟩
    have moved : σ.extendDomain Fin.equivSubtype p = σ ⟨p, lt⟩ := moved
    rw [moved, getElem?_finRange (σ ⟨p, lt⟩).isLt, List.getElem?_eq_getElem (by omega)]
    rfl

theorem exists_arrangement {ps : List (Fin n)} (perm : ps.Perm (List.finRange n)) :
    ∃ choices : Choices n, arrangement n choices = ps := by
  obtain ⟨σ, fixed, moves⟩ := exists_perm perm
  obtain ⟨j, below, product⟩ := Transpositions.exists_transpositions n σ fixed
  let choices : Choices n := fun i => ⟨j i, Nat.lt_succ_of_le (below i)⟩
  have same : choices.moves = σ := by
    rw [← product]
    refine Transpositions.transpositions_congr fun i lt => ?_
    exact choices.drawn_apply ⟨i, lt⟩
  refine ⟨choices, ?_⟩
  apply List.ext_getElem?
  intro p
  rw [getElem?_arrangement, same]
  by_cases lt : p < n
  · exact (moves p lt).symm
  · have length : ps.length = n := by simpa using perm.length_eq
    rw [fixed p (Nat.le_of_not_lt lt)]
    simp [lt, length]

/-- Shuffling is fair. Which position the items of a list come from depends on the choices alone,
and each of the `n!` arrangements of `n` positions comes from exactly one of the `n!` sequences of
choices. -/
theorem shuffle_unbiased (n : Nat) :
    Set.BijOn (arrangement n) Set.univ {ps | ps.Perm (List.finRange n)} ∧
    Fintype.card (Choices n) = n.factorial ∧
    ∀ (items : List α) (draws : Draws),
      shuffle draws items =
        (arrangement items.length (draws.choices items.length)).map items.get ∧
      (shuffle draws items).Perm items := by
  refine ⟨⟨fun choices _ => shuffle_perm, arrangement_injective.injOn, ?_⟩, ?_,
    fun items draws => ⟨shuffle_eq_map draws items, shuffle_perm⟩⟩
  · intro ps perm
    obtain ⟨choices, arranged⟩ := exists_arrangement perm
    exact ⟨choices, Set.mem_univ _, arranged⟩
  · rw [Fintype.card_pi, ← Finset.prod_range_add_one_eq_factorial, ← Fin.prod_univ_eq_prod_range]
    simp

end RillServer.Cards
