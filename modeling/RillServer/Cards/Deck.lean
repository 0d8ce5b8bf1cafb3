import RillServer.Cards.Shuffle
import Mathlib.Algebra.Order.Group.Multiset
import Mathlib.Data.Multiset.AddSub

/-!
# The shoe of cards

`lualib/common/cards.lua` with `indexToCard` and `cardToIndex` of `card.lua`. An operation gives its
result or the error that it raises, and the deck that it leaves in either case.

Cards are conserved (`cards_conserved`): what an operation takes from the deck is what it returns.
`math.mod` is a parameter. The Lua of the repository does not have it, so that there `dealSuit` and
`dealRank` raise an error at every card from 1 to 54.
-/

namespace RillServer.Cards

/-- `CARD_SUIT`. -/
def suitSpade : Int := 1
def suitDiamond : Int := 4
def suitMonkey : Int := 5

/-- `CARD_RANK`. -/
def rankNone : Int := 0
def rankTwo : Int := 1
def rankAce : Int := 13

/-- A card of `Card.indexToCard`, without its texts. -/
structure Card where
  index : Int
  suit : Int
  rank : Int
  deriving DecidableEq

/-- `Card.indexToCard`. The cache in front of it holds what it has returned before. -/
def indexToCard (mathMod : Option (Int → Int → Int)) (index : Int) : Except String Card :=
  if 0 < index ∧ index ≤ 54 then
    match mathMod with
    | none => .error "attempt to call a nil value (field 'mod')"
    | some mod => .ok ⟨index, (index + 12) / 13, mod (index - 1) 13 + 1⟩
  else .ok ⟨index, suitMonkey, rankNone⟩

/-- `Card.cardToIndex` of a table with a suit and a rank. -/
def cardToIndex (suit rank : Int) : Int :=
  if suitSpade ≤ suit ∧ suit ≤ suitDiamond then
    if rankTwo ≤ rank ∧ rank ≤ rankAce then (suit - 1) * 13 + rank else 0
  else if suit = suitMonkey ∧ (rank = 1 ∨ rank = 2) then (suit - 1) * 13 + rank
  else 0

/-- The fields of `Cards` that these operations read. -/
structure Deck where
  num : Nat
  ncards : Nat
  cards : List Int
  deriving DecidableEq

/-- The result or the error, and the deck afterwards. -/
abbrev Outcome (α : Type) : Type := Except String α × Deck

/-- `Cards.shuffle`. -/
def Deck.shuffle (draws : Draws) (deck : Deck) : Deck :=
  { deck with cards := Cards.shuffle draws deck.cards }

/-- The cards before they are shuffled. The indices `(j - 1) * num + i` follow one another. -/
def packs (num ncards : Nat) : List Int :=
  (List.range ncards).flatMap fun _ => (List.range num).map fun i => (i : Int) + 1

/-- `Cards.init`. -/
def init (draws : Draws) (num ncards : Option Nat) : Deck :=
  let ncards := ncards.getD 1
  let num := num.getD 52
  Deck.shuffle draws ⟨num, ncards, packs num ncards⟩

/-- The loop of `Cards.deal`, which takes the last card `n` times. -/
def dealFrom : Nat → List Int → List Int → List Int × List Int
  | 0, ret, cards => (ret, cards)
  | n + 1, ret, cards => dealFrom n (ret ++ cards.getLast?.toList) cards.dropLast

/-- `Cards.deal`. -/
def Deck.deal (deck : Deck) (n : Int) : Option (List Int) × Deck :=
  if n > deck.cards.length ∨ n < 1 then (none, deck)
  else
    let (ret, cards) := dealFrom n.toNat [] deck.cards
    (some ret, { deck with cards })

/-- `Cards.dealOne`. -/
def Deck.dealOne (deck : Deck) : Option Int × Deck :=
  match deck.deal 1 with
  | (some ret, deck) => (ret.head?, deck)
  | (none, deck) => (none, deck)

/-- `math.random(1, m)` as the call number `calls` of an operation. -/
def random (draws : Draws) (calls m : Nat) : Except String Nat :=
  if m = 0 then .error "bad argument #1 to 'random' (interval is empty)"
  else .ok (draws calls (m - 1) + 1)

/-- The loop of `Cards.giveBack`, after `calls` random numbers. -/
def giveBackFrom (draws : Draws) : Nat → List Int → Deck → Outcome Unit
  | _, [], deck => (.ok (), deck)
  | calls, v :: tb, deck =>
    if v > 0 then
      match random draws calls deck.cards.length with
      | .error e => (.error e, deck)
      | .ok pos =>
        giveBackFrom draws (calls + 1) tb { deck with cards := deck.cards.insertIdx (pos - 1) v }
    else giveBackFrom draws calls tb deck

/-- `Cards.giveBack`. -/
def Deck.giveBack (draws : Draws) (tb : List Int) (deck : Deck) : Outcome Unit :=
  giveBackFrom draws 0 tb deck

section Search

variable (mathMod : Option (Int → Int → Int))

/-- The search of `dealSuit` and `dealRank` from the place `x`: `left` is how often the loop still
runs, `i` its counter and `idx` the place it looked at last. When no card is `wanted`, `idx` is the
place before `x` in the end. -/
def seek (wanted : Card → Bool) (cards : List Int) (x : Nat) : Nat → Nat → Nat → Except String Nat
  | 0, _, idx => .ok idx
  | left + 1, i, _ =>
    let idx := x + i - 1
    let idx := if idx > cards.length then idx % cards.length else idx
    match cards[idx - 1]? with
    | none => .error "attempt to compare number with nil"
    | some index =>
      match indexToCard mathMod index with
      | .error e => .error e
      | .ok card => if wanted card then .ok idx else seek wanted cards x left (i + 1) idx

/-- What `dealSuit` and `dealRank` do. -/
def Deck.dealWanted (draws : Draws) (wanted : Card → Bool) (deck : Deck) : Outcome (Option Int) :=
  let num := deck.cards.length
  match random draws 0 num with
  | .error e => (.error e, deck)
  | .ok x =>
    match seek mathMod wanted deck.cards x num 1 x with
    | .error e => (.error e, deck)
    | .ok idx => (.ok deck.cards[idx - 1]?, { deck with cards := deck.cards.eraseIdx (idx - 1) })

/-- `Cards.dealSuit`. -/
def Deck.dealSuit (draws : Draws) (suit : Int) (deck : Deck) : Outcome (Option Int) :=
  deck.dealWanted mathMod draws fun card => suit == card.suit

/-- `Cards.dealRank`. -/
def Deck.dealRank (draws : Draws) (rank : Int) (deck : Deck) : Outcome (Option Int) :=
  deck.dealWanted mathMod draws fun card => rank == card.rank

end Search

/-- The search of `dealSuitRank`; `0` when the card is not there. -/
def indexFrom (c : Int) : Nat → List Int → Nat
  | _, [] => 0
  | i, v :: cards => if v = c then i else indexFrom c (i + 1) cards

/-- `Cards.dealSuitRank`. -/
def Deck.dealSuitRank (suit rank : Int) (deck : Deck) : Option Int × Deck :=
  let c := cardToIndex suit rank
  let idx := indexFrom c 1 deck.cards
  if idx > 0 then (some c, { deck with cards := deck.cards.eraseIdx (idx - 1) })
  else (none, deck)

/-- `Cards.getDealNum`. -/
def Deck.getDealNum (deck : Deck) : Int := deck.num * deck.ncards - deck.cards.length

/-! ## Runs -/

/-- An operation on the shoe, with its arguments. -/
inductive Op where
  | shuffle
  | deal (n : Int)
  | dealOne
  | dealSuit (suit : Int)
  | dealRank (rank : Int)
  | dealSuitRank (suit rank : Int)
  | giveBack (tb : List Int)

/-- The cards that an operation is given. -/
def Op.given : Op → List Int
  | .giveBack tb => tb
  | _ => []

/-- An operation: the cards that it returns or its error, and the deck that it leaves. -/
def Op.apply (mathMod : Option (Int → Int → Int)) (draws : Draws) (deck : Deck) :
    Op → Outcome (List Int)
  | .shuffle => (.ok [], deck.shuffle draws)
  | .deal n => let (ret, deck) := deck.deal n; (.ok (ret.getD []), deck)
  | .dealOne => let (ret, deck) := deck.dealOne; (.ok ret.toList, deck)
  | .dealSuit suit =>
    let (ret, deck) := deck.dealSuit mathMod draws suit; (ret.map (·.toList), deck)
  | .dealRank rank =>
    let (ret, deck) := deck.dealRank mathMod draws rank; (ret.map (·.toList), deck)
  | .dealSuitRank suit rank =>
    let (ret, deck) := deck.dealSuitRank suit rank; (.ok ret.toList, deck)
  | .giveBack tb => let (ret, deck) := deck.giveBack draws tb; (ret.map fun _ => [], deck)

/-- Cards that may be given back: positive ones that are out. -/
def Op.Allowed (op : Op) (out : Multiset Int) : Prop :=
  (op.given : Multiset Int) ≤ out ∧ ∀ v ∈ op.given, 0 < v

/-- The decks of a run, with the cards that are out: what was returned and not given back. The
random numbers of an operation are any. -/
inductive Run (mathMod : Option (Int → Int → Int)) (num ncards : Option Nat) :
    Deck → Multiset Int → Prop
  | start (draws : Draws) : Run mathMod num ncards (init draws num ncards) 0
  | returned {deck deck' : Deck} {out : Multiset Int} {cards : List Int} (draws : Draws) (op : Op)
      (before : Run mathMod num ncards deck out) (allowed : op.Allowed out)
      (ok : op.apply mathMod draws deck = (.ok cards, deck')) :
      Run mathMod num ncards deck' (out + cards - op.given)
  | raised {deck deck' : Deck} {out : Multiset Int} {e : String} (draws : Draws) (op : Op)
      (before : Run mathMod num ncards deck out) (allowed : op.Allowed out)
      (error : op.apply mathMod draws deck = (.error e, deck')) :
      Run mathMod num ncards deck' out

/-! ## What each operation does to the cards -/

section Operations

variable {mathMod : Option (Int → Int → Int)} {draws : Draws} {deck deck' : Deck}

/-- What an operation may do: it keeps the size of the shoe; when it raises an error it changes
nothing, and otherwise what was in the deck and what was given is what is in the deck and what was
returned. -/
structure Conserves (deck : Deck) (given : List Int) (outcome : Outcome (List Int)) : Prop where
  num : outcome.2.num = deck.num
  ncards : outcome.2.ncards = deck.ncards
  error : ∀ {e}, outcome.1 = .error e → outcome.2 = deck
  cards : ∀ {ret}, outcome.1 = .ok ret →
    (deck.cards : Multiset Int) + given = outcome.2.cards + (ret : Multiset Int)

theorem Conserves.ok {given ret : List Int} {cards : List Int}
    (moved : (deck.cards : Multiset Int) + given = cards + (ret : Multiset Int)) :
    Conserves deck given (.ok ret, { deck with cards }) where
  num := rfl
  ncards := rfl
  error := by
    intro e error
    cases error
  cards := by
    intro ret' ok
    cases ok
    exact moved

theorem Conserves.raise {given : List Int} {e : String} :
    Conserves deck given (.error e, deck) where
  num := rfl
  ncards := rfl
  error := fun _ => rfl
  cards := by
    intro ret ok
    cases ok

theorem Conserves.nothing : Conserves deck [] (.ok [], deck) :=
  .ok rfl

theorem shuffle_conserves : Conserves deck [] (.ok [], deck.shuffle draws) := by
  have perm : (Cards.shuffle draws deck.cards).Perm deck.cards := shuffle_perm
  refine .ok ?_
  rw [Multiset.coe_eq_coe.mpr perm]

theorem dealFrom_conserves : ∀ (n : Nat) (ret cards : List Int),
    ((dealFrom n ret cards).1 : Multiset Int) + (dealFrom n ret cards).2 = ret + cards
  | 0, _, _ => rfl
  | n + 1, ret, cards => by
    rw [dealFrom, dealFrom_conserves n]
    rcases List.eq_nil_or_concat cards with rfl | ⟨front, last, rfl⟩
    · simp
    · have perm : (last :: front).Perm (front ++ [last]) := (List.perm_append_singleton ..).symm
      simpa using perm.append_left ret

/-- A list without the entry at a place, and that entry. -/
theorem eraseIdx_conserves {cards : List Int} {i : Nat} {c : Int} (found : cards[i]? = some c) :
    (cards : Multiset Int) = (cards.eraseIdx i : Multiset Int) + ([c] : List Int) := by
  obtain ⟨inside, rfl⟩ := List.getElem?_eq_some_iff.mp found
  have perm := List.getElem_cons_eraseIdx_perm inside
  rw [← Multiset.coe_eq_coe] at perm
  rw [← perm, Multiset.coe_add, Multiset.coe_eq_coe]
  exact (List.perm_append_singleton ..).symm

theorem deal_conserves (n : Int) :
    Conserves deck [] (.ok ((deck.deal n).1.getD []), (deck.deal n).2) := by
  unfold Deck.deal
  split
  · exact .nothing
  · have moved := dealFrom_conserves n.toNat [] deck.cards
    refine .ok ?_
    rw [add_comm] at moved ⊢
    exact moved.symm

/-- A refused deal changes nothing. -/
theorem deal_refused {n : Int} (refused : n < 1 ∨ n > deck.cards.length) :
    deck.deal n = (none, deck) :=
  if_pos refused.symm

/-- One card is the first of a deal of one card. -/
theorem dealOne_eq :
    deck.dealOne.1.toList = (deck.deal 1).1.getD [] ∧ deck.dealOne.2 = (deck.deal 1).2 := by
  unfold Deck.dealOne Deck.deal
  split_ifs with refused
  · exact ⟨rfl, rfl⟩
  · rcases List.eq_nil_or_concat deck.cards with none | ⟨front, last, cards⟩
    · simp [none] at refused
    · simp [cards, dealFrom]

theorem dealOne_conserves :
    Conserves deck [] (.ok deck.dealOne.1.toList, deck.dealOne.2) := by
  rw [dealOne_eq.1, dealOne_eq.2]
  exact deal_conserves 1

/-- The cards after one more, put in at a place of the deck. -/
theorem insertIdx_conserves {cards : List Int} {i : Nat} (v : Int) (inside : i ≤ cards.length)
    (tb : List Int) :
    (cards : Multiset Int) + (v :: tb : List Int) =
      (cards.insertIdx i v : Multiset Int) + (tb : Multiset Int) := by
  have perm := List.perm_insertIdx v cards inside
  rw [Multiset.coe_eq_coe.mpr perm, ← Multiset.cons_coe, ← Multiset.cons_coe, Multiset.add_cons,
    Multiset.cons_add]

/-- There is a place in a deck that has cards. -/
theorem random_ok (draws : Draws) (calls : Nat) {m : Nat} (cards : m ≠ 0) :
    random draws calls m = .ok (draws calls (m - 1) + 1) := if_neg cards

/-- There is none in an empty one. -/
theorem random_empty {calls : Nat} :
    random draws calls 0 = .error "bad argument #1 to 'random' (interval is empty)" := rfl

theorem draw_le (draws : Draws) (calls m : Nat) : (draws calls (m - 1) : Nat) ≤ m := by
  have := (draws calls (m - 1)).isLt
  omega

theorem giveBackFrom_conserves (draws : Draws) : ∀ (tb : List Int) (calls : Nat) (deck : Deck),
    deck.cards ≠ [] → (∀ v ∈ tb, 0 < v) →
    ∃ cards : List Int, giveBackFrom draws calls tb deck = (.ok (), { deck with cards }) ∧
      (deck.cards : Multiset Int) + (tb : Multiset Int) = cards
  | [], _, deck, _, _ => ⟨deck.cards, rfl, by simp⟩
  | v :: tb, calls, deck, cards, positive => by
    have length : deck.cards.length ≠ 0 := by simpa using cards
    have vPositive : v > 0 := positive v List.mem_cons_self
    obtain ⟨cards, rest, moved⟩ := giveBackFrom_conserves draws tb (calls + 1)
      { deck with cards := deck.cards.insertIdx (draws calls (deck.cards.length - 1)) v }
      (by
        intro empty
        have longer := List.length_insertIdx_of_le_length (a := v)
          (draw_le draws calls deck.cards.length)
        simp only at empty
        rw [empty] at longer
        cases longer)
      fun u member => positive u (List.mem_cons_of_mem v member)
    refine ⟨cards, ?_, ?_⟩
    · rw [giveBackFrom, if_pos vPositive, random_ok draws calls length]
      exact rest
    · rw [insertIdx_conserves v (draw_le draws calls _) tb]
      exact moved

/-- Nothing can be put back at random into an empty deck. -/
theorem giveBack_conserves {tb : List Int} (positive : ∀ v ∈ tb, 0 < v) :
    Conserves deck tb ((deck.giveBack draws tb).1.map fun _ => [], (deck.giveBack draws tb).2) := by
  unfold Deck.giveBack
  by_cases empty : deck.cards = []
  · cases tb with
    | nil => exact .nothing
    | cons v tb =>
      have raised : giveBackFrom draws 0 (v :: tb) deck =
          (.error "bad argument #1 to 'random' (interval is empty)", deck) := by
        simp [giveBackFrom, random, empty, positive v]
      rw [raised]
      exact .raise
  · obtain ⟨cards, given, moved⟩ := giveBackFrom_conserves draws tb 0 deck empty positive
    rw [given]
    refine .ok ?_
    rw [moved]
    simp

theorem seek_inside {wanted : Card → Bool} {cards : List Int} {x : Nat} :
    ∀ {left i idx found : Nat}, idx - 1 < cards.length →
      seek mathMod wanted cards x left i idx = .ok found → found - 1 < cards.length
  | 0, _, _, _, inside, ok => by
    cases ok
    exact inside
  | left + 1, i, idx, found, _, ok => by
    simp only [seek] at ok
    split at ok
    · cases ok
    · rename_i index at'
      split at ok
      · cases ok
      · split at ok
        · cases ok
          exact (List.getElem?_eq_some_iff.mp at').1
        · exact seek_inside (List.getElem?_eq_some_iff.mp at').1 ok

theorem dealWanted_conserves {wanted : Card → Bool} :
    Conserves deck [] ((deck.dealWanted mathMod draws wanted).1.map (·.toList),
      (deck.dealWanted mathMod draws wanted).2) := by
  unfold Deck.dealWanted
  by_cases empty : deck.cards.length = 0
  · simp only [empty, random_empty]
    exact .raise
  · have started := random_ok draws 0 empty
    simp only [started]
    cases search : seek mathMod wanted deck.cards (draws 0 (deck.cards.length - 1) + 1)
        deck.cards.length 1 (draws 0 (deck.cards.length - 1) + 1) with
    | error e => exact .raise
    | ok idx =>
      have start := (draws 0 (deck.cards.length - 1)).isLt
      have inside : idx - 1 < deck.cards.length := seek_inside (by omega) search
      have found : deck.cards[idx - 1]? = some deck.cards[idx - 1] :=
        List.getElem?_eq_getElem inside
      simp only [found]
      refine .ok ?_
      simpa using eraseIdx_conserves found

theorem indexFrom_found {c : Int} : ∀ {i : Nat} {cards : List Int}, 0 < i →
    0 < indexFrom c i cards → i ≤ indexFrom c i cards ∧ cards[indexFrom c i cards - i]? = some c
  | i, [], _, found => absurd found (Nat.lt_irrefl 0)
  | i, v :: cards, positive, found => by
    unfold indexFrom at found ⊢
    split at found
    · rename_i same
      rw [if_pos same, same]
      exact ⟨Nat.le_refl i, by simp⟩
    · rename_i other
      rw [if_neg other]
      obtain ⟨le, at'⟩ := indexFrom_found (i := i + 1) (Nat.succ_pos i) found
      refine ⟨by omega, ?_⟩
      have place : indexFrom c (i + 1) cards - i = indexFrom c (i + 1) cards - (i + 1) + 1 := by
        omega
      rw [place]
      exact at'

theorem dealSuitRank_conserves (suit rank : Int) :
    Conserves deck []
      (.ok (deck.dealSuitRank suit rank).1.toList, (deck.dealSuitRank suit rank).2) := by
  simp only [Deck.dealSuitRank]
  split
  · rename_i found
    obtain ⟨-, at'⟩ := indexFrom_found Nat.one_pos found
    refine .ok ?_
    simpa using eraseIdx_conserves at'
  · exact .nothing

/-- Each operation conserves the cards. -/
theorem Op.conserves (mathMod : Option (Int → Int → Int)) (draws : Draws) (deck : Deck) (op : Op)
    (positive : ∀ v ∈ op.given, 0 < v) :
    Conserves deck op.given (op.apply mathMod draws deck) := by
  cases op with
  | shuffle => exact shuffle_conserves
  | deal n => exact deal_conserves n
  | dealOne => exact dealOne_conserves
  | dealSuit suit => exact dealWanted_conserves
  | dealRank rank => exact dealWanted_conserves
  | dealSuitRank suit rank => exact dealSuitRank_conserves suit rank
  | giveBack tb => exact giveBack_conserves positive

end Operations

/-! ## Conservation over runs -/

variable {mathMod : Option (Int → Int → Int)} {num ncards : Option Nat} {deck : Deck}
  {out : Multiset Int}

theorem length_packs (num ncards : Nat) : (packs num ncards).length = num * ncards := by
  simp [packs, Nat.mul_comm]

/-- The cards of the deck and those that are out are the cards of all packs. -/
structure Complete (num ncards : Option Nat) (deck : Deck) (out : Multiset Int) : Prop where
  numIs : deck.num = num.getD 52
  ncardsIs : deck.ncards = ncards.getD 1
  cards : (deck.cards : Multiset Int) + out = packs (num.getD 52) (ncards.getD 1)

theorem Complete.start (draws : Draws) : Complete num ncards (init draws num ncards) 0 where
  numIs := rfl
  ncardsIs := rfl
  cards := by
    rw [add_zero]
    exact Multiset.coe_eq_coe.mpr shuffle_perm

theorem Complete.returned {deck' : Deck} {cards : List Int} {draws : Draws} {op : Op}
    (complete : Complete num ncards deck out) (allowed : op.Allowed out)
    (ok : op.apply mathMod draws deck = (.ok cards, deck')) :
    Complete num ncards deck' (out + cards - op.given) := by
  have conserves := op.conserves mathMod draws deck allowed.2
  rw [ok] at conserves
  have moved : (deck.cards : Multiset Int) + op.given = deck'.cards + (cards : Multiset Int) :=
    conserves.cards rfl
  refine ⟨conserves.num.trans complete.numIs, conserves.ncards.trans complete.ncardsIs, ?_⟩
  have le : (op.given : Multiset Int) ≤ out + cards := allowed.1.trans (Multiset.le_add_right _ _)
  -- both sides with the cards that were given back
  apply add_right_cancel (b := (op.given : Multiset Int))
  calc (deck'.cards : Multiset Int) + (out + cards - op.given) + op.given
      = deck'.cards + (out + cards) := by rw [add_assoc, tsub_add_cancel_of_le le]
    _ = deck'.cards + (cards : Multiset Int) + out := by rw [add_comm out, add_assoc]
    _ = deck.cards + op.given + out := by rw [moved]
    _ = deck.cards + out + op.given := by rw [add_right_comm]
    _ = packs (num.getD 52) (ncards.getD 1) + op.given := by rw [complete.cards]

theorem Run.complete (run : Run mathMod num ncards deck out) : Complete num ncards deck out := by
  induction run with
  | start draws => exact .start draws
  | returned draws op _ allowed ok complete => exact complete.returned allowed ok
  | @raised deck deck' out e draws op _ allowed error complete =>
    have conserves := op.conserves mathMod draws deck allowed.2
    rw [error] at conserves
    have same := conserves.error rfl
    simp only at same
    rwa [same]

theorem Complete.getDealNum (complete : Complete num ncards deck out) :
    deck.getDealNum = out.card := by
  have sizes := congrArg Multiset.card complete.cards
  rw [Multiset.card_add, Multiset.coe_card, Multiset.coe_card, length_packs] at sizes
  rw [Deck.getDealNum, complete.numIs, complete.ncardsIs]
  omega

/-- Cards are conserved. In every state of a run each operation that returns has moved cards and
neither made nor lost any, one that raises an error and a deal that is refused leave the deck as it
is, and `getDealNum` is the number of cards that are out. -/
theorem cards_conserved (run : Run mathMod num ncards deck out) :
    (∀ (draws : Draws) (op : Op), op.Allowed out →
      (∀ cards deck', op.apply mathMod draws deck = (.ok cards, deck') →
        (deck.cards : Multiset Int) + op.given = deck'.cards + (cards : Multiset Int)) ∧
      ∀ e deck', op.apply mathMod draws deck = (.error e, deck') → deck' = deck) ∧
    (∀ n : Int, n < 1 ∨ n > deck.cards.length → deck.deal n = (none, deck)) ∧
    deck.getDealNum = out.card := by
  refine ⟨?_, fun n => deal_refused, run.complete.getDealNum⟩
  intro draws op allowed
  have conserves := op.conserves mathMod draws deck allowed.2
  refine ⟨?_, ?_⟩
  · intro cards deck' ok
    rw [ok] at conserves
    exact conserves.cards rfl
  · intro e deck' error
    rw [error] at conserves
    exact conserves.error rfl

/-- Two packs of three cards of which one card was dealt. -/
theorem cards_conserved_dealt :
    let dealt : Deck := ⟨3, 2, [2, 3, 1, 2, 3]⟩
    Run none (some 3) (some 2) dealt {1} ∧ dealt.deal 6 = (none, dealt) ∧
      dealt.getDealNum = ({1} : Multiset Int).card := by
  have run : Run none (some 3) (some 2) ⟨3, 2, [2, 3, 1, 2, 3]⟩ (0 + ([1] : List Int) - 0) :=
    .returned (fun _ _ => 0) .dealOne (.start fun _ _ => 0)
      ⟨Multiset.zero_le _, fun _ none => absurd none List.not_mem_nil⟩ rfl
  obtain ⟨-, refused, count⟩ := cards_conserved run
  exact ⟨run, refused 6 (.inr (by decide)), count⟩

end RillServer.Cards
