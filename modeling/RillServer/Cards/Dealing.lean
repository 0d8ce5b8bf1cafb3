import RillServer.Cards.Deck
import Mathlib.Data.List.InsertIdx

/-!
# Dealing and giving back particular cards

What `dealSuit`, `dealRank`, `giveBack`, `remove` and `dealSuitRank` of `lualib/common/cards.lua` do
to the order of the deck.

`dealSuit` and `dealRank` go around the deck from a random place and deal the card at which the
search ends, be it one that was asked for or not (`dealt_as_asked`). `giveBack` puts a card in front
of another one, never at the end and not into an empty deck (`given_back`). `remove` looks for the
global `Table`, which nothing sets (`remove_raises`).
-/

namespace RillServer.Cards

/-! ## `dealSuit` and `dealRank` -/

/-- `math.mod` as the remainder. -/
def remainder : Option (Int → Int → Int) := some fun a b => a % b

/-- A card index that `Card.indexToCard` makes a wanted card of. -/
def IsWanted (wanted : Card → Bool) (v : Int) : Prop :=
  ∃ card : Card, indexToCard remainder v = .ok card ∧ wanted card = true

/-- A deal gives what was asked for: whatever the random numbers are, it takes a wanted card out of
the deck if there is one, and nothing otherwise. -/
def DealsAsAsked (wanted : Card → Bool) (deck : Deck)
    (deal : Draws → Outcome (Option Int)) : Prop :=
  ∀ draws : Draws,
    ((∃ v ∈ deck.cards, IsWanted wanted v) → ∃ i v, deck.cards[i]? = some v ∧ IsWanted wanted v ∧
      deal draws = (.ok (some v), { deck with cards := deck.cards.eraseIdx i })) ∧
    ((¬ ∃ v ∈ deck.cards, IsWanted wanted v) → deal draws = (.ok none, deck))

section Search

variable {wanted : Card → Bool} {cards : List Int} {x num : Nat}

/-- The place of the deck at which the search looks in its round `i`. -/
def place (num x i : Nat) : Nat :=
  let idx := x + i - 1
  if idx > num then idx % num else idx

theorem place_bounds {i : Nat} (start : 1 ≤ x ∧ x ≤ num) (round : 1 ≤ i ∧ i ≤ num) :
    1 ≤ place num x i ∧ place num x i ≤ num := by
  unfold place
  by_cases wraps : x + i - 1 > num
  · have back : (x + i - 1) % num = x + i - 1 - num := by
      rw [Nat.mod_eq_sub_mod (by omega), Nat.mod_eq_of_lt (by omega)]
    simp only [wraps, if_true, back]
    omega
  · simp only [wraps, if_false]
    omega

/-- The search comes to each place. -/
theorem exists_place {p : Nat} (start : 1 ≤ x ∧ x ≤ num) (inside : 1 ≤ p ∧ p ≤ num) :
    ∃ i, 1 ≤ i ∧ i ≤ num ∧ place num x i = p := by
  by_cases later : x ≤ p
  · refine ⟨p + 1 - x, by omega, by omega, ?_⟩
    have direct : ¬ x + (p + 1 - x) - 1 > num := by omega
    simp only [place, direct, if_false]
    omega
  · refine ⟨p + num + 1 - x, by omega, by omega, ?_⟩
    have wraps : x + (p + num + 1 - x) - 1 > num := by omega
    have around : x + (p + num + 1 - x) - 1 = p + num := by omega
    rw [place, if_pos wraps, around, Nat.add_mod_right]
    exact Nat.mod_eq_of_lt (by omega)

theorem indexToCard_ok (v : Int) : ∃ card, indexToCard remainder v = .ok card := by
  unfold indexToCard remainder
  split
  · exact ⟨_, rfl⟩
  · exact ⟨_, rfl⟩

/-- How the search from the round `i` ends: at the first wanted card, or after the last round at the
card that it looked at then. -/
theorem seek_ends (wanted : Card → Bool) (start : 1 ≤ x ∧ x ≤ cards.length) :
    ∀ (left i idx : Nat), 1 ≤ i → i + left = cards.length + 1 →
      ∃ found, seek remainder wanted cards x left i idx = .ok found ∧
        ((∃ v, cards[found - 1]? = some v ∧ IsWanted wanted v) ∨
          (∀ r, i ≤ r → r ≤ cards.length →
            ∀ v, cards[place cards.length x r - 1]? = some v → ¬ IsWanted wanted v) ∧
          found = if left = 0 then idx else place cards.length x cards.length)
  | 0, i, idx, _, rounds => by
    refine ⟨idx, rfl, .inr ⟨?_, by simp⟩⟩
    intro r from' upTo
    omega
  | left + 1, i, idx, first, rounds => by
    have inside := place_bounds start ⟨first, by omega⟩
    obtain ⟨u, at'⟩ : ∃ u, cards[place cards.length x i - 1]? = some u :=
      ⟨_, List.getElem?_eq_getElem (by omega)⟩
    obtain ⟨card, made⟩ := indexToCard_ok u
    have round : seek remainder wanted cards x (left + 1) i idx =
        if wanted card = true then .ok (place cards.length x i)
        else seek remainder wanted cards x left (i + 1) (place cards.length x i) := by
      have look : cards[(if x + i - 1 > cards.length then (x + i - 1) % cards.length
          else x + i - 1) - 1]? = some u := at'
      simp only [seek, look, made]
      rfl
    by_cases hit : wanted card = true
    · refine ⟨place cards.length x i, ?_, .inl ⟨_, at', card, made, hit⟩⟩
      rw [round, if_pos hit]
    · obtain ⟨found, ok, ends⟩ := seek_ends wanted start left (i + 1)
        (place cards.length x i) (by omega) (by omega)
      refine ⟨found, by rw [round, if_neg hit, ok], ?_⟩
      rcases ends with wantedOne | ⟨none, last⟩
      · exact .inl wantedOne
      · refine .inr ⟨?_, ?_⟩
        · intro r from' upTo v there
          rcases Nat.eq_or_lt_of_le from' with rfl | later
          · rw [at'] at there
            cases there
            rintro ⟨card', made', hit'⟩
            rw [made] at made'
            cases made'
            exact hit hit'
          · exact none r later upTo v there
        · rw [last, if_neg (Nat.succ_ne_zero left)]
          split
          · have final : i = cards.length := by omega
            rw [final]
          · rfl

variable {deck : Deck}

/-- A deal takes the card at a place of the deck: a wanted one, or any one when none is wanted. -/
theorem dealWanted_takes (draws : Draws) (wanted : Card → Bool) (nonempty : deck.cards ≠ []) :
    ∃ i v, deck.cards[i]? = some v ∧
      deck.dealWanted remainder draws wanted =
        (.ok (some v), { deck with cards := deck.cards.eraseIdx i }) ∧
      ((∃ u ∈ deck.cards, IsWanted wanted u) → IsWanted wanted v) := by
  have length : deck.cards.length ≠ 0 := by simpa using nonempty
  have asked := random_ok draws 0 length
  have drawnIn : (draws 0 (deck.cards.length - 1) : Nat) < deck.cards.length - 1 + 1 :=
    (draws 0 (deck.cards.length - 1)).isLt
  have start : 1 ≤ (draws 0 (deck.cards.length - 1) : Nat) + 1 ∧
      (draws 0 (deck.cards.length - 1) : Nat) + 1 ≤ deck.cards.length := ⟨by omega, by omega⟩
  obtain ⟨found, ok, ends⟩ := seek_ends wanted start deck.cards.length 1
    ((draws 0 (deck.cards.length - 1) : Nat) + 1) (Nat.le_refl 1) (by omega)
  have inside : found - 1 < deck.cards.length := by
    rcases ends with ⟨v, there, -⟩ | ⟨-, last⟩
    · exact (List.getElem?_eq_some_iff.mp there).1
    · have bounds := place_bounds start ⟨Nat.pos_of_ne_zero length, Nat.le_refl _⟩
      rw [last, if_neg length]
      omega
  refine ⟨found - 1, deck.cards[found - 1], List.getElem?_eq_getElem inside, ?_, ?_⟩
  · simp only [Deck.dealWanted, asked, ok, List.getElem?_eq_getElem inside]
  · intro present
    rcases ends with ⟨v, there, isWanted⟩ | ⟨none, -⟩
    · rw [List.getElem?_eq_getElem inside] at there
      cases there
      exact isWanted
    · -- the search has come to the place of the wanted card
      obtain ⟨u, member, isWanted⟩ := present
      obtain ⟨p, pIn, rfl⟩ := List.getElem_of_mem member
      obtain ⟨r, first, upTo, at'⟩ := exists_place start (p := p + 1) ⟨by omega, pIn⟩
      refine (none r first upTo deck.cards[p] ?_ isWanted).elim
      rw [at', Nat.add_sub_cancel]
      exact List.getElem?_eq_getElem pIn

theorem dealWanted_asAsked (wanted : Card → Bool) (nonempty : deck.cards ≠ []) :
    DealsAsAsked wanted deck (fun draws => deck.dealWanted remainder draws wanted) ↔
      ∃ v ∈ deck.cards, IsWanted wanted v := by
  constructor
  · intro asAsked
    by_contra absent
    -- without a wanted card some other one is dealt
    obtain ⟨i, v, -, dealt, -⟩ := dealWanted_takes (fun _ _ => 0) wanted nonempty
    have nothing : deck.dealWanted remainder (fun _ _ => 0) wanted = (.ok none, deck) :=
      (asAsked fun _ _ => 0).2 absent
    rw [dealt] at nothing
    cases nothing
  · intro present draws
    refine ⟨fun _ => ?_, fun absent => (absent present).elim⟩
    obtain ⟨i, v, there, dealt, isWanted⟩ := dealWanted_takes draws wanted nonempty
    exact ⟨i, v, there, isWanted present, dealt⟩

/-- `dealSuit` and `dealRank` deal what they are asked for if and only if the deck has a card of
that suit or rank. -/
theorem dealt_as_asked (deck : Deck) (nonempty : deck.cards ≠ []) :
    (∀ suit : Int,
      DealsAsAsked (fun card => suit == card.suit) deck
          (fun draws => deck.dealSuit remainder draws suit) ↔
        ∃ v ∈ deck.cards, ∃ card, indexToCard remainder v = .ok card ∧ card.suit = suit) ∧
    ∀ rank : Int,
      DealsAsAsked (fun card => rank == card.rank) deck
          (fun draws => deck.dealRank remainder draws rank) ↔
        ∃ v ∈ deck.cards, ∃ card, indexToCard remainder v = .ok card ∧ card.rank = rank := by
  refine ⟨fun suit => ?_, fun rank => ?_⟩
  · apply (dealWanted_asAsked _ nonempty).trans
    simp only [IsWanted, beq_iff_eq, eq_comm (a := suit)]
  · apply (dealWanted_asAsked _ nonempty).trans
    simp only [IsWanted, beq_iff_eq, eq_comm (a := rank)]

/-- A deck of one spade. -/
theorem dealt_as_asked_spade :
    let deck : Deck := ⟨52, 1, [1]⟩
    (∀ suit : Int,
      DealsAsAsked (fun card => suit == card.suit) deck
          (fun draws => deck.dealSuit remainder draws suit) ↔
        ∃ v ∈ deck.cards, ∃ card, indexToCard remainder v = .ok card ∧ card.suit = suit) ∧
    ∀ rank : Int,
      DealsAsAsked (fun card => rank == card.rank) deck
          (fun draws => deck.dealRank remainder draws rank) ↔
        ∃ v ∈ deck.cards, ∃ card, indexToCard remainder v = .ok card ∧ card.rank = rank :=
  dealt_as_asked ⟨52, 1, [1]⟩ (by decide)

/-- A heart is asked for and the only card of the deck, a spade, is dealt. -/
theorem spade_dealt_for_heart :
    ¬ ∀ (deck : Deck) (suit : Int), deck.cards ≠ [] →
      DealsAsAsked (fun card => suit == card.suit) deck
        (fun draws => deck.dealSuit remainder draws suit) := by
  intro asAsked
  have noHeart : ¬ ∃ v ∈ [1], IsWanted (fun card => 2 == card.suit) v := by
    rintro ⟨v, member, card, made, hit⟩
    rw [List.mem_singleton.mp member] at made
    cases made
    cases hit
  have nothing : Deck.dealSuit remainder (fun _ _ => 0) 2 ⟨52, 1, [1]⟩ =
      (.ok none, ⟨52, 1, [1]⟩) := (asAsked ⟨52, 1, [1]⟩ 2 (by decide) fun _ _ => 0).2 noHeart
  have dealt : Deck.dealSuit remainder (fun _ _ => 0) 2 ⟨52, 1, [1]⟩ =
      (.ok (some 1), ⟨52, 1, []⟩) := by decide
  rw [dealt] at nothing
  cases nothing

end Search

/-! ## `giveBack` -/

/-- The cards of the deck in their order, and the given ones among them. -/
def Inserted (tb cards after : List Int) : Prop :=
  after.Perm (cards ++ tb) ∧ cards.Sublist after

/-- The cards can be given back: the call returns and has inserted them, whatever the random numbers
are. -/
def Returns (tb : List Int) (deck : Deck) : Prop :=
  ∀ draws : Draws, ∃ cards : List Int,
    deck.giveBack draws tb = (.ok (), { deck with cards }) ∧ Inserted tb deck.cards cards

/-- A place of the deck is possible for a card: `math.random` can give it, and the card is put
there. -/
def Possible (v : Int) (p : Nat) (deck : Deck) : Prop :=
  ∃ draws : Draws, random draws 0 deck.cards.length = .ok (p + 1) ∧
    deck.giveBack draws [v] = (.ok (), { deck with cards := deck.cards.insertIdx p v })

section GiveBack

variable {deck : Deck} {tb : List Int}

/-- Whatever is given back, the cards of the deck keep their order. -/
theorem giveBackFrom_sublist (draws : Draws) : ∀ (tb : List Int) (calls : Nat) (deck : Deck),
    deck.cards.Sublist (giveBackFrom draws calls tb deck).2.cards
  | [], _, _ => List.Sublist.refl _
  | v :: tb, calls, deck => by
    unfold giveBackFrom
    split
    · split
      · exact List.Sublist.refl _
      · rename_i pos _
        exact (List.sublist_insertIdx deck.cards (pos - 1) v).trans
          (giveBackFrom_sublist draws tb (calls + 1)
            { deck with cards := deck.cards.insertIdx (pos - 1) v })
    · exact giveBackFrom_sublist draws tb calls deck

/-- Cards can be given back unless there are some and the deck is empty. -/
theorem returns_iff (positive : ∀ v ∈ tb, 0 < v) :
    Returns tb deck ↔ tb = [] ∨ deck.cards ≠ [] := by
  constructor
  · intro returns
    by_contra neither
    obtain ⟨given, empty⟩ := not_or.mp neither
    obtain ⟨v, tb, rfl⟩ := List.exists_cons_of_ne_nil given
    obtain ⟨cards, ok, -⟩ := returns fun _ _ => 0
    have raised : deck.giveBack (fun _ _ => 0) (v :: tb) =
        (.error "bad argument #1 to 'random' (interval is empty)", deck) := by
      simp [Deck.giveBack, giveBackFrom, random, not_not.mp empty, positive v]
    rw [raised] at ok
    cases ok
  · rintro (rfl | nonempty) draws
    · refine ⟨deck.cards, rfl, ?_, List.Sublist.refl _⟩
      rw [List.append_nil]
    · obtain ⟨cards, ok, moved⟩ := giveBackFrom_conserves draws tb 0 deck nonempty positive
      have order := giveBackFrom_sublist draws tb 0 deck
      rw [ok] at order
      refine ⟨cards, ok, ?_, order⟩
      rw [Multiset.coe_add, Multiset.coe_eq_coe] at moved
      exact moved.symm

/-- The places that a card can be put at are those of the cards of the deck: it is never put behind
the last one. -/
theorem possible_iff {v : Int} (positive : 0 < v) {p : Nat} :
    Possible v p deck ↔ p < deck.cards.length := by
  constructor
  · rintro ⟨draws, asked, -⟩
    by_contra outside
    by_cases empty : deck.cards.length = 0
    · rw [empty, random_empty] at asked
      cases asked
    · rw [random_ok draws 0 empty] at asked
      have drawnIn : (draws 0 (deck.cards.length - 1) : Nat) < deck.cards.length - 1 + 1 :=
        (draws 0 (deck.cards.length - 1)).isLt
      have same : (draws 0 (deck.cards.length - 1) : Nat) + 1 = p + 1 := Except.ok.inj asked
      omega
  · intro inside
    have nonempty : deck.cards.length ≠ 0 := by omega
    have drawn : p % (deck.cards.length - 1 + 1) = p := Nat.mod_eq_of_lt (by omega)
    have asked : random (fun _ m => Fin.ofNat (m + 1) p) 0 deck.cards.length = .ok (p + 1) := by
      rw [random_ok _ 0 nonempty, Fin.val_ofNat, drawn]
    refine ⟨fun _ m => Fin.ofNat (m + 1) p, asked, ?_⟩
    simp only [Deck.giveBack, giveBackFrom, positive, if_true, asked, Nat.add_sub_cancel]

/-- Giving cards back does what is expected of it, with every place possible for each card, if and
only if there are none to give back. What it does otherwise: it inserts them unless the deck is
empty, and each place but the end is possible for a card. -/
theorem given_back (deck : Deck) (tb : List Int) (positive : ∀ v ∈ tb, 0 < v) :
    (Returns tb deck ∧ (∀ v ∈ tb, ∀ p, p ≤ deck.cards.length → Possible v p deck) ↔ tb = []) ∧
    (Returns tb deck ↔ tb = [] ∨ deck.cards ≠ []) ∧
    ∀ v ∈ tb, ∀ p, Possible v p deck ↔ p < deck.cards.length := by
  refine ⟨⟨?_, ?_⟩, returns_iff positive, fun v member p => possible_iff (positive v member)⟩
  · rintro ⟨-, possible⟩
    by_contra given
    obtain ⟨v, tb, rfl⟩ := List.exists_cons_of_ne_nil given
    have atEnd := possible v List.mem_cons_self deck.cards.length (Nat.le_refl _)
    exact Nat.lt_irrefl _ ((possible_iff (positive v List.mem_cons_self)).mp atEnd)
  · rintro rfl
    exact ⟨(returns_iff positive).mpr (.inl rfl), fun v member => absurd member List.not_mem_nil⟩

/-- Two cards for a deck of one. -/
theorem given_back_two :
    let deck : Deck := ⟨52, 1, [1]⟩
    (Returns [5, 6] deck ∧ (∀ v ∈ [5, 6], ∀ p, p ≤ deck.cards.length → Possible v p deck) ↔
      ([5, 6] : List Int) = []) ∧
    (Returns [5, 6] deck ↔ ([5, 6] : List Int) = [] ∨ deck.cards ≠ []) ∧
    ∀ v ∈ [5, 6], ∀ p, Possible v p deck ↔ p < deck.cards.length :=
  given_back ⟨52, 1, [1]⟩ [5, 6] (by decide)

/-- A card cannot be given back to a deck that was dealt out. -/
theorem not_given_back :
    ¬ ∀ (deck : Deck) (tb : List Int), (∀ v ∈ tb, 0 < v) →
      Returns tb deck ∧ ∀ v ∈ tb, ∀ p, p ≤ deck.cards.length → Possible v p deck := by
  intro back
  obtain ⟨cards, ok, -⟩ := (back ⟨52, 1, []⟩ [5] (by decide)).1 fun _ _ => 0
  have raised : Deck.giveBack (fun _ _ => 0) [5] ⟨52, 1, []⟩ =
      (.error "bad argument #1 to 'random' (interval is empty)", ⟨52, 1, []⟩) := rfl
  rw [raised] at ok
  cases ok

end GiveBack

/-! ## `remove` and `dealSuitRank` -/

/-- The module `base.utils.tables`, as far as `cards.lua` uses it. -/
structure Tables where
  getIndex : List Int → Int → Nat

/-- `base.utils.tables`. The loop of `getIndex` is the one of `dealSuitRank`. -/
def tables : Tables where
  getIndex tb value := indexFrom value 1 tb

/-- The values of the global variables that may hold the module. -/
abbrev Globals : Type := String → Option Tables

/-- `base/utils/init.lua`. -/
def loadBaseUtils (globals : Globals) : Globals := Function.update globals "TABLE" (some tables)

/-- The upvalue `Table` of `cards.lua` when `base/init.lua` has loaded it: `local Table = Table`. No
global of this name is there before. -/
def upvalueTable : Option Tables := loadBaseUtils (fun _ => none) "Table"

/-- `Card.suitRankToIndex`. -/
def suitRankToIndex (suit rank : Int) : Int := (suit - 1) * 13 + rank

/-- `Cards.find`. -/
def Deck.find (Table : Option Tables) (suit rank : Int) (deck : Deck) : Except String Nat :=
  match Table with
  | none => .error "attempt to index a nil value (upvalue 'Table')"
  | some Table => .ok (Table.getIndex deck.cards (suitRankToIndex suit rank))

/-- `Cards.remove`. -/
def Deck.remove (Table : Option Tables) (suit rank : Int) (deck : Deck) : Outcome Bool :=
  match deck.find Table suit rank with
  | .error e => (.error e, deck)
  | .ok index =>
    if index > 0 then (.ok true, { deck with cards := deck.cards.eraseIdx (index - 1) })
    else (.ok false, deck)

/-- The suits and ranks of the cards 1 to 54. -/
def ValidCard (suit rank : Int) : Prop :=
  1 ≤ suit ∧ suit ≤ 4 ∧ 1 ≤ rank ∧ rank ≤ 13 ∨ suit = 5 ∧ 1 ≤ rank ∧ rank ≤ 2

/-- `remove` returns, leaves the deck that `dealSuitRank` leaves, and reports success when this one
returns the card. -/
def RemovesAlike (Table : Option Tables) (suit rank : Int) (deck : Deck) : Prop :=
  deck.remove Table suit rank =
    (.ok (deck.dealSuitRank suit rank).1.isSome, (deck.dealSuitRank suit rank).2)

section Remove

variable {suit rank : Int}

/-- The two computations of an index agree on the cards that there are. -/
theorem cardToIndex_eq (valid : ValidCard suit rank) :
    cardToIndex suit rank = suitRankToIndex suit rank := by
  unfold cardToIndex suitRankToIndex suitSpade suitDiamond suitMonkey rankTwo rankAce
  rcases valid with ⟨one, four, low, high⟩ | ⟨rfl, low, high⟩
  · rw [if_pos ⟨one, four⟩, if_pos ⟨low, high⟩]
  · rw [if_neg (by omega), if_pos ⟨rfl, by omega⟩]

/-- With the module in the global `Table` the two ways to take a card would agree. -/
theorem removesAlike_of_tables (valid : ValidCard suit rank) (deck : Deck) :
    RemovesAlike (some tables) suit rank deck := by
  simp only [RemovesAlike, Deck.remove, Deck.find, Deck.dealSuitRank, tables,
    cardToIndex_eq valid]
  split <;> rfl

/-- `remove` always raises an error: the module is in the global `TABLE`. -/
theorem remove_raises (deck : Deck) (suit rank : Int) :
    ¬ RemovesAlike upvalueTable suit rank deck ∧
    deck.remove upvalueTable suit rank =
      (.error "attempt to index a nil value (upvalue 'Table')", deck) := by
  have nil : upvalueTable = none := rfl
  have raised : deck.remove upvalueTable suit rank =
      (.error "attempt to index a nil value (upvalue 'Table')", deck) := by
    rw [nil]
    rfl
  refine ⟨?_, raised⟩
  intro alike
  rw [RemovesAlike, raised] at alike
  cases alike

/-- The first spade, in a deck of this card. -/
theorem not_removed_alike :
    ¬ ∀ (deck : Deck) (suit rank : Int), ValidCard suit rank →
      RemovesAlike upvalueTable suit rank deck := by
  intro alike
  have valid : ValidCard 1 1 := .inl (by decide)
  have removed : Deck.remove upvalueTable 1 1 ⟨52, 1, [1]⟩ = (.ok true, ⟨52, 1, []⟩) :=
    alike ⟨52, 1, [1]⟩ 1 1 valid
  have raised : Deck.remove upvalueTable 1 1 ⟨52, 1, [1]⟩ =
      (.error "attempt to index a nil value (upvalue 'Table')", ⟨52, 1, [1]⟩) := rfl
  rw [raised] at removed
  cases removed

end Remove

end RillServer.Cards
