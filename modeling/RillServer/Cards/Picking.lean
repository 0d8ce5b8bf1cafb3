import Mathlib.Data.List.Basic
import Mathlib.Data.List.Count
import Mathlib.Data.List.Perm.Basic

/-!
# Picking cards by their characters

`Card.pickByChars` of `lualib/common/card.lua`, with `Card.cardToChar` of card records. It picks the
first card of the list for each character that is asked for and takes it out of the list, which it
is searching just then. What is picked and what is left are a split of the hand (`picks_hand`).
-/

namespace RillServer.Picking

/-- The byte of a character of the source. -/
def byte (c : Char) : UInt8 := UInt8.ofNat c.toNat

/-- What is read of a card record. `index` stands for what tells records apart. -/
structure CardRecord where
  index : Int
  suit : Int
  rank : Int
  char : Option UInt8
  deriving DecidableEq

/-- `CARD_RANK_CHAR`. -/
def cardRankChar (rank : Int) : Option UInt8 :=
  if rank = 22 then some (byte 'V')
  else if rank = 23 then some (byte 'W')
  else if 1 ≤ rank then ("23456789XJQKA".toList.map byte)[(rank - 1).toNat]?
  else none

/-- `Card.cardToChar` of a record. `CARD_SUIT.MONKEY` is 5 and `CARD_RANK.MONKEY` 21. -/
def cardToChar (card : CardRecord) : UInt8 :=
  match card.char with
  | some char => char
  | none =>
    if card.suit = 5 then (cardRankChar (card.rank + 21)).getD (byte '?')
    else (cardRankChar card.rank).getD (byte '?')

/-- The card has the character. -/
def hasChar (char : UInt8) (card : CardRecord) : Bool := cardToChar card == char

/-- The loop of `Card.pickByChars` over the characters: `pickList` and `cardList` at its end. -/
def pickFrom : List CardRecord → List CardRecord → List UInt8 → List CardRecord × List CardRecord
  | pickList, cardList, [] => (pickList, cardList)
  | pickList, cardList, char :: chars =>
    match cardList.find? (hasChar char) with
    | some card => pickFrom (pickList ++ [card]) (cardList.eraseP (hasChar char)) chars
    | none => pickFrom pickList cardList chars

/-- `Card.pickByChars`: the cards that it returns, and what is left of the list. -/
def pickByChars (cardList : List CardRecord) (chars : List UInt8) :
    List CardRecord × List CardRecord :=
  pickFrom [] cardList chars

/-- A request, with its number among `chars`, can be met: fewer equal ones are made in front of it,
in `before` or in `chars`, than there are in the stock. -/
def isMet (stock : UInt8 → Nat) (before chars : List UInt8) (request : UInt8 × Nat) : Bool :=
  decide ((before ++ chars.take request.2).count request.1 < stock request.1)

/-- The requests that can be met. -/
def met (stock : UInt8 → Nat) (before chars : List UInt8) : List UInt8 :=
  (chars.zipIdx.filter (isMet stock before chars)).map Prod.fst

section Pick

variable {cardList pickList : List CardRecord} {char c : UInt8} {chars : List UInt8}
  {card : CardRecord}

theorem hasChar_iff : hasChar char card = true ↔ cardToChar card = char :=
  beq_iff_eq

/-- What was picked before stays in front. -/
theorem pickFrom_append : ∀ (chars : List UInt8) (pickList cardList : List CardRecord),
    pickFrom pickList cardList chars =
      (pickList ++ (pickFrom [] cardList chars).1, (pickFrom [] cardList chars).2)
  | [], pickList, cardList => by simp [pickFrom]
  | char :: chars, pickList, cardList => by
    unfold pickFrom
    split
    · rename_i card _
      rw [pickFrom_append chars (pickList ++ [card]), pickFrom_append chars ([] ++ [card])]
      simp
    · exact pickFrom_append chars pickList cardList

theorem pickByChars_found (found : cardList.find? (hasChar char) = some card) :
    pickByChars cardList (char :: chars) =
      (card :: (pickByChars (cardList.eraseP (hasChar char)) chars).1,
        (pickByChars (cardList.eraseP (hasChar char)) chars).2) := by
  rw [pickByChars, pickFrom, found]
  exact pickFrom_append chars ([] ++ [card]) _

theorem pickByChars_missing (missing : cardList.find? (hasChar char) = none) :
    pickByChars cardList (char :: chars) = pickByChars cardList chars := by
  rw [pickByChars, pickFrom, missing]
  rfl

/-- The first card with a character, and the others in their order. -/
theorem find_split (found : cardList.find? (hasChar char) = some card) :
    ∃ front back, cardList = front ++ card :: back ∧
      cardList.eraseP (hasChar char) = front ++ back ∧ cardToChar card = char ∧
      ∀ other ∈ front, cardToChar other ≠ char := by
  obtain ⟨has, front, back, split, others⟩ := List.find?_eq_some_iff_append.mp found
  have misses : ∀ other ∈ front, ¬ hasChar char other = true := by
    intro other member
    simpa using others other member
  refine ⟨front, back, split, ?_, hasChar_iff.mp has, ?_⟩
  · rw [split, List.eraseP_append_right (card :: back) misses, List.eraseP_cons_of_pos has]
  · intro other member same
    exact misses other member (hasChar_iff.mpr same)

/-- Nothing is lost: what is picked and what is left are the cards of the list. -/
theorem pickByChars_perm : ∀ (chars : List UInt8) (cardList : List CardRecord),
    ((pickByChars cardList chars).1 ++ (pickByChars cardList chars).2).Perm cardList
  | [], cardList => List.Perm.refl cardList
  | char :: chars, cardList => by
    cases search : cardList.find? (hasChar char) with
    | none =>
      rw [pickByChars_missing search]
      exact pickByChars_perm chars cardList
    | some card =>
      obtain ⟨front, back, split, erased, -, -⟩ := find_split search
      have rest := pickByChars_perm chars (cardList.eraseP (hasChar char))
      rw [pickByChars_found search]
      apply (rest.cons card).trans
      rw [erased, split]
      exact List.perm_middle.symm

/-- What is left keeps its order. -/
theorem pickByChars_sublist : ∀ (chars : List UInt8) (cardList : List CardRecord),
    (pickByChars cardList chars).2.Sublist cardList
  | [], cardList => List.Sublist.refl cardList
  | char :: chars, cardList => by
    cases search : cardList.find? (hasChar char) with
    | none =>
      rw [pickByChars_missing search]
      exact pickByChars_sublist chars cardList
    | some card =>
      rw [pickByChars_found search]
      exact (pickByChars_sublist chars (cardList.eraseP (hasChar char))).trans
        List.eraseP_sublist

theorem filter_of_others {front : List CardRecord}
    (others : ∀ other ∈ front, cardToChar other ≠ char) : front.filter (hasChar char) = [] := by
  rw [List.filter_eq_nil_iff]
  intro other member has
  exact others other member (hasChar_iff.mp has)

/-- The cards of one character are picked from the first on, as often as the character is asked
for. -/
theorem pickByChars_filter (c : UInt8) : ∀ (chars : List UInt8) (cardList : List CardRecord),
    (pickByChars cardList chars).1.filter (hasChar c) =
      (cardList.filter (hasChar c)).take (chars.count c)
  | [], cardList => by simp [pickByChars, pickFrom]
  | char :: chars, cardList => by
    cases search : cardList.find? (hasChar char) with
    | none =>
      rw [pickByChars_missing search, pickByChars_filter c chars cardList]
      by_cases same : char = c
      · have others : cardList.filter (hasChar c) = [] := by
          rw [List.filter_eq_nil_iff, ← same]
          exact List.find?_eq_none.mp search
        rw [others, List.take_nil, List.take_nil]
      · rw [List.count_cons_of_ne same]
    | some card =>
      obtain ⟨front, back, split, erased, has, others⟩ := find_split search
      have rest := pickByChars_filter c chars (cardList.eraseP (hasChar char))
      rw [pickByChars_found search]
      by_cases same : char = c
      · subst same
        rw [List.filter_cons_of_pos (hasChar_iff.mpr has), rest, erased, split,
          List.filter_append, List.filter_append, filter_of_others others,
          List.filter_cons_of_pos (hasChar_iff.mpr has), List.count_cons_self]
        rfl
      · have other : ¬ hasChar c card = true := by
          rw [hasChar_iff, has]
          exact same
        rw [List.filter_cons_of_neg other, rest, erased, split, List.filter_append,
          List.filter_append, List.filter_cons_of_neg other, List.count_cons_of_ne same]

theorem isMet_iff {stock : UInt8 → Nat} {before : List UInt8} {request : UInt8 × Nat} :
    isMet stock before chars request = true ↔
      before.count request.1 + (chars.take request.2).count request.1 < stock request.1 := by
  rw [isMet, decide_eq_true_eq, List.count_append]

/-- The first request is met when there is a card for it, and the others after it. -/
theorem met_cons (stock : UInt8 → Nat) (before : List UInt8) (char : UInt8) (chars : List UInt8) :
    met stock before (char :: chars) =
      (if before.count char < stock char then [char] else []) ++
        met stock (before ++ [char]) chars := by
  have shifted : ∀ request : UInt8 × Nat,
      isMet stock before (char :: chars) (Prod.map id (· + 1) request) =
        isMet stock (before ++ [char]) chars request := by
    intro request
    rw [Bool.eq_iff_iff, isMet_iff, isMet_iff]
    have counts : before.count request.1 + ((char :: chars).take (request.2 + 1)).count request.1 =
        (before ++ [char]).count request.1 + (chars.take request.2).count request.1 := by
      rw [List.take_succ_cons, List.count_append, List.count_cons, List.count_singleton]
      omega
    exact iff_of_eq (congrArg (· < stock request.1) counts)
  have later : ((chars.zipIdx 1).filter (isMet stock before (char :: chars))).map Prod.fst =
      met stock (before ++ [char]) chars := by
    have names : Prod.fst ∘ Prod.map id (· + 1) = (Prod.fst : UInt8 × Nat → UInt8) := rfl
    rw [List.zipIdx_succ, List.filter_map, List.map_map, met]
    apply congrArg₂ _ names
    exact List.filter_congr fun request _ => shifted request
  have first : isMet stock before (char :: chars) (char, 0) = true ↔
      before.count char < stock char := isMet_iff
  rw [met, List.zipIdx_cons, Nat.zero_add]
  by_cases there : before.count char < stock char
  · rw [List.filter_cons_of_pos (first.mpr there), if_pos there, List.map_cons, later]
    rfl
  · rw [List.filter_cons_of_neg (mt first.mp there), if_neg there, later]
    rfl

/-- What is met depends on how much of the stock there is left. -/
theorem met_congr {stock stock' : UInt8 → Nat} {before before' : List UInt8} (chars : List UInt8)
    (same : ∀ c k, before.count c + k < stock c ↔ before'.count c + k < stock' c) :
    met stock before chars = met stock' before' chars := by
  unfold met
  refine congrArg _ (List.filter_congr fun request _ => ?_)
  rw [Bool.eq_iff_iff, isMet_iff, isMet_iff]
  exact same _ _

/-- The characters of what is picked are the requests that the list can meet, in their order. -/
theorem pickByChars_met : ∀ (chars : List UInt8) (cardList : List CardRecord),
    (pickByChars cardList chars).1.map cardToChar =
      met (fun c => cardList.countP (hasChar c)) [] chars
  | [], cardList => rfl
  | char :: chars, cardList => by
    rw [met_cons]
    cases search : cardList.find? (hasChar char) with
    | none =>
      have absent : cardList.countP (hasChar char) = 0 :=
        List.countP_eq_zero.mpr (List.find?_eq_none.mp search)
      rw [pickByChars_missing search, pickByChars_met chars cardList, absent,
        if_neg (Nat.not_lt_zero _), List.nil_append, List.nil_append]
      refine met_congr chars fun c k => ?_
      by_cases same : char = c
      · subst same
        rw [absent]
        omega
      · simp [same]
    | some card =>
      obtain ⟨front, back, split, erased, has, -⟩ := find_split search
      have count : ∀ c, cardList.countP (hasChar c) =
          (cardList.eraseP (hasChar char)).countP (hasChar c) + if char = c then 1 else 0 := by
        intro c
        have one : hasChar c card = decide (char = c) := by
          rw [hasChar, has]
          rfl
        rw [erased, split, List.countP_append, List.countP_append, List.countP_cons, one]
        simp only [decide_eq_true_eq]
        omega
      have present : 0 < cardList.countP (hasChar char) := by
        rw [count char, if_pos rfl]
        omega
      rw [pickByChars_found search, List.map_cons, has, pickByChars_met chars]
      simp only [List.count_nil, present, if_true, List.singleton_append, List.nil_append,
        List.cons.injEq, true_and]
      refine met_congr chars fun c k => ?_
      rw [count c]
      by_cases same : char = c
      · simp [same]
        omega
      · simp [same]

/-- **Picking splits the hand.** What is picked and what is left together are the cards of the
list; what is left keeps its order; of each character as many cards are picked as are asked for and
there are, from the first on; and they are picked in the order of the requests. -/
theorem picks_hand (cardList : List CardRecord) (chars : List UInt8) :
    let (picked, left) := pickByChars cardList chars
    (picked ++ left).Perm cardList ∧
    left.Sublist cardList ∧
    (∀ c, picked.countP (fun card => cardToChar card == c) =
      min (chars.count c) (cardList.countP fun card => cardToChar card == c)) ∧
    (∀ c, picked.filter (fun card => cardToChar card == c) =
      (cardList.filter fun card => cardToChar card == c).take (chars.count c)) ∧
    picked.map cardToChar =
      met (fun c => cardList.countP fun card => cardToChar card == c) [] chars ∧
    ∀ card ∈ cardList, ∀ char, card.char = some char → cardToChar card = char := by
  refine ⟨pickByChars_perm chars cardList, pickByChars_sublist chars cardList, ?_,
    fun c => pickByChars_filter c chars cardList, pickByChars_met chars cardList, ?_⟩
  · intro c
    have same := congrArg List.length (pickByChars_filter c chars cardList)
    rw [List.length_take, ← List.countP_eq_length_filter, ← List.countP_eq_length_filter] at same
    exact same
  · intro card _ char field
    rw [cardToChar, field]

end Pick

end RillServer.Picking
