import RillServer.Zset.Deletions

/-!
# Ranks and ranges of a skip list

The queries of `skiplist.c` and the loops of `lua-skiplist.c` that collect a range. The rank of an
entry is its place among the entries, counted from one (`Skiplist.Repr.slGetRank`), a range of ranks
a slice of them (`Skiplist.Repr.get_rank_range`), and a range of scores those between two bounds
(`Skiplist.Repr.get_score_range`). A range whose bounds come in the other order is collected along
the backward links, in the other order.
-/

namespace RillServer.Zset

variable {Score : Type}

/-- A node is not after an entry: its score is less, or the same with an object that is not
greater. -/
def Skiplist.upTo [LinearOrder Score] (sl : Skiplist Score) (score : Score) (o : Slobj) (a : Nat) :
    Bool :=
  decide ((sl.nodes a).score < score) ||
    (decide ((sl.nodes a).score = score) &&
      (sl.nodes a).obj.any fun o' => decide (compareslObj o' o ≤ 0))

/-- `slGetRank`: the rank of the first of its stops, from the highest level on, that has the object,
whatever its score; `0` without one. -/
def slGetRank [LinearOrder Score] (sl : Skiplist Score) (score : Score) (o : Slobj) : Nat :=
  let found := sl.search fun _ a => sl.upTo score o a
  match found.reverse.find? fun stop => (sl.nodes stop.1).obj.any (equalslObj · o) with
  | some stop => stop.2
  | none => 0

/-- `slGetNodeByRank`. -/
def slGetNodeByRank (sl : Skiplist Score) (rank : Nat) : Option Nat :=
  if rank = 0 ∨ rank > sl.length then none
  else
    let found := sl.search fun traversed _ => decide (traversed ≤ rank)
    (found.reverse.find? fun stop => stop.2 == rank).map Prod.fst

/-- `slIsInRange`. -/
def slIsInRange [LinearOrder Score] (sl : Skiplist Score) (min max : Score) : Bool :=
  if min > max then false
  else
    match sl.tail with
    | none => false
    | some x =>
        if (sl.nodes x).score < min then false
        else
          match (sl.link sl.header 0).1 with
          | none => false
          | some x => !decide ((sl.nodes x).score > max)

/-- `slFirstInRange`. -/
def slFirstInRange [LinearOrder Score] (sl : Skiplist Score) (min max : Score) : Option Nat :=
  if slIsInRange sl min max then
    let found := sl.search fun _ a => decide ((sl.nodes a).score < min)
    (sl.link (found.getD 0 (sl.header, 0)).1 0).1
  else none

/-- `slLastInRange`. -/
def slLastInRange [LinearOrder Score] (sl : Skiplist Score) (min max : Score) : Option Nat :=
  if slIsInRange sl min max then
    let found := sl.search fun _ a => decide ((sl.nodes a).score ≤ max)
    some (found.getD 0 (sl.header, 0)).1
  else none

/-- The loops of `lua-skiplist.c` over the nodes from one on, in one direction or the other, as long
as the number of objects there are so far and the node satisfy a condition. -/
def collect (sl : Skiplist Score) (reverse : Bool) (go : Nat → Nat → Bool) :
    Nat → Nat → Option Nat → List Slobj
  | 0, _, _ => []
  | fuel + 1, n, next =>
      match next with
      | none => []
      | some a =>
          if go n a then
            (sl.nodes a).obj.toList ++ collect sl reverse go fuel (n + 1)
              (if reverse then (sl.nodes a).backward else (sl.link a 0).1)
          else []

/-- `_get_rank_range`. The number of places is an `int`. -/
def get_rank_range (sl : Skiplist Score) (r1 r2 : Nat) : List Slobj :=
  let reverse := decide (r2 < r1)
  let rangelen := Int.bmod (if reverse then (r1 : Int) - r2 + 1 else r2 - r1 + 1) (2 ^ 32)
  collect sl reverse (fun n _ => decide ((n : Int) < rangelen)) sl.length 0 (slGetNodeByRank sl r1)

/-- `_get_score_range`. -/
def get_score_range [LinearOrder Score] (sl : Skiplist Score) (s1 s2 : Score) : List Slobj :=
  if s1 ≤ s2 then
    collect sl false (fun _ a => !decide ((sl.nodes a).score > s2)) sl.length 0
      (slFirstInRange sl s1 s2)
  else
    collect sl true (fun _ a => !decide ((sl.nodes a).score < s2)) sl.length 0
      (slLastInRange sl s2 s1)

namespace Skiplist

variable {sl : Skiplist Score} {ids : List Nat} {entries : List (Score ×ₗ Slobj)}

/-- The stop of the lowest level is at the end of what the search passes. -/
theorem Repr.lowest_stop (repr : Repr sl ids entries) {n : Nat} {stop : Nat × Nat} {mid : List Nat}
    (last : Lanes.LastIn sl.height 0 (sl.header :: ids.take n) stop mid)
    (tail : mid = (sl.header :: ids.take n).drop (stop.2 + 1)) (inside : n ≤ ids.length) :
    stop.2 = n := by
  have high : ∀ b ∈ mid, 0 < sl.height b := by
    intro b member
    rw [tail, List.drop_succ_cons] at member
    exact (repr.heights b (List.mem_of_mem_take (List.mem_of_mem_drop member))).1
  have whole := (last.last high).2
  rw [List.length_cons, List.length_take_of_le inside] at whole
  exact (Nat.succ.inj whole).symm

/-- The first stop, from the highest level on, that passes a test which the lowest one passes. -/
theorem Repr.find_stop (repr : Repr sl ids entries) {go : Nat → Nat → Bool} {n : Nat}
    (cut : Lanes.Cut go (sl.header :: ids.take n) (ids.drop n)) (test : Nat × Nat → Bool)
    (lowest : test ((sl.search go).getD 0 (sl.header, 0)) = true) :
    ∃ stop, (sl.search go).reverse.find? test = some stop ∧ test stop = true ∧
      (sl.header :: ids.take n)[stop.2]? = some stop.1 := by
  have spec := repr.search_spec cut
  have first : (sl.search go).getD 0 (sl.header, 0) ∈ (sl.search go).reverse := by
    have inside : 0 < (sl.search go).length := by
      rw [spec.1]
      exact repr.levels.1
    rw [List.getD_eq_getElem _ _ inside]
    exact List.mem_reverse.mpr (List.getElem_mem inside)
  cases found : (sl.search go).reverse.find? test with
  | none => exact absurd lowest (List.find?_eq_none.mp found _ first)
  | some stop =>
      refine ⟨stop, rfl, List.find?_some found, ?_⟩
      obtain ⟨i, inside, same⟩ := List.mem_iff_getElem.mp
        (List.mem_reverse.mp (List.mem_of_find?_eq_some found))
      have last := spec.2 i (spec.1 ▸ inside)
      rw [List.getD_eq_getElem _ _ inside, same] at last
      exact last.getElem?

/-- The node of a stop, if it is not the header, is the one of the stop's rank. -/
theorem Repr.entry_of_stop (repr : Repr sl ids entries) {n : Nat} {stop : Nat × Nat}
    (node : (sl.header :: ids.take n)[stop.2]? = some stop.1) {o : Slobj}
    (object : (sl.nodes stop.1).obj = some o) :
    ∃ j e, stop.2 = j + 1 ∧ entries[j]? = some e ∧ sl.entry stop.1 = some e := by
  cases position : stop.2 with
  | zero =>
      rw [position, List.getElem?_cons_zero, Option.some.injEq] at node
      have none := repr.headerEntry
      rw [node, entry, object, Option.map_some] at none
      cases none
  | succ j =>
      rw [position, List.getElem?_cons_succ] at node
      have inIds : ids[j]? = some stop.1 := by
        have inside := (List.getElem?_eq_some_iff.mp node).1
        rw [List.length_take] at inside
        rwa [List.getElem?_take_of_lt (by omega)] at node
      obtain ⟨e, here, entry⟩ := repr.entry_of_getElem? inIds
      exact ⟨j, e, rfl, here, entry⟩

/-- `slGetNodeByRank` finds the node that has the rank. -/
theorem Repr.slGetNodeByRank (repr : Repr sl ids entries) (rank : Nat) :
    Zset.slGetNodeByRank sl rank = if rank = 0 then none else ids[rank - 1]? := by
  rw [Zset.slGetNodeByRank, repr.length]
  split_ifs with outside zero zero
  · rfl
  · exact (List.getElem?_eq_none (by omega)).symm
  · exact absurd (Or.inl zero) outside
  · have cut := cut_rank sl ids rank (fun traversed _ => decide (traversed ≤ rank)) fun k _ => decide_eq_decide.mpr Iff.rfl
    have last := (repr.search_spec cut).2 0 repr.levels.1
    have there := repr.lowest_stop last rfl (by omega)
    obtain ⟨stop, found, here, node⟩ := repr.find_stop cut (fun stop => stop.2 == rank)
      (beq_iff_eq.mpr there)
    simp only [found, Option.map_some]
    rw [beq_iff_eq.mp here] at node
    obtain ⟨k, rfl⟩ : ∃ k, rank = k + 1 := ⟨rank - 1, by omega⟩
    rw [List.getElem?_cons_succ, List.getElem?_take_of_lt (Nat.lt_succ_self k)] at node
    exact node.symm

/-! ## Collecting a range -/

/-- The tail is the last node, and the header is linked to the first one. -/
theorem Repr.ends (repr : Repr sl ids entries) :
    sl.tail = ids.getLast? ∧ (sl.link sl.header 0).1 = ids.head? := by
  constructor
  · have tail : ∀ (l : List Nat) (prev : Option Nat), sl.Backward prev l →
        sl.tail = l.getLast?.or prev := by
      intro l
      induction l with
      | nil => exact fun prev backward => backward
      | cons a l ih =>
          intro prev backward
          rw [ih _ backward.2, List.getLast?_cons]
          cases l.getLast? <;> rfl
    rw [tail ids none repr.backward, Option.or_none]
  · have high : 0 < sl.height sl.header := by
      rw [repr.headerHeight]
      exact Nat.succ_pos _
    rw [repr.linked.1 0 repr.levels.1 high, Lanes.ahead_zero]
    exact fun b member => (repr.heights b member).1

/-- The entries as long as their number so far and they themselves satisfy a condition. -/
def cutWhile (P : Nat → Score ×ₗ Slobj → Bool) :
    Nat → List (Score ×ₗ Slobj) → List (Score ×ₗ Slobj)
  | _, [] => []
  | n, e :: l => if P n e then e :: cutWhile P (n + 1) l else []

theorem cutWhile_take (m n : Nat) (l : List (Score ×ₗ Slobj)) :
    cutWhile (fun n _ => decide (n < m)) n l = l.take (m - n) := by
  induction l generalizing n with
  | nil => exact List.take_nil.symm
  | cons e l ih =>
      rw [cutWhile]
      split_ifs with less
      · have more : m - n = (m - (n + 1)) + 1 := by
          have := of_decide_eq_true less
          omega
        rw [ih, more, List.take_succ_cons]
      · have none : m - n = 0 := by
          have := of_decide_eq_false (Bool.not_eq_true _ ▸ less)
          omega
        rw [none, List.take_zero]

theorem cutWhile_takeWhile (p : Score ×ₗ Slobj → Bool) (n : Nat) (l : List (Score ×ₗ Slobj)) :
    cutWhile (fun _ => p) n l = l.takeWhile p := by
  induction l generalizing n with
  | nil => rfl
  | cons e l ih => rw [cutWhile, ih, List.takeWhile_cons]

/-- Along the links, a loop collects from the entries after some place. -/
theorem Repr.collect_forward (repr : Repr sl ids entries) (go : Nat → Nat → Bool)
    (P : Nat → Score ×ₗ Slobj → Bool) (same : ∀ n a e, sl.entry a = some e → go n a = P n e)
    (fuel n k : Nat) (enough : entries.length ≤ k + fuel) :
    collect sl false go fuel n ids[k]? = (cutWhile P n (entries.drop k)).map objOf := by
  induction fuel generalizing n k with
  | zero =>
      rw [List.drop_eq_nil_of_le (Nat.add_zero k ▸ enough)]
      rfl
  | succ fuel ih =>
      cases here : ids[k]? with
      | none =>
          rw [List.getElem?_eq_none_iff, repr.length_eq] at here
          rw [List.drop_eq_nil_of_le here]
          rfl
      | some a =>
          obtain ⟨e, hereE, entry⟩ := repr.entry_of_getElem? here
          have rest : entries.drop k = e :: entries.drop (k + 1) := by
            rw [← (List.getElem?_eq_some_iff.mp hereE).2]
            exact List.drop_eq_getElem_cons (List.getElem?_eq_some_iff.mp hereE).1
          simp only [collect]
          rw [rest, cutWhile, same n a e entry, repr.link_node here,
            if_neg Bool.false_ne_true, ih (n + 1) (k + 1) (by omega), (entry_some entry).1]
          split_ifs <;> rfl

theorem Backward.getElem? {prev : Option Nat} (backward : sl.Backward prev ids) {k a : Nat}
    (here : ids[k]? = some a) :
    (sl.nodes a).backward = if k = 0 then prev else ids[k - 1]? := by
  induction ids generalizing prev k with
  | nil => cases here
  | cons b ids ih =>
      cases k with
      | zero =>
          obtain rfl : b = a := Option.some.inj here
          exact backward.1
      | succ k =>
          rw [ih backward.2 here, if_neg (Nat.succ_ne_zero k)]
          cases k with
          | zero => rfl
          | succ k => rw [if_neg (Nat.succ_ne_zero k), Nat.add_sub_cancel, Nat.add_sub_cancel,
              List.getElem?_cons_succ]

/-- Along the backward links, a loop collects from the entries in front of some place, the last of
them first. -/
theorem Repr.collect_backward (repr : Repr sl ids entries) (go : Nat → Nat → Bool)
    (P : Nat → Score ×ₗ Slobj → Bool) (same : ∀ n a e, sl.entry a = some e → go n a = P n e)
    (fuel n k : Nat) (enough : k ≤ fuel) (inside : k ≤ entries.length) :
    collect sl true go fuel n (if k = 0 then none else ids[k - 1]?) =
      (cutWhile P n (entries.take k).reverse).map objOf := by
  induction fuel generalizing n k with
  | zero =>
      obtain rfl := Nat.le_zero.mp enough
      rfl
  | succ fuel ih =>
      cases k with
      | zero => rfl
      | succ k =>
          have insideIds : k < ids.length := repr.length_eq ▸ inside
          have here : ids[k]? = some ids[k] := List.getElem?_eq_getElem insideIds
          obtain ⟨e, hereE', entry⟩ := repr.entry_of_getElem? here
          have taken : (entries.take (k + 1)).reverse = e :: (entries.take k).reverse := by
            obtain ⟨more, rfl⟩ := List.getElem?_eq_some_iff.mp hereE'
            rw [List.take_succ_eq_append_getElem more, List.reverse_append]
            rfl
          rw [if_neg (Nat.succ_ne_zero k), Nat.add_sub_cancel, here]
          simp only [collect]
          rw [taken, cutWhile, same n _ e entry, if_pos True.intro, repr.backward.getElem? here,
            ih (n + 1) k (Nat.le_of_succ_le_succ enough) (Nat.le_of_succ_le inside),
            (entry_some entry).1]
          split_ifs <;> rfl

/-- `_get_rank_range`, for ranks less than `2 ^ 31` apart: the entries of the ranks from the one to the
other. -/
theorem Repr.get_rank_range_up (repr : Repr sl ids entries) {r1 r2 : Nat} (first : 0 < r1)
    (up : r1 ≤ r2) (near : r2 < r1 + (2 ^ 31 - 1)) :
    get_rank_range sl r1 r2 = ((entries.take r2).drop (r1 - 1)).map objOf := by
  have forward : decide (r2 < r1) = false := decide_eq_false (Nat.not_lt.mpr up)
  have range : Int.bmod ((r2 : Int) - r1 + 1) (2 ^ 32) = ((r2 - r1 + 1 : Nat) : Int) := by
    rw [Int.bmod_eq_of_le] <;> omega
  have enough : entries.length ≤ r1 - 1 + sl.length := by
    rw [repr.length, repr.length_eq]
    omega
  have node : Zset.slGetNodeByRank sl r1 = ids[r1 - 1]? := by
    rw [repr.slGetNodeByRank, if_neg (Nat.ne_of_gt first)]
  rw [get_rank_range, node]
  simp only [forward, Bool.false_eq_true, if_false, range, Int.ofNat_lt]
  rw [repr.collect_forward _ (fun n _ => decide (n < r2 - r1 + 1)) (fun _ _ _ _ => rfl) _ _ _
    enough,
    cutWhile_take, List.drop_take]
  congr 2
  omega

/-- In the other order the entries come in the other order, but there are none when the first rank is
beyond the last entry. -/
theorem Repr.get_rank_range_down (repr : Repr sl ids entries) {r1 r2 : Nat} (second : 0 < r2)
    (down : r2 < r1) (near : r1 < r2 + (2 ^ 31 - 1)) :
    get_rank_range sl r1 r2 =
      if r1 ≤ entries.length then ((entries.take r1).drop (r2 - 1)).reverse.map objOf else [] := by
  have backward : decide (r2 < r1) = true := decide_eq_true down
  have range : Int.bmod ((r1 : Int) - r2 + 1) (2 ^ 32) = ((r1 - r2 + 1 : Nat) : Int) := by
    rw [Int.bmod_eq_of_le] <;> omega
  have node : Zset.slGetNodeByRank sl r1 = ids[r1 - 1]? := by
    rw [repr.slGetNodeByRank, if_neg (Nat.ne_of_gt (Nat.zero_lt_of_lt down))]
  rw [get_rank_range, node]
  simp only [backward, if_true, range, Int.ofNat_lt]
  split_ifs with inside
  · have enough : r1 ≤ sl.length := by
      rw [repr.length, repr.length_eq]
      exact inside
    have loop := repr.collect_backward (fun n _ => decide (n < r1 - r2 + 1))
      (fun n _ => decide (n < r1 - r2 + 1)) (fun _ _ _ _ => rfl) sl.length 0 r1 enough inside
    rw [if_neg (Nat.ne_of_gt (Nat.zero_lt_of_lt down))] at loop
    rw [loop, cutWhile_take, List.take_reverse, List.length_take, Nat.min_eq_left inside]
    congr 3
    omega
  · have none : ids[r1 - 1]? = none := by
      rw [List.getElem?_eq_none_iff, repr.length_eq]
      omega
    rw [none]
    cases sl.length <;> rfl

section

variable [LinearOrder Score]

/-- `upTo` compares the entries. -/
theorem upTo_eq {a : Nat} {e : Score ×ₗ Slobj} (here : sl.entry a = some e) (score : Score)
    (obj : Slobj) : sl.upTo score obj a = decide (e ≤ toLex (score, obj)) := by
  rw [entry, Option.map_eq_some_iff] at here
  obtain ⟨o, object, rfl⟩ := here
  have order : toLex ((sl.nodes a).score, o) ≤ toLex (score, obj) ↔
      (sl.nodes a).score < score ∨ (sl.nodes a).score = score ∧ o ≤ obj := Prod.Lex.toLex_le_toLex
  have same : compareslObj o obj ≤ 0 ↔ o ≤ obj := by
    rw [Int.le_iff_lt_or_eq, compareslObj_neg, compareslObj_zero, le_iff_lt_or_eq]
  rw [upTo, object, Option.any_some, decide_eq_decide.mpr order, decide_eq_decide.mpr same,
    ← Bool.decide_and, ← Bool.decide_or]

/-- Sorted entries are in the order of their ranks. -/
theorem le_iff_rank_le (sorted : entries.Pairwise (· < ·)) {j k : Nat} {e e' : Score ×ₗ Slobj}
    (there : entries[j]? = some e') (here : entries[k]? = some e) : e' ≤ e ↔ j ≤ k := by
  obtain ⟨insideJ, rfl⟩ := List.getElem?_eq_some_iff.mp there
  obtain ⟨insideK, rfl⟩ := List.getElem?_eq_some_iff.mp here
  have increasing := List.pairwise_iff_getElem.mp sorted
  constructor
  · intro less
    by_contra later
    exact absurd less (not_le.mpr (increasing k j insideK insideJ (Nat.not_le.mp later)))
  · intro less
    rcases Nat.lt_or_eq_of_le less with before | rfl
    · exact le_of_lt (increasing j k insideJ insideK before)
    · exact le_refl _

/-- `slGetRank` finds the place of an entry when no other has its object. -/
theorem Repr.slGetRank (repr : Repr sl ids entries) (sorted : entries.Pairwise (· < ·))
    (unique : (entries.map objOf).Nodup) {k : Nat} {e : Score ×ₗ Slobj}
    (here : entries[k]? = some e) : Zset.slGetRank sl (scoreOf e) (objOf e) = k + 1 := by
  have cut : Lanes.Cut (fun _ a => sl.upTo (scoreOf e) (objOf e) a)
      (sl.header :: ids.take (k + 1)) (ids.drop (k + 1)) := by
    apply repr.cut fun _ a e' there => upTo_eq there (scoreOf e) (objOf e)
    intro j e' there
    apply decide_eq_decide.mpr
    rw [Nat.lt_succ_iff]
    exact le_iff_rank_le sorted there here
  have inside : k + 1 ≤ ids.length := by
    rw [repr.length_eq]
    exact (List.getElem?_eq_some_iff.mp here).1
  have last := (repr.search_spec cut).2 0 repr.levels.1
  have there := repr.lowest_stop last rfl inside
  have node := last.getElem?
  rw [there, List.getElem?_cons_succ, List.getElem?_take_of_lt (Nat.lt_succ_self k)] at node
  obtain ⟨e', same, entry⟩ := repr.entry_of_getElem? node
  obtain rfl : e = e' := Option.some.inj (here.symm.trans same)
  obtain ⟨stop, found, test, place⟩ := repr.find_stop cut
    (fun stop => (sl.nodes stop.1).obj.any (equalslObj · (objOf e))) (by
      rw [(entry_some entry).1, Option.any_some, equalslObj_iff])
  obtain ⟨o, object, equal⟩ := (Option.any_eq_true _ _).mp test
  rw [equalslObj_iff] at equal
  subst equal
  obtain ⟨j, e', rank, there, entry'⟩ := repr.entry_of_stop place object
  have sameObject : objOf e' = objOf e := Option.some.inj ((entry_some entry').1.symm.trans object)
  have sameRank : j = k := by
    have insideJ : j < (entries.map objOf).length := by
      rw [List.length_map]
      exact (List.getElem?_eq_some_iff.mp there).1
    apply (List.getElem?_inj insideJ unique).mp
    rw [List.getElem?_map, there, List.getElem?_map, here, Option.map_some, Option.map_some,
      sameObject]
  simp only [Zset.slGetRank, found]
  rw [rank, sameRank]

/-! ## Ranges of scores -/

/-- The scores of sorted entries do not decrease. -/
theorem scores_sorted (sorted : entries.Pairwise (· < ·)) :
    entries.Pairwise fun e e' => scoreOf e ≤ scoreOf e' := by
  apply sorted.imp
  intro e e' less
  rcases Prod.Lex.lt_iff.mp less with before | ⟨same, -⟩
  · exact le_of_lt before
  · exact le_of_eq same

/-- The scores of sorted entries are in the order of the ranks. -/
theorem scores_le (sorted : entries.Pairwise (· < ·)) {j k : Nat} {e e' : Score ×ₗ Slobj}
    (here : entries[j]? = some e) (there : entries[k]? = some e') (order : j ≤ k) :
    scoreOf e ≤ scoreOf e' := by
  obtain ⟨insideJ, rfl⟩ := List.getElem?_eq_some_iff.mp here
  obtain ⟨insideK, rfl⟩ := List.getElem?_eq_some_iff.mp there
  rcases Nat.lt_or_eq_of_le order with before | rfl
  · exact List.pairwise_iff_getElem.mp (scores_sorted sorted) j k insideJ insideK before
  · exact le_refl _

/-- When `slIsInRange` says no, no score is in the range. -/
theorem Repr.none_in_range (repr : Repr sl ids entries) (sorted : entries.Pairwise (· < ·))
    {min max : Score} (outside : slIsInRange sl min max = false) {e : Score ×ₗ Slobj}
    (member : e ∈ entries) : ¬(min ≤ scoreOf e ∧ scoreOf e ≤ max) := by
  obtain ⟨k, here⟩ := List.getElem?_of_mem member
  have inside := (List.getElem?_eq_some_iff.mp here).1
  have nonempty : ids.length ≠ 0 := by
    rw [repr.length_eq]
    omega
  intro ⟨above, below⟩
  rw [slIsInRange, repr.ends.1, repr.ends.2, if_neg (not_lt.mpr (le_trans above below))] at outside
  split at outside
  next none =>
    rw [List.getLast?_eq_none_iff] at none
    exact nonempty (congrArg List.length none)
  next x last =>
    rw [List.getLast?_eq_getElem?] at last
    obtain ⟨e', there, entry⟩ := repr.entry_of_getElem? last
    rw [(entry_some entry).2] at outside
    have order : k ≤ ids.length - 1 := by
      rw [repr.length_eq]
      omega
    rw [if_neg (not_lt.mpr (le_trans above (scores_le sorted here there order)))] at outside
    split at outside
    next none =>
      rw [List.head?_eq_none_iff] at none
      exact nonempty (congrArg List.length none)
    next x' first =>
      rw [List.head?_eq_getElem?] at first
      obtain ⟨e'', there', entry'⟩ := repr.entry_of_getElem? first
      rw [(entry_some entry').2, Bool.not_eq_false', decide_eq_true_eq] at outside
      exact absurd (le_trans (scores_le sorted there' here (Nat.zero_le k)) below)
        (not_le.mpr outside)

/-- When `slIsInRange` says yes, the first score is not beyond the range. -/
theorem Repr.first_in_range (repr : Repr sl ids entries) {min max : Score}
    (inside : slIsInRange sl min max = true) :
    ∃ e, entries[0]? = some e ∧ scoreOf e ≤ max := by
  rw [slIsInRange, repr.ends.2] at inside
  split_ifs at inside
  split at inside
  next => cases inside
  next =>
    split_ifs at inside
    split at inside
    next => cases inside
    next x first =>
      rw [List.head?_eq_getElem?] at first
      obtain ⟨e, here, entry⟩ := repr.entry_of_getElem? first
      rw [(entry_some entry).2, Bool.not_eq_true', decide_eq_false_iff_not, not_lt] at inside
      exact ⟨e, here, inside⟩

/-- A bound on scores is a condition that lesser entries satisfy when greater ones do. -/
theorem below_down (sorted : entries.Pairwise (· < ·)) (p : Score → Bool)
    (down : ∀ s s', s ≤ s' → p s' = true → p s = true) :
    entries.Pairwise fun e e' => p (scoreOf e') = true → p (scoreOf e) = true :=
  (scores_sorted sorted).imp fun order => down _ _ order

/-- A search by scores cuts the entries where the condition fails. -/
theorem Repr.cut_scores (repr : Repr sl ids entries) (sorted : entries.Pairwise (· < ·))
    (p : Score → Bool) (down : ∀ s s', s ≤ s' → p s' = true → p s = true) :
    Lanes.Cut (fun _ a => p (sl.nodes a).score)
      (sl.header :: ids.take (entries.takeWhile fun e => p (scoreOf e)).length)
      (ids.drop (entries.takeWhile fun e => p (scoreOf e)).length) := by
  apply repr.cut (P := fun _ e => p (scoreOf e))
  · intro _ a e here
    rw [(entry_some here).2]
  · intro k e here
    exact Lanes.eq_decide_takeWhile (below_down sorted p down) here

/-- `_get_score_range`, with the lesser bound first: the entries with scores between the bounds. -/
theorem Repr.get_score_range_up (repr : Repr sl ids entries) (sorted : entries.Pairwise (· < ·))
    {s1 s2 : Score} (up : s1 ≤ s2) :
    get_score_range sl s1 s2 =
      (entries.filter fun e => decide (s1 ≤ scoreOf e ∧ scoreOf e ≤ s2)).map objOf := by
  rw [get_score_range, if_pos up, slFirstInRange]
  split_ifs with inside
  · have before : ∀ s s', s ≤ s' → decide (s' < s1) = true → decide (s < s1) = true :=
      fun s s' order less => decide_eq_true (lt_of_le_of_lt order (of_decide_eq_true less))
    have within : ∀ s s', s ≤ s' → (!decide (s' > s2)) = true → (!decide (s > s2)) = true := by
      intro s s' order less
      rw [Bool.not_eq_true', decide_eq_false_iff_not, not_lt] at less ⊢
      exact le_trans order less
    have cut := repr.cut_scores sorted (fun s => decide (s < s1)) before
    have enough : entries.length ≤
        (entries.takeWhile fun e => decide (scoreOf e < s1)).length + sl.length := by
      rw [repr.length, repr.length_eq]
      exact Nat.le_add_left _ _
    rw [repr.link_lowest ((repr.search_spec cut).2 0 repr.levels.1),
      repr.collect_forward _ (fun _ e => !decide (scoreOf e > s2))
        (fun _ a e here => by rw [(entry_some here).2]) _ _ _ enough,
      cutWhile_takeWhile, Lanes.drop_takeWhile,
      ← Lanes.filter_not_eq_dropWhile (below_down sorted (fun s => decide (s < s1)) before),
      ← Lanes.filter_eq_takeWhile ((below_down sorted (fun s => !decide (s > s2)) within).filter _),
      List.filter_filter]
    congr 2
    funext e
    rw [← decide_not, ← decide_not, ← Bool.decide_and]
    exact decide_eq_decide.mpr ⟨fun both => ⟨not_lt.mp both.2, not_lt.mp both.1⟩,
      fun both => ⟨not_lt.mpr both.2, not_lt.mpr both.1⟩⟩
  · rw [Bool.not_eq_true] at inside
    have none : (entries.filter fun e => decide (s1 ≤ scoreOf e ∧ scoreOf e ≤ s2)) = [] := by
      apply List.filter_eq_nil_iff.mpr
      intro e member
      rw [decide_eq_true_eq]
      exact repr.none_in_range sorted inside member
    rw [none]
    cases sl.length <;> rfl

/-- With the greater bound first they come in the other order. -/
theorem Repr.get_score_range_down (repr : Repr sl ids entries) (sorted : entries.Pairwise (· < ·))
    {s1 s2 : Score} (down : s2 < s1) :
    get_score_range sl s1 s2 =
      (entries.filter fun e => decide (s2 ≤ scoreOf e ∧ scoreOf e ≤ s1)).reverse.map objOf := by
  rw [get_score_range, if_neg (not_le.mpr down), slLastInRange]
  split_ifs with inside
  · have within : ∀ s s', s ≤ s' → decide (s' ≤ s1) = true → decide (s ≤ s1) = true :=
      fun s s' order less => decide_eq_true (le_trans order (of_decide_eq_true less))
    have cut := repr.cut_scores sorted (fun s => decide (s ≤ s1)) within
    have last := (repr.search_spec cut).2 0 repr.levels.1
    have fits : (entries.takeWhile fun e => decide (scoreOf e ≤ s1)).length ≤ entries.length :=
      (List.takeWhile_prefix _).length_le
    have rank := repr.lowest_stop last rfl (by rw [repr.length_eq]; exact fits)
    have some : (entries.takeWhile fun e => decide (scoreOf e ≤ s1)).length ≠ 0 := by
      obtain ⟨e, first, low⟩ := repr.first_in_range inside
      have holds := Lanes.eq_decide_takeWhile
        (below_down sorted (fun s => decide (s ≤ s1)) within) first
      rw [decide_eq_true low] at holds
      exact Nat.ne_of_gt (of_decide_eq_true holds.symm)
    have node := last.getElem?
    rw [rank] at node
    obtain ⟨m, more⟩ := Nat.exists_eq_succ_of_ne_zero some
    rw [more, List.getElem?_cons_succ, List.getElem?_take_of_lt (Nat.lt_succ_self m)] at node
    have enough : m + 1 ≤ sl.length := by
      rw [repr.length, repr.length_eq, ← Nat.succ_eq_add_one, ← more]
      exact fits
    have fits' : m + 1 ≤ entries.length := le_of_eq_of_le more.symm fits
    have loop := repr.collect_backward (fun _ a => !decide ((sl.nodes a).score < s2))
      (fun _ e => !decide (scoreOf e < s2)) (fun _ a e here => by rw [(entry_some here).2])
      sl.length 0 (m + 1) enough fits'
    rw [if_neg (Nat.succ_ne_zero m), Nat.add_sub_cancel, node, cutWhile_takeWhile] at loop
    have order : ∀ s s', s ≤ s' → (!decide (s < s2)) = true → (!decide (s' < s2)) = true := by
      intro s s' order less
      rw [Bool.not_eq_true', decide_eq_false_iff_not, not_lt] at less ⊢
      exact le_trans less order
    have reversed : (entries.filter fun e => decide (scoreOf e ≤ s1)).reverse.Pairwise fun e e' =>
        (!decide (scoreOf e' < s2)) = true → (!decide (scoreOf e < s2)) = true := by
      apply List.pairwise_reverse.mpr
      apply List.Pairwise.filter
      exact (scores_sorted sorted).imp fun less => order _ _ less
    have taken : entries.take (m + 1) = entries.filter fun e => decide (scoreOf e ≤ s1) := by
      rw [← Nat.succ_eq_add_one, ← more, Lanes.take_takeWhile, Lanes.filter_eq_takeWhile]
      exact below_down sorted (fun s => decide (s ≤ s1)) within
    rw [taken, ← Lanes.filter_eq_takeWhile reversed, List.filter_reverse, List.filter_filter] at loop
    rw [loop]
    congr 3
    funext e
    rw [← decide_not, ← Bool.decide_and]
    exact decide_eq_decide.mpr ⟨fun both => ⟨not_lt.mp both.1, both.2⟩,
      fun both => ⟨not_lt.mpr both.1, both.2⟩⟩
  · rw [Bool.not_eq_true] at inside
    have none : (entries.filter fun e => decide (s2 ≤ scoreOf e ∧ scoreOf e ≤ s1)) = [] := by
      apply List.filter_eq_nil_iff.mpr
      intro e member
      rw [decide_eq_true_eq]
      exact repr.none_in_range sorted inside member
    rw [none]
    cases sl.length <;> rfl

end

end Skiplist

end RillServer.Zset
