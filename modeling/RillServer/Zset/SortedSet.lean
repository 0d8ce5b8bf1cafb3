import Mathlib.Data.Int.Init
import RillServer.Zset.Ranks

/-!
# Sorted sets

`zset.lua`: a table of the members' scores and a skip list of the members, in the order of their
scores. `Ranking` is what it stands for, the members with their scores in order, each member once.
Whatever is done to a sorted set, and whatever levels its nodes are given, it holds the ranking that
comes of doing the same to a ranking (`SortedSet.after_holds_ranked`), and it answers as that does
(`SortedSet.ranks_after`, `SortedSet.ranges_after`, `SortedSet.scores_after`).
-/

namespace RillServer.Zset

/-- A sorted set: `tbl` and `sl`. -/
structure SortedSet (Score : Type) where
  tbl : Slobj → Option Score
  sl : Skiplist Score

/-- `_delete_by_rank` of `lua-skiplist.c`: the bounds are taken as `unsigned int`, and exchanged when
they come in the other order. -/
def delete_by_rank {Score : Type} (sl : Skiplist Score) (start stop : Int) :
    List Slobj × Skiplist Score :=
  let first := (start % 2 ^ 32).toNat
  let last := (stop % 2 ^ 32).toNat
  if first > last then slDeleteByRank sl last first else slDeleteByRank sl first last

namespace SortedSet

variable {Score : Type}

/-- `M.new`. -/
def new [Zero Score] : SortedSet Score := ⟨fun _ => none, slCreate⟩

/-- `mt:count`. -/
def count (z : SortedSet Score) : Int := z.sl.length

/-- `mt:_reverse_rank`. -/
def _reverse_rank (z : SortedSet Score) (r : Int) : Int := z.count - r + 1

/-- Delete a range of ranks, and how many there were; the callback takes the members out of the
table. -/
def deleteRange (z : SortedSet Score) (first last : Int) : Nat × SortedSet Score :=
  let deleted := delete_by_rank z.sl first last
  (deleted.1.length,
    ⟨deleted.1.foldl (fun tbl member => Function.update tbl member none) z.tbl, deleted.2⟩)

/-- `mt:limit`. -/
def limit (z : SortedSet Score) (count : Int) : Nat × SortedSet Score :=
  if z.count ≤ count then (0, z) else z.deleteRange (count + 1) z.count

/-- `mt:rev_limit`. -/
def rev_limit (z : SortedSet Score) (count : Int) : Nat × SortedSet Score :=
  if z.count ≤ count then (0, z)
  else z.deleteRange (z._reverse_rank (count + 1)) (z._reverse_rank z.count)

/-- `mt:score`. -/
def score (z : SortedSet Score) (member : Slobj) : Option Score := z.tbl member

/-- `mt:range`. The ranks are taken as `unsigned long`. -/
def range (z : SortedSet Score) (r1 r2 : Int) : List Slobj :=
  let r1 := if r1 < 1 then 1 else r1
  let r2 := if r2 < 1 then 1 else r2
  get_rank_range z.sl (r1 % 2 ^ 64).toNat (r2 % 2 ^ 64).toNat

/-- `mt:rev_range`. -/
def rev_range (z : SortedSet Score) (r1 r2 : Int) : List Slobj :=
  z.range (z._reverse_rank r1) (z._reverse_rank r2)

variable [LinearOrder Score]

/-- `mt:add`, with what `random()` returns for the level of the node. -/
def add (z : SortedSet Score) (score : Score) (member : Slobj) (draws : List Nat) : SortedSet Score :=
  let insert := fun sl : Skiplist Score =>
    (⟨Function.update z.tbl member (some score),
      slInsert sl score member (slRandomLevel draws)⟩ : SortedSet Score)
  match z.tbl member with
  | some old => if old = score then z else insert (slDelete z.sl old member).2
  | none => insert z.sl

/-- `mt:rem`. -/
def rem (z : SortedSet Score) (member : Slobj) : SortedSet Score :=
  match z.tbl member with
  | some score => ⟨Function.update z.tbl member none, (slDelete z.sl score member).2⟩
  | none => z

/-- `mt:rank`; `_get_rank` returns nothing for the rank `0`. -/
def rank (z : SortedSet Score) (member : Slobj) : Option Int :=
  match z.tbl member with
  | none => none
  | some score =>
      let rank := slGetRank z.sl score member
      if rank = 0 then none else some rank

/-- `mt:rev_rank`. -/
def rev_rank (z : SortedSet Score) (member : Slobj) : Option Int :=
  match z.rank member with
  | some r => some (z._reverse_rank r)
  | none => none

/-- `mt:range_by_score`. -/
def range_by_score (z : SortedSet Score) (s1 s2 : Score) : List Slobj := get_score_range z.sl s1 s2

end SortedSet

/-! ## What a sorted set stands for -/

/-- Members with their scores, in the order of the scores, each member once. -/
structure Ranking (Score : Type) [LinearOrder Score] where
  entries : List (Score ×ₗ Slobj)
  sorted : entries.Pairwise (· < ·)
  unique : (entries.map Skiplist.objOf).Nodup

namespace Ranking

open Skiplist

variable {Score : Type} [LinearOrder Score]

/-- No members. -/
def empty : Ranking Score := ⟨[], List.Pairwise.nil, List.nodup_nil⟩

/-- Some of the members. -/
def sub (r : Ranking Score) (l : List (Score ×ₗ Slobj)) (some : l.Sublist r.entries) :
    Ranking Score :=
  ⟨l, r.sorted.sublist some, r.unique.sublist (some.map _)⟩

/-- All but one member. -/
def without (r : Ranking Score) (member : Slobj) : Ranking Score :=
  r.sub (r.entries.filter fun e => objOf e ≠ member) List.filter_sublist

theorem mem_without {r : Ranking Score} {member : Slobj} {e : Score ×ₗ Slobj} :
    e ∈ (r.without member).entries ↔ e ∈ r.entries ∧ objOf e ≠ member := by
  rw [without, sub, List.mem_filter, decide_eq_true_eq]

theorem perm_orderedInsert (r : Ranking Score) (score : Score) (member : Slobj) :
    ((r.without member).entries.orderedInsert (· ≤ ·) (toLex (score, member))).Perm
      (toLex (score, member) :: (r.without member).entries) :=
  List.perm_orderedInsert _ _ _

/-- A member with a score, the one it had apart. -/
def put (r : Ranking Score) (score : Score) (member : Slobj) : Ranking Score where
  entries := (r.without member).entries.orderedInsert (· ≤ ·) (toLex (score, member))
  sorted := by
    have distinct : ((r.without member).entries.orderedInsert (· ≤ ·)
        (toLex (score, member))).Nodup := by
      rw [(r.perm_orderedInsert score member).nodup_iff, List.nodup_cons]
      constructor
      · intro inside
        exact (mem_without.mp inside).2 rfl
      · exact (r.without member).sorted.imp ne_of_lt
    have weak : (r.without member).entries.Pairwise (· ≤ ·) := (r.without member).sorted.imp le_of_lt
    apply List.Pairwise.imp₂ (fun _ _ => lt_of_le_of_ne) _ distinct
    exact weak.orderedInsert (toLex (score, member)) _
  unique := by
    rw [((r.perm_orderedInsert score member).map objOf).nodup_iff, List.map_cons, List.nodup_cons]
    constructor
    · intro inside
      obtain ⟨e, member', same⟩ := List.mem_map.mp inside
      exact (mem_without.mp member').2 same
    · exact (r.without member).unique

theorem mem_put {r : Ranking Score} {score : Score} {member : Slobj} {e : Score ×ₗ Slobj} :
    e ∈ (r.put score member).entries ↔
      e = toLex (score, member) ∨ e ∈ r.entries ∧ objOf e ≠ member := by
  rw [put, List.mem_orderedInsert, mem_without]

/-- An entry is known by its object. -/
theorem eq_of_objOf {r : Ranking Score} {e e' : Score ×ₗ Slobj} (member : e ∈ r.entries)
    (member' : e' ∈ r.entries) (same : objOf e = objOf e') : e = e' :=
  List.inj_on_of_nodup_map r.unique member member' same

/-- To take out an entry is to take out its member. -/
theorem erase_eq_without (r : Ranking Score) {score : Score} {member : Slobj}
    (inside : toLex (score, member) ∈ r.entries) :
    r.entries.erase (toLex (score, member)) = (r.without member).entries := by
  have distinct : r.entries.Nodup := r.sorted.imp ne_of_lt
  rw [distinct.erase_eq_filter]
  apply List.filter_congr
  intro e inside'
  rw [Bool.eq_iff_iff, bne_iff_ne, decide_eq_true_eq]
  constructor
  · intro other same
    exact other (eq_of_objOf inside' inside same)
  · intro other same
    exact other (congrArg objOf same)

/-- The ranking when the members after the first ones are taken out, all when there are to be less
than none; for a count under `-1` the bound wraps around, and only the last one is taken out. -/
def limit (r : Ranking Score) (count : Int) : Ranking Score :=
  if r.entries.length ≤ count then r
  else if -1 ≤ count then r.sub (r.entries.take count.toNat) (List.take_sublist _ _)
  else r.sub r.entries.dropLast (List.dropLast_sublist _)

/-- The ranking when the members in front of the last ones are taken out. -/
def rev_limit (r : Ranking Score) (count : Int) : Ranking Score :=
  if r.entries.length ≤ count then r
  else r.sub (r.entries.drop (r.entries.length - count).toNat) (List.drop_sublist _ _)

/-- The members of a range of ranks, of which none is less than one: in the order of the bounds, but
none when the first bound is the greater one and beyond the last member. -/
def range (r : Ranking Score) (r1 r2 : Int) : List Slobj :=
  let first := (max r1 1).toNat
  let last := (max r2 1).toNat
  if first ≤ last then ((r.entries.take last).drop (first - 1)).map objOf
  else if first ≤ r.entries.length then
    ((r.entries.take first).drop (last - 1)).reverse.map objOf
  else []

/-- The members of a range of ranks that are counted from the last member, of which none is more than
the number of members: in the order of the bounds, but none when the first bound is the smaller one and
in front of the last member. -/
def rev_range (r : Ranking Score) (r1 r2 : Int) : List Slobj :=
  let first := min r1 r.entries.length
  let last := min r2 r.entries.length
  if last ≤ first then
    ((r.entries.reverse.take first.toNat).drop (last.toNat - 1)).reverse.map objOf
  else if 1 ≤ first then ((r.entries.reverse.take last.toNat).drop (first.toNat - 1)).map objOf
  else []

end Ranking

/-- A sorted set holds a ranking: its skip list has the entries, its table the scores. -/
structure SortedSet.Holds {Score : Type} [LinearOrder Score] (z : SortedSet Score)
    (r : Ranking Score) : Prop where
  list : ∃ ids, Skiplist.Repr z.sl ids r.entries
  table : ∀ member score, z.tbl member = some score ↔ toLex (score, member) ∈ r.entries

/-- What can be done to a sorted set. -/
inductive Op (Score : Type) : Type where
  | add (score : Score) (member : Slobj) (draws : List Nat)
  | rem (member : Slobj)
  | limit (count : Int)
  | rev_limit (count : Int)

/-- The counts that keep their order as `unsigned int`. -/
def Op.Counted {Score : Type} : Op Score → Prop
  | .limit count | .rev_limit count => -2 ^ 31 ≤ count
  | _ => True

variable {Score : Type} [LinearOrder Score]

/-- One operation on a sorted set. -/
def SortedSet.step (z : SortedSet Score) : Op Score → SortedSet Score
  | .add score member draws => z.add score member draws
  | .rem member => z.rem member
  | .limit count => (z.limit count).2
  | .rev_limit count => (z.rev_limit count).2

/-- The same on a ranking. -/
def Ranking.step (r : Ranking Score) : Op Score → Ranking Score
  | .add score member _ => r.put score member
  | .rem member => r.without member
  | .limit count => r.limit count
  | .rev_limit count => r.rev_limit count

/-! ## Sorted sets hold rankings -/

namespace SortedSet

open Skiplist

theorem slRandomLevel_bounds (draws : List Nat) :
    0 < slRandomLevel draws ∧ slRandomLevel draws ≤ SKIPLIST_MAXLEVEL := by
  rw [slRandomLevel]
  split_ifs with less
  · exact ⟨Nat.add_pos_left Nat.one_pos _, Nat.le_of_lt less⟩
  · exact ⟨Nat.succ_pos _, Nat.le_refl _⟩

variable {z : SortedSet Score} {r : Ranking Score}

/-- A new sorted set is empty. -/
theorem holds_new [Zero Score] : Holds (new : SortedSet Score) Ranking.empty := by
  refine ⟨⟨[], ?_⟩, fun member score => iff_of_false (fun found => nomatch found) List.not_mem_nil⟩
  constructor
  case stored => rfl
  case nodup => exact List.nodup_singleton _
  case allocated =>
    intro a member
    obtain rfl := List.mem_singleton.mp member
    exact Nat.one_pos
  case levels => exact ⟨Nat.one_pos, Nat.succ_le_succ (Nat.zero_le 31)⟩
  case headerEntry => rfl
  case headerHeight => rfl
  case heights => exact fun a member => nomatch member
  case linked => exact ⟨fun i _ _ => rfl, True.intro⟩
  case above => exact fun i _ _ => rfl
  case length => rfl
  case backward => rfl

/-- A member that the table has no score of is not among the entries. -/
theorem Holds.without_eq (holds : Holds z r) {member : Slobj} (absent : z.tbl member = none) :
    (r.without member).entries = r.entries := by
  apply List.filter_eq_self.mpr
  intro e inside
  rw [decide_eq_true_eq]
  intro same
  subst same
  rw [(holds.table (objOf e) (scoreOf e)).mpr inside] at absent
  cases absent

/-- `add` puts the member where its score belongs. -/
theorem Holds.add (holds : Holds z r) (score : Score) (member : Slobj) (draws : List Nat) :
    Holds (z.add score member draws) (r.put score member) := by
  obtain ⟨ids, repr⟩ := holds.list
  have level := slRandomLevel_bounds draws
  have inserted : ∀ {sl : Skiplist Score}, (∃ ids, Repr sl ids (r.without member).entries) →
      Holds ⟨Function.update z.tbl member (some score),
        slInsert sl score member (slRandomLevel draws)⟩ (r.put score member) := by
    intro sl ⟨ids', repr'⟩
    refine ⟨⟨_, repr'.slInsert (r.without member).sorted score member level.1 level.2⟩, ?_⟩
    intro member' score'
    rw [Ranking.mem_put]
    simp only
    by_cases same : member' = member
    · subst same
      rw [Function.update_self, Option.some.injEq]
      constructor
      · intro equal
        rw [equal]
        exact .inl rfl
      · intro inside
        rcases inside with equal | ⟨-, other⟩
        · exact (congrArg scoreOf equal).symm
        · exact absurd rfl other
    · rw [Function.update_of_ne same, holds.table]
      constructor
      · exact fun inside => .inr ⟨inside, same⟩
      · intro inside
        rcases inside with equal | ⟨inside, -⟩
        · exact absurd (congrArg objOf equal) same
        · exact inside
  rw [SortedSet.add]
  split
  next old found =>
    have inside := (holds.table member old).mp found
    have deleted := (repr.slDelete r.sorted old member).2
    rw [r.erase_eq_without inside] at deleted
    split_ifs with same
    · subst same
      have unchanged : (r.put old member).entries = r.entries := by
        have perm := List.perm_cons_erase inside
        rw [r.erase_eq_without inside] at perm
        apply ((r.perm_orderedInsert old member).trans perm.symm).eq_of_pairwise
        · exact fun e e' _ _ (less : e < e') (more : e' < e) => absurd more (lt_asymm less)
        · exact (r.put old member).sorted
        · exact r.sorted
      constructor
      · rw [unchanged]
        exact holds.list
      · rw [unchanged]
        exact holds.table
    · exact inserted deleted
  next absent =>
    apply inserted
    rw [holds.without_eq absent]
    exact ⟨ids, repr⟩

/-- `rem` takes the member out, if it is there. -/
theorem Holds.rem (holds : Holds z r) (member : Slobj) :
    Holds (z.rem member) (r.without member) := by
  obtain ⟨ids, repr⟩ := holds.list
  rw [SortedSet.rem]
  split
  next old found =>
    have inside := (holds.table member old).mp found
    have deleted := (repr.slDelete r.sorted old member).2
    rw [r.erase_eq_without inside] at deleted
    refine ⟨deleted, fun member' score => ?_⟩
    rw [Ranking.mem_without]
    simp only
    by_cases same : member' = member
    · subst same
      rw [Function.update_self]
      constructor
      · exact fun found => nomatch found
      · exact fun both => absurd rfl both.2
    · rw [Function.update_of_ne same, holds.table]
      exact (and_iff_left same).symm
  next absent =>
    constructor
    · rw [holds.without_eq absent]
      exact ⟨ids, repr⟩
    · rw [holds.without_eq absent]
      exact holds.table

omit [LinearOrder Score] in
theorem foldl_update_none (l : List Slobj) (tbl : Slobj → Option Score) (member : Slobj) :
    l.foldl (fun tbl member => Function.update tbl member none) tbl member =
      if member ∈ l then none else tbl member := by
  induction l generalizing tbl with
  | nil => rw [List.foldl_nil, if_neg List.not_mem_nil]
  | cons first l ih =>
      rw [List.foldl_cons, ih]
      by_cases later : member ∈ l
      · rw [if_pos later, if_pos (List.mem_cons_of_mem _ later)]
      · rw [if_neg later]
        by_cases here : member = first
        · rw [here, Function.update_self, if_pos List.mem_cons_self]
        · rw [Function.update_of_ne here, if_neg]
          intro inside
          rcases List.mem_cons.mp inside with same | inside
          · exact here same
          · exact later inside

/-- What the table says after the callback has taken out the members of some of the entries. -/
theorem Holds.table_kept (holds : Holds z r) {kept gone : List (Score ×ₗ Slobj)}
    (parts : r.entries.Perm (kept ++ gone)) (member : Slobj) (score : Score) :
    (gone.map objOf).foldl (fun tbl member => Function.update tbl member none) z.tbl member =
      some score ↔ toLex (score, member) ∈ kept := by
  have distinct : (kept.map objOf ++ gone.map objOf).Nodup := by
    rw [← List.map_append, ← (parts.map objOf).nodup_iff]
    exact r.unique
  rw [foldl_update_none]
  split_ifs with out
  · constructor
    · exact fun found => nomatch found
    · intro inside
      exact absurd rfl ((List.nodup_append.mp distinct).2.2 _ (List.mem_map_of_mem inside) _ out)
  · rw [holds.table, parts.mem_iff, List.mem_append]
    constructor
    · intro inside
      rcases inside with inside | inside
      · exact inside
      · exact absurd (List.mem_map_of_mem inside) out
    · exact .inl

theorem Holds.count_eq (holds : Holds z r) : z.count = r.entries.length := by
  obtain ⟨ids, repr⟩ := holds.list
  rw [count, repr.length, repr.length_eq]

/-- A range of ranks taken out of a list. -/
theorem perm_range {β : Type} (l : List β) {first last : Nat} (range : first ≤ last) :
    l.Perm ((l.take first ++ l.drop last) ++ (l.take last).drop first) := by
  have front : l.take last = l.take first ++ (l.take last).drop first := by
    nth_rewrite 1 [← List.take_append_drop first (l.take last)]
    rw [List.take_take, Nat.min_eq_left range]
  have whole : l = (l.take first ++ (l.take last).drop first) ++ l.drop last := by
    rw [← front, List.take_append_drop]
  apply (List.Perm.of_eq whole).trans
  rw [List.append_assoc, List.append_assoc]
  exact List.perm_append_comm.append_left _

/-- The ranks from one to another are taken out, however the bounds come. -/
theorem Holds.deleteRange (holds : Holds z r) {start stop : Int} {first last : Nat}
    (range : first ≤ last)
    (call : delete_by_rank z.sl start stop = slDeleteByRank z.sl first last)
    (some : (r.entries.take (first - 1) ++ r.entries.drop last).Sublist r.entries) :
    Holds (z.deleteRange start stop).2 (r.sub _ some) ∧
      (z.deleteRange start stop).1 + (r.sub _ some).entries.length = r.entries.length := by
  obtain ⟨ids, repr⟩ := holds.list
  obtain ⟨gone, kept⟩ := repr.slDeleteByRank range
  have parts := perm_range r.entries (Nat.le_trans (Nat.sub_le first 1) range)
  constructor
  · constructor
    · rw [SortedSet.deleteRange, call]
      exact kept
    · rw [SortedSet.deleteRange, call]
      simp only
      rw [gone]
      exact holds.table_kept parts
  · rw [SortedSet.deleteRange, call]
    simp only
    rw [gone, List.length_map, parts.length_eq, List.length_append]
    exact Nat.add_comm _ _

/-- `limit`, and how many members it says it has taken out. -/
theorem Holds.limit (holds : Holds z r) {count : Int} (lower : -2 ^ 31 ≤ count)
    (size : r.entries.length < 2 ^ 31) :
    Holds (z.limit count).2 (r.limit count) ∧
      (z.limit count).1 + (r.limit count).entries.length = r.entries.length := by
  rw [SortedSet.limit, holds.count_eq, Ranking.limit]
  split_ifs with all few
  · exact ⟨holds, Nat.zero_add _⟩
  · have call : delete_by_rank z.sl (count + 1) r.entries.length =
        slDeleteByRank z.sl (count + 1).toNat r.entries.length := by
      have first : ((count + 1) % 2 ^ 32).toNat = (count + 1).toNat := by omega
      have last : ((r.entries.length : Int) % 2 ^ 32).toNat = r.entries.length := by omega
      rw [delete_by_rank, first, last, if_neg (by omega)]
    have kept : r.entries.take ((count + 1).toNat - 1) ++ r.entries.drop r.entries.length =
        r.entries.take count.toNat := by
      rw [List.drop_length, List.append_nil]
      congr 1
      omega
    have done := holds.deleteRange (by omega) call (by rw [kept]; exact List.take_sublist _ _)
    simp only [kept] at done
    exact done
  · have call : delete_by_rank z.sl (count + 1) r.entries.length =
        slDeleteByRank z.sl r.entries.length (count + 1 + 2 ^ 32).toNat := by
      have first : ((count + 1) % 2 ^ 32).toNat = (count + 1 + 2 ^ 32).toNat := by omega
      have last : ((r.entries.length : Int) % 2 ^ 32).toNat = r.entries.length := by omega
      rw [delete_by_rank, first, last, if_pos (by omega)]
    have kept : r.entries.take (r.entries.length - 1) ++
        r.entries.drop (count + 1 + 2 ^ 32).toNat = r.entries.dropLast := by
      rw [List.drop_eq_nil_of_le (by omega), List.append_nil, List.dropLast_eq_take]
    have done := holds.deleteRange (by omega) call (by rw [kept]; exact List.dropLast_sublist _)
    simp only [kept] at done
    exact done

/-- `rev_limit`, and how many members it says it has taken out. -/
theorem Holds.rev_limit (holds : Holds z r) {count : Int} (lower : -2 ^ 31 ≤ count)
    (size : r.entries.length < 2 ^ 31) :
    Holds (z.rev_limit count).2 (r.rev_limit count) ∧
      (z.rev_limit count).1 + (r.rev_limit count).entries.length = r.entries.length := by
  rw [SortedSet.rev_limit, _reverse_rank, _reverse_rank, holds.count_eq, Ranking.rev_limit]
  split_ifs with all
  · exact ⟨holds, Nat.zero_add _⟩
  · have call : delete_by_rank z.sl (r.entries.length - (count + 1) + 1)
        (r.entries.length - r.entries.length + 1) =
        slDeleteByRank z.sl 1 (r.entries.length - count).toNat := by
      have first : (((r.entries.length : Int) - (count + 1) + 1) % 2 ^ 32).toNat =
          (r.entries.length - count).toNat := by omega
      have last : (((r.entries.length : Int) - r.entries.length + 1) % 2 ^ 32).toNat = 1 := by omega
      rw [delete_by_rank, first, last]
      split_ifs with order
      · rfl
      · have one : ((r.entries.length : Int) - count).toNat = 1 := by omega
        rw [one]
    have kept : r.entries.take (1 - 1) ++ r.entries.drop (r.entries.length - count).toNat =
        r.entries.drop (r.entries.length - count).toNat := by
      rw [Nat.sub_self, List.take_zero, List.nil_append]
    have done := holds.deleteRange (by omega) call (by rw [kept]; exact List.drop_sublist _ _)
    simp only [kept] at done
    exact done

/-- An operation adds at most one member. -/
theorem length_step_le (r : Ranking Score) (op : Op Score) :
    (r.step op).entries.length ≤ r.entries.length + 1 := by
  cases op with
  | add score member draws =>
      have inserted := (r.perm_orderedInsert score member).length_eq
      rw [List.length_cons] at inserted
      have fewer : (r.without member).entries.length ≤ r.entries.length :=
        List.length_filter_le _ _
      exact le_of_eq_of_le inserted (Nat.succ_le_succ fewer)
  | rem member => exact Nat.le_succ_of_le (List.length_filter_le _ _)
  | limit count =>
      rw [Ranking.step, Ranking.limit]
      split_ifs
      · exact Nat.le_succ _
      · exact Nat.le_succ_of_le (List.take_sublist _ _).length_le
      · exact Nat.le_succ_of_le (List.dropLast_sublist _).length_le
  | rev_limit count =>
      rw [Ranking.step, Ranking.rev_limit]
      split_ifs
      · exact Nat.le_succ _
      · exact Nat.le_succ_of_le (List.drop_sublist _ _).length_le

/-- Whatever is done to a sorted set that holds a ranking, it holds what comes of doing the same to the
ranking. -/
theorem Holds.run (holds : Holds z r) (ops : List (Op Score))
    (counts : ∀ op ∈ ops, op.Counted) (few : r.entries.length + ops.length < 2 ^ 31) :
    Holds (ops.foldl step z) (ops.foldl Ranking.step r) := by
  induction ops generalizing z r with
  | nil => exact holds
  | cons op ops ih =>
      rw [List.forall_mem_cons] at counts
      rw [List.length_cons] at few
      have size : r.entries.length < 2 ^ 31 := by omega
      have next : Holds (z.step op) (r.step op) := by
        cases op with
        | add score member draws => exact holds.add score member draws
        | rem member => exact holds.rem member
        | limit count => exact (holds.limit counts.1 size).1
        | rev_limit count => exact (holds.rev_limit counts.1 size).1
      have longer := length_step_le r op
      exact ih next counts.2 (by omega)

/-! ## Queries -/

/-- `score` is that of the member's entry. -/
theorem Holds.score (holds : Holds z r) (member : Slobj) :
    z.score member = (r.entries.find? fun e => decide (objOf e = member)).map scoreOf := by
  rw [SortedSet.score]
  cases found : r.entries.find? fun e => decide (objOf e = member) with
  | none =>
      cases stored : z.tbl member with
      | none => rfl
      | some score =>
          have inside := (holds.table member score).mp stored
          have away := List.find?_eq_none.mp found _ inside
          exact absurd (decide_eq_true rfl) away
  | some e =>
      have same : objOf e = member :=
        of_decide_eq_true (List.find?_some (p := fun e => decide (objOf e = member)) found)
      subst same
      exact (holds.table (objOf e) (scoreOf e)).mpr (List.mem_of_find?_eq_some found)

/-- `rank` is the place of the member's entry, counted from one. -/
theorem Holds.rank (holds : Holds z r) (member : Slobj) :
    z.rank member =
      (r.entries.findIdx? fun e => decide (objOf e = member)).map fun k : Nat => (k : Int) + 1 := by
  obtain ⟨ids, repr⟩ := holds.list
  rw [SortedSet.rank]
  cases stored : z.tbl member with
  | none =>
      have none : (r.entries.findIdx? fun e => decide (objOf e = member)) = none := by
        apply List.findIdx?_eq_none_iff.mpr
        intro e inside
        apply decide_eq_false
        intro same
        subst same
        rw [(holds.table (objOf e) (scoreOf e)).mpr inside] at stored
        cases stored
      rw [none]
      rfl
  | some score =>
      have inside := (holds.table member score).mp stored
      cases found : r.entries.findIdx? fun e => decide (objOf e = member) with
      | none =>
          have away := List.findIdx?_eq_none_iff.mp found _ inside
          exact absurd rfl (of_decide_eq_false away)
      | some k =>
          obtain ⟨less, here, -⟩ := List.findIdx?_eq_some_iff_getElem.mp found
          have same : r.entries[k] = toLex (score, member) :=
            Ranking.eq_of_objOf (List.getElem_mem less) inside (of_decide_eq_true here)
          have place : r.entries[k]? = some (toLex (score, member)) := by
            rw [List.getElem?_eq_getElem less, same]
          have ranked := repr.slGetRank r.sorted r.unique place
          simp only
          rw [show slGetRank z.sl score member = k + 1 from ranked, if_neg (Nat.succ_ne_zero k)]
          rfl

/-- `rev_rank` counts the entries from the last one. -/
theorem Holds.rev_rank (holds : Holds z r) (member : Slobj) :
    z.rev_rank member = (r.entries.findIdx? fun e => decide (objOf e = member)).map
      fun k : Nat => (r.entries.length : Int) - k := by
  rw [SortedSet.rev_rank, holds.rank]
  cases r.entries.findIdx? fun e => decide (objOf e = member) with
  | none => rfl
  | some k =>
      rw [Option.map_some, Option.map_some]
      simp only [_reverse_rank, holds.count_eq]
      congr 1
      omega

/-- `range_by_score` gives the members between two scores, in the order of the bounds. -/
theorem Holds.range_by_score (holds : Holds z r) (s1 s2 : Score) :
    z.range_by_score s1 s2 =
      if s1 ≤ s2 then (r.entries.filter fun e => decide (s1 ≤ scoreOf e ∧ scoreOf e ≤ s2)).map objOf
      else (r.entries.filter fun e => decide (s2 ≤ scoreOf e ∧ scoreOf e ≤ s1)).reverse.map objOf := by
  obtain ⟨ids, repr⟩ := holds.list
  rw [SortedSet.range_by_score]
  split_ifs with up
  · exact repr.get_score_range_up r.sorted up
  · exact repr.get_score_range_down r.sorted (not_le.mp up)

/-- `range`, for ranks that differ by less than an `int` holds. -/
theorem Holds.range (holds : Holds z r) {r1 r2 : Int} (first : r1 < 2 ^ 31) (second : r2 < 2 ^ 31) :
    z.range r1 r2 = r.range r1 r2 := by
  obtain ⟨ids, repr⟩ := holds.list
  have clamp : ∀ {k : Int}, k < 2 ^ 31 →
      ((if k < 1 then 1 else k) % 2 ^ 64).toNat = (max k 1).toNat := by
    intro k small
    split_ifs <;> omega
  rw [SortedSet.range, clamp first, clamp second, Ranking.range]
  split_ifs with up inside
  · exact repr.get_rank_range_up (by omega) up (by omega)
  · rw [repr.get_rank_range_down (by omega) (Nat.not_le.mp up) (by omega), if_pos inside]
  · rw [repr.get_rank_range_down (by omega) (Nat.not_le.mp up) (by omega), if_neg inside]

omit [LinearOrder Score] in
/-- A slice of a list, counted from its end. -/
theorem slice_reverse {β : Type} (l : List β) (first last : Nat) (inside : first ≤ l.length)
    (up : first ≤ last) (below : last ≤ l.length) :
    (l.reverse.take last).drop (first - 1) =
      ((l.take (l.length - (first - 1))).drop (l.length - last)).reverse := by
  rw [List.drop_take, List.drop_reverse, List.take_reverse, List.length_take,
    Nat.min_eq_left (by omega)]
  congr 2
  omega

/-- `rev_range` gives a range of ranks counted from the last one, for ranks that differ by less than an
`int` holds. -/
theorem Holds.rev_range (holds : Holds z r) {r1 r2 : Int}
    (first : r.entries.length - r1 + 1 < 2 ^ 31) (second : r.entries.length - r2 + 1 < 2 ^ 31) :
    z.rev_range r1 r2 = r.rev_range r1 r2 := by
  rw [SortedSet.rev_range, _reverse_rank, _reverse_rank, holds.count_eq, holds.range first second,
    Ranking.range, Ranking.rev_range]
  generalize whole : r.entries.length = n
  by_cases down : min r2 (n : Int) ≤ min r1 n
  · rw [if_pos (by omega), if_pos down]
    congr 1
    by_cases inside : 1 ≤ min r1 (n : Int)
    · have slice := slice_reverse r.entries (max (min r2 (n : Int)).toNat 1)
        (min r1 (n : Int)).toNat (by omega) (by omega) (by omega)
      have start : max (min r2 (n : Int)).toNat 1 - 1 = (min r2 (n : Int)).toNat - 1 := by omega
      have front : (max ((n : Int) - r1 + 1) 1).toNat - 1 = n - (min r1 (n : Int)).toNat := by omega
      rw [start, whole] at slice
      rw [slice, List.reverse_reverse, front]
      congr 1
      apply List.take_eq_take_iff.mpr
      rw [whole]
      omega
    · have none : (min r1 (n : Int)).toNat = 0 := by omega
      rw [none, List.take_zero, List.drop_nil, List.reverse_nil, List.drop_eq_nil_of_le]
      rw [List.length_take]
      omega
  · rw [if_neg (by omega), if_neg down]
    by_cases inside : 1 ≤ min r1 (n : Int)
    · have slice := slice_reverse r.entries (min r1 (n : Int)).toNat
        (min r2 (n : Int)).toNat (by omega) (by omega) (by omega)
      have front : (max ((n : Int) - r1 + 1) 1).toNat = n - ((min r1 (n : Int)).toNat - 1) := by omega
      have back : (max ((n : Int) - r2 + 1) 1).toNat - 1 = n - (min r2 (n : Int)).toNat := by omega
      rw [if_pos (by omega), if_pos inside, slice, whole, front, back]
    · rw [if_neg (by omega), if_neg inside]

/-! ## After any run -/

/-- The ranking after a list of operations on an empty one. -/
def ranked (ops : List (Op Score)) : Ranking Score := ops.foldl Ranking.step Ranking.empty

theorem length_ranked_le (ops : List (Op Score)) : (ranked ops).entries.length ≤ ops.length := by
  have grows : ∀ (ops : List (Op Score)) (r : Ranking Score),
      (ops.foldl Ranking.step r).entries.length ≤ r.entries.length + ops.length := by
    intro ops
    induction ops with
    | nil => exact fun r => Nat.le_refl _
    | cons op ops ih =>
        intro r
        have later := ih (r.step op)
        have here := length_step_le r op
        rw [List.foldl_cons, List.length_cons]
        omega
  have whole := grows ops Ranking.empty
  rwa [Ranking.empty, List.length_nil, Nat.zero_add] at whole

/-- The sorted set after a list of operations on a new one. -/
def after [Zero Score] (ops : List (Op Score)) : SortedSet Score := ops.foldl step new

theorem holds_after [Zero Score] {ops : List (Op Score)} (counts : ∀ op ∈ ops, op.Counted)
    (few : ops.length < 2 ^ 31) : Holds (after ops) (ranked ops) :=
  holds_new.run ops counts (by rw [Ranking.empty, List.length_nil]; omega)

/-- Three members, of which the last one is taken out again. -/
def sampleOps : List (Op Int) :=
  [.add 5 ⟨[97], by decide⟩ [0], .add 3 ⟨[98, 0], by decide⟩ [], .add 7 ⟨[98], by decide⟩ [70000],
    .limit 2]

theorem sampleOps_counted : ∀ op ∈ sampleOps, op.Counted := by
  simp [sampleOps, Op.Counted]

variable [Zero Score]

/-- Whatever is done to a sorted set, and whatever `random()` returns, its skip list holds the members
in the order of their scores, linked in all lanes with the right spans, and its table their scores;
`limit` and `rev_limit` return the number of members that they take out. -/
theorem after_holds_ranked (ops : List (Op Score)) (counts : ∀ op ∈ ops, op.Counted)
    (few : ops.length < 2 ^ 31) :
    Holds (after ops) (ranked ops) ∧
      ∀ count : Int, -2 ^ 31 ≤ count →
        ((after ops).limit count).1 + ((ranked ops).limit count).entries.length =
            (ranked ops).entries.length ∧
          ((after ops).rev_limit count).1 + ((ranked ops).rev_limit count).entries.length =
            (ranked ops).entries.length := by
  have holds : Holds (after ops) (ranked ops) := holds_after counts few
  have size := Nat.lt_of_le_of_lt (length_ranked_le ops) few
  refine ⟨holds, fun count lower => ?_⟩
  exact ⟨(holds.limit lower size).2, (holds.rev_limit lower size).2⟩

theorem after_holds_ranked_sample :
    Holds (after sampleOps) (ranked sampleOps) ∧
      (ranked sampleOps).entries.map scoreOf = [3, 5] ∧ ((after sampleOps).limit 1).1 = 1 := by
  have both := after_holds_ranked sampleOps sampleOps_counted (by decide)
  exact ⟨both.1, by decide, Nat.add_right_cancel (both.2 1 (by decide)).1⟩

/-- Whatever was done before, the score and the two ranks of a member are those in the ranking. -/
theorem ranks_after (ops : List (Op Score)) (counts : ∀ op ∈ ops, op.Counted)
    (few : ops.length < 2 ^ 31) (member : Slobj) :
    (after ops).score member =
        ((ranked ops).entries.find? fun e => decide (objOf e = member)).map scoreOf ∧
      (after ops).rank member = ((ranked ops).entries.findIdx? fun e =>
        decide (objOf e = member)).map (fun k : Nat => (k : Int) + 1) ∧
      (after ops).rev_rank member = ((ranked ops).entries.findIdx? fun e =>
        decide (objOf e = member)).map fun k : Nat => ((ranked ops).entries.length : Int) - k := by
  have holds : Holds (after ops) (ranked ops) := holds_after counts few
  exact ⟨holds.score member, holds.rank member, holds.rev_rank member⟩

theorem ranks_after_sample : (after sampleOps).rank ⟨[97], by decide⟩ = some 2 :=
  (ranks_after sampleOps sampleOps_counted (by decide) _).2.1.trans (by decide)

/-- Whatever was done before, a range of ranks is a slice of the ranking in the order of its bounds,
counted from the first member or from the last one. -/
theorem ranges_after (ops : List (Op Score)) (counts : ∀ op ∈ ops, op.Counted)
    (few : ops.length < 2 ^ 31) (r1 r2 : Int) :
    (r1 < 2 ^ 31 → r2 < 2 ^ 31 → (after ops).range r1 r2 = (ranked ops).range r1 r2) ∧
      ((ranked ops).entries.length - r1 + 1 < 2 ^ 31 → (ranked ops).entries.length - r2 + 1 < 2 ^ 31 →
        (after ops).rev_range r1 r2 = (ranked ops).rev_range r1 r2) := by
  have holds : Holds (after ops) (ranked ops) := holds_after counts few
  constructor
  · intro first second
    exact holds.range first second
  · intro first second
    exact holds.rev_range first second

theorem ranges_after_sample :
    (after sampleOps).range 2 1 = [⟨[97], by decide⟩, ⟨[98, 0], by decide⟩] ∧
      (after sampleOps).rev_range 7 1 = [⟨[98, 0], by decide⟩, ⟨[97], by decide⟩] := by
  constructor
  · have up := (ranges_after sampleOps sampleOps_counted (by decide) 2 1).1 (by decide) (by decide)
    exact up.trans (by decide)
  · have down := (ranges_after sampleOps sampleOps_counted (by decide) 7 1).2 (by decide) (by decide)
    exact down.trans (by decide)

/-- Whatever was done before, a range of scores is the members with scores between its bounds, in the
order of these. -/
theorem scores_after (ops : List (Op Score)) (counts : ∀ op ∈ ops, op.Counted)
    (few : ops.length < 2 ^ 31) (s1 s2 : Score) :
    (after ops).range_by_score s1 s2 =
      if s1 ≤ s2 then
        ((ranked ops).entries.filter fun e => decide (s1 ≤ scoreOf e ∧ scoreOf e ≤ s2)).map objOf
      else ((ranked ops).entries.filter fun e =>
        decide (s2 ≤ scoreOf e ∧ scoreOf e ≤ s1)).reverse.map objOf := by
  have holds : Holds (after ops) (ranked ops) := holds_after counts few
  exact holds.range_by_score s1 s2

theorem scores_after_sample : (after sampleOps).range_by_score 9 4 = [⟨[97], by decide⟩] :=
  (scores_after sampleOps sampleOps_counted (by decide) 9 4).trans (by decide)

end SortedSet

end RillServer.Zset
