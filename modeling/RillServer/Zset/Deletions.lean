import RillServer.Zset.Entries

/-!
# Deletion from a skip list

`slDelete` and `slDeleteByRank` unlink nodes where their searches have stopped, and free them. Levels
that no node has any more are given up. `Skiplist.Repr.slDelete` and `Skiplist.Repr.slDeleteByRank`
say which entries are left.
-/

namespace RillServer.Zset

namespace Skiplist

variable {Score : Type} {sl : Skiplist Score} {ids : List Nat} {entries : List (Score ×ₗ Slobj)}

section

variable {x : Nat} {update : Nat → Nat}

theorem lowered_spec (link : Nat → Option Nat × Nat) {level : Nat} (positive : 0 < level) :
    0 < lowered link level ∧ lowered link level ≤ level ∧
      ∀ i, lowered link level ≤ i → i < level → (link i).1 = none := by
  induction level with
  | zero => exact absurd positive (Nat.lt_irrefl 0)
  | succ level ih =>
      rw [lowered]
      split_ifs with empty
      · obtain ⟨least, less, none⟩ := ih empty.1
        refine ⟨least, Nat.le_succ_of_le less, fun i above below => ?_⟩
        rcases Nat.lt_or_eq_of_le (Nat.le_of_lt_succ below) with lower | rfl
        · exact none i above lower
        · exact empty.2
      · exact ⟨Nat.succ_pos _, Nat.le_refl _, fun i above below => by omega⟩

/-- A node unlinked, and its memory given back. -/
def deleted (sl : Skiplist Score) (x : Nat) (update : Nat → Nat) : Skiplist Score :=
  slFreeNode (slDeleteNode sl x update) x

theorem link_deleted {a : Nat} (other : a ≠ x) (j : Nat) :
    (deleted sl x update).link a j = (unlinkLevels x update sl).link a j := by
  have frame := (setNextBackward_frame (unlinkLevels x update sl) x
    ((unlinkLevels x update sl).nodes x).backward).1
  rw [← frame]
  simp only [link, deleted, slFreeNode, Function.update_of_ne other, slDeleteNode]

theorem height_deleted {a : Nat} (other : a ≠ x) :
    (deleted sl x update).height a = sl.height a := by
  have frame := (setNextBackward_frame (unlinkLevels x update sl) x
    ((unlinkLevels x update sl).nodes x).backward).2.2.1
  have same : (unlinkLevels x update sl).height a = sl.height a :=
    (sameNodes_unlinkLevels x update sl).height a
  rw [← same, ← frame]
  simp only [height, deleted, slFreeNode, Function.update_of_ne other, slDeleteNode]

theorem entry_deleted {a : Nat} (other : a ≠ x) :
    (deleted sl x update).entry a = sl.entry a := by
  have frame := (setNextBackward_frame (unlinkLevels x update sl) x
    ((unlinkLevels x update sl).nodes x).backward).2.1
  rw [← (sameNodes_unlinkLevels x update sl).entry_eq, ← frame]
  simp only [entry, deleted, slFreeNode, Function.update_of_ne other, slDeleteNode]

/-- The links of the node itself stay until it is freed. -/
theorem link_unlinkLevels_self {j : Nat} (outside : j < sl.level → update j ≠ x) :
    (unlinkLevels x update sl).link x j = sl.link x j := by
  rw [link_unlinkLevels, if_neg]
  intro both
  exact outside both.1 both.2.symm

theorem backward_deleted (outside : 0 < sl.level → update 0 ≠ x) {a : Nat} (other : a ≠ x) :
    ((deleted sl x update).nodes a).backward =
      if (sl.link x 0).1 = some a then (sl.nodes x).backward else (sl.nodes a).backward := by
  have same := (sameNodes_unlinkLevels x update sl).backward
  have next := backward_setNextBackward (unlinkLevels x update sl) x
    ((unlinkLevels x update sl).nodes x).backward a
  rw [link_unlinkLevels_self outside, same, same] at next
  rw [← next]
  simp only [deleted, slFreeNode, Function.update_of_ne other, slDeleteNode, same]

theorem tail_deleted (outside : 0 < sl.level → update 0 ≠ x) :
    (deleted sl x update).tail =
      if (sl.link x 0).1 = none then (sl.nodes x).backward else sl.tail := by
  have same := sameNodes_unlinkLevels x update sl
  have next := tail_setNextBackward (unlinkLevels x update sl) x
    ((unlinkLevels x update sl).nodes x).backward
  rw [link_unlinkLevels_self outside, same.backward, same.tail] at next
  rw [← next]
  simp only [deleted, slFreeNode, slDeleteNode, same.backward]

theorem fields_deleted (sl : Skiplist Score) (x : Nat) (update : Nat → Nat) :
    (deleted sl x update).fresh = sl.fresh ∧ (deleted sl x update).header = sl.header ∧
      (deleted sl x update).length = sl.length - 1 ∧
      (deleted sl x update).level =
        lowered ((unlinkLevels x update sl).link sl.header) sl.level := by
  have frame := setNextBackward_frame (unlinkLevels x update sl) x
    ((unlinkLevels x update sl).nodes x).backward
  have same := sameNodes_unlinkLevels x update sl
  have fields := frame.2.2.2
  refine ⟨fields.1.trans same.fresh, fields.2.1.trans same.header,
    congrArg (· - 1) (fields.2.2.1.trans same.length), ?_⟩
  simp only [deleted, slFreeNode, slDeleteNode]
  rw [frame.1, fields.2.1, fields.2.2.2, same.header, same.level]

end

/-- A node and what is in front of it and after it. -/
theorem take_cons_drop {β : Type} {l : List β} {n : Nat} {b : β} (here : l[n]? = some b) :
    l = l.take n ++ b :: l.drop (n + 1) := by
  obtain ⟨inside, same⟩ := List.getElem?_eq_some_iff.mp here
  rw [← same, ← List.drop_eq_getElem_cons inside, List.take_append_drop]

/-- In the lowest level a node is linked to the next one. -/
theorem Repr.link_node (repr : Repr sl ids entries) {n x : Nat} (here : ids[n]? = some x) :
    (sl.link x 0).1 = ids[n + 1]? := by
  have whole := repr.linked
  have chain : sl.header :: ids = (sl.header :: ids.take n) ++ x :: ids.drop (n + 1) := by
    rw [List.cons_append, ← take_cons_drop here]
  rw [chain] at whole
  rw [whole.link_eq repr.levels.1 (repr.heights x (List.mem_of_getElem? here)).1, Lanes.ahead_zero,
    List.head?_drop]
  exact fun b member => (repr.heights b (List.mem_of_mem_drop member)).1

/-- Deletion of the node after the first `n`, the stops being those of a search that passes these. They
are so still afterwards. -/
theorem Repr.deleted (repr : Repr sl ids entries) {n x : Nat} {stops : Nat → Nat × Nat}
    (here : ids[n]? = some x) (stop : StopsAt sl ids n sl.level stops) :
    Repr (Skiplist.deleted sl x fun i => (stops i).1) (ids.take n ++ ids.drop (n + 1))
        (entries.take n ++ entries.drop (n + 1)) ∧
      StopsAt (Skiplist.deleted sl x fun i => (stops i).1) (ids.take n ++ ids.drop (n + 1)) n
        (Skiplist.deleted sl x fun i => (stops i).1).level stops := by
  have parts := take_cons_drop here
  have chain : sl.header :: ids = (sl.header :: ids.take n) ++ x :: ids.drop (n + 1) := by
    rw [List.cons_append, ← parts]
  have nodup := repr.nodup
  rw [chain] at nodup
  have apart := List.nodup_cons.mp (List.nodup_middle.mp nodup)
  have old : ∀ a ∈ sl.header :: (ids.take n ++ ids.drop (n + 1)), a ≠ x :=
    fun a member same => apart.1 (same ▸ member)
  have outside : ∀ i, i < sl.level → (stops i).1 ≠ x := by
    intro i below
    apply old
    exact List.mem_append_left _ (stop i below).mem
  have members : ∀ a ∈ ids.take n ++ ids.drop (n + 1), a ∈ ids := by
    intro a member
    rw [parts]
    rcases List.mem_append.mp member with front | rest
    · exact List.mem_append_left _ front
    · exact List.mem_append_right _ (List.mem_cons_of_mem _ rest)
  have fields := fields_deleted sl x fun i => (stops i).1
  have linked : Lanes.Linked sl.height (unlinkLevels x (fun i => (stops i).1) sl).link sl.level
      (sl.header :: (ids.take n ++ ids.drop (n + 1))) := by
    have whole := repr.linked
    rw [chain] at whole
    apply whole.remove nodup stop
    · intro a member i below other
      rw [link_unlinkLevels, if_neg fun both => other both.2]
    · intro i below reaches
      rw [link_unlinkLevels, if_pos ⟨below, rfl⟩, if_pos reaches]
    · intro i below away
      rw [link_unlinkLevels, if_pos ⟨below, rfl⟩, if_neg away]
  obtain ⟨positive, less, empty⟩ := lowered_spec
    ((unlinkLevels x (fun i => (stops i).1) sl).link sl.header) repr.levels.1
  rw [← fields.2.2.2] at positive less empty
  have low : ∀ a ∈ ids.take n ++ ids.drop (n + 1),
      sl.height a ≤ (Skiplist.deleted sl x fun i => (stops i).1).level := by
    rcases Nat.lt_or_eq_of_le less with lower | same
    · have high : (Skiplist.deleted sl x fun i => (stops i).1).level < sl.height sl.header := by
        rw [repr.headerHeight]
        exact Nat.lt_of_lt_of_le lower repr.levels.2
      apply Lanes.low_of_ahead
      rw [← linked.1 _ lower high]
      exact empty _ (Nat.le_refl _) lower
    · intro a member
      rw [same]
      exact (repr.heights a (members a member)).2
  have inside : n ≤ ids.length := Nat.le_of_lt (List.getElem?_eq_some_iff.mp here).1
  have taken : (ids.take n ++ ids.drop (n + 1)).take n = ids.take n :=
    List.take_left' (List.length_take_of_le inside)
  refine ⟨?_, ?_⟩
  · constructor
    case stored =>
      have same : (ids.take n ++ ids.drop (n + 1)).map (Skiplist.deleted sl x
          fun i => (stops i).1).entry = (ids.take n ++ ids.drop (n + 1)).map sl.entry := by
        apply List.map_congr_left
        intro a member
        exact entry_deleted (old a (List.mem_cons_of_mem _ member))
      rw [same, List.map_append, List.map_take, List.map_drop, repr.stored, List.map_append,
        List.map_take, List.map_drop]
    case nodup =>
      rw [fields.2.1]
      exact apart.2
    case allocated =>
      intro a member
      rw [fields.2.1] at member
      rw [fields.1]
      apply repr.allocated
      rcases List.mem_cons.mp member with rfl | member
      · exact List.mem_cons_self
      · exact List.mem_cons_of_mem _ (members a member)
    case levels => exact ⟨positive, Nat.le_trans less repr.levels.2⟩
    case headerEntry =>
      rw [fields.2.1, entry_deleted (old _ List.mem_cons_self), repr.headerEntry]
    case headerHeight =>
      rw [fields.2.1, height_deleted (old _ List.mem_cons_self), repr.headerHeight]
    case heights =>
      intro a member
      rw [height_deleted (old a (List.mem_cons_of_mem _ member))]
      exact ⟨(repr.heights a (members a member)).1, low a member⟩
    case linked =>
      rw [fields.2.1]
      apply (linked.mono less).congr
      · intro a member
        exact height_deleted (old a member)
      · intro a member i _ _
        exact link_deleted (old a member) i
    case above =>
      intro i above below
      rw [fields.2.1, link_deleted (old _ List.mem_cons_self)]
      by_cases known : i < sl.level
      · exact empty i above known
      · rw [link_unlinkLevels, if_neg fun both => known both.1]
        exact repr.above i (Nat.not_lt.mp known) below
    case length =>
      have whole := congrArg List.length parts
      rw [List.length_append, List.length_cons] at whole
      rw [fields.2.2.1, repr.length, List.length_append]
      omega
    case backward =>
      have was := repr.backward
      rw [parts] at was
      have idsNodup := (List.nodup_cons.mp repr.nodup).2
      rw [parts] at idsNodup
      have after : (sl.link x 0).1 = (ids.drop (n + 1)).head? := by
        rw [repr.link_node here, List.head?_drop]
      have other : ∀ a ∈ ids.take n ++ ids.drop (n + 1), a ≠ x :=
        fun a member => old a (List.mem_cons_of_mem _ member)
      apply was.remove idsNodup
      · intro a found
        have member := List.mem_append_right (ids.take n) (List.mem_of_head? found)
        rw [backward_deleted (outside 0) (other a member), after, if_pos found]
      · intro a member away
        rw [backward_deleted (outside 0) (other a member), after, if_neg away]
      · rw [tail_deleted (outside 0), after]
  · intro i below
    rw [fields.2.1, taken]
    apply (stop i (Nat.lt_of_lt_of_le below less)).congr
    intro a member
    exact height_deleted (old a (List.mem_append_left _ member))

/-- What comes after the lowest stop of a search that passes the first `n` nodes. -/
theorem Repr.link_lowest (repr : Repr sl ids entries) {n : Nat} {stop : Nat × Nat} {mid : List Nat}
    (last : Lanes.LastIn sl.height 0 (sl.header :: ids.take n) stop mid) :
    (sl.link stop.1 0).1 = ids[n]? := by
  have whole := repr.linked
  rw [← cons_take_append_drop sl.header n ids] at whole
  rw [whole.link_stop repr.levels.1 last, Lanes.ahead_zero, List.head?_drop]
  exact fun b member => (repr.heights b (List.mem_of_mem_drop member)).1

/-- The entry of a node is its object with its score. -/
theorem entry_some {a : Nat} {e : Score ×ₗ Slobj} (here : sl.entry a = some e) :
    (sl.nodes a).obj = some (objOf e) ∧ (sl.nodes a).score = scoreOf e := by
  rw [entry, Option.map_eq_some_iff] at here
  obtain ⟨o, object, rfl⟩ := here
  exact ⟨object, rfl⟩

/-! ## Deletion by rank -/

/-- A search that passes what is in front of a rank. -/
theorem cut_rank (sl : Skiplist Score) (ids : List Nat) (n : Nat) (go : Nat → Nat → Bool)
    (by_rank : ∀ k a, go (k + 1) a = decide (k < n)) :
    Lanes.Cut go (sl.header :: ids.take n) (ids.drop n) := by
  constructor
  · intro k a later place
    obtain ⟨k, rfl⟩ : ∃ k', k = k' + 1 := ⟨k - 1, by omega⟩
    have inside := (List.getElem?_eq_some_iff.mp place).1
    rw [List.length_cons, List.length_take] at inside
    rw [by_rank, decide_eq_true (by omega)]
  · intro k a place
    have more := (List.getElem?_eq_some_iff.mp place).1
    rw [List.length_drop] at more
    have position : (sl.header :: ids.take n).length + k = (n + k) + 1 := by
      rw [List.length_cons, List.length_take]
      omega
    rw [position, by_rank, decide_eq_false (by omega)]

/-- The loop of `slDeleteByRank`, which deletes at the same place again and again. -/
theorem Repr.deleteWhile (repr : Repr sl ids entries) (last : Nat) {n : Nat} {stops : Nat → Nat × Nat}
    (stop : StopsAt sl ids n sl.level stops) (fuel traversed : Nat)
    (enough : (ids.drop n).length ≤ fuel) :
    (Zset.deleteWhile (fun i => (stops i).1) last fuel traversed ids[n]? sl).1 =
        ((entries.drop n).take (last + 1 - traversed)).map objOf ∧
      ∃ ids', Repr (Zset.deleteWhile (fun i => (stops i).1) last fuel traversed ids[n]? sl).2 ids'
        (entries.take n ++ (entries.drop n).drop (last + 1 - traversed)) := by
  induction fuel generalizing sl ids entries traversed with
  | zero =>
      have none : entries.drop n = [] := by
        apply List.eq_nil_of_length_eq_zero
        rw [List.length_drop, ← repr.length_eq, ← List.length_drop]
        exact Nat.le_zero.mp enough
      rw [none, List.take_nil, List.drop_nil, Zset.deleteWhile]
      refine ⟨rfl, ids, ?_⟩
      rw [← none, List.take_append_drop]
      exact repr
  | succ fuel ih =>
      cases here : ids[n]? with
      | none =>
          have none : entries.drop n = [] := by
            rw [List.getElem?_eq_none_iff, repr.length_eq] at here
            exact List.drop_eq_nil_of_le here
          rw [none, List.take_nil, List.drop_nil]
          refine ⟨rfl, ids, ?_⟩
          rw [← none, List.take_append_drop]
          exact repr
      | some x =>
          simp only [Zset.deleteWhile]
          split_ifs with within
          · obtain ⟨less, stop'⟩ := repr.deleted here stop
            have inside := (List.getElem?_eq_some_iff.mp here).1
            obtain ⟨e, hereE, entry⟩ := repr.entry_of_getElem? here
            have insideE := (List.getElem?_eq_some_iff.mp hereE).1
            have again := ih less stop' (traversed + 1) (by
              rw [List.length_drop] at enough
              rw [List.drop_left' (List.length_take_of_le (Nat.le_of_lt inside)), List.length_drop]
              omega)
            have next : (sl.link x 0).1 = (ids.take n ++ ids.drop (n + 1))[n]? := by
              have taken := List.length_take_of_le (Nat.le_of_lt inside)
              rw [repr.link_node here, List.getElem?_append_right (Nat.le_of_eq taken), taken,
                Nat.sub_self, List.getElem?_drop, Nat.add_zero]
            have rest : entries.drop n = e :: entries.drop (n + 1) := by
              rw [← (List.getElem?_eq_some_iff.mp hereE).2]
              exact List.drop_eq_getElem_cons insideE
            have left : last + 1 - traversed = (last + 1 - (traversed + 1)) + 1 := by omega
            rw [List.take_left' (List.length_take_of_le (Nat.le_of_lt insideE)),
              List.drop_left' (List.length_take_of_le (Nat.le_of_lt insideE)), ← next] at again
            rw [rest, left, List.take_succ_cons, List.drop_succ_cons, List.map_cons]
            refine ⟨?_, again.2⟩
            rw [(entry_some entry).1, Option.toList_some, List.singleton_append]
            exact congrArg _ again.1
          · have past : last + 1 - traversed = 0 := by omega
            rw [past, List.take_zero, List.drop_zero, List.take_append_drop]
            exact ⟨rfl, ids, repr⟩

/-- `slDeleteByRank` takes out the entries of a range of ranks and calls back with their objects, in
order. -/
theorem Repr.slDeleteByRank (repr : Repr sl ids entries) {first last : Nat} (range : first ≤ last) :
    (Zset.slDeleteByRank sl first last).1 =
        ((entries.take last).drop (first - 1)).map objOf ∧
      ∃ ids', Repr (Zset.slDeleteByRank sl first last).2 ids'
        (entries.take (first - 1) ++ entries.drop last) := by
  have cut := cut_rank sl ids (first - 1) (fun rank _ => decide (rank < first))
    fun k _ => decide_eq_decide.mpr (by omega)
  have spec := repr.search_spec cut
  have lowest := spec.2 0 repr.levels.1
  have traversed := (lowest.last fun b member => by
    rw [List.drop_succ_cons] at member
    exact (repr.heights b (List.mem_of_mem_take (List.mem_of_mem_drop member))).1).2
  rw [List.length_cons, List.length_take, repr.length_eq] at traversed
  have enough : (ids.drop (first - 1)).length ≤ sl.length := by
    rw [repr.length, List.length_drop]
    exact Nat.sub_le _ _
  have loop := repr.deleteWhile last spec.2 sl.length
    (((sl.search fun rank _ => decide (rank < first)).getD 0 (sl.header, 0)).2 + 1) enough
  have left : last + 1 - (((sl.search fun rank _ => decide (rank < first)).getD 0
      (sl.header, 0)).2 + 1) = last - min (first - 1) entries.length := by omega
  rw [← repr.link_lowest lowest, left] at loop
  rcases Nat.le_total (first - 1) entries.length with inside | beyond
  · rw [Nat.min_eq_left inside, ← List.drop_take, List.drop_drop,
      Nat.add_sub_cancel' (by omega)] at loop
    exact loop
  · have none : entries.drop (first - 1) = [] := List.drop_eq_nil_of_le beyond
    have none' : (entries.take last).drop (first - 1) = [] := by
      rw [List.drop_take, none, List.take_nil]
    have none'' : entries.drop last = [] := by
      rcases Nat.eq_zero_or_pos first with rfl | positive
      · rw [List.eq_nil_of_length_eq_zero (Nat.le_zero.mp beyond), List.drop_nil]
      · exact List.drop_eq_nil_of_le (by omega)
    rw [none, List.take_nil, List.drop_nil] at loop
    rw [none', none'']
    exact loop

variable [LinearOrder Score]

/-- An entry is among sorted ones when it is at its place. -/
theorem mem_iff_place (e : Score ×ₗ Slobj) (sorted : entries.Pairwise (· < ·)) :
    e ∈ entries ↔ entries[place entries e]? = some e := by
  constructor
  · intro member
    obtain ⟨k, here⟩ := List.getElem?_of_mem member
    have notLess : ¬k < place entries e := fun less =>
      lt_irrefl e ((lt_iff_lt_place sorted e here).mpr less)
    rcases Nat.eq_or_lt_of_le (Nat.not_lt.mp notLess) with same | less
    · rw [same, here]
    · have inside := (List.getElem?_eq_some_iff.mp here).1
      have there : entries[place entries e]? = some entries[place entries e] :=
        List.getElem?_eq_getElem (Nat.lt_trans less inside)
      have smaller : entries[place entries e] < e := by
        have later := List.pairwise_iff_getElem.mp sorted _ _ (Nat.lt_trans less inside) inside less
        rwa [(List.getElem?_eq_some_iff.mp here).2] at later
      exact absurd ((lt_iff_lt_place sorted e there).mp smaller) (Nat.lt_irrefl _)
  · exact List.mem_of_getElem?

theorem erase_eq_place {e : Score ×ₗ Slobj} (here : entries[place entries e]? = some e) :
    entries.erase e =
      entries.take (place entries e) ++ entries.drop (place entries e + 1) := by
  have front : e ∉ entries.take (place entries e) := by
    rw [take_place]
    intro member
    have less : decide (e < e) = true :=
      List.mem_takeWhile_imp (p := fun e' => decide (e' < e)) member
    exact lt_irrefl e (of_decide_eq_true less)
  nth_rewrite 1 [take_cons_drop here]
  rw [List.erase_append_right _ front, List.erase_cons_head]

/-- `slDelete` takes the entry out if it is there, and says so. -/
theorem Repr.slDelete (repr : Repr sl ids entries) (sorted : entries.Pairwise (· < ·))
    (score : Score) (obj : Slobj) :
    (Zset.slDelete sl score obj).1 = decide (toLex (score, obj) ∈ entries) ∧
      ∃ ids', Repr (Zset.slDelete sl score obj).2 ids' (entries.erase (toLex (score, obj))) := by
  have spec := repr.search_spec (repr.cut_before sorted score obj)
  have lowest := spec.2 0 repr.levels.1
  have next := repr.link_lowest lowest
  have found := mem_iff_place (toLex (score, obj)) sorted
  simp only [Zset.slDelete, next]
  split
  next none =>
    have absent : toLex (score, obj) ∉ entries := by
      rw [found]
      rw [List.getElem?_eq_none_iff, repr.length_eq, ← List.getElem?_eq_none_iff] at none
      rw [none]
      exact Option.some_ne_none _ ∘ Eq.symm
    rw [decide_eq_false absent, List.erase_of_not_mem absent]
    exact ⟨rfl, ids, repr⟩
  next x here =>
    obtain ⟨e, hereE, entry⟩ := repr.entry_of_getElem? here
    have test : ((sl.nodes x).score = score ∧ (sl.nodes x).obj.any (equalslObj · obj)) ↔
        toLex (score, obj) ∈ entries := by
      rw [(entry_some entry).1, (entry_some entry).2, Option.any_some, equalslObj_iff, found, hereE,
        Option.some.injEq]
      exact ⟨fun both => congrArg toLex (Prod.ext both.1 both.2),
        fun same => ⟨congrArg scoreOf same, congrArg objOf same⟩⟩
    split_ifs with match'
    · have member := test.mp match'
      rw [decide_eq_true member, erase_eq_place (found.mp member)]
      exact ⟨rfl, _, (repr.deleted here spec.2).1⟩
    · have absent := fun member => match' (test.mpr member)
      rw [decide_eq_false absent, List.erase_of_not_mem absent]
      exact ⟨rfl, ids, repr⟩

end Skiplist

end RillServer.Zset
