import RillServer.Zset.SkipList

/-!
# Insertion into a skip list

What a search passes cuts the entries of a skip list in two, and it stops in each level at the last
node in front of the cut (`Skiplist.Repr.search_spec`). There `slInsert` links its node in, in as many
levels as it is given, some of which the skip list may not have had. `Skiplist.Repr.slInsert`: it
holds the entries then with the new one where it belongs.
-/

namespace RillServer.Zset

namespace Skiplist

variable {Score : Type} {sl : Skiplist Score} {ids : List Nat} {entries : List (Score ×ₗ Slobj)}

theorem Repr.length_eq (repr : Repr sl ids entries) : ids.length = entries.length := by
  have lengths := congrArg List.length repr.stored
  rwa [List.length_map, List.length_map] at lengths

/-- The node of a rank has the entry of that rank. -/
theorem Repr.entry_of_getElem? (repr : Repr sl ids entries) {k b : Nat} (place : ids[k]? = some b) :
    ∃ e, entries[k]? = some e ∧ sl.entry b = some e := by
  have nodes : (ids.map sl.entry)[k]? = some (sl.entry b) := by
    rw [List.getElem?_map, place, Option.map_some]
  rw [repr.stored, List.getElem?_map, Option.map_eq_some_iff] at nodes
  obtain ⟨e, here, same⟩ := nodes
  exact ⟨e, here, same.symm⟩

theorem cons_take_append_drop (a n : Nat) (ids : List Nat) :
    (a :: ids.take n) ++ ids.drop n = a :: ids := by
  rw [List.cons_append, List.take_append_drop]

/-- A search by rank and entry that passes the first `n` entries cuts the nodes there. -/
theorem Repr.cut (repr : Repr sl ids entries) {go : Nat → Nat → Bool} {n : Nat}
    {P : Nat → Score ×ₗ Slobj → Bool} (same : ∀ k b e, sl.entry b = some e → go k b = P k e)
    (split : ∀ k e, entries[k]? = some e → P (k + 1) e = decide (k < n)) :
    Lanes.Cut go (sl.header :: ids.take n) (ids.drop n) := by
  constructor
  · intro k b later place
    obtain ⟨k, rfl⟩ : ∃ k', k = k' + 1 := ⟨k - 1, by omega⟩
    rw [List.getElem?_cons_succ] at place
    have inside : k < n := by
      have := (List.getElem?_eq_some_iff.mp place).1
      rw [List.length_take] at this
      omega
    rw [List.getElem?_take_of_lt inside] at place
    obtain ⟨e, here, node⟩ := repr.entry_of_getElem? place
    rw [same _ b e node, split k e here, decide_eq_true inside]
  · intro k b place
    rw [List.getElem?_drop] at place
    obtain ⟨e, here, node⟩ := repr.entry_of_getElem? place
    have more := (List.getElem?_eq_some_iff.mp place).1
    have position : (sl.header :: ids.take n).length + k = (n + k) + 1 := by
      rw [List.length_cons, List.length_take]
      omega
    rw [position, same _ b e node, split _ e here, decide_eq_false (by omega)]

/-- Where a search stops that passes the first `n` entries: in each level at the last of the nodes in
front of the others. -/
theorem Repr.search_spec (repr : Repr sl ids entries) {go : Nat → Nat → Bool} {n : Nat}
    (cut : Lanes.Cut go (sl.header :: ids.take n) (ids.drop n)) :
    (sl.search go).length = sl.level ∧
      ∀ i, i < sl.level →
        Lanes.LastIn sl.height i (sl.header :: ids.take n) ((sl.search go).getD i (sl.header, 0))
          ((sl.header :: ids.take n).drop (((sl.search go).getD i (sl.header, 0)).2 + 1)) := by
  have linked : Lanes.Linked sl.height sl.link sl.level ((sl.header :: ids.take n) ++ ids.drop n) := by
    rw [cons_take_append_drop]
    exact repr.linked
  have enough : (ids.take n).length ≤ sl.length := by
    rw [repr.length, List.length_take]
    exact Nat.min_le_right _ _
  have high : sl.level ≤ sl.height sl.header := by
    rw [repr.headerHeight]
    exact repr.levels.2
  have start : sl.header :: ids.take n = [] ++ sl.header :: ids.take n := rfl
  have stops := Lanes.descend_spec linked cut (Nat.le_refl sl.level) start high enough
  refine ⟨stops.1, fun i inside => ?_⟩
  obtain ⟨stop, mid, here, last⟩ := stops.2 i inside
  have found : (sl.search go).getD i (sl.header, 0) = stop := by
    rw [List.getD_eq_getElem?_getD]
    exact congrArg (fun o => Option.getD o (sl.header, 0)) here
  rw [found, ← last.mid_eq]
  exact last

/-! ## Insertion -/

/-- The stops of an insertion after the first `n` nodes, also in the levels that are added. -/
def StopsAt (sl : Skiplist Score) (ids : List Nat) (n top : Nat) (stops : Nat → Nat × Nat) : Prop :=
  ∀ i, i < top → Lanes.LastIn sl.height i (sl.header :: ids.take n) (stops i)
    ((sl.header :: ids.take n).drop ((stops i).2 + 1))

theorem Repr.fresh_notMem (repr : Repr sl ids entries) : sl.fresh ∉ sl.header :: ids :=
  fun member => Nat.lt_irrefl _ (repr.allocated _ member)

section

variable {score : Score} {obj : Slobj} {level n : Nat} {stops : Nat → Nat × Nat}

theorem height_addNode (update : Nat → Nat) (a : Nat) :
    (addNode sl score obj level update).height a = if a = sl.fresh then level else sl.height a := by
  split_ifs with new
  · subst new
    simp only [height, addNode, Function.update_self, slCreateNode]
  · simp only [height, addNode, Function.update_of_ne new]
    exact (sameNodes_raiseLevels update level sl).height a

theorem link_addNode {update : Nat → Nat} {a : Nat} (old : a ≠ sl.fresh) (j : Nat) :
    (addNode sl score obj level update).link a j = (raiseLevels update level sl).link a j := by
  simp only [link, addNode, Function.update_of_ne old]

/-- The chain with the levels that a new node adds. -/
theorem Repr.linked_addNode (repr : Repr sl ids entries) (score : Score) (obj : Slobj)
    (inside : level ≤ SKIPLIST_MAXLEVEL) {update : Nat → Nat} (added : ∀ i, sl.level ≤ i → update i = sl.header) :
    Lanes.Linked (addNode sl score obj level update).height
      (addNode sl score obj level update).link (addNode sl score obj level update).level
      (sl.header :: ids) := by
  have raised : Lanes.Linked sl.height (raiseLevels update level sl).link
      (addNode sl score obj level update).level (sl.header :: ids) := by
    apply repr.linked.raise (fun a member => (repr.heights a member).2)
    · intro a i below
      rw [link_raiseLevels, if_neg (by omega)]
    · intro i above below
      have here : i < level := by
        simp only [addNode] at below
        split_ifs at below <;> omega
      rw [link_raiseLevels, if_pos ⟨⟨above, here⟩, (added i above).symm⟩,
        repr.above i above (by omega), repr.length]
  apply raised.congr
  · intro a member
    rw [height_addNode, if_neg]
    rintro rfl
    exact repr.fresh_notMem member
  · intro a member i _ _
    apply link_addNode
    rintro rfl
    exact repr.fresh_notMem member

/-- The number of places between a stop and the new node, as the ranks give it. -/
theorem Repr.crossed_eq (repr : Repr sl ids entries) {top : Nat} (stop : StopsAt sl ids n top stops)
    (more : 0 < top) (i : Nat) :
    (stops 0).2 - (stops i).2 = ((sl.header :: ids.take n).drop ((stops i).2 + 1)).length := by
  have high : ∀ b ∈ (sl.header :: ids.take n).drop ((stops 0).2 + 1), 0 < sl.height b := by
    intro b member
    rw [List.drop_succ_cons] at member
    exact (repr.heights b (List.mem_of_mem_take (List.mem_of_mem_drop member))).1
  have last := ((stop 0 more).last high).2
  rw [List.length_drop, last]
  omega

/-- The links that an insertion leaves, by those that it finds with the new node. -/
theorem link_insertAt (update rank : Nat → Nat) {created : Skiplist Score}
    (new : addNode sl score obj level update = created) (a j : Nat) :
    (insertAt sl score obj level update rank).link a j =
      if j < level then
        if a = update j then (some sl.fresh, (rank 0 - rank j) + 1)
        else if a = sl.fresh then
          ((created.link (update j) j).1, (created.link (update j) j).2 - (rank 0 - rank j))
        else created.link a j
      else if j < created.level ∧ a = update j then
        ((created.link a j).1, (created.link a j).2 + 1)
      else created.link a j := by
  subst new
  have same := (sameNodes_linkLevels sl.fresh update rank level
    (addNode sl score obj level update)).level
  have frame := (setNextBackward_frame (linkNode sl score obj level update rank) sl.fresh
    (some sl.fresh)).1
  refine (congrFun (congrFun frame a) j).trans ?_
  rw [linkNode, link_setBackward, link_widenLevels, link_linkLevels, same]
  by_cases below : j < level
  · rw [if_neg (by omega)]
    simp only [below, if_true]
  · simp only [below, if_false, Nat.not_lt.mp below, true_and]

/-- The new node is linked in, in all its levels. -/
theorem Repr.linked_insertAt (repr : Repr sl ids entries) (inside : level ≤ SKIPLIST_MAXLEVEL)
    (added : ∀ i, sl.level ≤ i → (stops i).1 = sl.header)
    (stop : StopsAt sl ids n (addNode sl score obj level fun i => (stops i).1).level stops) :
    Lanes.Linked (addNode sl score obj level fun i => (stops i).1).height
      (insertAt sl score obj level (fun i => (stops i).1) fun i => (stops i).2).link
      (addNode sl score obj level fun i => (stops i).1).level
      ((sl.header :: ids.take n) ++ sl.fresh :: ids.drop n) := by
  have whole := repr.linked_addNode score obj inside added
  rw [← cons_take_append_drop sl.header n ids] at whole
  have fresh := repr.fresh_notMem
  rw [← cons_take_append_drop sl.header n ids] at fresh
  have nodup : ((sl.header :: ids.take n) ++ sl.fresh :: ids.drop n).Nodup := by
    apply List.nodup_middle.mpr
    rw [cons_take_append_drop] at fresh ⊢
    exact List.nodup_cons.mpr ⟨fresh, repr.nodup⟩
  have old : ∀ i, i < (addNode sl score obj level fun i => (stops i).1).level →
      (stops i).1 ≠ sl.fresh := by
    intro i below same
    exact fresh (List.mem_append_left _ (same ▸ (stop i below).mem))
  have height : (addNode sl score obj level fun i => (stops i).1).height sl.fresh = level := by
    rw [height_addNode, if_pos rfl]
  have stop' : ∀ i, i < (addNode sl score obj level fun i => (stops i).1).level →
      Lanes.LastIn (addNode sl score obj level fun i => (stops i).1).height i
        (sl.header :: ids.take n) (stops i) ((sl.header :: ids.take n).drop ((stops i).2 + 1)) := by
    intro i below
    apply (stop i below).congr
    intro a member
    rw [height_addNode, if_neg]
    intro same
    exact fresh (List.mem_append_left _ (same ▸ member))
  apply whole.insert nodup stop'
  · intro a member i _ other
    have : a ≠ sl.fresh := fun same => fresh (same ▸ member)
    rw [link_insertAt _ _ rfl]
    simp only [other, this, and_false, if_false, ite_self]
  · intro i below high
    rw [height] at high
    rw [link_insertAt _ _ rfl]
    simp only [high, if_true, (old i below).symm, if_false]
    rw [repr.crossed_eq stop (Nat.zero_lt_of_lt below)]
  · intro i below high
    rw [height] at high
    rw [link_insertAt _ _ rfl]
    simp only [high, if_true]
    rw [repr.crossed_eq stop (Nat.zero_lt_of_lt below)]
  · intro i below high
    rw [height] at high
    rw [link_insertAt _ _ rfl]
    simp only [Nat.not_lt.mpr high, if_false, below, and_self, if_true]

/-- Links apart, the nodes with their links are those with the new node. -/
theorem sameNodes_widened (update rank : Nat → Nat) :
    SameNodes (addNode sl score obj level update)
      (widenLevels update level
        (linkLevels sl.fresh update rank level (addNode sl score obj level update))) :=
  (sameNodes_linkLevels ..).trans (sameNodes_widenLevels ..)

theorem height_insertAt (update rank : Nat → Nat) :
    (insertAt sl score obj level update rank).height = (addNode sl score obj level update).height := by
  have frame := (setNextBackward_frame (linkNode sl score obj level update rank) sl.fresh
    (some sl.fresh)).2.2.1
  apply frame.trans
  rw [linkNode, height_setBackward]
  exact funext (sameNodes_widened update rank).height

theorem entry_insertAt (update rank : Nat → Nat) (a : Nat) :
    (insertAt sl score obj level update rank).entry a =
      if a = sl.fresh then some (toLex (score, obj)) else sl.entry a := by
  have frame := (setNextBackward_frame (linkNode sl score obj level update rank) sl.fresh
    (some sl.fresh)).2.1
  refine (congrFun frame a).trans ?_
  rw [linkNode, entry_setBackward, (sameNodes_widened update rank).entry_eq a]
  split_ifs with new
  · subst new
    simp only [entry, addNode, Function.update_self, slCreateNode, Option.map_some]
  · simp only [entry, addNode, Function.update_of_ne new]
    exact (sameNodes_raiseLevels update level sl).entry_eq a

theorem backward_insertAt (update rank : Nat → Nat) (a : Nat) :
    ((insertAt sl score obj level update rank).nodes a).backward =
      if ((insertAt sl score obj level update rank).link sl.fresh 0).1 = some a then some sl.fresh
      else if a = sl.fresh then (if update 0 = sl.header then none else some (update 0))
      else (sl.nodes a).backward := by
  have frame := (setNextBackward_frame (linkNode sl score obj level update rank) sl.fresh
    (some sl.fresh)).1
  have links : (insertAt sl score obj level update rank).link sl.fresh 0 =
      (linkNode sl score obj level update rank).link sl.fresh 0 := congrFun (congrFun frame _) 0
  have old : a ≠ sl.fresh →
      ((addNode sl score obj level update).nodes a).backward = (sl.nodes a).backward := by
    intro other
    simp only [addNode, Function.update_of_ne other]
    exact (sameNodes_raiseLevels update level sl).backward a
  rw [links]
  apply (backward_setNextBackward ..).trans
  apply if_congr Iff.rfl rfl
  rw [linkNode, backward_setBackward]
  split_ifs with new
  · rfl
  · rfl
  · exact ((sameNodes_widened update rank).backward a).trans (old new)

theorem tail_insertAt (update rank : Nat → Nat) :
    (insertAt sl score obj level update rank).tail =
      if ((insertAt sl score obj level update rank).link sl.fresh 0).1 = none then some sl.fresh
      else sl.tail := by
  have frame := (setNextBackward_frame (linkNode sl score obj level update rank) sl.fresh
    (some sl.fresh)).1
  have links : (insertAt sl score obj level update rank).link sl.fresh 0 =
      (linkNode sl score obj level update rank).link sl.fresh 0 := congrFun (congrFun frame _) 0
  rw [links]
  apply (tail_setNextBackward ..).trans
  apply if_congr Iff.rfl rfl
  exact (sameNodes_widened update rank).tail.trans (sameNodes_raiseLevels update level sl).tail

theorem fields_insertAt (sl : Skiplist Score) (score : Score) (obj : Slobj) (level : Nat)
    (update rank : Nat → Nat) :
    (insertAt sl score obj level update rank).fresh = sl.fresh + 1 ∧
      (insertAt sl score obj level update rank).header = sl.header ∧
      (insertAt sl score obj level update rank).length = sl.length + 1 ∧
      (insertAt sl score obj level update rank).level =
        (addNode sl score obj level update).level := by
  have frame := (setNextBackward_frame (linkNode sl score obj level update rank) sl.fresh
    (some sl.fresh)).2.2.2
  have same : SameNodes (addNode sl score obj level update) _ := sameNodes_widened update rank
  have raised := sameNodes_raiseLevels update level sl
  exact ⟨frame.1.trans same.fresh, frame.2.1.trans (same.header.trans raised.header),
    congrArg (· + 1) (frame.2.2.1.trans (same.length.trans raised.length)),
    frame.2.2.2.trans same.level⟩

/-- Where the stop of the lowest level is: at the header or the last node in front of the cut. -/
theorem StopsAt.lowest {top : Nat} (stop : StopsAt sl ids n top stops) (more : 0 < top)
    (nodup : (sl.header :: ids).Nodup) (high : ∀ a ∈ ids, 0 < sl.height a) :
    (if (stops 0).1 = sl.header then none else some (stops 0).1) = (ids.take n).getLast? := by
  have last := ((stop 0 more).last fun b member => by
    rw [List.drop_succ_cons] at member
    exact high b (List.mem_of_mem_take (List.mem_of_mem_drop member))).1
  have there := congrArg List.getLast? last
  rw [List.getLast?_concat, List.getLast?_cons, Option.some.injEq] at there
  rw [← there]
  cases found : (ids.take n).getLast? with
  | none => rw [Option.getD_none, if_pos rfl]
  | some a =>
      rw [Option.getD_some, if_neg]
      intro same
      have member : a ∈ ids := List.mem_of_mem_take (List.mem_of_getLast? found)
      exact (List.nodup_cons.mp nodup).1 (same ▸ member)

/-- An insertion after the first `n` nodes. -/
theorem Repr.insertAt (repr : Repr sl ids entries) (positive : 0 < level)
    (inside : level ≤ SKIPLIST_MAXLEVEL) (added : ∀ i, sl.level ≤ i → (stops i).1 = sl.header)
    (stop : StopsAt sl ids n (addNode sl score obj level fun i => (stops i).1).level stops) :
    Repr (Zset.insertAt sl score obj level (fun i => (stops i).1) fun i => (stops i).2)
      (ids.take n ++ sl.fresh :: ids.drop n) (entries.take n ++ toLex (score, obj) :: entries.drop n) := by
  have linked := repr.linked_insertAt inside added stop
  have fields := fields_insertAt sl score obj level (fun i => (stops i).1) fun i => (stops i).2
  have top : (addNode sl score obj level fun i => (stops i).1).level = max sl.level level := by
    simp only [addNode]
    split_ifs <;> omega
  have fresh := repr.fresh_notMem
  have apart := List.not_mem_of_not_mem_cons fresh
  have old : ∀ a ∈ ids, a ≠ sl.fresh := fun a member same => apart (same ▸ member)
  have chain : sl.header :: (ids.take n ++ sl.fresh :: ids.drop n) =
      (sl.header :: ids.take n) ++ sl.fresh :: ids.drop n := rfl
  have members : ∀ a, a ∈ ids.take n ++ sl.fresh :: ids.drop n ↔ a = sl.fresh ∨ a ∈ ids := by
    intro a
    rw [List.mem_append, List.mem_cons, or_left_comm, ← List.mem_append, List.take_append_drop]
  have after : ((Zset.insertAt sl score obj level (fun i => (stops i).1)
      fun i => (stops i).2).link sl.fresh 0).1 = (ids.drop n).head? := by
    have high : 0 < (addNode sl score obj level fun i => (stops i).1).height sl.fresh := by
      rw [height_addNode, if_pos rfl]
      exact positive
    rw [linked.link_eq (by have := repr.levels.1; omega) high, Lanes.ahead_zero]
    intro b member
    have inIds := List.mem_of_mem_drop member
    rw [height_addNode, if_neg (old b inIds)]
    exact (repr.heights b inIds).1
  constructor
  case stored =>
    rw [List.map_append, List.map_cons, List.map_append, List.map_cons]
    have same : ∀ l : List Nat, (∀ a ∈ l, a ∈ ids) → l.map (Zset.insertAt sl score obj level
        (fun i => (stops i).1) fun i => (stops i).2).entry = l.map sl.entry := by
      intro l inIds
      apply List.map_congr_left
      intro a member
      rw [entry_insertAt, if_neg (old a (inIds a member))]
    rw [same _ fun a => List.mem_of_mem_take, same _ fun a => List.mem_of_mem_drop, List.map_take,
      List.map_drop, repr.stored, entry_insertAt, if_pos rfl, List.map_take, List.map_drop]
  case nodup =>
    rw [fields.2.1, chain]
    apply List.nodup_middle.mpr
    rw [cons_take_append_drop]
    exact List.nodup_cons.mpr ⟨fresh, repr.nodup⟩
  case allocated =>
    intro a member
    rw [fields.2.1, List.mem_cons, members] at member
    rw [fields.1]
    rcases member with rfl | rfl | member
    · exact Nat.lt_succ_of_lt (repr.allocated _ List.mem_cons_self)
    · exact Nat.lt_succ_self _
    · exact Nat.lt_succ_of_lt (repr.allocated a (List.mem_cons_of_mem _ member))
  case levels =>
    rw [fields.2.2.2, top]
    have := repr.levels
    omega
  case headerEntry =>
    rw [fields.2.1, entry_insertAt, if_neg, repr.headerEntry]
    intro same
    exact fresh (same ▸ List.mem_cons_self)
  case headerHeight =>
    rw [fields.2.1, height_insertAt, height_addNode, if_neg, repr.headerHeight]
    intro same
    exact fresh (same ▸ List.mem_cons_self)
  case heights =>
    intro a member
    rw [height_insertAt, height_addNode, fields.2.2.2, top]
    rcases (members a).mp member with rfl | member
    · rw [if_pos rfl]
      omega
    · rw [if_neg (old a member)]
      have := repr.heights a member
      omega
  case linked =>
    rw [fields.2.1, fields.2.2.2, height_insertAt]
    exact linked
  case above =>
    intro i above below
    rw [fields.2.2.2, top] at above
    rw [fields.2.1, link_insertAt _ _ rfl, if_neg (by omega), if_neg (by rw [top]; omega),
      link_addNode (fun same => fresh (same ▸ List.mem_cons_self)), link_raiseLevels,
      if_neg (by omega)]
    exact repr.above i (by omega) below
  case length =>
    rw [fields.2.2.1, repr.length]
    have : ids.length = (ids.take n).length + (ids.drop n).length := by
      rw [← List.length_append, List.take_append_drop]
    rw [List.length_append, List.length_cons]
    omega
  case backward =>
    have parts : sl.Backward none (ids.take n ++ ids.drop n) := by
      rw [List.take_append_drop]
      exact repr.backward
    have idsNodup := (List.nodup_cons.mp repr.nodup).2
    have positiveTop : 0 < (addNode sl score obj level fun i => (stops i).1).level := by omega
    have atEnd : ∀ a, (ids.drop n).head? = some a → a ∈ ids := fun a found =>
      List.mem_of_mem_drop (List.mem_of_head? found)
    apply parts.insert
    · rw [List.take_append_drop]
      exact idsNodup
    · rw [backward_insertAt, after, if_neg fun found => old _ (atEnd _ found) rfl, if_pos rfl,
        stop.lowest positiveTop repr.nodup fun a member => (repr.heights a member).1]
      cases (ids.take n).getLast? <;> rfl
    · intro a found
      rw [backward_insertAt, after, if_pos found]
    · intro a member other
      rw [List.take_append_drop] at member
      rw [backward_insertAt, after, if_neg other, if_neg (old a member)]
    · rw [tail_insertAt, after]

end

variable [LinearOrder Score]

/-- `before` compares the entries. -/
theorem before_eq {a : Nat} {e : Score ×ₗ Slobj} (here : sl.entry a = some e) (score : Score)
    (obj : Slobj) : sl.before score obj a = decide (e < toLex (score, obj)) := by
  rw [entry, Option.map_eq_some_iff] at here
  obtain ⟨o, object, rfl⟩ := here
  have order : toLex ((sl.nodes a).score, o) < toLex (score, obj) ↔
      (sl.nodes a).score < score ∨ (sl.nodes a).score = score ∧ o < obj := Prod.Lex.toLex_lt_toLex
  rw [before, object, Option.any_some, decide_eq_decide.mpr order,
    decide_eq_decide.mpr (compareslObj_neg o obj), ← Bool.decide_and, ← Bool.decide_or]

/-- Where an entry belongs: after those that are less. -/
def place (entries : List (Score ×ₗ Slobj)) (e : Score ×ₗ Slobj) : Nat :=
  (entries.takeWhile fun e' => decide (e' < e)).length

theorem take_place (entries : List (Score ×ₗ Slobj)) (e : Score ×ₗ Slobj) :
    entries.take (place entries e) = entries.takeWhile fun e' => decide (e' < e) :=
  Lanes.take_takeWhile _ _

theorem drop_place (entries : List (Score ×ₗ Slobj)) (e : Score ×ₗ Slobj) :
    entries.drop (place entries e) = entries.dropWhile fun e' => decide (e' < e) :=
  Lanes.drop_takeWhile _ _

/-- The place of an entry among sorted ones: those in front of it are less, the others are not. -/
theorem lt_iff_lt_place (sorted : entries.Pairwise (· < ·)) (e : Score ×ₗ Slobj) {k : Nat}
    {e' : Score ×ₗ Slobj} (here : entries[k]? = some e') : e' < e ↔ k < place entries e := by
  have down : entries.Pairwise fun a b => decide (b < e) = true → decide (a < e) = true := by
    apply sorted.imp
    intro a b less later
    exact decide_eq_true (lt_trans less (of_decide_eq_true later))
  exact decide_eq_decide.mp (Lanes.eq_decide_takeWhile down here)

/-- The search of `slInsert` and `slDelete` cuts the nodes at the place of the entry. -/
theorem Repr.cut_before (repr : Repr sl ids entries) (sorted : entries.Pairwise (· < ·))
    (score : Score) (obj : Slobj) :
    Lanes.Cut (fun _ a => sl.before score obj a)
      (sl.header :: ids.take (place entries (toLex (score, obj))))
      (ids.drop (place entries (toLex (score, obj)))) := by
  apply repr.cut fun _ a e here => before_eq here score obj
  intro k e here
  exact decide_eq_decide.mpr (lt_iff_lt_place sorted _ here)

/-- `slInsert` puts the entry where it belongs, whatever level its node gets. -/
theorem Repr.slInsert (repr : Repr sl ids entries) (sorted : entries.Pairwise (· < ·))
    (score : Score) (obj : Slobj) {level : Nat} (positive : 0 < level)
    (inside : level ≤ SKIPLIST_MAXLEVEL) :
    Repr (Zset.slInsert sl score obj level)
      (ids.take (place entries (toLex (score, obj))) ++ sl.fresh ::
        ids.drop (place entries (toLex (score, obj))))
      (entries.orderedInsert (· ≤ ·) (toLex (score, obj))) := by
  have spec := repr.search_spec (repr.cut_before sorted score obj)
  have ordered : entries.orderedInsert (· ≤ ·) (toLex (score, obj)) =
      entries.take (place entries (toLex (score, obj))) ++ toLex (score, obj) ::
        entries.drop (place entries (toLex (score, obj))) := by
    rw [List.orderedInsert_eq_take_drop, take_place, drop_place]
    simp only [not_le]
  have lower : ∀ i, i < sl.level → ∀ k,
      ((sl.search fun _ a => sl.before score obj a) ++ List.replicate k (sl.header, 0)).getD i
        (sl.header, 0) = (sl.search fun _ a => sl.before score obj a).getD i (sl.header, 0) := by
    intro i below k
    rw [List.getD_append]
    rwa [spec.1]
  have upper : ∀ i, sl.level ≤ i → ∀ k,
      ((sl.search fun _ a => sl.before score obj a) ++ List.replicate k (sl.header, 0)).getD i
        (sl.header, 0) = (sl.header, 0) := by
    intro i above k
    rw [List.getD_append_right _ _ _ _ (by rwa [spec.1])]
    rw [List.getD_eq_getElem?_getD, List.getElem?_getD_replicate_default_eq]
  rw [ordered]
  apply repr.insertAt positive inside
  · intro i above
    rw [upper i above]
  · intro i below
    beta_reduce
    by_cases known : i < sl.level
    · rw [lower i known]
      exact spec.2 i known
    · have above := Nat.not_lt.mp known
      rw [upper i above]
      refine ⟨?_, ?_, [], rfl, rfl⟩
      · rw [repr.headerHeight]
        have := repr.levels
        simp only [addNode] at below
        split_ifs at below <;> omega
      · intro b member
        rw [List.drop_succ_cons, List.drop_zero] at member
        exact Nat.le_trans (repr.heights b (List.mem_of_mem_take member)).2 above

end Skiplist

end RillServer.Zset
