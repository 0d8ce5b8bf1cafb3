import Mathlib.Algebra.Ring.Int.Defs
import Mathlib.Algebra.Ring.Nat
import Mathlib.Data.Prod.Lex
import Mathlib.Data.List.Lex
import Mathlib.Data.List.GetD
import Mathlib.Data.List.Sort
import Mathlib.Data.List.TakeWhile
import RillServer.Lib.Lanes

/-!
# The skip list

`skiplist.c`: nodes on the heap with a forward link and a span for each of their levels, a header
with all levels, and a backward link for the walk in the other direction. `Skiplist.Repr` is what a
skip list keeps: the nodes are linked in the order of their entries, in every lane, with the spans
that ranks are counted by.

`Skiplist.Repr.slInsert` and `Skiplist.Repr.slDelete` say what the two operations do to the entries
whatever levels the nodes were given, `Skiplist.Repr.slDeleteByRank` what becomes of a range of
ranks.
-/

namespace RillServer.Zset

/-- `SKIPLIST_MAXLEVEL`. -/
abbrev SKIPLIST_MAXLEVEL : Nat := 32

/-- `slobj`: the bytes of a member. `compareslObj` makes an `int` of the difference of two lengths, so
there are fewer than `2 ^ 31`. -/
structure Slobj where
  ptr : List UInt8
  short : ptr.length < 2 ^ 31
  deriving DecidableEq

/-- The sign that `memcmp` gives for as many bytes as both have. -/
def memcmp : List UInt8 → List UInt8 → Int
  | a :: as, b :: bs => if a = b then memcmp as bs else if a < b then -1 else 1
  | _, _ => 0

/-- `compareslObj`. The difference of the lengths, two `size_t`, is returned as an `int`. -/
def compareslObj (a b : Slobj) : Int :=
  let shorter := if a.ptr.length ≤ b.ptr.length then a.ptr.length else b.ptr.length
  let cmp := memcmp (a.ptr.take shorter) (b.ptr.take shorter)
  if cmp = 0 then Int.bmod ((a.ptr.length : Int) - b.ptr.length) (2 ^ 32) else cmp

/-- `equalslObj`. -/
def equalslObj (a b : Slobj) : Bool := compareslObj a b == 0

/-- `skiplistLevel`: the next node of a level, and how many places further it is. -/
structure SkiplistLevel where
  forward : Option Nat
  span : Nat

/-- `skiplistNode`. `height` is how many levels there is room for. -/
structure SkiplistNode (Score : Type) where
  obj : Option Slobj
  score : Score
  backward : Option Nat
  height : Nat
  level : Nat → SkiplistLevel

/-- `skiplist`, with the nodes by their addresses; `fresh` and what comes after it is unused. -/
structure Skiplist (Score : Type) where
  nodes : Nat → SkiplistNode Score
  fresh : Nat
  header : Nat
  tail : Option Nat
  length : Nat
  level : Nat

variable {Score : Type}

/-- `slCreateNode`. What it leaves unset is empty here. -/
def slCreateNode (level : Nat) (score : Score) (obj : Option Slobj) : SkiplistNode Score where
  obj := obj
  score := score
  backward := none
  height := level
  level := fun _ => ⟨none, 0⟩

/-- `slCreate`. -/
def slCreate [Zero Score] : Skiplist Score where
  nodes := fun _ => slCreateNode SKIPLIST_MAXLEVEL 0 none
  fresh := 1
  header := 0
  tail := none
  length := 0
  level := 1

/-- `slRandomLevel`, from what `random()` returns each time until a value ends the loop: one less than
a quarter of `0xffff` adds a level. -/
def slRandomLevel (draws : List Nat) : Nat :=
  let level := 1 + (draws.takeWhile fun r => 4 * (r &&& 0xffff) < 0xffff).length
  if level < SKIPLIST_MAXLEVEL then level else SKIPLIST_MAXLEVEL

namespace Skiplist

/-- The link of a node in a level. -/
def link (sl : Skiplist Score) (a i : Nat) : Option Nat × Nat :=
  (((sl.nodes a).level i).forward, ((sl.nodes a).level i).span)

/-- How many levels a node has. -/
def height (sl : Skiplist Score) (a : Nat) : Nat := (sl.nodes a).height

/-- Store a link. -/
def setLink (sl : Skiplist Score) (a i : Nat) (l : Option Nat × Nat) : Skiplist Score :=
  { sl with
    nodes := Function.update sl.nodes a
      { sl.nodes a with level := Function.update (sl.nodes a).level i ⟨l.1, l.2⟩ } }

/-- Store a backward link. -/
def setBackward (sl : Skiplist Score) (a : Nat) (b : Option Nat) : Skiplist Score :=
  { sl with nodes := Function.update sl.nodes a { sl.nodes a with backward := b } }

/-- A loop over the levels below `n`, the lowest first. -/
def eachLevel (body : Nat → Skiplist Score → Skiplist Score) :
    Nat → Skiplist Score → Skiplist Score
  | 0, sl => sl
  | i + 1, sl => body i (eachLevel body i sl)

/-- A node is in front of an entry: its score is less, or the same with a lesser object. -/
def before [LinearOrder Score] (sl : Skiplist Score) (score : Score) (obj : Slobj) (a : Nat) : Bool :=
  decide ((sl.nodes a).score < score) ||
    (decide ((sl.nodes a).score = score) &&
      (sl.nodes a).obj.any fun o => decide (compareslObj o obj < 0))

/-- The loop over the levels that all operations begin with: from the header along the highest level
as long as the next node, at its rank, satisfies the condition, then from there along the next level.
The node at which it leaves each level, with its rank. -/
def search (sl : Skiplist Score) (go : Nat → Nat → Bool) : List (Nat × Nat) :=
  Lanes.descend sl.link go sl.length sl.level sl.header 0

end Skiplist

open Skiplist

/-- `slInsert`, the levels that the skip list gets: their links in the header are to span it. -/
def raiseLevels (update : Nat → Nat) (level : Nat) (sl : Skiplist Score) : Skiplist Score :=
  eachLevel (fun k s =>
    let i := sl.level + k
    s.setLink (update i) i ((s.link (update i) i).1, sl.length)) (level - sl.level) sl

/-- `slInsert`, the levels of the new node. -/
def linkLevels (x : Nat) (update rank : Nat → Nat) (level : Nat) (sl : Skiplist Score) :
    Skiplist Score :=
  eachLevel (fun i s =>
    let l := s.link (update i) i
    (s.setLink x i (l.1, l.2 - (rank 0 - rank i))).setLink (update i) i
      (some x, (rank 0 - rank i) + 1)) level sl

/-- `slInsert`, the levels above the new node. -/
def widenLevels (update : Nat → Nat) (level : Nat) (sl : Skiplist Score) : Skiplist Score :=
  eachLevel (fun k s =>
    let i := level + k
    s.setLink (update i) i ((s.link (update i) i).1, (s.link (update i) i).2 + 1))
    (sl.level - level) sl

/-- The backward link of the node after `x`, or else the tail. -/
def setNextBackward (sl : Skiplist Score) (x : Nat) (prev : Option Nat) : Skiplist Score :=
  match (sl.link x 0).1 with
  | some next => sl.setBackward next prev
  | none => { sl with tail := prev }

/-- `slInsert`, the new node: it gets the levels the skip list does not have yet. -/
def addNode (sl : Skiplist Score) (score : Score) (obj : Slobj) (level : Nat) (update : Nat → Nat) :
    Skiplist Score :=
  let raised := raiseLevels update level sl
  { raised with
    level := if level > sl.level then level else sl.level
    nodes := Function.update raised.nodes sl.fresh (slCreateNode level score (some obj))
    fresh := sl.fresh + 1 }

/-- `slInsert`, the links of the new node and those to it, and its backward link. -/
def linkNode (sl : Skiplist Score) (score : Score) (obj : Slobj) (level : Nat)
    (update rank : Nat → Nat) : Skiplist Score :=
  let x := sl.fresh
  let linked := linkLevels x update rank level (addNode sl score obj level update)
  (widenLevels update level linked).setBackward x
    (if update 0 = sl.header then none else some (update 0))

/-- `slInsert`, from where its search has stopped. -/
def insertAt (sl : Skiplist Score) (score : Score) (obj : Slobj) (level : Nat)
    (update rank : Nat → Nat) : Skiplist Score :=
  let last := setNextBackward (linkNode sl score obj level update rank) sl.fresh (some sl.fresh)
  { last with length := last.length + 1 }

/-- `slInsert`, with the level that `slRandomLevel` returns. -/
def slInsert [LinearOrder Score] (sl : Skiplist Score) (score : Score) (obj : Slobj) (level : Nat) :
    Skiplist Score :=
  let found := sl.search fun _ a => sl.before score obj a
  let stops := found ++ List.replicate (level - sl.level) (sl.header, 0)
  insertAt sl score obj level (fun i => (stops.getD i (sl.header, 0)).1)
    (fun i => (stops.getD i (sl.header, 0)).2)

/-- The loop at the end of `slDeleteNode`: levels that the header has no link in are given up. -/
def lowered (link : Nat → Option Nat × Nat) : Nat → Nat
  | 0 => 0
  | level + 1 => if 0 < level ∧ (link level).1 = none then lowered link level else level + 1

/-- `slFreeNode`: no object and no links are left at the address. -/
def slFreeNode (sl : Skiplist Score) (x : Nat) : Skiplist Score :=
  { sl with nodes := Function.update sl.nodes x (slCreateNode 0 (sl.nodes x).score none) }

/-- `slDeleteNode`, its first loop. Spans are unsigned, so that one less than a sum is the same as
the sum with one less. -/
def unlinkLevels (x : Nat) (update : Nat → Nat) (sl : Skiplist Score) : Skiplist Score :=
  eachLevel (fun i s =>
    let l := s.link (update i) i
    if l.1 = some x then s.setLink (update i) i ((s.link x i).1, l.2 + (s.link x i).2 - 1)
    else s.setLink (update i) i (l.1, l.2 - 1)) sl.level sl

/-- `slDeleteNode`. -/
def slDeleteNode (sl : Skiplist Score) (x : Nat) (update : Nat → Nat) : Skiplist Score :=
  let unlinked := unlinkLevels x update sl
  let last := setNextBackward unlinked x (unlinked.nodes x).backward
  { last with level := lowered (last.link last.header) last.level, length := last.length - 1 }

/-- `slDelete`, and whether it found the entry. -/
def slDelete [LinearOrder Score] (sl : Skiplist Score) (score : Score) (obj : Slobj) :
    Bool × Skiplist Score :=
  let found := sl.search fun _ a => sl.before score obj a
  let update := fun i => (found.getD i (sl.header, 0)).1
  match (sl.link (update 0) 0).1 with
  | none => (false, sl)
  | some x =>
      if (sl.nodes x).score = score ∧ (sl.nodes x).obj.any (equalslObj · obj) then
        (true, slFreeNode (slDeleteNode sl x update) x)
      else (false, sl)

/-- The loop of `slDeleteByRank`: as long as there is a node and its rank is not after the end. The
objects that the callback gets, and the skip list. -/
def deleteWhile (update : Nat → Nat) (last : Nat) :
    Nat → Nat → Option Nat → Skiplist Score → List Slobj × Skiplist Score
  | 0, _, _, sl => ([], sl)
  | fuel + 1, traversed, next, sl =>
      match next with
      | none => ([], sl)
      | some x =>
          if traversed ≤ last then
            let rest := deleteWhile update last fuel (traversed + 1) (sl.link x 0).1
              (slFreeNode (slDeleteNode sl x update) x)
            ((sl.nodes x).obj.toList ++ rest.1, rest.2)
          else ([], sl)

/-- `slDeleteByRank`: the objects that it calls back with, in order, and the skip list. It returns
how many there are. -/
def slDeleteByRank (sl : Skiplist Score) (first last : Nat) : List Slobj × Skiplist Score :=
  let found := sl.search fun rank _ => decide (rank < first)
  let update := fun i => (found.getD i (sl.header, 0)).1
  let traversed := (found.getD 0 (sl.header, 0)).2
  deleteWhile update last sl.length (traversed + 1) (sl.link (update 0) 0).1 sl

/-! ## The order of the entries -/

/-- Objects are ordered as their bytes are, the first difference deciding. -/
instance : LinearOrder Slobj :=
  LinearOrder.lift' (fun o => o.ptr.map UInt8.toNat) fun a b same => by
    cases a
    cases b
    congr
    exact List.map_injective_iff.mpr (fun _ _ => UInt8.toNat_inj.mp) same

theorem lt_iff_bytes {a b : Slobj} : a < b ↔ a.ptr.map UInt8.toNat < b.ptr.map UInt8.toNat :=
  Iff.rfl

theorem memcmp_take (as bs : List UInt8) (n : Nat) (whole : as.length ≤ n ∨ bs.length ≤ n) :
    memcmp (as.take n) (bs.take n) = memcmp as bs := by
  induction as generalizing bs n with
  | nil => cases n <;> rfl
  | cons a as ih =>
      cases bs with
      | nil => cases n <;> rfl
      | cons b bs =>
          cases n with
          | zero => simp at whole
          | succ n =>
              simp only [List.length_cons, Nat.add_le_add_iff_right] at whole
              simp only [List.take_succ_cons, memcmp, ih bs n whole]

theorem memcmp_eq_zero {as bs : List UInt8} (same : as.length = bs.length) :
    memcmp as bs = 0 ↔ as = bs := by
  induction as generalizing bs with
  | nil =>
      obtain rfl := List.eq_nil_of_length_eq_zero same.symm
      exact iff_of_true rfl rfl
  | cons a as ih =>
      cases bs with
      | nil => cases same
      | cons b bs =>
          rw [memcmp, List.cons.injEq]
          split_ifs with here less
          · rw [ih (Nat.succ.inj same)]
            exact (and_iff_right here).symm
          · exact iff_of_false (by decide) (fun both => here both.1)
          · exact iff_of_false (by decide) (fun both => here both.1)

theorem memcmp_neg {as bs : List UInt8} :
    as.map UInt8.toNat < bs.map UInt8.toNat ↔
      memcmp as bs < 0 ∨ memcmp as bs = 0 ∧ as.length < bs.length := by
  induction as generalizing bs with
  | nil => cases bs <;> simp [memcmp]
  | cons a as ih =>
      cases bs with
      | nil => simp [memcmp]
      | cons b bs =>
          rw [List.map_cons, List.map_cons, List.cons_lt_cons_iff, ih, memcmp, UInt8.toNat_inj,
            ← UInt8.lt_iff_toNat_lt]
          split_ifs with here less
          · simp [here]
          · simp [here, less]
          · simp [here, less]

/-- Between objects of less than `2 ^ 31` bytes the difference of the lengths is an `int`. -/
theorem compareslObj_eq (a b : Slobj) :
    compareslObj a b =
      if memcmp a.ptr b.ptr = 0 then (a.ptr.length : Int) - b.ptr.length
      else memcmp a.ptr b.ptr := by
  have := a.short
  have := b.short
  have fits : Int.bmod ((a.ptr.length : Int) - b.ptr.length) (2 ^ 32) =
      (a.ptr.length : Int) - b.ptr.length := by
    apply Int.bmod_eq_of_le <;> omega
  have taken : memcmp (a.ptr.take (if a.ptr.length ≤ b.ptr.length then a.ptr.length
      else b.ptr.length)) (b.ptr.take (if a.ptr.length ≤ b.ptr.length then a.ptr.length
      else b.ptr.length)) = memcmp a.ptr b.ptr := by
    apply memcmp_take
    split_ifs
    · exact .inl (Nat.le_refl _)
    · exact .inr (Nat.le_refl _)
  rw [compareslObj]
  simp only [taken, fits]

theorem compareslObj_neg (a b : Slobj) : compareslObj a b < 0 ↔ a < b := by
  rw [compareslObj_eq, lt_iff_bytes, memcmp_neg]
  split_ifs with same
  · simp only [same, lt_irrefl, true_and, false_or]
    omega
  · simp only [same, false_and, or_false]

theorem compareslObj_zero (a b : Slobj) : compareslObj a b = 0 ↔ a = b := by
  have bytes : a = b ↔ a.ptr = b.ptr := by
    cases a
    cases b
    simp
  rw [compareslObj_eq, bytes]
  split_ifs with same
  · constructor
    · intro lengths
      exact (memcmp_eq_zero (by omega)).mp same
    · intro equal
      rw [equal, Int.sub_self]
  · constructor
    · intro zero
      exact absurd zero same
    · intro equal
      exact absurd ((memcmp_eq_zero (congrArg List.length equal)).mpr equal) same

theorem equalslObj_iff (a b : Slobj) : equalslObj a b = true ↔ a = b := by
  rw [equalslObj, beq_iff_eq, compareslObj_zero]

/-! ## What a skip list keeps -/

namespace Skiplist

/-- The score and the object of a node; the header has none. -/
def entry (sl : Skiplist Score) (a : Nat) : Option (Score ×ₗ Slobj) :=
  (sl.nodes a).obj.map fun o => toLex ((sl.nodes a).score, o)

/-- The object of an entry. -/
def objOf (e : Score ×ₗ Slobj) : Slobj := (ofLex e).2

/-- The score of an entry. -/
def scoreOf (e : Score ×ₗ Slobj) : Score := (ofLex e).1

/-- The backward links of the nodes, from the one in front of them to the tail. -/
def Backward (sl : Skiplist Score) (prev : Option Nat) : List Nat → Prop
  | [] => sl.tail = prev
  | a :: rest => (sl.nodes a).backward = prev ∧ Backward sl (some a) rest

/-- A skip list that holds the entries at the nodes `ids`, in this order. -/
structure Repr (sl : Skiplist Score) (ids : List Nat) (entries : List (Score ×ₗ Slobj)) : Prop where
  stored : ids.map sl.entry = entries.map some
  nodup : (sl.header :: ids).Nodup
  allocated : ∀ a ∈ sl.header :: ids, a < sl.fresh
  levels : 0 < sl.level ∧ sl.level ≤ SKIPLIST_MAXLEVEL
  headerEntry : sl.entry sl.header = none
  headerHeight : sl.height sl.header = SKIPLIST_MAXLEVEL
  heights : ∀ a ∈ ids, 0 < sl.height a ∧ sl.height a ≤ sl.level
  linked : Lanes.Linked sl.height sl.link sl.level (sl.header :: ids)
  above : ∀ i, sl.level ≤ i → i < SKIPLIST_MAXLEVEL → (sl.link sl.header i).1 = none
  length : sl.length = ids.length
  backward : sl.Backward none ids

/-- The two skip lists differ in links only. -/
structure SameNodes (sl sl' : Skiplist Score) : Prop where
  obj : ∀ a, (sl'.nodes a).obj = (sl.nodes a).obj
  score : ∀ a, (sl'.nodes a).score = (sl.nodes a).score
  backward : ∀ a, (sl'.nodes a).backward = (sl.nodes a).backward
  height : ∀ a, (sl'.nodes a).height = (sl.nodes a).height
  fresh : sl'.fresh = sl.fresh
  header : sl'.header = sl.header
  tail : sl'.tail = sl.tail
  length : sl'.length = sl.length
  level : sl'.level = sl.level

theorem SameNodes.refl (sl : Skiplist Score) : SameNodes sl sl :=
  ⟨fun _ => rfl, fun _ => rfl, fun _ => rfl, fun _ => rfl, rfl, rfl, rfl, rfl, rfl⟩

theorem SameNodes.trans {sl sl' sl'' : Skiplist Score} (one : SameNodes sl sl')
    (two : SameNodes sl' sl'') : SameNodes sl sl'' where
  obj a := (two.obj a).trans (one.obj a)
  score a := (two.score a).trans (one.score a)
  backward a := (two.backward a).trans (one.backward a)
  height a := (two.height a).trans (one.height a)
  fresh := two.fresh.trans one.fresh
  header := two.header.trans one.header
  tail := two.tail.trans one.tail
  length := two.length.trans one.length
  level := two.level.trans one.level

theorem link_setLink (sl : Skiplist Score) (a i : Nat) (l : Option Nat × Nat) (b j : Nat) :
    (sl.setLink a i l).link b j = if b = a ∧ j = i then l else sl.link b j := by
  rw [link, setLink]
  by_cases node : b = a
  · subst node
    by_cases lane : j = i
    · subst lane
      simp only [Function.update_self, and_self, if_true]
    · simp only [Function.update_self, Function.update_of_ne lane, lane, and_false, if_false, link]
  · simp only [Function.update_of_ne node, node, false_and, if_false, link]

theorem sameNodes_setLink (sl : Skiplist Score) (a i : Nat) (l : Option Nat × Nat) :
    SameNodes sl (sl.setLink a i l) := by
  constructor
  case obj | score | backward | height =>
    intro b
    by_cases node : b = a
    · subst node
      simp only [setLink, Function.update_self]
    · simp only [setLink, Function.update_of_ne node]
  all_goals rfl

/-- A loop whose body changes, in each turn, links of a level of its own, each by a rule that looks
at this level only. -/
theorem link_eachLevel (body : Nat → Skiplist Score → Skiplist Score) (lo : Nat)
    (new : Nat → (Nat → Option Nat × Nat) → Nat → Option Nat × Nat)
    (rule : ∀ k s a j, (body k s).link a j =
      if j = lo + k then new k (fun b => s.link b j) a else s.link a j)
    (n : Nat) (sl : Skiplist Score) (a j : Nat) :
    (eachLevel body n sl).link a j =
      if lo ≤ j ∧ j < lo + n then new (j - lo) (fun b => sl.link b j) a else sl.link a j := by
  induction n generalizing a with
  | zero =>
      rw [if_neg (by omega)]
      rfl
  | succ n ih =>
      rw [eachLevel, rule]
      split_ifs with here inside
      · subst here
        rw [Nat.add_sub_cancel_left]
        congr 1
        funext b
        rw [ih b, if_neg (by omega)]
      · omega
      · rw [ih, if_pos (by omega)]
      · rw [ih, if_neg (by omega)]

theorem link_raiseLevels (update : Nat → Nat) (level : Nat) (sl : Skiplist Score) (a j : Nat) :
    (raiseLevels update level sl).link a j =
      if (sl.level ≤ j ∧ j < level) ∧ a = update j then ((sl.link a j).1, sl.length)
      else sl.link a j := by
  have loop := link_eachLevel
    (fun k s => s.setLink (update (sl.level + k)) (sl.level + k)
      ((s.link (update (sl.level + k)) (sl.level + k)).1, sl.length))
    sl.level
    (fun k f a =>
      if a = update (sl.level + k) then ((f a).1, sl.length) else f a)
    (by grind [link_setLink]) (level - sl.level) sl a j
  rw [raiseLevels, loop]
  grind

theorem link_linkLevels {x : Nat} {update : Nat → Nat} (rank : Nat → Nat) {level : Nat}
    (sl : Skiplist Score) (a j : Nat) :
    (linkLevels x update rank level sl).link a j =
      if j < level then
        if a = update j then (some x, (rank 0 - rank j) + 1)
        else if a = x then
          ((sl.link (update j) j).1, (sl.link (update j) j).2 - (rank 0 - rank j))
        else sl.link a j
      else sl.link a j := by
  have loop := link_eachLevel
    (fun i s =>
      (s.setLink x i ((s.link (update i) i).1, (s.link (update i) i).2 - (rank 0 - rank i))).setLink
        (update i) i (some x, (rank 0 - rank i) + 1))
    0
    (fun i f a =>
      if a = update i then (some x, (rank 0 - rank i) + 1)
      else if a = x then ((f (update i)).1, (f (update i)).2 - (rank 0 - rank i))
      else f a)
    (by grind [link_setLink]) level sl a j
  rw [linkLevels, loop]
  grind

theorem link_widenLevels (update : Nat → Nat) (level : Nat) (sl : Skiplist Score) (a j : Nat) :
    (widenLevels update level sl).link a j =
      if (level ≤ j ∧ j < sl.level) ∧ a = update j then ((sl.link a j).1, (sl.link a j).2 + 1)
      else sl.link a j := by
  have loop := link_eachLevel
    (fun k s => s.setLink (update (level + k)) (level + k)
      ((s.link (update (level + k)) (level + k)).1, (s.link (update (level + k)) (level + k)).2 + 1))
    level
    (fun k f a => if a = update (level + k) then ((f a).1, (f a).2 + 1) else f a)
    (by grind [link_setLink]) (sl.level - level) sl a j
  rw [widenLevels, loop]
  grind

theorem link_unlinkLevels {x : Nat} {update : Nat → Nat} (sl : Skiplist Score) (a j : Nat) :
    (unlinkLevels x update sl).link a j =
      if j < sl.level ∧ a = update j then
        if (sl.link a j).1 = some x then ((sl.link x j).1, (sl.link a j).2 + (sl.link x j).2 - 1)
        else ((sl.link a j).1, (sl.link a j).2 - 1)
      else sl.link a j := by
  have loop := link_eachLevel
    (fun i s =>
      if (s.link (update i) i).1 = some x then
        s.setLink (update i) i ((s.link x i).1, (s.link (update i) i).2 + (s.link x i).2 - 1)
      else s.setLink (update i) i ((s.link (update i) i).1, (s.link (update i) i).2 - 1))
    0
    (fun i f a =>
      if a = update i then
        if (f a).1 = some x then ((f x).1, (f a).2 + (f x).2 - 1) else ((f a).1, (f a).2 - 1)
      else f a)
    (by grind [link_setLink]) sl.level sl a j
  rw [unlinkLevels, loop]
  grind

theorem sameNodes_eachLevel {body : Nat → Skiplist Score → Skiplist Score}
    (keeps : ∀ k s, SameNodes s (body k s)) (n : Nat) (sl : Skiplist Score) :
    SameNodes sl (eachLevel body n sl) := by
  induction n with
  | zero => exact .refl sl
  | succ n ih => exact ih.trans (keeps n _)

theorem sameNodes_raiseLevels (update : Nat → Nat) (level : Nat) (sl : Skiplist Score) :
    SameNodes sl (raiseLevels update level sl) :=
  sameNodes_eachLevel (fun _ s => sameNodes_setLink s _ _ _) _ sl

theorem sameNodes_linkLevels (x : Nat) (update rank : Nat → Nat) (level : Nat)
    (sl : Skiplist Score) : SameNodes sl (linkLevels x update rank level sl) :=
  sameNodes_eachLevel
    (fun _ s => (sameNodes_setLink s _ _ _).trans (sameNodes_setLink _ _ _ _)) _ sl

theorem sameNodes_widenLevels (update : Nat → Nat) (level : Nat) (sl : Skiplist Score) :
    SameNodes sl (widenLevels update level sl) :=
  sameNodes_eachLevel (fun _ s => sameNodes_setLink s _ _ _) _ sl

theorem sameNodes_unlinkLevels (x : Nat) (update : Nat → Nat) (sl : Skiplist Score) :
    SameNodes sl (unlinkLevels x update sl) := by
  apply sameNodes_eachLevel
  intro i s
  simp only
  split_ifs <;> exact sameNodes_setLink s _ _ _

@[simp]
theorem link_setBackward (sl : Skiplist Score) (a : Nat) (p : Option Nat) :
    (sl.setBackward a p).link = sl.link := by
  funext b j
  by_cases node : b = a
  · subst node
    simp only [link, setBackward, Function.update_self]
  · simp only [link, setBackward, Function.update_of_ne node]

@[simp]
theorem entry_setBackward (sl : Skiplist Score) (a : Nat) (p : Option Nat) :
    (sl.setBackward a p).entry = sl.entry := by
  funext b
  by_cases node : b = a
  · subst node
    simp only [entry, setBackward, Function.update_self]
  · simp only [entry, setBackward, Function.update_of_ne node]

@[simp]
theorem height_setBackward (sl : Skiplist Score) (a : Nat) (p : Option Nat) :
    (sl.setBackward a p).height = sl.height := by
  funext b
  by_cases node : b = a
  · subst node
    simp only [height, setBackward, Function.update_self]
  · simp only [height, setBackward, Function.update_of_ne node]

theorem backward_setBackward (sl : Skiplist Score) (a : Nat) (p : Option Nat) (b : Nat) :
    ((sl.setBackward a p).nodes b).backward = if b = a then p else (sl.nodes b).backward := by
  split_ifs with node
  · simp only [node, setBackward, Function.update_self]
  · simp only [setBackward, Function.update_of_ne node]

/-- What `setNextBackward` leaves as it was. -/
theorem setNextBackward_frame (sl : Skiplist Score) (x : Nat) (p : Option Nat) :
    (setNextBackward sl x p).link = sl.link ∧ (setNextBackward sl x p).entry = sl.entry ∧
      (setNextBackward sl x p).height = sl.height ∧ (setNextBackward sl x p).fresh = sl.fresh ∧
      (setNextBackward sl x p).header = sl.header ∧ (setNextBackward sl x p).length = sl.length ∧
      (setNextBackward sl x p).level = sl.level := by
  rw [setNextBackward]
  split
  · exact ⟨link_setBackward .., entry_setBackward .., height_setBackward .., rfl, rfl, rfl, rfl⟩
  · exact ⟨rfl, rfl, rfl, rfl, rfl, rfl, rfl⟩

theorem backward_setNextBackward (sl : Skiplist Score) (x : Nat) (p : Option Nat) (b : Nat) :
    ((setNextBackward sl x p).nodes b).backward =
      if (sl.link x 0).1 = some b then p else (sl.nodes b).backward := by
  rw [setNextBackward]
  split
  next next after =>
    rw [after, backward_setBackward]
    exact if_congr (by rw [Option.some.injEq, eq_comm]) rfl rfl
  next none =>
    rw [none, if_neg (by simp)]

theorem tail_setNextBackward (sl : Skiplist Score) (x : Nat) (p : Option Nat) :
    (setNextBackward sl x p).tail = if (sl.link x 0).1 = none then p else sl.tail := by
  rw [setNextBackward]
  split
  next next after => rw [after, if_neg (by simp), setBackward]
  next none => rw [none, if_pos rfl]

theorem SameNodes.entry_eq {sl sl' : Skiplist Score} (same : SameNodes sl sl') (a : Nat) :
    sl'.entry a = sl.entry a := by
  rw [entry, entry, same.obj, same.score]

theorem Backward.congr {sl sl' : Skiplist Score} {prev : Option Nat} {ids : List Nat}
    (backward : sl.Backward prev ids) (tail : sl'.tail = sl.tail)
    (nodes : ∀ a ∈ ids, (sl'.nodes a).backward = (sl.nodes a).backward) :
    sl'.Backward prev ids := by
  induction ids generalizing prev with
  | nil => exact tail.trans backward
  | cons a ids ih =>
      rw [List.forall_mem_cons] at nodes
      exact ⟨nodes.1.trans backward.1, ih backward.2 nodes.2⟩

/-- A node `x` is put between two others: it points back to the one, and the other to it. -/
theorem Backward.insert {sl sl' : Skiplist Score} {prev : Option Nat} {front rest : List Nat}
    {x : Nat} (backward : sl.Backward prev (front ++ rest)) (nodup : (front ++ rest).Nodup)
    (here : (sl'.nodes x).backward = front.getLast?.or prev)
    (next : ∀ a, rest.head? = some a → (sl'.nodes a).backward = some x)
    (other : ∀ a ∈ front ++ rest, rest.head? ≠ some a →
      (sl'.nodes a).backward = (sl.nodes a).backward)
    (tail : sl'.tail = if rest.head? = none then some x else sl.tail) :
    sl'.Backward prev (front ++ x :: rest) := by
  induction front generalizing prev with
  | nil =>
      refine ⟨here, ?_⟩
      cases rest with
      | nil => exact tail
      | cons b rest =>
          refine ⟨next b rfl, backward.2.congr tail ?_⟩
          intro c member
          apply other c (List.mem_cons_of_mem _ member)
          intro same
          obtain rfl : b = c := Option.some.inj same
          exact (List.nodup_cons.mp nodup).1 member
  | cons a front ih =>
      have once := List.nodup_cons.mp nodup
      constructor
      · refine (other a List.mem_cons_self fun same => ?_).trans backward.1
        exact once.1 (List.mem_append_right _ (List.mem_of_head? same))
      · apply ih backward.2 once.2
        · rw [here, List.getLast?_cons]
          cases front.getLast? <;> rfl
        · intro b member
          exact other b (List.mem_cons_of_mem _ member)

/-- A node `x` is taken from between two others: the one after it points back to where `x` did. -/
theorem Backward.remove {sl sl' : Skiplist Score} {prev : Option Nat} {front rest : List Nat}
    {x : Nat} (backward : sl.Backward prev (front ++ x :: rest))
    (nodup : (front ++ x :: rest).Nodup)
    (next : ∀ a, rest.head? = some a → (sl'.nodes a).backward = (sl.nodes x).backward)
    (other : ∀ a ∈ front ++ rest, rest.head? ≠ some a →
      (sl'.nodes a).backward = (sl.nodes a).backward)
    (tail : sl'.tail = if rest.head? = none then (sl.nodes x).backward else sl.tail) :
    sl'.Backward prev (front ++ rest) := by
  induction front generalizing prev with
  | nil =>
      cases rest with
      | nil => exact tail.trans backward.1
      | cons b rest =>
          refine ⟨(next b rfl).trans backward.1, backward.2.2.congr tail ?_⟩
          intro c member
          apply other c (List.mem_cons_of_mem _ member)
          intro same
          obtain rfl : b = c := Option.some.inj same
          exact (List.nodup_cons.mp (List.nodup_cons.mp nodup).2).1 member
  | cons a front ih =>
      have once := List.nodup_cons.mp nodup
      constructor
      · refine (other a List.mem_cons_self fun same => ?_).trans backward.1
        apply once.1
        exact List.mem_append_right _ (List.mem_cons_of_mem _ (List.mem_of_head? same))
      · apply ih backward.2 once.2
        intro b member
        exact other b (List.mem_cons_of_mem _ member)

end Skiplist

end RillServer.Zset
