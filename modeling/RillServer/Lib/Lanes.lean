import Mathlib.Data.List.Nodup
import Mathlib.Tactic.SplitIfs

/-!
# Linked lists with express lanes

The elements of a chain have heights, and lane `i` links those that are higher than `i`. Each link
comes with its span, the distance in the whole chain that it covers. `ahead` is what a link must be,
`Linked` says that all of them are so.

A search goes along the highest lane as long as it may, then along the next one, down to lane `0`
(`descend`). When what it may pass is a part of the chain up to some place, its stops are, in each
lane, the last element in front of that place, with its position (`descend_spec`). An element is
linked in at that place or unlinked there by changing the links of these stops only
(`Linked.insert`, `Linked.remove`).
-/

namespace Lanes

variable {α : Type} {height : α → Nat} {link : α → Nat → Option α × Nat}

/-- The next element of lane `i` and its distance; without one, how many elements there are. -/
def ahead (height : α → Nat) (i : Nat) : List α → Option α × Nat
  | [] => (none, 0)
  | b :: rest =>
      if i < height b then (some b, 1)
      else ((ahead height i rest).1, (ahead height i rest).2 + 1)

/-- Every element of the chain is linked to what is ahead of it, in all its lanes below `top`. -/
def Linked (height : α → Nat) (link : α → Nat → Option α × Nat) (top : Nat) : List α → Prop
  | [] => True
  | a :: rest =>
      (∀ i, i < top → i < height a → link a i = ahead height i rest) ∧ Linked height link top rest

/-- A stop of lane `i`, with its position: the last element of `front` that is higher than `i`, with
`mid` after it. -/
def LastIn (height : α → Nat) (i : Nat) (front : List α) (stop : α × Nat) (mid : List α) : Prop :=
  i < height stop.1 ∧ (∀ b ∈ mid, height b ≤ i) ∧
    ∃ before, front = before ++ stop.1 :: mid ∧ stop.2 = before.length

/-- The condition holds for the elements of `front` at their positions, the first one apart, and for
none of the elements after them. -/
structure Cut (go : Nat → α → Bool) (front rest : List α) : Prop where
  passes : ∀ k b, 0 < k → front[k]? = some b → go k b = true
  stops : ∀ k b, rest[k]? = some b → go (front.length + k) b = false

/-- Go along lane `i` as long as the condition holds for the position and the element ahead. -/
def walk (link : α → Nat → Option α × Nat) (go : Nat → α → Bool) (i : Nat) :
    Nat → α → Nat → α × Nat
  | 0, a, rank => (a, rank)
  | fuel + 1, a, rank =>
      match (link a i).1 with
      | none => (a, rank)
      | some b =>
          if go (rank + (link a i).2) b then walk link go i fuel b (rank + (link a i).2)
          else (a, rank)

/-- Go along the lanes below the given one, the highest first. Its stops, that of lane `i` at
index `i`. -/
def descend (link : α → Nat → Option α × Nat) (go : Nat → α → Bool) (fuel : Nat) :
    Nat → α → Nat → List (α × Nat)
  | 0, _, _ => []
  | i + 1, a, rank =>
      let stop := walk link go i fuel a rank
      descend link go fuel i stop.1 stop.2 ++ [stop]

theorem ahead_append_of_low {i : Nat} {mid : List α} (low : ∀ b ∈ mid, height b ≤ i)
    (rest : List α) :
    ahead height i (mid ++ rest) =
      ((ahead height i rest).1, (ahead height i rest).2 + mid.length) := by
  induction mid with
  | nil => rfl
  | cons b mid ih =>
      rw [List.forall_mem_cons] at low
      rw [List.cons_append, ahead, if_neg (Nat.not_lt.mpr low.1), ih low.2, List.length_cons]
      simp only [Nat.add_assoc]

theorem ahead_append_of_high {i : Nat} {mid : List α} {b : α} (member : b ∈ mid)
    (high : i < height b) (rest rest' : List α) :
    ahead height i (mid ++ rest) = ahead height i (mid ++ rest') := by
  induction mid with
  | nil => cases member
  | cons c mid ih =>
      rw [List.cons_append, List.cons_append, ahead, ahead]
      split_ifs with here
      · rfl
      · rcases List.mem_cons.mp member with same | later
        · rw [same] at high
          exact absurd high here
        · rw [ih later]

/-- The first element of a lane is in the chain, and higher than the lane. -/
theorem mem_of_ahead {i : Nat} {rest : List α} {b : α} (found : (ahead height i rest).1 = some b) :
    ∃ mid after, rest = mid ++ b :: after ∧ i < height b ∧ (∀ c ∈ mid, height c ≤ i) ∧
      (ahead height i rest).2 = mid.length + 1 := by
  induction rest with
  | nil => cases found
  | cons c rest ih =>
      rw [ahead] at found ⊢
      split_ifs at found ⊢ with here
      · obtain rfl : c = b := Option.some.inj found
        exact ⟨[], rest, rfl, here, List.forall_mem_nil _, rfl⟩
      · obtain ⟨mid, after, rfl, high, low, span⟩ := ih found
        exact ⟨c :: mid, after, rfl, high, List.forall_mem_cons.mpr ⟨Nat.not_lt.mp here, low⟩,
          congrArg (· + 1) span⟩

theorem low_of_ahead {i : Nat} {rest : List α} (none : (ahead height i rest).1 = none) :
    ∀ b ∈ rest, height b ≤ i := by
  induction rest with
  | nil => exact List.forall_mem_nil _
  | cons c rest ih =>
      rw [ahead] at none
      split_ifs at none with here
      exact List.forall_mem_cons.mpr ⟨Nat.not_lt.mp here, ih none⟩

theorem ahead_of_low {i : Nat} {rest : List α} (low : ∀ b ∈ rest, height b ≤ i) :
    ahead height i rest = (none, rest.length) := by
  have whole := ahead_append_of_low low []
  rw [List.append_nil] at whole
  rw [whole, ahead, Nat.zero_add]

/-- Lane `0` goes through all elements. -/
theorem ahead_zero {rest : List α} (high : ∀ b ∈ rest, 0 < height b) :
    (ahead height 0 rest).1 = rest.head? := by
  cases rest with
  | nil => rfl
  | cons b rest => rw [ahead, if_pos (high b List.mem_cons_self), List.head?_cons]

theorem ahead_congr {height' : α → Nat} {i : Nat} {rest : List α}
    (same : ∀ b ∈ rest, height' b = height b) : ahead height' i rest = ahead height i rest := by
  induction rest with
  | nil => rfl
  | cons b rest ih =>
      rw [List.forall_mem_cons] at same
      rw [ahead, ahead, same.1, ih same.2]

theorem Linked.congr {height' : α → Nat} {link' : α → Nat → Option α × Nat} {top : Nat}
    {chain : List α} (linked : Linked height link top chain)
    (heights : ∀ a ∈ chain, height' a = height a)
    (links : ∀ a ∈ chain, ∀ i, i < top → i < height a → link' a i = link a i) :
    Linked height' link' top chain := by
  induction chain with
  | nil => exact True.intro
  | cons a rest ih =>
      rw [List.forall_mem_cons] at heights links
      constructor
      · intro i inside high
        rw [heights.1] at high
        rw [links.1 i inside high, ahead_congr heights.2]
        exact linked.1 i inside high
      · exact ih linked.2 heights.2 links.2

theorem Linked.mono {top top' : Nat} (less : top' ≤ top) {chain : List α}
    (linked : Linked height link top chain) : Linked height link top' chain := by
  induction chain with
  | nil => exact True.intro
  | cons a rest ih =>
      exact ⟨fun i inside => linked.1 i (Nat.lt_of_lt_of_le inside less), ih linked.2⟩

theorem Linked.of_append {top : Nat} {front rest : List α}
    (linked : Linked height link top (front ++ rest)) : Linked height link top rest := by
  induction front with
  | nil => exact linked
  | cons a front ih => exact ih linked.2

/-- Lanes above all elements but the first one may be added, with links of the first that cover the
whole chain. -/
theorem Linked.raise {link' : α → Nat → Option α × Nat} {top top' : Nat} {first : α} {rest : List α}
    (linked : Linked height link top (first :: rest)) (low : ∀ a ∈ rest, height a ≤ top)
    (kept : ∀ a, ∀ i, i < top → link' a i = link a i)
    (new : ∀ i, top ≤ i → i < top' → link' first i = (none, rest.length)) :
    Linked height link' top' (first :: rest) := by
  constructor
  · intro i inside high
    by_cases below : i < top
    · rw [kept first i below]
      exact linked.1 i below high
    · rw [new i (Nat.not_lt.mp below) inside, ahead_of_low]
      exact fun a member => Nat.le_trans (low a member) (Nat.not_lt.mp below)
  · have whole := linked.2.congr (fun _ _ => rfl) (fun a _ i inside _ => kept a i inside)
    clear linked new
    induction rest with
    | nil => exact True.intro
    | cons a rest ih =>
        rw [List.forall_mem_cons] at low
        constructor
        · intro i _ high
          exact whole.1 i (Nat.lt_of_lt_of_le high low.1) high
        · exact ih low.2 whole.2

/-- The link of an element inside of the chain. -/
theorem Linked.link_eq {top i : Nat} {front rest : List α} {a : α}
    (linked : Linked height link top (front ++ a :: rest)) (inside : i < top)
    (high : i < height a) : link a i = ahead height i rest :=
  linked.of_append.1 i inside high

/-! ## Searching -/

variable {top : Nat} {front rest : List α} {go : Nat → α → Bool}

theorem Cut.go_eq (cut : Cut go front rest) {k : Nat} {b : α} (later : 0 < k)
    (place : (front ++ rest)[k]? = some b) : go k b = decide (k < front.length) := by
  by_cases within : k < front.length
  · rw [List.getElem?_append_left within] at place
    rw [cut.passes k b later place, decide_eq_true within]
  · rw [List.getElem?_append_right (Nat.not_lt.mp within)] at place
    have beyond := cut.stops _ b place
    rw [Nat.add_sub_cancel' (Nat.not_lt.mp within)] at beyond
    rw [beyond, decide_eq_false within]

/-- An element of two lists one after the other is in the first, or all of the first is in front of
it. -/
theorem mem_of_append_eq {mid rest skipped after : List α} {b : α}
    (parts : mid ++ rest = skipped ++ b :: after) :
    (∃ mid', mid = skipped ++ b :: mid') ∨ ∃ more, skipped = mid ++ more := by
  rcases List.append_eq_append_iff.mp parts with ⟨more, outside, _⟩ | ⟨more, inside, same⟩
  · exact .inr ⟨more, outside⟩
  · cases more with
    | nil => exact .inr ⟨[], by rw [inside, List.append_nil, List.append_nil]⟩
    | cons b' mid' =>
        obtain ⟨rfl, _⟩ := List.cons.inj same
        exact .inl ⟨mid', inside⟩

/-- From an element of the front, a lane leads to its last element in the front. -/
theorem walk_spec (linked : Linked height link top (front ++ rest)) (cut : Cut go front rest)
    {i : Nat} (inside : i < top) (fuel : Nat) {before mid : List α} {a : α}
    (here : front = before ++ a :: mid) (high : i < height a) (enough : mid.length ≤ fuel) :
    ∃ mid', LastIn height i front (walk link go i fuel a before.length) mid' ∧
      mid'.length ≤ mid.length := by
  induction fuel generalizing before mid a with
  | zero =>
      obtain rfl : mid = [] := List.eq_nil_of_length_eq_zero (Nat.le_zero.mp enough)
      exact ⟨[], ⟨high, List.forall_mem_nil _, before, here, rfl⟩, Nat.le_refl _⟩
  | succ fuel ih =>
      have whole : front ++ rest = before ++ a :: (mid ++ rest) := by
        rw [here, List.append_assoc, List.cons_append]
      have there : link a i = ahead height i (mid ++ rest) :=
        Linked.link_eq (whole ▸ linked) inside high
      rw [walk, there]
      split
      next none =>
        have low := low_of_ahead none
        exact ⟨mid, ⟨high, fun b member => low b (List.mem_append_left _ member), before, here, rfl⟩,
          Nat.le_refl _⟩
      next b found =>
        obtain ⟨skipped, after, parts, higher, low, span⟩ := mem_of_ahead found
        have place : (front ++ rest)[before.length + (skipped.length + 1)]? = some b := by
          rw [whole, parts, List.getElem?_append_right (Nat.le_add_right _ _),
            Nat.add_sub_cancel_left, List.getElem?_cons_succ,
            List.getElem?_append_right (Nat.le_refl _), Nat.sub_self, List.getElem?_cons_zero]
        have frontLength : front.length = before.length + (mid.length + 1) := by
          rw [here, List.length_append, List.length_cons]
        rw [span, cut.go_eq (Nat.lt_add_left _ (Nat.succ_pos _)) place, frontLength]
        rcases mem_of_append_eq parts with ⟨mid', inMid⟩ | ⟨more, beyond⟩
        · have position : before.length + (skipped.length + 1) = (before ++ a :: skipped).length := by
            rw [List.length_append, List.length_cons]
          have midLength : mid.length = skipped.length + (mid'.length + 1) := by
            rw [inMid, List.length_append, List.length_cons]
          rw [if_pos (decide_eq_true (by omega)), position]
          have next : front = (before ++ a :: skipped) ++ b :: mid' := by
            rw [here, inMid, List.append_assoc, List.cons_append]
          obtain ⟨last, stop, shorter⟩ := ih next higher (by omega)
          exact ⟨last, stop, by omega⟩
        · have skippedLength : skipped.length = mid.length + more.length := by
            rw [beyond, List.length_append]
          rw [if_neg (by rw [decide_eq_true_eq]; omega)]
          have lowMid : ∀ c ∈ mid, height c ≤ i := by
            intro c member
            apply low
            rw [beyond]
            exact List.mem_append_left _ member
          exact ⟨mid, ⟨high, lowMid, before, here, rfl⟩, Nat.le_refl _⟩

/-- The stop of every lane is the last element of its lane in front of the cut. -/
theorem descend_spec (linked : Linked height link top (front ++ rest)) (cut : Cut go front rest)
    {fuel lanes : Nat} (inside : lanes ≤ top) {before mid : List α} {a : α}
    (here : front = before ++ a :: mid) (high : lanes ≤ height a) (enough : mid.length ≤ fuel) :
    (descend link go fuel lanes a before.length).length = lanes ∧
      ∀ i, i < lanes → ∃ stop mid',
        (descend link go fuel lanes a before.length)[i]? = some stop ∧
          LastIn height i front stop mid' := by
  induction lanes generalizing before mid a with
  | zero => exact ⟨rfl, fun i less => absurd less (Nat.not_lt_zero i)⟩
  | succ lane ih =>
      obtain ⟨mid', stop, shorter⟩ := walk_spec linked cut inside fuel here high enough
      obtain ⟨higher, low, before', there, position⟩ := stop
      have lower := ih (Nat.le_of_succ_le inside) there (Nat.le_of_lt higher) (by omega)
      rw [← position] at lower
      rw [descend]
      constructor
      · rw [List.length_append, lower.1, List.length_singleton]
      · intro i less
        rcases Nat.lt_or_eq_of_le (Nat.le_of_lt_succ less) with below | rfl
        · rw [List.getElem?_append_left (by rw [lower.1]; exact below)]
          exact lower.2 i below
        · rw [List.getElem?_append_right (Nat.le_of_eq lower.1), lower.1, Nat.sub_self]
          exact ⟨_, mid', rfl, higher, low, before', there, position⟩

/-- Where a condition on sorted elements, which holds of what is less when it holds, stops to hold. -/
theorem eq_decide_takeWhile {β : Type} {p : β → Bool} {l : List β}
    (down : l.Pairwise fun a b => p b = true → p a = true) {k : Nat} {b : β}
    (place : l[k]? = some b) : p b = decide (k < (l.takeWhile p).length) := by
  induction l generalizing k with
  | nil => cases place
  | cons a l ih =>
      obtain ⟨first, later⟩ := List.pairwise_cons.mp down
      by_cases holds : p a = true
      · rw [List.takeWhile_cons_of_pos holds, List.length_cons]
        cases k with
        | zero =>
            obtain rfl : a = b := Option.some.inj place
            rw [holds, decide_eq_true (Nat.succ_pos _)]
        | succ k =>
            rw [ih later place]
            exact decide_eq_decide.mpr Nat.add_lt_add_iff_right.symm
      · rw [List.takeWhile_cons_of_neg holds, List.length_nil, decide_eq_false (Nat.not_lt_zero k)]
        cases k with
        | zero =>
            obtain rfl : a = b := Option.some.inj place
            exact Bool.eq_false_iff.mpr holds
        | succ k =>
            apply Bool.eq_false_iff.mpr
            intro other
            exact holds (first b (List.mem_of_getElem? place) other)

theorem take_takeWhile {β : Type} (p : β → Bool) (l : List β) :
    l.take (l.takeWhile p).length = l.takeWhile p := by
  nth_rewrite 2 [← List.takeWhile_append_dropWhile (p := p) (l := l)]
  exact List.take_left

theorem drop_takeWhile {β : Type} (p : β → Bool) (l : List β) :
    l.drop (l.takeWhile p).length = l.dropWhile p := by
  nth_rewrite 2 [← List.takeWhile_append_dropWhile (p := p) (l := l)]
  exact List.drop_left

/-- The sorted elements that satisfy such a condition are the first ones. -/
theorem filter_eq_takeWhile {β : Type} {p : β → Bool} {l : List β}
    (down : l.Pairwise fun a b => p b = true → p a = true) : l.filter p = l.takeWhile p := by
  induction l with
  | nil => rfl
  | cons a l ih =>
      obtain ⟨first, later⟩ := List.pairwise_cons.mp down
      rw [List.filter_cons, List.takeWhile_cons]
      split_ifs with holds
      · rw [ih later]
      · apply List.filter_eq_nil_iff.mpr
        intro b member other
        exact holds (first b member other)

/-- The others are the rest. -/
theorem filter_not_eq_dropWhile {β : Type} {p : β → Bool} {l : List β}
    (down : l.Pairwise fun a b => p b = true → p a = true) :
    (l.filter fun b => !p b) = l.dropWhile p := by
  induction l with
  | nil => rfl
  | cons a l ih =>
      obtain ⟨first, later⟩ := List.pairwise_cons.mp down
      rw [List.filter_cons, List.dropWhile_cons]
      by_cases holds : p a = true
      · rw [holds, if_neg (by decide), if_pos rfl, ih later]
      · rw [Bool.not_eq_true] at holds
        rw [holds, if_pos Bool.not_false, if_neg Bool.false_ne_true]
        congr 1
        apply List.filter_eq_self.mpr
        intro b member
        rw [Bool.not_eq_true', ← Bool.not_eq_true]
        intro other
        rw [first b member other] at holds
        cases holds

/-! ## Linking in and unlinking -/

variable {link' : α → Nat → Option α × Nat} {stops : Nat → α × Nat} {mid : Nat → List α} {x : α}

/-- Being linked, said of every place of the chain. -/
theorem linked_iff {chain : List α} :
    Linked height link top chain ↔
      ∀ before a after, chain = before ++ a :: after →
        ∀ i, i < top → i < height a → link a i = ahead height i after := by
  constructor
  · intro linked before a after whole i inside high
    exact Linked.link_eq (whole ▸ linked) inside high
  · intro every
    induction chain with
    | nil => exact True.intro
    | cons a rest ih =>
        constructor
        · exact every [] a rest rfl
        · apply ih
          intro before b after whole
          exact every (a :: before) b after (by rw [whole, List.cons_append])

/-- An element of the front that is in the lane is its stop, or the lane goes on in the front. -/
theorem LastIn.eq_or_high {i : Nat} {s : α × Nat} {m : List α} (stop : LastIn height i front s m)
    (nodup : front.Nodup) {before mid' : List α} {a : α} (here : front = before ++ a :: mid')
    (high : i < height a) :
    a = s.1 ∧ mid' = m ∨ a ≠ s.1 ∧ ∃ b ∈ mid', i < height b := by
  obtain ⟨higher, low, before', there, -⟩ := stop
  by_cases same : a = s.1
  · left
    have parts : before ++ a :: mid' = before' ++ s.1 :: m := by rw [← here, there]
    rw [here, same] at nodup
    have once := List.nodup_cons.mp (List.nodup_middle.mp nodup)
    rw [List.mem_append, not_or] at once
    obtain ⟨-, -, mids⟩ := (List.append_cons_inj_of_notMem once.1.1 once.1.2).mp parts
    exact ⟨same, mids⟩
  · right
    refine ⟨same, ?_⟩
    have parts : before ++ a :: mid' = before' ++ s.1 :: m := by rw [← here, there]
    rcases List.append_eq_append_iff.mp parts with ⟨more, _, tail⟩ | ⟨more, _, tail⟩
    · cases more with
      | nil => exact absurd (List.cons.inj tail).1 same
      | cons c more =>
          refine ⟨s.1, ?_, higher⟩
          rw [(List.cons.inj tail).2]
          exact List.mem_append_right _ List.mem_cons_self
    · cases more with
      | nil => exact absurd (List.cons.inj tail).1.symm same
      | cons c more =>
          have member : a ∈ m := by
            rw [(List.cons.inj tail).2]
            exact List.mem_append_right _ List.mem_cons_self
          exact absurd high (Nat.not_lt.mpr (low a member))

theorem LastIn.mem {i : Nat} {s : α × Nat} {m : List α} (stop : LastIn height i front s m) :
    s.1 ∈ front := by
  obtain ⟨-, -, before, here, -⟩ := stop
  rw [here]
  exact List.mem_append_right _ List.mem_cons_self

theorem LastIn.congr {height' : α → Nat} {i : Nat} {s : α × Nat} {m : List α}
    (stop : LastIn height i front s m) (same : ∀ a ∈ front, height' a = height a) :
    LastIn height' i front s m := by
  have member := stop.mem
  obtain ⟨high, low, before, here, position⟩ := stop
  refine ⟨by rwa [same _ member], fun b inMid => ?_, before, here, position⟩
  rw [same b (by rw [here]; exact List.mem_append_right _ (List.mem_cons_of_mem _ inMid))]
  exact low b inMid

/-- A stop is at its position. -/
theorem LastIn.getElem? {i : Nat} {s : α × Nat} {m : List α} (stop : LastIn height i front s m) :
    front[s.2]? = some s.1 := by
  obtain ⟨-, -, before, here, position⟩ := stop
  rw [here, position, List.getElem?_append_right (Nat.le_refl _), Nat.sub_self,
    List.getElem?_cons_zero]

/-- What is after a stop, by its position. -/
theorem LastIn.mid_eq {i : Nat} {s : α × Nat} {m : List α} (stop : LastIn height i front s m) :
    m = front.drop (s.2 + 1) := by
  obtain ⟨-, -, before, here, position⟩ := stop
  rw [here, position, List.drop_append, List.drop_eq_nil_of_le (Nat.le_succ _),
    Nat.add_sub_cancel_left]
  rfl

/-- In lane `0` the stop is the last element of the front. -/
theorem LastIn.last {s : α × Nat} {m : List α} (stop : LastIn height 0 front s m)
    (high : ∀ b ∈ m, 0 < height b) : front = front.take s.2 ++ [s.1] ∧ front.length = s.2 + 1 := by
  obtain ⟨-, low, before, here, position⟩ := stop
  obtain rfl : m = [] := by
    apply List.eq_nil_iff_forall_not_mem.mpr
    intro b member
    exact absurd (high b member) (Nat.not_lt.mpr (low b member))
  rw [here, position]
  simp

/-- What the stop of a lane was linked to. -/
theorem Linked.link_stop {i : Nat} {s : α × Nat} {m : List α}
    (linked : Linked height link top (front ++ rest)) (inside : i < top)
    (stop : LastIn height i front s m) :
    link s.1 i = ((ahead height i rest).1, (ahead height i rest).2 + m.length) := by
  obtain ⟨high, low, before, here, -⟩ := stop
  have whole : front ++ rest = before ++ s.1 :: (m ++ rest) := by
    rw [here, List.append_assoc, List.cons_append]
  rw [whole] at linked
  rw [linked.link_eq inside high, ahead_append_of_low low]

/-- Link `x` in after the front: its lanes take over from the stops, which it becomes the next of,
and in the lanes above the stops have one element more to cover. -/
theorem Linked.insert (linked : Linked height link top (front ++ rest))
    (nodup : (front ++ x :: rest).Nodup)
    (stop : ∀ i, i < top → LastIn height i front (stops i) (mid i))
    (others : ∀ a ∈ front ++ rest, ∀ i, i < top → a ≠ (stops i).1 → link' a i = link a i)
    (new : ∀ i, i < top → i < height x →
      link' x i = ((link (stops i).1 i).1, (link (stops i).1 i).2 - (mid i).length))
    (reached : ∀ i, i < top → i < height x → link' (stops i).1 i = (some x, (mid i).length + 1))
    (passed : ∀ i, i < top → height x ≤ i →
      link' (stops i).1 i = ((link (stops i).1 i).1, (link (stops i).1 i).2 + 1)) :
    Linked height link' top (front ++ x :: rest) := by
  have old := linked_iff.mp linked
  have apart := List.nodup_append.mp nodup
  apply linked_iff.mpr
  intro before a after whole i inside high
  rcases mem_of_append_eq whole with ⟨mid', inFront⟩ | ⟨more, beyond⟩
  · have parts : after = mid' ++ x :: rest := by
      rw [inFront, List.append_assoc, List.cons_append] at whole
      exact (List.cons.inj (List.append_cancel_left whole)).2.symm
    rcases (stop i inside).eq_or_high apart.1 inFront high with ⟨here, mids⟩ | ⟨other, b, member, up⟩
    · have was := linked.link_stop inside (stop i inside)
      rw [parts, mids, here, ahead_append_of_low (stop i inside).2.1, ahead]
      split_ifs with reaches
      · rw [reached i inside reaches, Nat.add_comm]
      · rw [passed i inside (Nat.not_lt.mp reaches), was, Nat.add_right_comm]
    · have member' : a ∈ front ++ rest := by
        rw [inFront, List.append_assoc]
        exact List.mem_append_right _ List.mem_cons_self
      rw [others a member' i inside other, parts, ahead_append_of_high member up _ rest]
      apply old before a (mid' ++ rest) _ i inside high
      rw [inFront, List.append_assoc, List.cons_append]
  · rw [beyond, List.append_assoc, List.append_cancel_left_eq] at whole
    cases more with
    | nil =>
        obtain ⟨rfl, rfl⟩ := List.cons.inj whole
        have was := linked.link_stop inside (stop i inside)
        rw [new i inside high, was, Nat.add_sub_cancel]
    | cons c more =>
        have inRest : rest = more ++ a :: after := (List.cons.inj whole).2
        have member : a ∈ rest := by
          rw [inRest]
          exact List.mem_append_right _ List.mem_cons_self
        have other : a ≠ (stops i).1 :=
          Ne.symm (apart.2.2 _ (stop i inside).mem _ (List.mem_cons_of_mem _ member))
        rw [others a (List.mem_append_right _ member) i inside other]
        apply old (front ++ more) a after _ i inside high
        rw [inRest, List.append_assoc]

/-- Unlink `x` after the front: the stops that were linked to it take over its links, and the stops
of the lanes above have one element less to cover. -/
theorem Linked.remove (linked : Linked height link top (front ++ x :: rest))
    (nodup : (front ++ x :: rest).Nodup)
    (stop : ∀ i, i < top → LastIn height i front (stops i) (mid i))
    (others : ∀ a ∈ front ++ rest, ∀ i, i < top → a ≠ (stops i).1 → link' a i = link a i)
    (reached : ∀ i, i < top → (link (stops i).1 i).1 = some x →
      link' (stops i).1 i = ((link x i).1, (link (stops i).1 i).2 + (link x i).2 - 1))
    (passed : ∀ i, i < top → (link (stops i).1 i).1 ≠ some x →
      link' (stops i).1 i = ((link (stops i).1 i).1, (link (stops i).1 i).2 - 1)) :
    Linked height link' top (front ++ rest) := by
  have old := linked_iff.mp linked
  have apart := List.nodup_append.mp nodup
  apply linked_iff.mpr
  intro before a after whole i inside high
  rcases mem_of_append_eq whole with ⟨mid', inFront⟩ | ⟨more, beyond⟩
  · have parts : after = mid' ++ rest := by
      rw [inFront, List.append_assoc, List.cons_append] at whole
      exact (List.cons.inj (List.append_cancel_left whole)).2.symm
    rcases (stop i inside).eq_or_high apart.1 inFront high with ⟨here, mids⟩ | ⟨other, b, member, up⟩
    · have was := linked.link_stop inside (stop i inside)
      rw [parts, mids, here, ahead_append_of_low (stop i inside).2.1]
      by_cases reaches : i < height x
      · have mine := linked.link_eq inside reaches
        rw [ahead, if_pos reaches] at was
        rw [reached i inside (by rw [was]), was, mine]
        congr 1
        simp only
        omega
      · rw [ahead, if_neg reaches] at was
        have away : (link (stops i).1 i).1 ≠ some x := by
          rw [was]
          intro found
          obtain ⟨skipped, last, rfl, -⟩ := mem_of_ahead found
          have once := (List.nodup_cons.mp apart.2.1).1
          exact once (List.mem_append_right _ List.mem_cons_self)
        rw [passed i inside away, was]
        congr 1
        simp only
        omega
    · have member' : a ∈ front ++ rest := by
        rw [inFront, List.append_assoc]
        exact List.mem_append_right _ List.mem_cons_self
      rw [others a member' i inside other, parts,
        ahead_append_of_high member up _ (x :: rest)]
      apply old before a (mid' ++ x :: rest) _ i inside high
      rw [inFront, List.append_assoc, List.cons_append]
  · rw [beyond, List.append_assoc, List.append_cancel_left_eq] at whole
    have member : a ∈ rest := by
      rw [whole]
      exact List.mem_append_right _ List.mem_cons_self
    have other : a ≠ (stops i).1 :=
      Ne.symm (apart.2.2 _ (stop i inside).mem _ (List.mem_cons_of_mem _ member))
    rw [others a (List.mem_append_right _ member) i inside other]
    apply old (front ++ x :: more) a after _ i inside high
    rw [whole, List.append_assoc, List.cons_append]

end Lanes
