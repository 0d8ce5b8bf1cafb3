import Mathlib.Data.List.Range
import Mathlib.Data.Nat.ModEq
import Mathlib.Tactic.SplitIfs
import Mathlib.Logic.Function.Basic

/-!
# A ring buffer that grows when it is full

Entries are written at `tail` and read at `head`, both of which wrap at `cap`. The buffer is empty
when the two coincide, so it must never be filled: the push that makes them coincide moves the
entries, oldest first, to a buffer with `grow` more slots.

`toList` is the queue that a ring stands for. `push` appends to it (`toList_push`), `pop` takes its
first entry (`pop_eq_none_iff`, `toList_of_pop`), and popping until there is nothing left returns
all of it (`drain_spec`).
-/

/-- A ring of `cap` slots, of which those from `head` up to `tail` are in use. -/
structure RingBuffer (α : Type) (grow : Nat) where
  cap : Nat
  head : Nat
  tail : Nat
  slots : Nat → α
  headInside : head < cap
  tailInside : tail < cap

namespace RingBuffer

variable {α : Type} {grow : Nat}

/-- A ring with `grow` unused slots. -/
def empty [Inhabited α] [NeZero grow] : RingBuffer α grow where
  cap := grow
  head := 0
  tail := 0
  slots := fun _ => default
  headInside := Nat.pos_of_ne_zero (NeZero.ne grow)
  tailInside := Nat.pos_of_ne_zero (NeZero.ne grow)

/-- The slot after `i`. -/
def advance (r : RingBuffer α grow) (i : Nat) : Nat :=
  if i + 1 ≥ r.cap then i + 1 - r.cap else i + 1

theorem advance_lt (r : RingBuffer α grow) {i : Nat} (inside : i < r.cap) :
    r.advance i < r.cap := by
  unfold advance
  split <;> omega

/-- Write an entry at the tail; when the tail then meets the head, copy the entries in order to the
start of a larger ring. -/
def push [NeZero grow] (r : RingBuffer α grow) (a : α) : RingBuffer α grow :=
  let slots := Function.update r.slots r.tail a
  let tail := r.advance r.tail
  if r.head = tail then
    { cap := r.cap + grow
      head := 0
      tail := r.cap
      slots := fun i => slots ((r.head + i) % r.cap)
      headInside := Nat.lt_of_lt_of_le (Nat.zero_lt_of_lt r.headInside) (Nat.le_add_right _ _)
      tailInside := Nat.lt_add_of_pos_right (Nat.pos_of_ne_zero (NeZero.ne grow)) }
  else { r with slots := slots, tail := tail, tailInside := r.advance_lt r.tailInside }

/-- Take the entry at the head, if there is one. -/
def pop (r : RingBuffer α grow) : Option (α × RingBuffer α grow) :=
  if r.head = r.tail then none
  else
    some (r.slots r.head,
      { r with head := r.advance r.head, headInside := r.advance_lt r.headInside })

/-- How many entries there are. -/
def size (r : RingBuffer α grow) : Nat :=
  if r.tail < r.head then r.tail + r.cap - r.head else r.tail - r.head

/-- The entries, oldest first. -/
def toList (r : RingBuffer α grow) : List α :=
  (List.range r.size).map fun i => r.slots ((r.head + i) % r.cap)

/-- Pop at most `fuel` times, until there is nothing left. -/
def popMany : Nat → RingBuffer α grow → List α × RingBuffer α grow
  | 0, r => ([], r)
  | fuel + 1, r =>
      match r.pop with
      | none => ([], r)
      | some (a, r') => (a :: (popMany fuel r').1, (popMany fuel r').2)

/-- Pop until there is nothing left. A ring never holds `cap` entries, so this many tries do. -/
def drain (r : RingBuffer α grow) : List α × RingBuffer α grow := popMany r.cap r

theorem size_lt (r : RingBuffer α grow) : r.size < r.cap := by
  have := r.headInside
  have := r.tailInside
  unfold size
  split <;> omega

theorem toList_eq_nil_iff (r : RingBuffer α grow) : r.toList = [] ↔ r.head = r.tail := by
  have := r.headInside
  have := r.tailInside
  simp only [toList, List.map_eq_nil_iff, List.range_eq_nil, size]
  split <;> omega

/-- The tail is the slot after the last entry. -/
theorem tail_eq (r : RingBuffer α grow) : r.tail = (r.head + r.size) % r.cap := by
  have := r.headInside
  have := r.tailInside
  unfold size
  split
  · rw [Nat.add_sub_cancel' (by omega), Nat.add_mod_right, Nat.mod_eq_of_lt r.tailInside]
  · rw [Nat.add_sub_cancel' (by omega), Nat.mod_eq_of_lt r.tailInside]

/-- Slots at different distances from the head are different. -/
theorem slot_ne (r : RingBuffer α grow) {i j : Nat} (less : i < j) (inside : j < r.cap) :
    (r.head + i) % r.cap ≠ (r.head + j) % r.cap := by
  intro same
  have shifted : Nat.ModEq r.cap i j := Nat.ModEq.add_left_cancel' r.head same
  have : i = j := Nat.ModEq.eq_of_lt_of_lt shifted (by omega) inside
  omega

/-- Writing at the tail appends to the entries, seen as a run of slots from the head. -/
theorem slots_update_tail (r : RingBuffer α grow) (a : α) :
    ((List.range (r.size + 1)).map fun i =>
        Function.update r.slots r.tail a ((r.head + i) % r.cap)) = r.toList ++ [a] := by
  rw [List.range_succ, List.map_append, toList]
  congr 1
  · apply List.map_congr_left
    intro i member
    have less : i < r.size := List.mem_range.mp member
    rw [Function.update_of_ne]
    rw [tail_eq]
    exact r.slot_ne less r.size_lt
  · simp [← tail_eq]

@[simp]
theorem toList_push [NeZero grow] (r : RingBuffer α grow) (a : α) :
    (r.push a).toList = r.toList ++ [a] := by
  have headInside := r.headInside
  have tailInside := r.tailInside
  rw [← slots_update_tail]
  simp only [push]
  split
  next full =>
    -- the ring was one short of full, and the larger one starts with all its slots
    have all : r.size + 1 = r.cap := by
      unfold advance at full
      unfold size
      split at full <;> split <;> omega
    rw [all]
    simp only [toList, size, Nat.not_lt_zero, if_false, Nat.sub_zero, Nat.zero_add]
    apply List.map_congr_left
    intro i member
    have less : i < r.cap := List.mem_range.mp member
    rw [Nat.mod_eq_of_lt (Nat.lt_add_right grow less)]
  next room =>
    have more : (if r.advance r.tail < r.head then r.advance r.tail + r.cap - r.head
        else r.advance r.tail - r.head) = r.size + 1 := by
      unfold advance at room ⊢
      unfold size
      split_ifs at room ⊢ <;> omega
    simp only [toList, size] at more ⊢
    rw [more]

theorem pop_eq_none_iff (r : RingBuffer α grow) : r.pop = none ↔ r.toList = [] := by
  rw [toList_eq_nil_iff]
  unfold pop
  split <;> simp_all

theorem toList_of_pop {r r' : RingBuffer α grow} {a : α} (popped : r.pop = some (a, r')) :
    r.toList = a :: r'.toList := by
  have headInside := r.headInside
  have tailInside := r.tailInside
  unfold pop at popped
  split at popped
  · cases popped
  next some =>
    obtain ⟨rfl, rfl⟩ := Prod.mk.inj (Option.some.inj popped)
    have one : r.size = (if r.tail < r.advance r.head then r.tail + r.cap - r.advance r.head
        else r.tail - r.advance r.head) + 1 := by
      unfold size advance
      split_ifs <;> omega
    simp only [toList, size] at one ⊢
    rw [one, List.range_succ_eq_map, List.map_cons, List.map_map]
    congr 1
    · rw [Nat.add_zero, Nat.mod_eq_of_lt headInside]
    · apply List.map_congr_left
      intro i _
      have : (r.head + (i + 1)) % r.cap = (r.advance r.head + i) % r.cap := by
        unfold advance
        split
        next wraps =>
          rw [show r.head + (i + 1) = (r.head + 1 - r.cap + i) + r.cap by omega, Nat.add_mod_right]
        next => rw [Nat.add_right_comm, Nat.add_assoc]
      simp [this]

theorem popMany_spec (fuel : Nat) (r : RingBuffer α grow) (enough : r.toList.length ≤ fuel) :
    (popMany fuel r).1 = r.toList ∧ (popMany fuel r).2.toList = [] := by
  induction fuel generalizing r with
  | zero =>
      have nothing : r.toList = [] := List.length_eq_zero_iff.mp (by omega)
      simp [popMany, nothing]
  | succ fuel ih =>
      unfold popMany
      cases popped : r.pop with
      | none =>
          have nothing := (pop_eq_none_iff r).mp popped
          simp [nothing]
      | some result =>
          have entries := toList_of_pop popped
          rw [entries, List.length_cons] at enough
          obtain ⟨all, nothing⟩ := ih result.2 (by omega)
          simp [all, nothing, entries]

/-- Draining returns all entries in order and leaves none. -/
theorem drain_spec (r : RingBuffer α grow) : r.drain.1 = r.toList ∧ r.drain.2.toList = [] := by
  apply popMany_spec
  have := r.size_lt
  rw [toList, List.length_map, List.length_range]
  omega

end RingBuffer
