import RillServer.Lib.TimingWheel
import RillServer.Skynet.Calls

/-!
# The timer

`skynet_timer.c`: timeouts lie in lists by their expiry, an unsigned 32-bit number, `near` for each of
the next 256 ticks and four levels of 64 slots behind them. `Timer.slot` and `Timer.shiftSlot` are the
slots that `add_node` and `timer_shift` find with masks and shifts; they are those of a hierarchical
timing wheel, whatever the tick is at which the 32 bits overflow (`slot_eq_place`,
`shiftSlot_eq_turned`).
-/

namespace RillServer.Skynet

def TIME_NEAR_SHIFT : Nat := 8
def TIME_NEAR : Nat := 1 <<< TIME_NEAR_SHIFT
def TIME_LEVEL_SHIFT : Nat := 6
def TIME_LEVEL : Nat := 1 <<< TIME_LEVEL_SHIFT
def TIME_NEAR_MASK : Nat := TIME_NEAR - 1
def TIME_LEVEL_MASK : Nat := TIME_LEVEL - 1

/-- `struct timer_event`. -/
structure TimerEvent where
  handle : Handle
  session : Session
  deriving DecidableEq

/-- `struct timer_node`. -/
structure TimerNode where
  expire : Nat
  event : TimerEvent
  deriving DecidableEq

/-- `struct timer`: `lists` has `near` and `t`. -/
structure Timer where
  lists : TimingWheel.Slot → List TimerNode
  time : Nat
  current : Nat
  current_point : Nat

namespace Timer

open TimingWheel

/-- The loop of `add_node`: the level of a time. -/
def addLevel (time current_time : Nat) : Nat → Nat → Nat → Nat
  | 0, i, _ => i
  | fuel + 1, i, mask =>
      if time ||| (mask - 1) = current_time ||| (mask - 1) then i
      else addLevel time current_time fuel (i + 1) (mask <<< TIME_LEVEL_SHIFT)

/-- The list of `add_node`. -/
def slot (current_time time : Nat) : Slot :=
  if time ||| TIME_NEAR_MASK = current_time ||| TIME_NEAR_MASK then .near (time &&& TIME_NEAR_MASK)
  else
    let i := addLevel time current_time 3 0 (TIME_NEAR <<< TIME_LEVEL_SHIFT)
    .coarse i ((time >>> (TIME_NEAR_SHIFT + i * TIME_LEVEL_SHIFT)) &&& TIME_LEVEL_MASK)

/-- `add_node`. -/
def add_node (T : Timer) (node : TimerNode) : Timer :=
  let s := slot T.time node.expire
  { T with lists := Function.update T.lists s (T.lists s ++ [node]) }

/-- `timer_add`. -/
def timer_add (T : Timer) (event : TimerEvent) (time : Nat) : Timer :=
  add_node T ⟨(time + T.time) % 2 ^ 32, event⟩

/-- `move_list`. -/
def move_list (T : Timer) (s : Slot) : Timer :=
  (T.lists s).foldl add_node { T with lists := Function.update T.lists s [] }

/-- The loop of `timer_shift`: the list that is to be moved. Its mask has 26 bits at most, for `ct` is
not `0`. -/
def shiftLoop (ct : Nat) : Nat → Nat → Nat → Nat → Option Slot
  | 0, _, _, _ => none
  | fuel + 1, i, mask, time =>
      if ct &&& (mask - 1) = 0 then
        let idx := time &&& TIME_LEVEL_MASK
        if idx ≠ 0 then some (.coarse i idx)
        else shiftLoop ct fuel (i + 1) (mask <<< TIME_LEVEL_SHIFT) (time >>> TIME_LEVEL_SHIFT)
      else none

/-- The list that `timer_shift` moves. -/
def shiftSlot (ct : Nat) : Option Slot :=
  if ct = 0 then some (.coarse 3 0) else shiftLoop ct 4 0 TIME_NEAR (ct >>> TIME_NEAR_SHIFT)

/-- `timer_shift`. -/
def timer_shift (T : Timer) : Timer :=
  let ct := (T.time + 1) % 2 ^ 32
  let shifted := { T with time := ct }
  match shiftSlot ct with
  | none => shifted
  | some s => move_list shifted s

/-- The list that `timer_execute` takes. -/
def due (T : Timer) : Slot := .near (T.time &&& TIME_NEAR_MASK)

/-- What it leaves. -/
def clearDue (T : Timer) : Timer := { T with lists := Function.update T.lists T.due [] }

/-- `timer_create_timer`, and the clocks as `skynet_timer_init` finds them. -/
def timer_create_timer (current current_point : Nat) : Timer where
  lists := fun _ => []
  time := 0
  current := current
  current_point := current_point

/-! ## Slots -/

/-- The wheel of the timer. -/
def shape : Shape := ⟨8, 6, 3⟩

theorem gran_eq (i : Nat) : gran shape i = 2 ^ (8 + 6 * i) := rfl

/-- Times agree above a mask. -/
theorem or_mask_eq_iff (a b k : Nat) :
    a ||| (2 ^ k - 1) = b ||| (2 ^ k - 1) ↔ a / 2 ^ k = b / 2 ^ k := by
  have above : ∀ x : Nat, (x ||| (2 ^ k - 1)) >>> k = x / 2 ^ k := by
    intro x
    rw [Nat.shiftRight_or_distrib, Nat.shiftRight_eq_div_pow (2 ^ k - 1),
      Nat.div_eq_of_lt (Nat.sub_lt (Nat.two_pow_pos k) Nat.one_pos), Nat.or_zero,
      Nat.shiftRight_eq_div_pow]
  constructor
  · intro same
    rw [← above a, same, above]
  · intro same
    apply Nat.eq_of_testBit_eq
    intro i
    rw [Nat.testBit_or, Nat.testBit_or, Nat.testBit_two_pow_sub_one]
    by_cases low : i < k
    · simp [low]
    · have high := congrArg (Nat.testBit · (i - k)) same
      simp only [Nat.testBit_div_two_pow, Nat.sub_add_cancel (Nat.not_lt.mp low)] at high
      rw [high]

/-- An expiry that is ahead by less than half of the 32 bits has as many bits in common with the time as
the ticks have that they stand for. -/
theorem agree_iff {t d i : Nat} (le_three : i ≤ 3) (later : t ≤ d) (bound : d < t + 2 ^ 31) :
    d % 2 ^ 32 / 2 ^ (8 + 6 * i) = t % 2 ^ 32 / 2 ^ (8 + 6 * i) ↔
      t / gran shape i = d / gran shape i := by
  rw [gran_eq]
  have split : (2 : Nat) ^ 32 = 2 ^ (8 + 6 * i) * 2 ^ (24 - 6 * i) := by
    rw [← Nat.pow_add]
    congr 1
    omega
  have half : (2 : Nat) ^ 31 = 2 ^ (8 + 6 * i) * 2 ^ (23 - 6 * i) := by
    rw [← Nat.pow_add]
    congr 1
    omega
  have twice : (2 : Nat) ^ (24 - 6 * i) = 2 * 2 ^ (23 - 6 * i) := by
    rw [← Nat.pow_succ']
    congr 1
    omega
  have low : t / 2 ^ (8 + 6 * i) ≤ d / 2 ^ (8 + 6 * i) := Nat.div_le_div_right later
  have high : d / 2 ^ (8 + 6 * i) ≤ t / 2 ^ (8 + 6 * i) + 2 ^ (23 - 6 * i) := by
    rw [← Nat.add_mul_div_left _ _ (Nat.two_pow_pos _), ← half]
    exact Nat.div_le_div_right (Nat.le_of_lt bound)
  rw [split, Nat.mod_mul_right_div_self, Nat.mod_mul_right_div_self]
  constructor
  · intro same
    have none := Nat.sub_mod_eq_zero_of_mod_eq same
    have some := Nat.two_pow_pos (23 - 6 * i)
    rw [Nat.mod_eq_of_lt (by omega)] at none
    omega
  · intro same
    rw [same]

theorem and_mask (x : Nat) : x &&& TIME_LEVEL_MASK = x % 2 ^ 6 := Nat.and_two_pow_sub_one_eq_mod x 6

/-- The 32 bits of a tick have the indices of its slots. -/
theorem index_eq {i : Nat} (le_three : i ≤ 3) (t : Nat) :
    t % 2 ^ 32 / 2 ^ (8 + 6 * i) % 2 ^ 6 = t / gran shape i % 2 ^ 6 := by
  have split : (2 : Nat) ^ 32 = 2 ^ (8 + 6 * i) * (2 ^ 6 * 2 ^ (18 - 6 * i)) := by
    rw [← Nat.pow_add, ← Nat.pow_add]
    congr 1
    omega
  rw [gran_eq, split, Nat.mod_mul_right_div_self, Nat.mod_mul_right_mod]

theorem shift_mask (i : Nat) :
    2 ^ (8 + 6 * i) <<< TIME_LEVEL_SHIFT = 2 ^ (8 + 6 * (i + 1)) := by
  rw [Nat.shiftLeft_eq, TIME_LEVEL_SHIFT, ← Nat.pow_add]
  rfl

theorem addLevel_eq {t d fuel i : Nat} (whole : i + fuel = 3) (later : t ≤ d)
    (bound : d < t + 2 ^ 31) :
    addLevel (d % 2 ^ 32) (t % 2 ^ 32) fuel i (2 ^ (8 + 6 * (i + 1))) =
      levelFrom shape t d fuel i := by
  induction fuel generalizing i with
  | zero => rfl
  | succ fuel ih =>
      have agree := agree_iff (i := i + 1) (by omega) later bound
      have rest := ih (i := i + 1) (by omega)
      simp only [addLevel, levelFrom, or_mask_eq_iff, agree, shift_mask, rest]

/-- `add_node` finds the slot of the wheel. -/
theorem slot_eq_place {t d : Nat} (later : t ≤ d) (bound : d < t + 2 ^ 31) :
    slot (t % 2 ^ 32) (d % 2 ^ 32) = place shape t d := by
  have near : d % 2 ^ 32 ||| TIME_NEAR_MASK = t % 2 ^ 32 ||| TIME_NEAR_MASK ↔
      t / gran shape 0 = d / gran shape 0 :=
    (or_mask_eq_iff _ _ 8).trans (agree_iff (Nat.zero_le 3) later bound)
  rw [slot, place]
  by_cases agree : t / gran shape 0 = d / gran shape 0
  · rw [if_pos (near.mpr agree), if_pos agree]
    congr 1
    exact (Nat.and_two_pow_sub_one_eq_mod _ 8).trans (Nat.mod_mod_of_dvd d ⟨2 ^ 24, rfl⟩)
  · rw [if_neg (fun same => agree (near.mp same)), if_neg agree]
    have level : addLevel (d % 2 ^ 32) (t % 2 ^ 32) 3 0 (TIME_NEAR <<< TIME_LEVEL_SHIFT) =
        levelFrom shape t d 3 0 := addLevel_eq (i := 0) rfl later bound
    have le_three : levelFrom shape t d 3 0 ≤ 3 :=
      (levelFrom_spec (w := shape) (i := 0) rfl agree).le_top
    simp only [level, and_mask]
    congr 1
    rw [Nat.shiftRight_eq_div_pow, Nat.mul_comm]
    exact index_eq le_three d

/-- A tick whose 32 bits end in zeros. -/
theorem low_bits {t i : Nat} (le_three : i ≤ 3) (divides : gran shape i ∣ t) :
    t % 2 ^ 32 &&& (2 ^ (8 + 6 * i) - 1) = 0 := by
  have whole : 2 ^ (8 + 6 * i) ∣ 2 ^ 32 := Nat.pow_dvd_pow 2 (by omega)
  rw [Nat.and_two_pow_sub_one_eq_mod, Nat.mod_mod_of_dvd t whole]
  exact Nat.mod_eq_zero_of_dvd divides

/-- The loop of `timer_shift` finds the slot that comes up. -/
theorem shiftLoop_eq {t fuel i : Nat} (whole : i + fuel = 3) (some_bit : t % 2 ^ 32 ≠ 0)
    (divides : gran shape i ∣ t) :
    shiftLoop (t % 2 ^ 32) (fuel + 1) i (2 ^ (8 + 6 * i)) (t % 2 ^ 32 / 2 ^ (8 + 6 * i)) =
      some (turnedFrom shape t fuel i) := by
  have index : t % 2 ^ 32 / 2 ^ (8 + 6 * i) &&& TIME_LEVEL_MASK = t / gran shape i % 2 ^ shape.level := by
    rw [and_mask, index_eq (by omega)]
    rfl
  induction fuel generalizing i with
  | zero =>
      have some_index : t / gran shape i % 2 ^ shape.level ≠ 0 := by
        obtain rfl : i = 3 := whole
        intro none
        exact some_bit (Nat.mod_eq_zero_of_dvd ((gran_succ_dvd divides).mpr none))
      rw [shiftLoop, if_pos (low_bits (by omega) divides)]
      simp only [index, if_pos some_index]
      rfl
  | succ fuel ih =>
      rw [shiftLoop, turnedFrom, if_pos (low_bits (by omega) divides)]
      simp only [index]
      by_cases some_index : t / gran shape i % 2 ^ shape.level ≠ 0
      · rw [if_pos some_index, if_pos some_index]
      · rw [if_neg some_index, if_neg some_index, shift_mask]
        have more := (gran_succ_dvd divides).mpr (not_not.mp some_index)
        have time : (t % 2 ^ 32 / 2 ^ (8 + 6 * i)) >>> TIME_LEVEL_SHIFT =
            t % 2 ^ 32 / 2 ^ (8 + 6 * (i + 1)) := by
          rw [Nat.shiftRight_eq_div_pow, Nat.div_div_eq_div_mul, TIME_LEVEL_SHIFT, ← Nat.pow_add]
          rfl
        rw [time]
        apply ih (by omega) more
        rw [and_mask, index_eq (by omega)]
        rfl

/-- `timer_shift` moves the slot that comes up. -/
theorem shiftSlot_eq_turned (t : Nat) : shiftSlot (t % 2 ^ 32) = turned shape t := by
  rw [shiftSlot]
  by_cases none : t % 2 ^ 32 = 0
  · -- all four indices are zero
    have divides : ∀ i ≤ 4, gran shape i ∣ t := fun i le_four =>
      Nat.dvd_trans (gran_dvd le_four) (Nat.dvd_of_mod_eq_zero none)
    have zero : ∀ i < 4, t / gran shape i % 2 ^ shape.level = 0 := fun i less =>
      (gran_succ_dvd (divides i (by omega))).mp (divides (i + 1) less)
    rw [if_pos none, turned, if_pos (divides 0 (by omega))]
    change _ = some (turnedFrom shape t 3 0)
    simp only [turnedFrom, zero 0 (by omega), zero 1 (by omega), zero 2 (by omega),
      zero 3 (by omega), ne_eq, not_true, if_false]
  · rw [if_neg none, turned]
    by_cases divides : gran shape 0 ∣ t
    · rw [if_pos divides]
      have loop : shiftLoop (t % 2 ^ 32) 4 0 (2 ^ (8 + 6 * 0)) (t % 2 ^ 32 / 2 ^ (8 + 6 * 0)) =
          some (turnedFrom shape t 3 0) := shiftLoop_eq rfl none divides
      rw [Nat.shiftRight_eq_div_pow]
      exact loop
    · rw [if_neg divides, shiftLoop, if_neg]
      intro low
      have last : t % 2 ^ 32 % 2 ^ 8 = 0 := (Nat.and_two_pow_sub_one_eq_mod _ 8).symm.trans low
      have whole : 2 ^ 8 ∣ 2 ^ 32 := ⟨2 ^ 24, rfl⟩
      rw [Nat.mod_mod_of_dvd t whole] at last
      exact divides (Nat.dvd_of_mod_eq_zero last)

/-! ## Lists -/

theorem foldl_add_node (T : Timer) (nodes : List TimerNode) :
    nodes.foldl add_node T =
      { T with lists := refile (fun node => slot T.time node.expire) T.lists nodes } := by
  induction nodes generalizing T with
  | nil => rfl
  | cons node nodes ih =>
      rw [List.foldl_cons, ih]
      rfl

/-- A list moved. -/
theorem move_list_eq (T : Timer) (s : Slot) :
    move_list T s =
      { T with lists := refile (fun node => slot T.time node.expire) (Function.update T.lists s [])
                 (T.lists s) } :=
  foldl_add_node _ _

variable {α : Type}

/-- Lists that hold the nodes of entries, in their order, where a wheel at tick `t` has them. -/
def Holds (T : Timer) (t : Nat) (entries : List α) (due : α → Nat) (node : α → TimerNode) : Prop :=
  ∀ s, T.lists s = (entries.filter fun x => place shape t (due x) = s).map node

/-- The entries are due later than tick `t`, by less than half of the 32 bits. -/
def Ahead (t : Nat) (entries : List α) (due : α → Nat) (node : α → TimerNode) : Prop :=
  ∀ x ∈ entries, t < due x ∧ due x < t + 2 ^ 31 ∧ (node x).expire = due x % 2 ^ 32

variable {T : Timer} {t : Nat} {entries : List α} {due : α → Nat} {node : α → TimerNode}

/-- `timer_shift` keeps the nodes where a wheel has them. -/
theorem Holds.timer_shift (holds : Holds T t entries due node) (time : T.time = t % 2 ^ 32)
    (ahead : Ahead t entries due node) :
    Holds T.timer_shift (t + 1) entries due node ∧
      T.timer_shift = { T with time := (t + 1) % 2 ^ 32, lists := T.timer_shift.lists } := by
  have ct : (T.time + 1) % 2 ^ 32 = (t + 1) % 2 ^ 32 := by
    rw [time, Nat.mod_add_mod]
  rw [Timer.timer_shift]
  simp only [ct, shiftSlot_eq_turned]
  cases turn : turned shape (t + 1) with
  | none =>
      refine ⟨fun s => ?_, rfl⟩
      simp only [place_unturned turn]
      exact holds s
  | some s =>
      simp only [move_list_eq]
      refine ⟨fun s' => ?_, trivial⟩
      apply turn_spec turn
      · exact fun x among => (ahead x among).1
      · intro x among
        obtain ⟨_, bound, _⟩ := ahead x among
        have half : 2 ^ 31 = gran shape 3 * 2 ^ 5 := rfl
        have less : due x / gran shape 3 ≤ (t + 1) / gran shape 3 + 2 ^ 5 := by
          rw [← Nat.add_mul_div_left _ _ (gran_pos 3), ← half]
          exact Nat.div_le_div_right (by omega)
        exact Nat.lt_of_le_of_lt less (Nat.add_lt_add_left (by decide) _)
      · exact holds
      · intro x among
        obtain ⟨later, bound, expire⟩ := ahead x among
        rw [expire]
        exact slot_eq_place later (by omega)

/-- `add_node` of another entry. -/
theorem Holds.add_node (holds : Holds T t entries due node) (time : T.time = t % 2 ^ 32) {x : α}
    (later : t ≤ due x) (bound : due x < t + 2 ^ 31) (expire : (node x).expire = due x % 2 ^ 32) :
    Holds (T.add_node (node x)) t (entries ++ [x]) due node := by
  have here : slot T.time (node x).expire = place shape t (due x) := by
    rw [time, expire]
    exact slot_eq_place later bound
  intro s
  rw [List.filter_append, List.map_append, ← holds, Timer.add_node]
  simp only [here, Function.update_apply]
  split_ifs with same
  · rw [same, List.filter_singleton, decide_eq_true rfl]
    rfl
  · rw [List.filter_singleton, decide_eq_false (Ne.symm same)]
    exact (List.append_nil _).symm

theorem due_eq (time : T.time = t % 2 ^ 32) : T.due = .near (t % gran shape 0) := by
  rw [Timer.due, time]
  congr 1
  exact (Nat.and_two_pow_sub_one_eq_mod _ 8).trans (Nat.mod_mod_of_dvd t ⟨2 ^ 24, rfl⟩)

/-- Only what is due now is where `timer_execute` looks. -/
theorem place_eq_due {d : Nat} : place shape t d = .near (t % gran shape 0) ↔ d = t := by
  constructor
  · intro here
    rcases place_cases (w := shape) t d with ⟨agree, placed⟩ | ⟨i, _, placed⟩
    · have index := Slot.near.inj (placed.symm.trans here)
      rw [← Nat.div_add_mod d (gran shape 0), index, ← agree, Nat.div_add_mod]
    · cases placed.symm.trans here
  · rintro rfl
    exact if_pos rfl

/-- `timer_execute` finds what is due now, and leaves the rest where it is. -/
theorem Holds.take (holds : Holds T t entries due node) (time : T.time = t % 2 ^ 32) :
    T.lists T.due = (entries.filter fun x => due x = t).map node ∧
      Holds T.clearDue t (entries.filter fun x => due x ≠ t) due node := by
  have here : ∀ x, (place shape t (due x) = T.due) ↔ due x = t := fun x => by
    rw [due_eq time]
    exact place_eq_due
  constructor
  · rw [holds]
    simp only [here]
  · intro s
    rw [clearDue, List.filter_filter]
    simp only [Function.update_apply]
    split_ifs with same
    · rw [eq_comm, List.map_eq_nil_iff, List.filter_eq_nil_iff]
      intro x _
      simpa [same] using (here x).mp
    · rw [holds]
      congr 1
      apply List.filter_congr
      intro x _
      by_cases placed : place shape t (due x) = s
      · have later : due x ≠ t := fun now => same (placed.symm.trans ((here x).mpr now))
        simp [placed, later]
      · simp [placed]

end Timer

end RillServer.Skynet
