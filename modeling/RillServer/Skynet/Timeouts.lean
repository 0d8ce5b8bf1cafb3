import Mathlib.Algebra.Ring.Int.Defs
import RillServer.Lib.Machine
import RillServer.Skynet.Timer

/-!
# Timeouts

Any thread may set a timeout whenever the lock of the timer is free: between two updates of the timer
thread, and while it dispatches a list. `Timeouts.fires_on_time`: in every run a timeout of `d` ticks
fires once, `d` ticks after it was set, and timeouts that are due at the same tick fire in the order in
which they were set. `Timeouts.clock_ahead` relates ticks to `skynet_now`.
-/

namespace RillServer.Skynet

namespace Timeouts

open TimingWheel

/-- Where the timer thread has released the lock. -/
inductive Stage : Type where
  /-- Outside of `timer_update`. -/
  | idle
  /-- In `dispatch_list`, before the shift. -/
  | before (batch : List TimerNode)
  /-- In `dispatch_list`, after the shift. -/
  | after (batch : List TimerNode)

/-- What is still to be dispatched. -/
def Stage.batch : Stage → List TimerNode
  | .idle => []
  | .before batch | .after batch => batch

/-- The timer, and how many shifts `skynet_updatetime` has still to do. The last four are what has
happened: the number of shifts, the timeouts that were added, each with the tick at which it is due, the
messages that were sent, each with the tick, and those that were sent by `skynet_timeout` itself. -/
structure State where
  timer : Timer
  remaining : Nat
  stage : Stage
  ticks : Nat
  added : List (Nat × TimerEvent)
  fired : List (Nat × TimerEvent)
  direct : List TimerEvent

/-- What a thread does: it sets a timeout, or the timer thread reads its clock, or goes on. -/
inductive Move : Type where
  | timeout (event : TimerEvent) (time : Int)
  | update (cp : Nat)
  | go

/-- `skynet_updatetime`, but for its loop. -/
def skynet_updatetime (st : State) (cp : Nat) : State :=
  if cp < st.timer.current_point then { st with timer := { st.timer with current_point := cp } }
  else if cp ≠ st.timer.current_point then
    let diff := (cp - st.timer.current_point) % 2 ^ 32
    { st with
      timer := { st.timer with current_point := cp, current := (st.timer.current + diff) % 2 ^ 64 }
      remaining := diff }
  else st

/-- `timer_execute` after the shift, until it releases the lock. -/
def executeAfter (st : State) : State :=
  match st.timer.lists st.timer.due with
  | [] => { st with stage := .idle }
  | batch => { st with timer := st.timer.clearDue, stage := .after batch }

/-- `timer_update` from its first `timer_execute` on, until it releases the lock. -/
def executeBefore (st : State) : State :=
  match st.timer.lists st.timer.due with
  | [] =>
      executeAfter
        { st with
          timer := st.timer.timer_shift
          remaining := st.remaining - 1
          ticks := st.ticks + 1 }
  | batch => { st with timer := st.timer.clearDue, stage := .before batch }

/-- A step of some thread. -/
def step (st : State) : Move → Option State
  | .timeout event time =>
      if time ≤ 0 then some { st with direct := st.direct ++ [event] }
      else if time < 2 ^ 31 then
        some { st with
          timer := st.timer.timer_add event time.toNat
          added := st.added ++ [(st.ticks + time.toNat, event)] }
      else none
  | .update cp =>
      match st.stage, st.remaining with
      | .idle, 0 => some (skynet_updatetime st cp)
      | _, _ => none
  | .go =>
      match st.stage with
      | .idle => if st.remaining = 0 then none else some (executeBefore st)
      | .before [] => some (executeBefore st)
      | .before (node :: batch) =>
          some { st with stage := .before batch, fired := st.fired ++ [(st.ticks, node.event)] }
      | .after [] => some (executeAfter st)
      | .after (node :: batch) =>
          some { st with stage := .after batch, fired := st.fired ++ [(st.ticks, node.event)] }

/-- The timer as `skynet_timer_init` leaves it. -/
def start (current current_point : Nat) : State where
  timer := Timer.timer_create_timer current current_point
  remaining := 0
  stage := .idle
  ticks := 0
  added := []
  fired := []
  direct := []

/-! ## What every step keeps -/

/-- The node of a timeout. -/
def nodeOf (x : Nat × TimerEvent) : TimerNode := ⟨x.1 % 2 ^ 32, x.2⟩

/-- What is sent up to a tick. -/
def firesUpTo (added : List (Nat × TimerEvent)) (t : Nat) : List (Nat × TimerEvent) :=
  (List.range (t + 1)).flatMap fun k => added.filter fun x => x.1 = k

structure Inv (current : Nat) (st : State) : Prop where
  time : st.timer.time = st.ticks % 2 ^ 32
  bound : ∀ x ∈ st.added, x.1 < st.ticks + 2 ^ 31
  holds : st.timer.Holds st.ticks (st.added.filter fun x => st.ticks < x.1) Prod.fst nodeOf
  never : ∀ batch, st.stage ≠ .before batch
  fired : st.fired ++ st.stage.batch.map (fun node => (st.ticks, node.event)) =
    firesUpTo st.added st.ticks
  clock : st.timer.current = (current + st.ticks + st.remaining) % 2 ^ 64

theorem firesUpTo_succ (added : List (Nat × TimerEvent)) (t : Nat) :
    firesUpTo added (t + 1) = firesUpTo added t ++ added.filter fun x => x.1 = t + 1 := by
  rw [firesUpTo, List.range_succ, List.flatMap_append, List.flatMap_singleton]
  rfl

/-- A timeout that is due later leaves what has been sent. -/
theorem firesUpTo_append {added : List (Nat × TimerEvent)} {x : Nat × TimerEvent} {t : Nat}
    (later : t < x.1) : firesUpTo (added ++ [x]) t = firesUpTo added t := by
  rw [firesUpTo, firesUpTo, List.flatMap_def, List.flatMap_def]
  congr 1
  apply List.map_congr_left
  intro k among
  have other : x.1 ≠ k := by
    have := List.mem_range.mp among
    omega
  rw [List.filter_append, List.filter_singleton, decide_eq_false other]
  exact List.append_nil _

variable {current : Nat} {st : State}

theorem Inv.ahead (inv : Inv current st) :
    Timer.Ahead st.ticks (st.added.filter fun x => st.ticks < x.1) Prod.fst nodeOf := by
  intro x among
  rw [List.mem_filter, decide_eq_true_eq] at among
  exact ⟨among.2, inv.bound x among.1, rfl⟩

/-- Between its steps the timer thread leaves nothing that is due now. -/
theorem Inv.nothing_due (inv : Inv current st) : st.timer.lists st.timer.due = [] := by
  rw [(inv.holds.take inv.time).1, List.map_eq_nil_iff, List.filter_filter, List.filter_eq_nil_iff]
  intro x _
  simp only [Bool.and_eq_true, decide_eq_true_eq, not_and]
  omega

/-- After the shift, when what is due now has still to be taken. -/
theorem executeAfter_inv (time : st.timer.time = st.ticks % 2 ^ 32)
    (bound : ∀ x ∈ st.added, x.1 < st.ticks + 2 ^ 31)
    (holds : st.timer.Holds st.ticks (st.added.filter fun x => st.ticks ≤ x.1) Prod.fst nodeOf)
    (fired : st.fired ++ st.added.filter (fun x => x.1 = st.ticks) = firesUpTo st.added st.ticks)
    (clock : st.timer.current = (current + st.ticks + st.remaining) % 2 ^ 64) :
    Inv current (executeAfter st) := by
  obtain ⟨found, left⟩ := holds.take time
  rw [List.filter_filter] at found left
  have now : (st.added.filter fun x => decide (x.1 = st.ticks) && decide (st.ticks ≤ x.1)) =
      st.added.filter fun x => x.1 = st.ticks := by
    apply List.filter_congr
    intro x _
    rw [Bool.eq_iff_iff, Bool.and_eq_true, decide_eq_true_eq, decide_eq_true_eq]
    omega
  have later : (st.added.filter fun x => decide (x.1 ≠ st.ticks) && decide (st.ticks ≤ x.1)) =
      st.added.filter fun x => st.ticks < x.1 := by
    apply List.filter_congr
    intro x _
    rw [Bool.eq_iff_iff, Bool.and_eq_true, decide_eq_true_eq, decide_eq_true_eq, decide_eq_true_eq]
    omega
  rw [now] at found
  rw [later] at left
  rw [executeAfter]
  split
  next none =>
    have nobody : st.added.filter (fun x => x.1 = st.ticks) = [] := by
      rw [found, List.map_eq_nil_iff] at none
      exact none
    have same : st.timer.clearDue = st.timer := by
      rw [Timer.clearDue, ← none, Function.update_eq_self]
    rw [same] at left
    rw [nobody] at fired
    exact ⟨time, bound, left, fun _ => Stage.noConfusion, fired, clock⟩
  next batch _ =>
    refine ⟨time, bound, left, fun _ => Stage.noConfusion, ?_, clock⟩
    have sent : (st.timer.lists st.timer.due).map (fun node => (st.ticks, node.event)) =
        st.added.filter fun x => x.1 = st.ticks := by
      rw [found, List.map_map]
      conv_rhs => rw [← List.map_id (st.added.filter fun x => x.1 = st.ticks)]
      apply List.map_congr_left
      intro x among
      rw [List.mem_filter, decide_eq_true_eq] at among
      exact Prod.ext among.2.symm rfl
    rw [← fired, ← sent]
    rfl

/-- The first `timer_execute` finds nothing, and the second one what is due now. -/
theorem executeBefore_inv (inv : Inv current st) (idle : st.stage = .idle)
    (left : st.remaining ≠ 0) : Inv current (executeBefore st) := by
  have nothing := inv.nothing_due
  obtain ⟨holds, frame⟩ := inv.holds.timer_shift inv.time inv.ahead
  have fired := inv.fired
  rw [idle, Stage.batch, List.map_nil, List.append_nil] at fired
  rw [executeBefore, nothing]
  apply executeAfter_inv
  · rw [frame]
  · intro x among
    have less := inv.bound x among
    change x.1 < st.ticks + 1 + 2 ^ 31
    omega
  · exact holds
  · rw [firesUpTo_succ, fired]
  · rw [frame]
    simp only
    rw [inv.clock]
    congr 1
    omega

/-- Every step keeps the invariant. -/
theorem Inv.step (inv : Inv current st) {move : Move} {st' : State}
    (stepped : Timeouts.step st move = some st') : Inv current st' := by
  cases move with
  | timeout event time =>
      simp only [Timeouts.step] at stepped
      split_ifs at stepped with soon fits
      · cases stepped
        exact ⟨inv.time, inv.bound, inv.holds, inv.never, inv.fired, inv.clock⟩
      · cases stepped
        have positive : 0 < time.toNat := by omega
        have small : time.toNat < 2 ^ 31 := by omega
        have expire : (time.toNat + st.timer.time) % 2 ^ 32 = (st.ticks + time.toNat) % 2 ^ 32 := by
          rw [inv.time, Nat.add_mod_mod, Nat.add_comm]
        have added : (st.added ++ [(st.ticks + time.toNat, event)]).filter
            (fun x => decide (st.ticks < x.1)) =
              st.added.filter (fun x => st.ticks < x.1) ++ [(st.ticks + time.toNat, event)] := by
          rw [List.filter_append, List.filter_singleton, decide_eq_true (by omega)]
          rfl
        constructor
        case time => exact inv.time
        case bound =>
          intro x among
          rcases List.mem_append.mp among with old | new
          · exact inv.bound x old
          · obtain rfl := List.mem_singleton.mp new
            exact Nat.add_lt_add_left small _
        case holds =>
          rw [added, Timer.timer_add, expire]
          exact inv.holds.add_node inv.time (x := (st.ticks + time.toNat, event))
            (Nat.le_add_right _ _) (Nat.add_lt_add_left small _) rfl
        case never => exact inv.never
        case fired =>
          simp only
          rw [firesUpTo_append (Nat.lt_add_of_pos_right positive)]
          exact inv.fired
        case clock => exact inv.clock
  | update cp =>
      simp only [Timeouts.step] at stepped
      split at stepped
      next idle none =>
        cases stepped
        rw [skynet_updatetime]
        split_ifs
        · exact ⟨inv.time, inv.bound, inv.holds, inv.never, inv.fired, inv.clock⟩
        · refine ⟨inv.time, inv.bound, inv.holds, inv.never, inv.fired, ?_⟩
          have clock := inv.clock
          rw [none] at clock
          simp only
          rw [clock, Nat.mod_add_mod]
          rfl
        · exact inv
      next => cases stepped
  | go =>
      simp only [Timeouts.step] at stepped
      split at stepped
      next idle =>
        split_ifs at stepped with none
        cases stepped
        exact executeBefore_inv inv idle none
      next early => exact absurd early (inv.never _)
      next early => exact absurd early (inv.never _)
      next last =>
        cases stepped
        have fired := inv.fired
        rw [last] at fired
        rw [executeAfter, inv.nothing_due]
        exact ⟨inv.time, inv.bound, inv.holds, fun _ => Stage.noConfusion, fired, inv.clock⟩
      next node batch more =>
        cases stepped
        have fired := inv.fired
        rw [more] at fired
        refine ⟨inv.time, inv.bound, inv.holds, fun _ => Stage.noConfusion, ?_, inv.clock⟩
        rw [← fired]
        exact List.append_assoc _ _ _

/-! ## Runs -/

/-- The states that runs reach, from clocks that read `current` and `current_point`. -/
abbrev Reached (current current_point : Nat) (st : State) : Prop :=
  Machine.Reach step (fun _ _ => True) (start current current_point) st

theorem Reached.inv {current_point : Nat} (less : current < 2 ^ 64)
    (reached : Reached current current_point st) : Inv current st := by
  apply reached.invariant
  · refine ⟨rfl, fun x among => absurd among List.not_mem_nil, fun s => rfl,
      fun _ => Stage.noConfusion, rfl, ?_⟩
    exact (Nat.mod_eq_of_lt less).symm
  · exact fun inv _ stepped => inv.step stepped

section

variable {current_point : Nat}

/-- In every run what has been sent, with what the timer thread is sending, is what was due at tick `0`,
what was due at tick `1` and so on up to the tick that it is, each in the order in which it was set: a
timeout fires once, when it is due, and nothing else does. -/
theorem fires_on_time (less : current < 2 ^ 64) (reached : Reached current current_point st) :
    st.fired ++ st.stage.batch.map (fun node => (st.ticks, node.event)) =
      (List.range (st.ticks + 1)).flatMap fun k => st.added.filter fun x => x.1 = k :=
  (reached.inv less).fired

/-- Two timeouts are set, the second one after ten ticks; all fire. -/
def twoTimeouts : List Move :=
  [.timeout ⟨7, 1⟩ 300, .update 10] ++ List.replicate 10 .go ++
    [.timeout ⟨8, 2⟩ 290, .timeout ⟨9, 3⟩ 1, .update 300] ++ List.replicate 295 .go

theorem fires_on_time_sample :
    ∃ st : State, st.ticks = 300 ∧ st.fired = [(11, ⟨9, 3⟩), (300, ⟨7, 1⟩), (300, ⟨8, 2⟩)] ∧
      st.fired ++ st.stage.batch.map (fun node => (st.ticks, node.event)) =
        (List.range (st.ticks + 1)).flatMap fun k => st.added.filter fun x => x.1 = k := by
  obtain ⟨st, reached, seen⟩ := Machine.exists_of_runs step (fun _ _ => True) (start 0 0) twoTimeouts
    (fun st => (st.ticks, st.fired))
    (a := (300, [(11, ⟨9, 3⟩), (300, ⟨7, 1⟩), (300, ⟨8, 2⟩)])) (by decide +kernel)
  obtain ⟨ticks, fired⟩ := Prod.mk.inj seen
  exact ⟨st, ticks, fired, fires_on_time (by decide) reached⟩

/-- In every run `skynet_now` is ahead of the ticks by those that `skynet_updatetime` has still to do:
what fires at a tick does not fire before this time. -/
theorem clock_ahead (less : current < 2 ^ 64) (reached : Reached current current_point st) :
    st.timer.current = (current + st.ticks + st.remaining) % 2 ^ 64 := (reached.inv less).clock

/-- The `timer_execute` before the shift finds nothing in any run: `skynet_timeout` has sent a timeout of
`0` itself. -/
theorem nothing_before_shift (less : current < 2 ^ 64) (reached : Reached current current_point st) :
    (st.stage = .idle → st.timer.lists st.timer.due = []) ∧ ∀ batch, st.stage ≠ .before batch :=
  ⟨fun _ => (reached.inv less).nothing_due, (reached.inv less).never⟩

theorem nothing_before_shift_sample :
    ∃ st : State, st.ticks = 300 ∧ (st.stage = .idle → st.timer.lists st.timer.due = []) ∧
      ∀ batch, st.stage ≠ .before batch := by
  obtain ⟨st, reached, ticks⟩ := Machine.exists_of_runs step (fun _ _ => True) (start 0 0) twoTimeouts
    State.ticks (a := 300) (by decide +kernel)
  exact ⟨st, ticks, nothing_before_shift (by decide) reached⟩

end

end Timeouts

end RillServer.Skynet
