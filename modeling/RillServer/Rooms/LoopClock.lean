import RillServer.Timer.Wheel
import RillServer.Rooms.DragonTiger

/-!
# The clock of a room service

`roomAction.start` of type `lh`. The table `logic` is one for the whole service, and `logic:init`
makes a new timer object whose callback `onLoop` runs on it. A timer has no operation that ends it:
`on_time_out` asks for its next timeout before it does anything else, and the old object stays alive
in that closure when the service is started again, as the room pool does with a service it was given
back. So each start adds a clock, and every interval has as many executions of `onLoop` as there
were starts (`loopsIn_elapsed`).

Time is in units of `skynet.timeout`. A timeout runs when its time has come, those of one moment in
any order. `onLoop` neither yields nor raises, so a timeout is one event.
-/

namespace RillServer.LoopClock

open Wheel DragonTiger

/-- A timer object with its pending timeout. The last two fields are not in the source: the times
of the start that made it and of its executions of `onLoop`. -/
structure Clock where
  timer : Timer Unit
  due : Nat
  begun : Nat
  loops : List Nat

/-- A room service; `starts` has the times at which it was started. -/
structure Service (D : Type) where
  now : Nat
  logic : Option (Logic D)
  clocks : List Clock
  starts : List Nat

variable {D : Type}

/-- `1 * 100` in `logic:init`. -/
def interval : Nat := 1 * 100

/-- `timer:init(interval)` and `timer:register(1, onLoop, false, self)`. -/
def Clock.start (now : Nat) : Clock where
  timer := ((Wheel.init : Timer Unit).register 1 () false).getD Wheel.init
  due := now + interval
  begun := now
  loops := []

/-- So many callbacks of the present tick return. -/
def finish : Nat → Timer Unit → Option (Timer Unit)
  | 0, t => some t
  | k + 1, t => (t.returned t.inc).bind (finish k)

/-- `timer.on_time_out`, which asks for the next timeout first. -/
def Clock.onTimeOut (c : Clock) (now : Nat) (order : List (Entry Unit)) : Option Clock :=
  ((c.timer.onTimeOut order).bind (finish order.length)).map fun timer =>
    { c with
      timer := timer
      due := now + interval
      loops := c.loops ++ List.replicate order.length now }

def fresh : Service D where
  now := 0
  logic := none
  clocks := []
  starts := []

inductive Event (D : Type) where
  /-- `roomAction.start("lh")`, with the date and the deck that `logic:init` gets -/
  | start (date : D) (shuffle : List Nat → List Nat)
  | wait
  | timeOut (i : Nat) (order : List (Entry Unit))

def step (s : Service D) : Event D → Option (Service D)
  | .start date shuffle =>
      some { s with
        logic := some (.init s.logic date shuffle)
        clocks := s.clocks ++ [.start s.now]
        starts := s.starts ++ [s.now] }
  | .wait => if ∀ c ∈ s.clocks, s.now < c.due then some { s with now := s.now + 1 } else none
  | .timeOut i order =>
      match s.clocks[i]? with
      | none => none
      | some c =>
          if c.due = s.now then
            (c.onTimeOut s.now order).map fun c =>
              { s with
                clocks := s.clocks.set i c
                logic := s.logic.map Logic.onLoop^[order.length] }
          else none

/-- What a room service can have come to. -/
abbrev History (D : Type) :=
  { s : Service D // Machine.Reach step (fun _ _ => True) fresh s }

/-! ## Executions in an interval -/

/-- The times at which `onLoop` was executed. -/
def Service.loops (s : Service D) : List Nat := s.clocks.flatMap Clock.loops

/-- How often `onLoop` was executed in the interval after `t`. -/
def Service.loopsIn (s : Service D) (t : Nat) : Nat :=
  (s.loops.filter fun m => t < m ∧ m ≤ t + interval).length

/-- The latest start was at `t`, and `k + 1` intervals have elapsed since. -/
def Service.Elapsed (s : Service D) (t k : Nat) : Prop :=
  s.starts.getLast? = some t ∧ t + interval * (k + 1) < s.now

/-- Each interval since the latest start had one execution. -/
def Service.OneClock (s : Service D) : Prop :=
  ∀ t k, s.Elapsed t k → s.loopsIn (t + interval * k) = 1

/-! ## A clock is regular -/

/-- The only callback is the one for the next tick, and all earlier ticks had one execution. -/
structure Clock.Regular (c : Clock) : Prop where
  periodic : c.timer.once = false
  next : c.timer.callbacks (c.timer.inc + 1) = some [(c.timer.timerIdx, ⟨(), false, 1⟩)]
  later : ∀ n, c.timer.inc + 1 < n → c.timer.callbacks n = none
  known : c.timer.timerIdxs c.timer.timerIdx = some ⟨c.timer.inc + 1, 1⟩
  due : c.due = c.begun + interval * (c.timer.inc + 1)
  loops : c.loops = (List.range c.timer.inc).map fun i => c.begun + interval * (i + 1)

theorem regular_start (now : Nat) : (Clock.start now).Regular where
  periodic := rfl
  next := rfl
  later _ later := Function.update_of_ne (Nat.ne_of_gt later) _ _
  known := rfl
  due := rfl
  loops := rfl

variable {c c' : Clock} {order : List (Entry Unit)}

/-- A timeout calls the callback once and registers it for the next tick. -/
theorem Clock.Regular.onTimeOut (regular : c.Regular)
    (fires : c.onTimeOut c.due order = some c') : c'.Regular ∧ c'.begun = c.begun := by
  obtain ⟨periodic, next, later, known, due, loops⟩ := regular
  have vacant : c.timer.callbacks (c.timer.inc + 1 + 1) = none := later _ (Nat.lt_succ_self _)
  simp only [Clock.onTimeOut, Timer.onTimeOut, next] at fires
  split at fires
  · rename_i perm
    obtain rfl := List.perm_singleton.mp (List.isPerm_iff.mp perm)
    simp only [finish, Timer.visit, Timer.returned, Timer.enlist, List.length_singleton,
      Option.bind_some, Function.update_self, known, periodic, Bool.false_eq_true, if_false,
      Option.map_some, vacant] at fires
    obtain rfl := Option.some.inj fires
    refine ⟨⟨rfl, ?_, ?_, ?_, ?_, ?_⟩, rfl⟩
    · simp
    · intro n beyond
      change c.timer.inc + 1 + 1 < n at beyond
      have far : n ≠ c.timer.inc + 1 ∧ n ≠ c.timer.inc + 1 + 1 := by omega
      simp only [Function.update_of_ne far.1, Function.update_of_ne far.2]
      exact later n (by omega)
    · simp
    · change c.due + interval = c.begun + interval * (c.timer.inc + 1 + 1)
      rw [due, Nat.add_assoc, ← Nat.mul_succ]
    · simp only [loops, due, List.range_succ, List.map_append]
      rfl
  · cases fires

/-- Every clock is regular and on time, and there is one for each start. -/
structure Sound (s : Service D) : Prop where
  regular : ∀ c ∈ s.clocks, c.Regular
  early : ∀ c ∈ s.clocks, s.now ≤ c.due
  begun : s.clocks.map Clock.begun = s.starts
  past : ∀ t ∈ s.starts, t ≤ s.now
  latest : ∀ t, s.starts.getLast? = some t → ∀ t' ∈ s.starts, t' ≤ t

variable {s s' : Service D} {e : Event D}

theorem sound_fresh : Sound (fresh : Service D) := by
  refine ⟨nofun, nofun, rfl, nofun, nofun⟩

theorem Sound.start (sound : Sound s) (logic : Option (Logic D)) :
    Sound { s with
      logic := logic
      clocks := s.clocks ++ [.start s.now]
      starts := s.starts ++ [s.now] } := by
  have past : ∀ t ∈ s.starts ++ [s.now], t ≤ s.now := by
    intro t member
    rcases List.mem_append.mp member with old | new
    · exact sound.past t old
    · exact Nat.le_of_eq (List.mem_singleton.mp new)
  refine ⟨?_, ?_, ?_, past, ?_⟩
  · intro c member
    rcases List.mem_append.mp member with old | new
    · exact sound.regular c old
    · rw [List.mem_singleton.mp new]
      exact regular_start s.now
  · intro c member
    rcases List.mem_append.mp member with old | new
    · exact sound.early c old
    · rw [List.mem_singleton.mp new]
      exact Nat.le_add_right _ _
  · simp only [List.map_append, sound.begun]
    rfl
  · intro t last
    rw [List.getLast?_append_of_ne_nil _ (List.cons_ne_nil _ _)] at last
    cases last
    exact past

theorem Sound.wait (sound : Sound s) (ahead : ∀ c ∈ s.clocks, s.now < c.due) :
    Sound { s with now := s.now + 1 } where
  regular := sound.regular
  early := ahead
  begun := sound.begun
  past t member := Nat.le_succ_of_le (sound.past t member)
  latest := sound.latest

theorem Sound.timeOut (sound : Sound s) {i : Nat} (logic : Option (Logic D))
    (found : s.clocks[i]? = some c) (due : c.due = s.now)
    (fires : c.onTimeOut s.now order = some c') :
    Sound { s with clocks := s.clocks.set i c', logic := logic } := by
  have member : c ∈ s.clocks := List.mem_of_getElem? found
  rw [← due] at fires
  obtain ⟨regular, same⟩ := (sound.regular c member).onTimeOut fires
  have later : s.now ≤ c'.due := by
    obtain ⟨timer, -, rfl⟩ := Option.map_eq_some_iff.mp fires
    change s.now ≤ c.due + interval
    omega
  refine ⟨?_, ?_, ?_, sound.past, sound.latest⟩
  · intro x inside
    rcases List.mem_or_eq_of_mem_set inside with old | rfl
    · exact sound.regular x old
    · exact regular
  · intro x inside
    rcases List.mem_or_eq_of_mem_set inside with old | rfl
    · exact sound.early x old
    · exact later
  · obtain ⟨inside, rfl⟩ := List.getElem?_eq_some_iff.mp found
    rw [List.map_set, same, ← sound.begun, ← List.getElem_map Clock.begun]
    · exact List.set_getElem_self _
    · rw [List.length_map]
      exact inside

theorem Sound.step (sound : Sound s) (stepped : step s e = some s') : Sound s' := by
  cases e with
  | start date shuffle =>
      obtain rfl := Option.some.inj stepped
      exact sound.start _
  | wait =>
      simp only [LoopClock.step] at stepped
      split at stepped
      · rename_i ahead
        obtain rfl := Option.some.inj stepped
        exact sound.wait ahead
      · cases stepped
  | timeOut i order =>
      simp only [LoopClock.step] at stepped
      split at stepped
      · cases stepped
      · rename_i c found
        split at stepped
        · rename_i due
          obtain ⟨c', fires, rfl⟩ := Option.map_eq_some_iff.mp stepped
          exact sound.timeOut _ found due fires
        · cases stepped

theorem sound_of_history (h : History D) : Sound h.1 :=
  h.2.invariant sound_fresh fun sound _ stepped => sound.step stepped

/-! ## Each clock runs once in an interval -/

theorem length_filter_range {begun n t : Nat} (before : begun ≤ t)
    (enough : t + interval < begun + interval * (n + 1)) :
    (((List.range n).map fun i => begun + interval * (i + 1)).filter fun m =>
      t < m ∧ m ≤ t + interval).length = 1 := by
  have which : ∀ i, (t < begun + interval * (i + 1) ∧ begun + interval * (i + 1) ≤ t + interval) ↔
      i = (t - begun) / interval := by
    intro i
    simp only [interval]
    omega
  have inside : (t - begun) / interval ∈ List.range n := by
    simp only [interval, List.mem_range] at *
    omega
  rw [List.filter_map, List.length_map, ← List.countP_eq_length_filter]
  simp only [Function.comp_def, which]
  exact List.count_eq_one_of_mem List.nodup_range inside

/-- In every interval that has elapsed since the latest start, `onLoop` was executed once for each
start. -/
theorem Sound.loopsIn_elapsed {t k : Nat} (sound : Sound s) (elapsed : s.Elapsed t k) :
    s.loopsIn (t + interval * k) = s.starts.length := by
  obtain ⟨latest, elapsed⟩ := elapsed
  have once : ∀ c ∈ s.clocks, (c.loops.filter fun m =>
      t + interval * k < m ∧ m ≤ t + interval * k + interval).length = 1 := by
    intro c member
    have begun : c.begun ∈ s.starts := by
      rw [← sound.begun]
      exact List.mem_map_of_mem member
    have before : c.begun ≤ t := sound.latest t latest c.begun begun
    have due := (sound.regular c member).due
    have early := sound.early c member
    rw [(sound.regular c member).loops]
    apply length_filter_range (Nat.le_add_right_of_le before)
    rw [← due, Nat.add_assoc, ← Nat.mul_succ]
    exact Nat.lt_of_lt_of_le elapsed early
  have total : s.clocks.length = s.starts.length := by
    rw [← sound.begun, List.length_map]
  rw [Service.loopsIn, Service.loops, List.filter_flatMap, List.length_flatMap,
    List.map_congr_left once, List.map_const', List.sum_replicate_nat, total]
  exact Nat.mul_one _

/-- **One clock.** Each interval that has elapsed since the latest start had as many executions of
`onLoop` as there were starts. So each had one if and only if there was only one start, or no
interval has elapsed. -/
theorem oneClock_iff (h : History D) :
    (∀ t k, h.1.Elapsed t k → h.1.loopsIn (t + interval * k) = h.1.starts.length) ∧
      (h.1.OneClock ↔ (∃ t k, h.1.Elapsed t k) → h.1.starts.length = 1) := by
  have sound := sound_of_history h
  refine ⟨fun t k elapsed => sound.loopsIn_elapsed elapsed, ?_, ?_⟩
  · intro one
    rintro ⟨t, k, elapsed⟩
    rw [← sound.loopsIn_elapsed elapsed]
    exact one t k elapsed
  · intro once t k elapsed
    rw [sound.loopsIn_elapsed elapsed]
    exact once ⟨t, k, elapsed⟩

/-- Two starts and one interval. -/
def restarted : List (Event Unit) :=
  [Event.start () id, Event.start () id] ++ List.replicate 100 Event.wait ++
    [Event.timeOut 0 [(1, ⟨(), false, 1⟩)], Event.timeOut 1 [(1, ⟨(), false, 1⟩)], Event.wait]

/-- Two executions of `onLoop` in the interval. -/
theorem restarted_two_clocks : ¬ ∀ h : History Unit, h.1.OneClock := by
  intro one
  obtain ⟨s, reached, last⟩ := Machine.exists_of_runs step (fun _ _ => True) fresh restarted
    (fun s => (s.starts, s.now, s.loopsIn 0))
    (show _ = some ([0, 0], 101, 2) by decide)
  simp only [Prod.mk.injEq] at last
  obtain ⟨starts, now, loops⟩ := last
  have elapsed : s.Elapsed 0 0 := by
    refine ⟨by rw [starts]; rfl, ?_⟩
    rw [now]
    decide
  have single : s.loopsIn 0 = 1 := one ⟨s, reached⟩ 0 0 elapsed
  rw [loops] at single
  cases single

end RillServer.LoopClock
