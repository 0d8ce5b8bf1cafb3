import Mathlib.Logic.Function.Iterate

/-!
# The Dragon-Tiger table

`mod/room/lh/logic.lua` with the tables of `gameRule.lua` and `onLoop` of `roomOnCall.lua`. A tick of
the room's clock counts `statusExpired` down and, when it has run out, calls the handler of the
status, which sets the next one. The first round starts by another way: `isPlaying` is not set yet,
and the tick goes through `checkPlayingGame` to `readyStatus`, which counts the round and makes its
record.

The statuses are those with a countdown; `RETURN` and `WIN` have none and are never set. `D` is the
type of dates. The messages to the players are kept in the order in which they are sent.
-/

namespace RillServer.DragonTiger

/-- `LH_ACTION`. -/
inductive Action where
  | empty
  | shuffle
  | ready
  | hole
  | bet
  | open
  | bonus
  | stop
  deriving DecidableEq

/-- `LH_ACTION_STR`. -/
def Action.str : Action → String
  | .empty => "空"
  | .shuffle => "洗牌"
  | .ready => "准备"
  | .hole => "发牌"
  | .bet => "下注"
  | .open => "开牌"
  | .bonus => "发奖"
  | .stop => "维护中"

/-- `LH_COUNTDOWN`. -/
def Action.countdown : Action → Nat
  | .empty => 3
  | .shuffle => 3
  | .ready => 3
  | .hole => 3
  | .bet => 20
  | .open => 3
  | .bonus => 4
  | .stop => 2

def maxExpiredTime : Nat := 2000000000

/-- A message to the players of the room. -/
structure Notice where
  cmd : String
  status : String
  count : Nat
  deriving DecidableEq

/-- `Cards` of `lualib/common/cards.lua`. -/
structure Cards where
  num : Nat
  ncards : Nat
  cards : List Nat

/-- `Cards.init`, with what `Card.shuffle` makes of a deck. -/
def Cards.init (num ncards : Nat) (shuffle : List Nat → List Nat) : Cards where
  num := num
  ncards := ncards
  cards := shuffle ((List.range ncards).flatMap fun _ => (List.range num).map (· + 1))

def Cards.getDealNum (c : Cards) : Int := (c.num * c.ncards : Nat) - (c.cards.length : Int)

/-- The record of a round. -/
structure Record (D : Type) where
  tm : D
  gamesn : Nat
  pub1 : Nat
  td : Nat
  deriving DecidableEq

/-- The table `logic`. -/
structure Logic (D : Type) where
  statusExpired : Nat
  status : Action
  isPause : Bool
  isPlaying : Bool
  updateNum : Int
  round : Nat
  gamesn : Nat
  card1 : Nat
  card2 : Nat
  startTime : Option D
  cards : Cards
  dealNoNum : Int
  dealNum : Int
  cardNum : Int
  maxNum : Int
  date : D
  /-- the tables that were `record`, the present one last -/
  records : List (Record D)
  /-- not in the source: what was broadcast -/
  notices : List Notice

variable {D : Type}

/-- `logic:init`. `before` is the table as an earlier call left it, `none` in a fresh service;
`isPlaying` and `record` are not assigned here. -/
def Logic.init (before : Option (Logic D)) (date : D) (shuffle : List Nat → List Nat) : Logic D where
  statusExpired := 0
  status := .empty
  isPause := false
  isPlaying := before.elim false (·.isPlaying)
  updateNum := 0
  round := 0
  gamesn := 0
  card1 := 0
  card2 := 0
  startTime := none
  cards := .init 52 8 shuffle
  dealNoNum := 0
  dealNum := 0
  cardNum := 416
  maxNum := 416
  date := date
  records := before.elim [] (·.records)
  notices := before.elim [] (·.notices)

namespace Logic

/-- `room:broadcast`. -/
def broadcast (s : Logic D) (msg : Notice) : Logic D := { s with notices := s.notices ++ [msg] }

def setStatus (s : Logic D) (status : Action) : Logic D :=
  { s with statusExpired := status.countdown, status := status }.broadcast
    ⟨"room_status.changge", status.str, status.countdown⟩

def checkTime (s : Logic D) : Logic D :=
  let s :=
    if 0 < s.statusExpired ∧ s.statusExpired < maxExpiredTime then
      { s with statusExpired := s.statusExpired - 1 }
    else s
  s.broadcast ⟨"room_status.count", s.status.str, s.statusExpired⟩

def emptyExpire (s : Logic D) : Logic D := s.setStatus .shuffle

def shuffleExpire (s : Logic D) : Logic D := s.setStatus .ready

def readyExpire (s : Logic D) : Logic D := s.setStatus .hole

def holeExpire (s : Logic D) : Logic D := s.setStatus .bet

def betExpire (s : Logic D) : Logic D := s.setStatus .open

def openExpire (s : Logic D) : Logic D := s.setStatus .bonus

def bonusExpire (s : Logic D) : Logic D := s.setStatus .empty

/-- `logic:onStatusExpire`, with the handlers that `init` registers. -/
def onStatusExpire (s : Logic D) : Action → Logic D
  | .empty => s.emptyExpire
  | .shuffle => s.shuffleExpire
  | .ready => s.readyExpire
  | .hole => s.holeExpire
  | .bet => s.betExpire
  | .open => s.openExpire
  | .bonus => s.bonusExpire
  | .stop => s.bonusExpire

/-- `logic:logic`. -/
def logic (s : Logic D) : Logic D :=
  if s.statusExpired ≤ 0 ∧ s.isPlaying then s.onStatusExpire s.status else s

def readyStatus (s : Logic D) : Logic D :=
  let s := { s with round := s.round + 1 }.setStatus .ready
  { s with
    card1 := 0
    card2 := 0
    startTime := some s.date
    records := s.records ++ [⟨s.date, s.gamesn, 0, 0⟩]
    dealNum := s.cards.getDealNum + s.dealNoNum
    cardNum := s.maxNum - s.cards.getDealNum }

def restartGame (s : Logic D) : Logic D := s.readyStatus

def canPlayLogic (_ : Logic D) : Bool := true

def canStartNextRound (s : Logic D) : Logic D × Bool :=
  if s.canPlayLogic then ({ s with isPlaying := true }, true)
  else ({ s with isPlaying := false }, false)

def startPlayingGame (s : Logic D) : Logic D :=
  match s.canStartNextRound with
  | (s, true) => s.restartGame
  | (s, false) => s

/-- `logic:checkPlayingGame`; it is called when `isPlaying` is not set, so the assertion holds. -/
def checkPlayingGame (s : Logic D) : Logic D :=
  if s.isPlaying then s
  else if s.canPlayLogic then s.startPlayingGame
  else s

def updateRoom (s : Logic D) : Logic D :=
  if s.isPause then s
  else
    let s := { s with updateNum := s.updateNum + 1 }
    if s.updateNum > 3 then { s with updateNum := 0 }
    else
      let s := if s.isPlaying then s.logic else s.checkPlayingGame
      let s := { s with updateNum := s.updateNum - 1 }
      if s.updateNum < 0 then { s with updateNum := 0 } else s

/-- `roomOnCall.onLoop`. -/
def onLoop (s : Logic D) : Logic D := s.checkTime.updateRoom

end Logic

/-! ## The cycle of a round -/

/-- The phases of a round and what comes between two of them, in their order. -/
def cycle : List Action := [.ready, .hole, .bet, .open, .bonus, .empty, .shuffle]

/-- The phase that should come after `i` others. -/
def phase (i : Nat) : Action := cycle.get ⟨i % 7, Nat.mod_lt i (by decide)⟩

/-- The tick that should enter it. -/
def entered : Nat → Nat
  | 0 => 1
  | i + 1 => entered i + (phase i).countdown

section Run

variable (date : D) (shuffle : List Nat → List Nat)

/-- The table of a fresh room service after `n` ticks. -/
def after (n : Nat) : Logic D := Logic.onLoop^[n] (.init none date shuffle)

/-- The tick after the first `m` enters `READY`. -/
def EntersReady (m : Nat) : Prop :=
  (after date shuffle m).status ≠ .ready ∧ (after date shuffle (m + 1)).status = .ready

instance (m : Nat) : Decidable (EntersReady date shuffle m) :=
  inferInstanceAs (Decidable (_ ∧ _))

/-- How often `READY` was entered. -/
def readies (n : Nat) : Nat := ((List.range n).filter (EntersReady date shuffle ·)).length

/-- What `n` ticks should come to. -/
structure RoundCycle (n : Nat) : Prop where
  /-- the phases follow each other, and each is held for its countdown -/
  phases : ∀ i k, k < (phase i).countdown → entered i + k ≤ n →
    (after date shuffle (entered i + k)).status = phase i
  rounds : (after date shuffle n).round = readies date shuffle n
  /-- a tick that enters `READY` clears the cards and makes a new record -/
  renewed : ∀ m < n, EntersReady date shuffle m →
    (after date shuffle (m + 1)).card1 = 0 ∧ (after date shuffle (m + 1)).card2 = 0 ∧
      (after date shuffle (m + 1)).records = (after date shuffle m).records ++ [⟨date, 0, 0, 0⟩]

end Run

/-! ## One tick -/

/-- What the handler of a status sets. -/
def Action.next : Action → Action
  | .empty => .shuffle
  | .shuffle => .ready
  | .ready => .hole
  | .hole => .bet
  | .bet => .open
  | .open => .bonus
  | .bonus => .empty
  | .stop => .empty

/-- A tick, as far as the status and its countdown go. -/
def beat (p : Action × Nat) : Action × Nat :=
  if p.2 ≤ 1 then (p.1.next, p.1.next.countdown) else (p.1, p.2 - 1)

theorem onStatusExpire_eq (s : Logic D) (a : Action) :
    s.onStatusExpire a = s.setStatus a.next := by
  cases a <;> rfl

theorem countdown_pos (a : Action) : 0 < a.countdown := by cases a <;> decide

theorem countdown_lt (a : Action) : a.countdown < maxExpiredTime := by cases a <;> decide

/-- A table on which a round is under way, with its phase and the ticks that are left of it. Only
the first `READY` counted a round and made a record. -/
structure Underway (date : D) (s : Logic D) (p : Action × Nat) : Prop where
  status : s.status = p.1
  left : s.statusExpired = p.2
  pos : 0 < p.2
  bound : p.2 < maxExpiredTime
  playing : s.isPlaying = true
  resumed : s.isPause = false
  updates : s.updateNum = 0
  round : s.round = 1
  cards : s.card1 = 0 ∧ s.card2 = 0
  records : s.records = [⟨date, 0, 0, 0⟩]

variable {date : D} {s : Logic D} {p : Action × Nat}

theorem Underway.onLoop (under : Underway date s p) : Underway date s.onLoop (beat p) := by
  obtain ⟨status, left, pos, bound, playing, resumed, updates, round, cards, records⟩ := under
  have counts : 0 < s.statusExpired ∧ s.statusExpired < maxExpiredTime := by
    rw [left]
    exact ⟨pos, bound⟩
  by_cases last : p.2 ≤ 1
  · have expired : s.statusExpired - 1 ≤ 0 := by omega
    have next : s.onLoop =
        { ({ s.checkTime with updateNum := 1 }.setStatus s.status.next) with updateNum := 0 } := by
      simp [Logic.onLoop, Logic.updateRoom, Logic.checkTime, Logic.broadcast, Logic.logic,
        onStatusExpire_eq, Logic.setStatus, counts, playing, resumed, updates, expired]
    simp only [beat, if_pos last]
    rw [next]
    refine ⟨?_, ?_, countdown_pos _, countdown_lt _, ?_, ?_, rfl, ?_, ?_, ?_⟩
    all_goals simp [Logic.setStatus, Logic.checkTime, Logic.broadcast, *]
  · have lasts : ¬ s.statusExpired - 1 ≤ 0 := by omega
    have next : s.onLoop = { s.checkTime with updateNum := 0 } := by
      simp [Logic.onLoop, Logic.updateRoom, Logic.checkTime, Logic.broadcast, Logic.logic,
        counts, playing, resumed, updates, lasts]
    simp only [beat, if_neg last]
    rw [next]
    refine ⟨?_, ?_, by omega, by omega, ?_, ?_, rfl, ?_, ?_, ?_⟩
    all_goals simp [Logic.checkTime, Logic.broadcast, *]

section Run

variable (date : D) (shuffle : List Nat → List Nat)

theorem after_succ (n : Nat) : after date shuffle (n + 1) = (after date shuffle n).onLoop :=
  Function.iterate_succ_apply' _ _ _

theorem underway_after (n : Nat) :
    Underway date (after date shuffle (n + 1)) (beat^[n] (.ready, 3)) := by
  induction n with
  | zero => exact ⟨rfl, rfl, by decide, by decide, rfl, rfl, rfl, rfl, ⟨rfl, rfl⟩, rfl⟩
  | succ n ih =>
      rw [after_succ, Function.iterate_succ_apply']
      exact ih.onLoop

end Run

/-! ## The phases -/

theorem phase_succ (i : Nat) : phase (i + 1) = (phase i).next := by
  have step : ∀ r : Fin 7, cycle.get ⟨(r.1 + 1) % 7, Nat.mod_lt _ (by decide)⟩ =
      (cycle.get ⟨r.1, r.2⟩).next := by decide
  have turn := step ⟨i % 7, Nat.mod_lt i (by decide)⟩
  simp only [Nat.mod_add_mod] at turn
  exact turn

theorem beat_held (a : Action) {c k : Nat} (within : k < c) : beat^[k] (a, c) = (a, c - k) := by
  induction k with
  | zero => rfl
  | succ k ih =>
      have more : ¬ c - k ≤ 1 := by omega
      rw [Function.iterate_succ_apply', ih (by omega)]
      simp only [beat, if_neg more, Nat.sub_sub]

theorem beat_spent (a : Action) {c : Nat} (pos : 0 < c) :
    beat^[c] (a, c) = (a.next, a.next.countdown) := by
  obtain ⟨k, rfl⟩ : ∃ k, c = k + 1 := ⟨c - 1, by omega⟩
  have last : k + 1 - k ≤ 1 := by omega
  rw [Function.iterate_succ_apply', beat_held a (Nat.lt_succ_self k)]
  simp only [beat, if_pos last]

/-- Each phase begins where it should. -/
theorem beat_entered (i : Nat) :
    ∃ m, entered i = m + 1 ∧ beat^[m] (.ready, 3) = (phase i, (phase i).countdown) := by
  induction i with
  | zero => exact ⟨0, rfl, rfl⟩
  | succ i ih =>
      obtain ⟨m, begins, holds⟩ := ih
      refine ⟨(phase i).countdown + m, ?_, ?_⟩
      · rw [entered, begins]
        omega
      · rw [Function.iterate_add_apply, holds, beat_spent _ (countdown_pos _), phase_succ]

theorem status_entered (date : D) (shuffle : List Nat → List Nat) {i k : Nat}
    (within : k < (phase i).countdown) : (after date shuffle (entered i + k)).status = phase i := by
  obtain ⟨m, begins, holds⟩ := beat_entered i
  have shown : beat^[k + m] (.ready, 3) = (phase i, (phase i).countdown - k) := by
    rw [Function.iterate_add_apply, holds, beat_held _ within]
  have under := underway_after date shuffle (k + m)
  rw [shown, show k + m + 1 = entered i + k by omega] at under
  exact under.status

/-! ## The rounds -/

/-- The status after `n` ticks. -/
def statusAfter : Nat → Action
  | 0 => .empty
  | n + 1 => (beat^[n] (.ready, 3)).1

/-- How often it becomes `READY` in `n` ticks. -/
def turns (n : Nat) : Nat :=
  ((List.range n).filter fun m =>
    statusAfter m ≠ .ready ∧ statusAfter (m + 1) = .ready).length

theorem turns_mono {m n : Nat} (le : m ≤ n) : turns m ≤ turns n :=
  ((List.range_sublist.mpr le).filter _).length_le

theorem turns_first : ∀ n < 39, turns (n + 1) = 1 := by decide

section Run

variable (date : D) (shuffle : List Nat → List Nat)

theorem status_after (n : Nat) : (after date shuffle n).status = statusAfter n := by
  cases n with
  | zero => rfl
  | succ n => exact (underway_after date shuffle n).status

theorem readies_eq (n : Nat) : readies date shuffle n = turns n := by
  simp only [readies, turns, EntersReady, status_after]

/-- In the second cycle `READY` was entered twice, and one round counted. -/
theorem not_roundCycle {n : Nat} (second : 40 ≤ n) : ¬ RoundCycle date shuffle n := by
  intro holds
  obtain ⟨m, rfl⟩ : ∃ m, n = m + 1 := ⟨n - 1, by omega⟩
  have rounds := holds.rounds
  rw [(underway_after date shuffle m).round, readies_eq] at rounds
  have twice : turns 40 = 2 := by decide
  have more := turns_mono second
  omega

theorem roundCycle_of_lt {n : Nat} (first : n < 40) : RoundCycle date shuffle n := by
  refine ⟨fun i k within _ => status_entered date shuffle within, ?_, ?_⟩
  · cases n with
    | zero => rfl
    | succ n =>
        rw [(underway_after date shuffle n).round, readies_eq, turns_first n (by omega)]
  · rintro m within ⟨other, ready⟩
    cases m with
    | zero => exact ⟨rfl, rfl, rfl⟩
    | succ m =>
        -- a second entry would have been counted
        exfalso
        have late : ∀ m < 38,
            ¬ (statusAfter (m + 1) ≠ .ready ∧ statusAfter (m + 2) = .ready) := by decide
        rw [status_after] at other ready
        exact late m (by omega) ⟨other, ready⟩

/-- **The round cycle.** The phases follow each other for every number of ticks, and each is held
for its countdown. But only the first `READY` counts a round and makes a record: `n` ticks come to
what they should if and only if the second `READY`, at tick 40, is not among them. -/
theorem roundCycle_iff (n : Nat) :
    (∀ i k, k < (phase i).countdown → (after date shuffle (entered i + k)).status = phase i) ∧
      (RoundCycle date shuffle n ↔ n < 40) := by
  refine ⟨fun i k within => status_entered date shuffle within, ?_, roundCycle_of_lt date shuffle⟩
  intro holds
  by_contra second
  exact not_roundCycle date shuffle (Nat.le_of_not_lt second) holds

end Run

/-- After 40 ticks `READY` was entered twice and `round` is 1. -/
theorem second_round_not_counted : ¬ ∀ n, RoundCycle () (fun deck => deck) n := by
  intro holds
  exact not_roundCycle () _ (Nat.le_refl 40) (holds 40)

end RillServer.DragonTiger
