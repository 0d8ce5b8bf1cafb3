import RillServer.Lib.Ring
import RillServer.Skynet.Calls

/-!
# Message queues

`skynet_mq.c`. Every service has a queue of messages, a ring that doubles when it is full. A queue is
told that it is wanted by being put in the global queue; the flag `in_global` says that it is there,
or that a worker has it, so that a push puts it there only when neither is so.

`MessageQueue.mq_run`: however pushes and pops come, a queue gives back what was pushed, in order, its
flag goes down only when a pop finds nothing, and what is noted as an overload is beyond the first
threshold.
-/

namespace RillServer.Skynet

/-- `DEFAULT_QUEUE_SIZE`. -/
abbrev DEFAULT_QUEUE_SIZE : Nat := 64

/-- `MQ_OVERLOAD`. -/
abbrev MQ_OVERLOAD : Nat := 1024

/-- `message_queue`: `cap`, `head`, `tail` and `queue` are a ring. -/
structure MessageQueue (Msg : Type) where
  ring : RingBuffer Msg DEFAULT_QUEUE_SIZE
  release : Bool
  in_global : Bool
  overload : Nat
  overload_threshold : Nat

namespace MessageQueue

variable {Msg : Type}

/-- `skynet_mq_create`. The flag is up, because the one who creates the queue puts it in the global
queue when the service has begun. -/
def skynet_mq_create [Inhabited Msg] : MessageQueue Msg where
  ring := RingBuffer.empty
  release := false
  in_global := true
  overload := 0
  overload_threshold := MQ_OVERLOAD

/-- The messages in the queue, oldest first. -/
def contents (q : MessageQueue Msg) : List Msg := q.ring.toList

/-- `skynet_mq_length`. -/
def skynet_mq_length (q : MessageQueue Msg) : Nat := q.ring.size

/-- `skynet_mq_overload`: the length that was found too great, once. -/
def skynet_mq_overload (q : MessageQueue Msg) : Nat × MessageQueue Msg :=
  if q.overload ≠ 0 then (q.overload, { q with overload := 0 }) else (0, q)

/-- The same slots, which are to be extended by another number when they are full. -/
def regrow {grow : Nat} (grow' : Nat) (r : RingBuffer Msg grow) : RingBuffer Msg grow' where
  cap := r.cap
  head := r.head
  tail := r.tail
  slots := r.slots
  headInside := r.headInside
  tailInside := r.tailInside

/-- Write a message at the tail; `expand_queue` doubles a ring that is full then. -/
def pushRing (r : RingBuffer Msg DEFAULT_QUEUE_SIZE) (m : Msg) : RingBuffer Msg DEFAULT_QUEUE_SIZE :=
  have : NeZero r.cap := ⟨Nat.ne_of_gt (Nat.zero_lt_of_lt r.headInside)⟩
  regrow DEFAULT_QUEUE_SIZE ((regrow r.cap r).push m)

/-- `skynet_mq_push`, and whether it puts the queue in the global queue. -/
def skynet_mq_push (q : MessageQueue Msg) (m : Msg) : Bool × MessageQueue Msg :=
  let pushed := { q with ring := pushRing q.ring m }
  if q.in_global then (false, pushed) else (true, { pushed with in_global := true })

/-- The loop of `skynet_mq_pop`: the threshold is doubled as long as the length is beyond it. It is
not `0`, so this is over before it has been doubled `length` times. -/
def raiseThreshold (length : Nat) : Nat → MessageQueue Msg → MessageQueue Msg
  | 0, q => q
  | fuel + 1, q =>
      if length > q.overload_threshold then
        raiseThreshold length fuel
          { q with overload := length, overload_threshold := q.overload_threshold * 2 }
      else q

/-- `skynet_mq_pop`: the oldest message, or none, in which case the flag goes down. -/
def skynet_mq_pop (q : MessageQueue Msg) : Option Msg × MessageQueue Msg :=
  match q.ring.pop with
  | some (m, ring) => (some m, raiseThreshold ring.size ring.size { q with ring := ring })
  | none => (none, { q with overload_threshold := MQ_OVERLOAD, in_global := false })

/-! ## What one operation does -/

@[simp]
theorem contents_create [Inhabited Msg] : (skynet_mq_create : MessageQueue Msg).contents = [] :=
  (RingBuffer.toList_eq_nil_iff _).mpr rfl

@[simp]
theorem contents_push (q : MessageQueue Msg) (m : Msg) :
    (q.skynet_mq_push m).2.contents = q.contents ++ [m] := by
  have : NeZero q.ring.cap := ⟨Nat.ne_of_gt (Nat.zero_lt_of_lt q.ring.headInside)⟩
  have pushed : (pushRing q.ring m).toList = q.ring.toList ++ [m] :=
    RingBuffer.toList_push (regrow q.ring.cap q.ring) m
  rw [skynet_mq_push]
  split_ifs <;> exact pushed

@[simp]
theorem in_global_push (q : MessageQueue Msg) (m : Msg) :
    (q.skynet_mq_push m).2.in_global = true ∧ (q.skynet_mq_push m).2.release = q.release ∧
      (q.skynet_mq_push m).1 = !q.in_global := by
  rw [skynet_mq_push]
  split_ifs with flag <;> simp [flag]

@[simp]
theorem raiseThreshold_frame (length fuel : Nat) (q : MessageQueue Msg) :
    (raiseThreshold length fuel q).ring = q.ring ∧
      (raiseThreshold length fuel q).release = q.release ∧
      (raiseThreshold length fuel q).in_global = q.in_global := by
  induction fuel generalizing q with
  | zero => exact ⟨rfl, rfl, rfl⟩
  | succ fuel ih =>
      rw [raiseThreshold]
      split_ifs
      · exact ih _
      · exact ⟨rfl, rfl, rfl⟩

/-- What a pop gives and leaves. -/
theorem pop_cases (q : MessageQueue Msg) :
    (q.contents = [] ∧ (q.skynet_mq_pop).1 = none ∧ (q.skynet_mq_pop).2.contents = [] ∧
        (q.skynet_mq_pop).2.in_global = false ∧ (q.skynet_mq_pop).2.release = q.release) ∨
      ∃ m rest, q.contents = m :: rest ∧ (q.skynet_mq_pop).1 = some m ∧
        (q.skynet_mq_pop).2.contents = rest ∧
        (q.skynet_mq_pop).2.in_global = q.in_global ∧ (q.skynet_mq_pop).2.release = q.release := by
  rw [skynet_mq_pop]
  split
  next m ring popped =>
    have frame := raiseThreshold_frame ring.size ring.size { q with ring := ring }
    refine .inr ⟨m, ring.toList, RingBuffer.toList_of_pop popped, rfl, ?_, frame.2.2, frame.2.1⟩
    exact congrArg RingBuffer.toList frame.1
  next none =>
    have empty := (RingBuffer.pop_eq_none_iff _).mp none
    exact .inl ⟨empty, rfl, empty, rfl, rfl⟩

/-- The threshold is doubled until the length is not beyond it. An overload that is noted is the
length, when it was beyond the threshold. -/
theorem raiseThreshold_spec {length fuel : Nat} {q : MessageQueue Msg}
    (enough : length ≤ q.overload_threshold * 2 ^ fuel) :
    (∃ k, (raiseThreshold length fuel q).overload_threshold = q.overload_threshold * 2 ^ k) ∧
      length ≤ (raiseThreshold length fuel q).overload_threshold ∧
      (raiseThreshold length fuel q).overload =
        if length > q.overload_threshold then length else q.overload := by
  induction fuel generalizing q with
  | zero =>
      rw [Nat.pow_zero, Nat.mul_one] at enough
      exact ⟨⟨0, (Nat.mul_one _).symm⟩, enough, (if_neg (Nat.not_lt.mpr enough)).symm⟩
  | succ fuel ih =>
      rw [raiseThreshold]
      split_ifs with beyond
      · rw [Nat.pow_succ, Nat.mul_comm (2 ^ fuel), ← Nat.mul_assoc] at enough
        obtain ⟨⟨k, doubled⟩, fits, noted⟩ :=
          ih (q := { q with overload := length, overload_threshold := q.overload_threshold * 2 })
            enough
        refine ⟨⟨k + 1, ?_⟩, fits, ?_⟩
        · rw [doubled, Nat.pow_succ, Nat.mul_comm (2 ^ k), ← Nat.mul_assoc]
        · rw [noted, ite_self]
      · exact ⟨⟨0, (Nat.mul_one _).symm⟩, Nat.not_lt.mp beyond, rfl⟩

/-- What the queue keeps of its thresholds: a doubling of the first one, and no overload that is not
beyond that. -/
structure Measured (q : MessageQueue Msg) : Prop where
  threshold : ∃ k, q.overload_threshold = MQ_OVERLOAD * 2 ^ k
  overload : q.overload = 0 ∨ MQ_OVERLOAD < q.overload

theorem Measured.pop {q : MessageQueue Msg} (measured : Measured q) :
    Measured q.skynet_mq_pop.2 ∧
      q.skynet_mq_pop.2.skynet_mq_length ≤ q.skynet_mq_pop.2.overload_threshold := by
  obtain ⟨k, doubled⟩ := measured.threshold
  have least : MQ_OVERLOAD ≤ q.overload_threshold := by
    rw [doubled]
    exact Nat.le_mul_of_pos_right _ (Nat.two_pow_pos k)
  rw [skynet_mq_pop]
  split
  next m ring popped =>
    have enough : ring.size ≤ q.overload_threshold * 2 ^ ring.size :=
      Nat.le_trans (Nat.le_of_lt Nat.lt_two_pow_self)
        (Nat.le_mul_of_pos_left _ (Nat.lt_of_lt_of_le (by decide) least))
    obtain ⟨⟨k', more⟩, fits, noted⟩ :=
      raiseThreshold_spec (q := { q with ring := ring }) enough
    have frame := raiseThreshold_frame ring.size ring.size { q with ring := ring }
    refine ⟨⟨⟨k + k', ?_⟩, ?_⟩, ?_⟩
    · rw [more, doubled, Nat.pow_add, Nat.mul_assoc]
    · rw [noted]
      split_ifs with beyond
      · exact .inr (Nat.lt_of_le_of_lt least beyond)
      · exact measured.overload
    · rw [skynet_mq_length, frame.1]
      exact fits
  next none =>
    have empty := (RingBuffer.pop_eq_none_iff _).mp none
    refine ⟨⟨⟨0, rfl⟩, measured.overload⟩, ?_⟩
    have length : q.ring.size = 0 := by
      rw [RingBuffer.toList, List.map_eq_nil_iff, List.range_eq_nil] at empty
      exact empty
    rw [skynet_mq_length, length]
    exact Nat.zero_le _

theorem Measured.push {q : MessageQueue Msg} (measured : Measured q) (m : Msg) :
    Measured (q.skynet_mq_push m).2 := by
  rw [skynet_mq_push]
  split_ifs <;> exact ⟨measured.threshold, measured.overload⟩

/-! ## Runs -/

/-- What is done to a queue. -/
inductive Use (Msg : Type) : Type where
  | push (m : Msg)
  | pop

/-- One operation, and the message that a pop gives. -/
def use (q : MessageQueue Msg) : Use Msg → Option Msg × MessageQueue Msg
  | .push m => (none, (q.skynet_mq_push m).2)
  | .pop => q.skynet_mq_pop

/-- The same on a list of messages and a flag that goes down when a pop finds nothing. -/
def useList (messages : List Msg) (flag : Bool) : Use Msg → Option Msg × List Msg × Bool
  | .push m => (none, messages ++ [m], true)
  | .pop =>
      match messages with
      | [] => (none, [], false)
      | m :: rest => (some m, rest, flag)

/-- The messages that the pops of a run give, and what is left. -/
def useAll (q : MessageQueue Msg) : List (Use Msg) → List (Option Msg) × MessageQueue Msg
  | [] => ([], q)
  | u :: us =>
      let (got, q') := q.use u
      let (more, last) := useAll q' us
      (got :: more, last)

/-- The same on a list. -/
def useAllList (messages : List Msg) (flag : Bool) :
    List (Use Msg) → List (Option Msg) × List Msg × Bool
  | [] => ([], messages, flag)
  | u :: us =>
      let (got, messages', flag') := useList messages flag u
      let (more, last) := useAllList messages' flag' us
      (got :: more, last)

/-- From a queue whose flag is down only when it is empty. -/
theorem useAll_spec {q : MessageQueue Msg} (measured : Measured q) (us : List (Use Msg)) :
    (q.useAll us).1 = (useAllList q.contents q.in_global us).1 ∧
      (q.useAll us).2.contents = (useAllList q.contents q.in_global us).2.1 ∧
      (q.useAll us).2.in_global = (useAllList q.contents q.in_global us).2.2 ∧
      Measured (q.useAll us).2 := by
  induction us generalizing q with
  | nil => exact ⟨rfl, rfl, rfl, measured⟩
  | cons u us ih =>
      cases u with
      | push m =>
          have rest := ih (measured.push m)
          rw [contents_push, (in_global_push q m).1] at rest
          exact ⟨congrArg (none :: ·) rest.1, rest.2⟩
      | pop =>
          have rest := ih measured.pop.1
          rcases q.pop_cases with ⟨empty, got, left, flag, -⟩ | ⟨m, after, front, got, left, flag, -⟩
          · rw [left, flag] at rest
            simp only [useAll, useAllList, use, useList, empty, got]
            exact ⟨congrArg _ rest.1, rest.2⟩
          · rw [left, flag] at rest
            simp only [useAll, useAllList, use, useList, front, got]
            exact ⟨congrArg _ rest.1, rest.2⟩

/-- However pushes and pops of a new queue come, and however often its ring is doubled: the pops give
what they would of a list, and leave what they would leave; the flag goes down when a pop finds
nothing, and up with the next push; and a length is noted as an overload only beyond the first
threshold, which pops double until it covers what they leave. -/
theorem mq_run [Inhabited Msg] (us : List (Use Msg)) :
    (skynet_mq_create.useAll us).1 = (useAllList [] true us).1 ∧
      (skynet_mq_create.useAll us).2.contents = (useAllList [] true us).2.1 ∧
      (skynet_mq_create.useAll us).2.in_global = (useAllList [] true us).2.2 ∧
      ((skynet_mq_create.useAll us).2.overload = 0 ∨
        MQ_OVERLOAD < (skynet_mq_create.useAll us).2.overload) ∧
      (skynet_mq_create.useAll us).2.skynet_mq_pop.2.skynet_mq_length ≤
        (skynet_mq_create.useAll us).2.skynet_mq_pop.2.overload_threshold := by
  have measured : Measured (skynet_mq_create : MessageQueue Msg) := ⟨⟨0, rfl⟩, .inl rfl⟩
  have whole := useAll_spec measured us
  rw [contents_create] at whole
  exact ⟨whole.1, whole.2.1, whole.2.2.1, whole.2.2.2.overload, whole.2.2.2.pop.2⟩

end MessageQueue

end RillServer.Skynet
