import RillServer.Lib.Ring

/-!
# The message ring of the packet filter

`get_queue`, `expand_queue`, `push_data`, `lpop` and `lclear` of
`lualib-src/lua-websocketnetpack.c`, on the fields of `struct queue`. The ring of the packet filter
is used through `RingBuffer`; here are the operations as they are written, and that they are those
of a list of packets to which `push_data` appends and from which `lpop` takes (`message_ring_fifo`).

`B` is the type of pointers to buffers and `U` that of `uncomplete` records. `copy` is what
`push_data` does when it is to clone a buffer. `memory` is what is found in the slots of a queue
that was just allocated with some capacity.
-/

namespace RillServer.MessageRing

/-- `QUEUESIZE`. -/
abbrev queuesize : Nat := 1024

/-- `HASHSIZE`. -/
abbrev hashsize : Nat := 4096

variable {B U : Type}

/-- `struct netpack`. -/
structure Netpack (B : Type) where
  id : Int
  buffer : B
  size : Int
  deriving DecidableEq

/-- `struct queue`. -/
structure Queue (B U : Type) where
  cap : Nat
  head : Nat
  tail : Nat
  hash : Fin hashsize → List U
  queue : Nat → Netpack B

section Operations

variable (copy : B → Int → B) (memory : Nat → Nat → Netpack B)

/-- `get_queue`. -/
def getQueue : Option (Queue B U) → Queue B U
  | none => ⟨queuesize, 0, 0, fun _ => [], memory queuesize⟩
  | some q => q

/-- `expand_queue`: the queue that takes the place of `q`. -/
def expandQueue (q : Queue B U) : Queue B U where
  cap := q.cap + queuesize
  head := 0
  tail := q.cap
  hash := q.hash
  queue := fun i =>
    if i < q.cap then q.queue ((q.head + i) % q.cap) else memory (q.cap + queuesize) i

/-- `push_data`. -/
def pushData (q : Option (Queue B U)) (fd : Int) (buffer : B) (size : Int) (clone : Bool) :
    Queue B U :=
  let buffer := if clone then copy buffer size else buffer
  let q := getQueue memory q
  let np := q.tail
  let tail := if q.tail + 1 ≥ q.cap then q.tail + 1 - q.cap else q.tail + 1
  let q := { q with tail, queue := Function.update q.queue np ⟨fd, buffer, size⟩ }
  if q.head = q.tail then expandQueue memory q else q

/-- `lpop`. -/
def lpop : Option (Queue B U) → Option (Netpack B) × Option (Queue B U)
  | none => (none, none)
  | some q =>
    if q.head = q.tail then (none, some q)
    else
      let head := if q.head + 1 ≥ q.cap then 0 else q.head + 1
      (some (q.queue q.head), some { q with head })

/-- `lclear`: the buffers of the messages that it frees, and the queue. -/
def lclear : Option (Queue B U) → List B × Option (Queue B U)
  | none => ([], none)
  | some q =>
    let tail := if q.head > q.tail then q.tail + q.cap else q.tail
    ((List.range' q.head (tail - q.head)).map fun i => (q.queue (i % q.cap)).buffer,
      some { q with hash := fun _ => [], head := 0, tail := 0 })

end Operations

/-! ## Runs of operations, on the ring and on a list -/

inductive Op (B : Type) where
  | push (fd : Int) (buffer : B) (size : Int) (clone : Bool)
  | pop
  | clear

/-- What an operation gives back. -/
inductive Output (B : Type) where
  | nothing
  | popped (message : Option (Netpack B))
  | freed (buffers : List B)

section Run

variable (copy : B → Int → B) (memory : Nat → Nat → Netpack B)

def Op.onRing (q : Option (Queue B U)) : Op B → Output B × Option (Queue B U)
  | .push fd buffer size clone => (.nothing, some (pushData copy memory q fd buffer size clone))
  | .pop => let (message, q) := lpop q; (.popped message, q)
  | .clear => let (buffers, q) := lclear q; (.freed buffers, q)

/-- The operations on a first-in first-out list. -/
def Op.onList (messages : List (Netpack B)) : Op B → Output B × List (Netpack B)
  | .push fd buffer size clone =>
    (.nothing, messages ++ [⟨fd, if clone then copy buffer size else buffer, size⟩])
  | .pop => (.popped messages.head?, messages.tail)
  | .clear => (.freed (messages.map Netpack.buffer), [])

/-- A sequence of operations, one step after the other. -/
def outputs {S : Type} (step : S → Op B → Output B × S) : S → List (Op B) → List (Output B) × S
  | s, [] => ([], s)
  | s, op :: ops =>
    let (output, s) := step s op
    let (later, s) := outputs step s ops
    (output :: later, s)

end Run

/-! ## The ring stands for a list -/

/-- How many messages are in the ring. -/
def Queue.length (q : Queue B U) : Nat :=
  if q.tail < q.head then q.tail + q.cap - q.head else q.tail - q.head

/-- The messages in the ring, oldest first. -/
def Queue.messages (q : Queue B U) : List (Netpack B) :=
  (List.range q.length).map fun i => q.queue ((q.head + i) % q.cap)

/-- Head and tail are slots of the ring. -/
structure Queue.Inside (q : Queue B U) : Prop where
  head : q.head < q.cap
  tail : q.tail < q.cap

/-- The fields as a ring buffer. -/
def Queue.ring (q : Queue B U) (inside : q.Inside) : RingBuffer (Netpack B) queuesize where
  cap := q.cap
  head := q.head
  tail := q.tail
  slots := q.queue
  headInside := inside.head
  tailInside := inside.tail

theorem Queue.messages_eq (q : Queue B U) (inside : q.Inside) :
    q.messages = (q.ring inside).toList := rfl

theorem Queue.messages_eq_nil_iff {q : Queue B U} (inside : q.Inside) :
    q.messages = [] ↔ q.head = q.tail :=
  (q.ring inside).toList_eq_nil_iff

/-- The tail after one more message. -/
def Queue.nextTail (q : Queue B U) : Nat :=
  if q.tail + 1 ≥ q.cap then q.tail + 1 - q.cap else q.tail + 1

/-- The queue with a message in the slot of the tail. -/
def Queue.write (q : Queue B U) (message : Netpack B) : Queue B U :=
  { q with tail := q.nextTail, queue := Function.update q.queue q.tail message }

section Steps

variable (copy : B → Int → B) (memory : Nat → Nat → Netpack B) {q : Queue B U}

theorem getQueue_inside : (getQueue memory (none : Option (Queue B U))).Inside :=
  ⟨by simp [getQueue], by simp [getQueue]⟩

/-- What `push_data` queues. -/
def pushed (fd : Int) (buffer : B) (size : Int) (clone : Bool) : Netpack B :=
  ⟨fd, if clone then copy buffer size else buffer, size⟩

/-- `push_data` writes the message and expands a queue that is then full. -/
theorem pushData_eq (fd : Int) (buffer : B) (size : Int) (clone : Bool) :
    pushData copy memory (some q) fd buffer size clone =
      if q.head = q.nextTail then expandQueue memory (q.write (pushed copy fd buffer size clone))
      else q.write (pushed copy fd buffer size clone) := rfl

/-- The slots of a larger queue that were in the smaller one hold the messages in order; the others
hold anything. -/
theorem messages_expandQueue (q : Queue B U) :
    (expandQueue memory q).messages =
      (List.range q.cap).map fun i => q.queue ((q.head + i) % q.cap) := by
  apply List.map_congr_left
  intro i member
  have less : i < q.cap := List.mem_range.mp member
  simp only [expandQueue, Nat.zero_add]
  rw [Nat.mod_eq_of_lt (by omega), if_pos less]

theorem pushData_inside (inside : q.Inside) (fd : Int) (buffer : B) (size : Int) (clone : Bool) :
    (pushData copy memory (some q) fd buffer size clone).Inside := by
  have head := inside.head
  have tail := inside.tail
  rw [pushData_eq]
  split
  · refine ⟨?_, ?_⟩
    · simp only [expandQueue, Queue.write]
      omega
    · simp [expandQueue, Queue.write]
  · refine ⟨head, ?_⟩
    simp only [Queue.write, Queue.nextTail]
    split <;> omega

/-- `push_data` appends. -/
theorem messages_pushData (inside : q.Inside) (fd : Int) (buffer : B) (size : Int) (clone : Bool) :
    (pushData copy memory (some q) fd buffer size clone).messages =
      q.messages ++ [pushed copy fd buffer size clone] := by
  rw [q.messages_eq inside, ← RingBuffer.toList_push, pushData_eq]
  have next : (q.ring inside).advance (q.ring inside).tail = q.nextTail := rfl
  have head : (q.ring inside).head = q.head := rfl
  simp only [RingBuffer.push, next, head]
  split
  · rw [messages_expandQueue]
    -- the larger ring of the library starts with the same slots
    simp only [RingBuffer.toList, RingBuffer.size, Nat.not_lt_zero, if_false, Nat.sub_zero]
    apply List.map_congr_left
    intro i member
    have less : i < q.cap := List.mem_range.mp member
    have slot : (0 + i) % (q.cap + queuesize) = i := by
      rw [Nat.zero_add, Nat.mod_eq_of_lt (Nat.lt_add_right queuesize less)]
    simp only [Queue.write, Queue.ring, slot]
  · rfl

/-- The table of incomplete packets is kept, also when the ring is expanded. -/
theorem hash_pushData (fd : Int) (buffer : B) (size : Int) (clone : Bool) :
    (pushData copy memory (some q) fd buffer size clone).hash = q.hash := by
  rw [pushData_eq]
  split <;> rfl

/-- `lpop` takes the first message. -/
theorem lpop_spec (inside : q.Inside) :
    ∃ q', lpop (some q) = (q.messages.head?, some q') ∧ q'.Inside ∧
      q'.messages = q.messages.tail := by
  by_cases empty : q.head = q.tail
  · have none : q.messages = [] := (Queue.messages_eq_nil_iff inside).mpr empty
    refine ⟨q, ?_, inside, by rw [none]; rfl⟩
    rw [none, lpop, if_pos empty]
    rfl
  · have head := inside.head
    have advanced : (q.ring inside).advance q.head =
        if q.head + 1 ≥ q.cap then 0 else q.head + 1 := by
      by_cases wraps : q.head + 1 ≥ q.cap
      · have first : q.head + 1 - q.cap = 0 := by omega
        rw [if_pos wraps, ← first]
        exact if_pos wraps
      · rw [if_neg wraps]
        exact if_neg wraps
    have popped : (q.ring inside).pop = some (q.queue q.head,
        { q.ring inside with
          head := (q.ring inside).advance q.head
          headInside := (q.ring inside).advance_lt inside.head }) := if_neg empty
    have messages := RingBuffer.toList_of_pop popped
    rw [← q.messages_eq inside] at messages
    refine ⟨{ q with head := if q.head + 1 ≥ q.cap then 0 else q.head + 1 }, ?_, ⟨?_, inside.tail⟩,
      ?_⟩
    · rw [messages, lpop, if_neg empty]
      rfl
    · simp only
      split <;> omega
    · rw [messages, ← advanced]
      rfl

/-- `lclear` frees the buffers of all messages and leaves none. -/
theorem lclear_spec (inside : q.Inside) :
    ∃ q', lclear (some q) = (q.messages.map Netpack.buffer, some q') ∧ q'.Inside ∧
      q'.messages = [] := by
  have head := inside.head
  have tail := inside.tail
  refine ⟨_, Prod.ext ?_ rfl, ⟨by simp only; omega, by simp only; omega⟩, rfl⟩
  simp only [lclear, Queue.messages, List.map_map]
  have count : (if q.head > q.tail then q.tail + q.cap else q.tail) - q.head = q.length := by
    unfold Queue.length
    split <;> rfl
  rw [count, List.range'_eq_map_range, List.map_map]
  rfl

end Steps

/-! ## Any run -/

/-- The messages in the ring, none before there is one. -/
def contents : Option (Queue B U) → List (Netpack B)
  | none => []
  | some q => q.messages

/-- Head and tail are slots of the ring, when there is one. -/
def Sound : Option (Queue B U) → Prop
  | none => True
  | some q => q.Inside

section Run

variable (copy : B → Int → B) (memory : Nat → Nat → Netpack B)

/-- One operation on the ring is the one on its messages. -/
theorem Op.onRing_spec (op : Op B) {q : Option (Queue B U)} (sound : Sound q) :
    (op.onRing copy memory q).1 = (op.onList copy (contents q)).1 ∧
      contents (op.onRing copy memory q).2 = (op.onList copy (contents q)).2 ∧
      Sound (op.onRing copy memory q).2 := by
  cases q with
  | none =>
    cases op with
    | push fd buffer size clone =>
      -- a queue is allocated first
      have inside : (getQueue memory (none : Option (Queue B U))).Inside := getQueue_inside memory
      have messages : (getQueue memory (none : Option (Queue B U))).messages = [] := rfl
      have appended := messages_pushData copy memory inside fd buffer size clone
      rw [messages] at appended
      exact ⟨rfl, appended, pushData_inside copy memory inside fd buffer size clone⟩
    | pop => exact ⟨rfl, rfl, trivial⟩
    | clear => exact ⟨rfl, rfl, trivial⟩
  | some q =>
    cases op with
    | push fd buffer size clone =>
      exact ⟨rfl, messages_pushData copy memory sound fd buffer size clone,
        pushData_inside copy memory sound fd buffer size clone⟩
    | pop =>
      obtain ⟨q', popped, inside, messages⟩ := lpop_spec sound
      simp only [Op.onRing, popped]
      exact ⟨rfl, messages, inside⟩
    | clear =>
      obtain ⟨q', cleared, inside, messages⟩ := lclear_spec sound
      simp only [Op.onRing, cleared]
      exact ⟨rfl, messages, inside⟩

/-- A run on the ring is the run on its messages. -/
theorem outputs_spec (ops : List (Op B)) {q : Option (Queue B U)} (sound : Sound q) :
    (outputs (Op.onRing copy memory) q ops).1 = (outputs (Op.onList copy) (contents q) ops).1 ∧
      contents (outputs (Op.onRing copy memory) q ops).2 =
        (outputs (Op.onList copy) (contents q) ops).2 ∧
      Sound (outputs (Op.onRing copy memory) q ops).2 := by
  induction ops generalizing q with
  | nil => exact ⟨rfl, rfl, sound⟩
  | cons op ops ih =>
    obtain ⟨output, messages, sound⟩ := op.onRing_spec copy memory sound
    obtain ⟨later, final, sound⟩ := ih sound
    rw [messages] at later final
    refine ⟨?_, final, sound⟩
    simp only [outputs, output, later]

end Run

/-- The message ring is a first-in first-out list. Any operations, starting from no queue, give back
what they give back on the empty list, and the ring then holds what the list does. Head and tail
coincide only when the list is empty, and one more `push_data`, which may expand the ring, leaves
the table of incomplete packets as it is. -/
theorem message_ring_fifo (copy : B → Int → B) (memory : Nat → Nat → Netpack B)
    (ops : List (Op B)) :
    let ring := outputs (Op.onRing copy memory) (none : Option (Queue B U)) ops
    let list := outputs (Op.onList copy) [] ops
    ring.1 = list.1 ∧ contents ring.2 = list.2 ∧
      ∀ q, ring.2 = some q →
        (q.head = q.tail ↔ list.2 = []) ∧
        ∀ fd buffer size clone,
          (pushData copy memory (some q) fd buffer size clone).hash = q.hash := by
  have start : Sound (none : Option (Queue B U)) := trivial
  obtain ⟨outs, messages, sound⟩ := outputs_spec copy memory ops start
  refine ⟨outs, messages, ?_⟩
  intro q final
  rw [final] at messages sound
  refine ⟨?_, hash_pushData copy memory⟩
  have same : q.messages = _ := messages
  rw [← Queue.messages_eq_nil_iff sound, same]
  rfl

end RillServer.MessageRing
