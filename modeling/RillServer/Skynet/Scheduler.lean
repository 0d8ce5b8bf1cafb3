import RillServer.Lib.Holdings
import RillServer.Lib.Machine
import RillServer.Skynet.Mailbox

/-!
# Workers and message queues

`skynet_server.c` with `skynet_mq.c`: threads that create services, send them messages, kill them, and
work off their queues. A step is what a thread does under one lock, or one atomic change of a
reference count; between two of its steps any others may come. A service is a handle that is used
once; the source has 2^24 of them. `skynet_context_new` makes the queue and registers the handle in
one step here, and what `ctx->init` does is left out, except for whether it fails.

What a step must not do makes the state `broken`: to put a queue in the global queue when it is there
already, to use a queue that was freed, to release a context once too often, or to mark a queue
twice.
-/

namespace RillServer.Skynet

namespace Scheduler

/-- A service: whether its handle is registered, the reference count of its context, and its queue,
which may have been freed. The last three are what has happened: the messages that were pushed, those
that workers have taken, and those that were dropped. -/
structure Service (Msg : Type) where
  registered : Bool
  ref : Nat
  queue : MessageQueue Msg
  freed : Bool
  pushed : List Msg
  taken : List Msg
  dropped : List Msg

/-- Where a thread goes on when it has released a context. -/
inductive Next : Type where
  /-- It is done. -/
  | out
  /-- `skynet_context_new`: it puts the queue of the new service in the global queue. -/
  | launched (h : Handle)
  /-- `skynet_context_new`, when the service fails to begin: it retires the handle. -/
  | failed (h : Handle)
  /-- The same, after that: it releases the queue. -/
  | abandon (h : Handle)
  /-- `thread_worker`, with the queue that it has. -/
  | work (q : Option Handle)
  deriving DecidableEq

/-- What a thread is about to do. -/
inductive Thread (Msg : Type) : Type where
  /-- It is outside of the scheduler. -/
  | out
  /-- `skynet_context_new`: the service begins. -/
  | launch (h : Handle)
  /-- `skynet_context_new`: `skynet_globalmq_push`. -/
  | launched (h : Handle)
  /-- `skynet_context_new`: `skynet_handle_retire`. -/
  | failed (h : Handle)
  /-- `skynet_mq_release`, after which a worker works on. -/
  | refuse (h : Handle) (worker : Bool)
  /-- `_drop_queue`: `skynet_mq_pop`. -/
  | drop (h : Handle) (worker : Bool)
  /-- `_drop_queue`: `_release`. -/
  | free (h : Handle) (worker : Bool)
  /-- `skynet_context_push`: `skynet_mq_push`. -/
  | push (h : Handle) (m : Msg)
  /-- `skynet_context_message_dispatch`. -/
  | work (q : Option Handle)
  /-- Its loop, at `i` of `n`: `skynet_mq_pop`. -/
  | pop (h : Handle) (i n : Nat)
  /-- The first time: `skynet_mq_length`. -/
  | measure (h : Handle) (m : Msg)
  /-- `dispatch_message`: the callback runs. -/
  | call (h : Handle) (i n : Nat) (m : Msg)
  /-- After the loop: `skynet_globalmq_pop`. -/
  | rest (h : Handle)
  /-- `skynet_globalmq_push` of the queue it had, for another one. -/
  | swap (h next : Handle)
  /-- `skynet_context_release`. -/
  | release (h : Handle) (next : Next)
  /-- `delete_context`: `skynet_mq_mark_release`. -/
  | delete (h : Handle) (next : Next)
  deriving DecidableEq

/-- The services, the global queue, the threads, and whether something has gone wrong. -/
structure State (Msg : Type) where
  services : Handle → Option (Service Msg)
  globalmq : List Handle
  threads : List (Thread Msg)
  broken : Bool

variable {Msg : Type}

/-- Where a thread is that goes on. -/
def Next.thread : Next → Thread Msg
  | .out => .out
  | .launched h => .launched h
  | .failed h => .failed h
  | .abandon h => .refuse h false
  | .work q => .work q

/-- What comes after a queue was released: a worker works on. -/
def afterRelease (worker : Bool) : Thread Msg := if worker then .work none else .out

/-- What a thread chooses: what it begins, whether a service begins well, or to go on. -/
inductive Move (Msg : Type) : Type where
  | launch (h : Handle)
  | init (ok : Bool)
  | send (h : Handle) (m : Msg)
  | kill (h : Handle)
  | begin
  | go

namespace State

/-- `skynet_globalmq_push`. -/
def skynet_globalmq_push (st : State Msg) (h : Handle) : State Msg :=
  { st with globalmq := st.globalmq ++ [h], broken := st.broken || decide (h ∈ st.globalmq) }

/-- Store a service, when what was done to it was allowed. -/
def store (st : State Msg) (h : Handle) (good : Bool) (s : Service Msg) : State Msg :=
  { st with services := Function.update st.services h (some s), broken := st.broken || !good }

/-- Something is wrong. -/
def fail (st : State Msg) : State Msg := { st with broken := true }

end State

open State

/-- `skynet_context_new`, up to where the service begins: it is registered and has an empty queue,
and there are two references to its context. -/
def create [Inhabited Msg] : Service Msg where
  registered := true
  ref := 2
  queue := MessageQueue.skynet_mq_create
  freed := false
  pushed := []
  taken := []
  dropped := []

/-- `skynet_handle_retire`: the context is to be released if the handle was registered. -/
def skynet_handle_retire (st : State Msg) (h : Handle) : Bool × State Msg :=
  match st.services h with
  | none => (false, st)
  | some s =>
      if s.registered then (true, st.store h true { s with registered := false }) else (false, st)

/-- `skynet_handle_grab`: a reference to the context of a registered handle. -/
def skynet_handle_grab (st : State Msg) (h : Handle) : Bool × State Msg :=
  match st.services h with
  | none => (false, st)
  | some s => if s.registered then (true, st.store h true { s with ref := s.ref + 1 }) else (false, st)

/-- `skynet_mq_push` on the queue of a service. -/
def pushTo (st : State Msg) (h : Handle) (m : Msg) : State Msg :=
  match st.services h with
  | none => st.fail
  | some s =>
      let pushed := s.queue.skynet_mq_push m
      let st' := st.store h (!s.freed) { s with queue := pushed.2, pushed := s.pushed ++ [m] }
      if pushed.1 then st'.skynet_globalmq_push h else st'

/-- `skynet_mq_pop` on the queue of a service, by a worker that is to dispatch the message or by one
that is to drop it. -/
def popFrom (st : State Msg) (h : Handle) (drops : Bool) : Option Msg × State Msg :=
  match st.services h with
  | none => (none, st.fail)
  | some s =>
      let popped := s.queue.skynet_mq_pop
      let s' := { s with queue := popped.2 }
      match popped.1 with
      | none => (none, st.store h (!s.freed) s')
      | some m =>
          (some m, st.store h (!s.freed)
            (if drops then { s' with dropped := s.dropped ++ [m] }
              else { s' with taken := s.taken ++ [m] }))

/-- `skynet_context_release`: whether it was the last reference. -/
def skynet_context_release (st : State Msg) (h : Handle) : Bool × State Msg :=
  match st.services h with
  | none => (false, st.fail)
  | some s => (decide (s.ref = 1), st.store h (decide (0 < s.ref)) { s with ref := s.ref - 1 })

/-- `skynet_mq_mark_release`. -/
def skynet_mq_mark_release (st : State Msg) (h : Handle) : State Msg :=
  match st.services h with
  | none => st.fail
  | some s =>
      let st' := st.store h (!s.freed && !s.queue.release)
        { s with queue := { s.queue with release := true } }
      if s.queue.in_global then st' else st'.skynet_globalmq_push h

/-- `_release`. -/
def freeQueue (st : State Msg) (h : Handle) : State Msg :=
  match st.services h with
  | none => st.fail
  | some s => st.store h (!s.freed && !decide (h ∈ st.globalmq)) { s with freed := true }

/-- The release flag of a queue. -/
def marked (st : State Msg) (h : Handle) : Bool := (st.services h).any fun s => s.queue.release

/-- To read from a queue. -/
def reads (st : State Msg) (h : Handle) : State Msg :=
  { st with broken := st.broken || !(st.services h).any fun s => !s.freed }

/-- One step of a thread, and what it is about to do then. The weight of the thread says how many
messages of a queue it takes at once. -/
def perform [Inhabited Msg] (weight : Int) (st : State Msg) :
    Thread Msg → Move Msg → Option (State Msg × Thread Msg)
  | .out, .launch h =>
      match st.services h with
      | none => some (st.store h true create, .launch h)
      | some _ => none
  | .out, .send h m =>
      let (found, st') := skynet_handle_grab st h
      some (st', if found then .push h m else .out)
  | .out, .kill h =>
      let (found, st') := skynet_handle_retire st h
      some (st', if found then .release h .out else .out)
  | .out, .begin => some (st, .work none)
  | .launch h, .init ok => some (st, .release h (if ok then .launched h else .failed h))
  | .launched h, .go => some (st.skynet_globalmq_push h, .out)
  | .failed h, .go =>
      let (found, st') := skynet_handle_retire st h
      some (st', if found then .release h (.abandon h) else .refuse h false)
  | .refuse h worker, .go =>
      if marked st h then some (reads st h, .drop h worker)
      else some ((reads st h).skynet_globalmq_push h, afterRelease worker)
  | .drop h worker, .go =>
      let (popped, st') := popFrom st h true
      some (st', if popped.isSome then .drop h worker else .free h worker)
  | .free h worker, .go => some (freeQueue st h, afterRelease worker)
  | .push h m, .go => some (pushTo st h m, .release h .out)
  | .work none, .go =>
      match st.globalmq with
      | [] => some (st, .work none)
      | h :: globalmq => some ({ st with globalmq := globalmq }, .work (some h))
  | .work (some h), .go =>
      let (found, st') := skynet_handle_grab (reads st h) h
      some (st', if found then .pop h 0 1 else .refuse h true)
  | .pop h i n, .go =>
      if i < n then
        let (popped, st') := popFrom st h false
        match popped with
        | none => some (st', .release h (.work none))
        | some m => some (st', if i = 0 ∧ 0 ≤ weight then .measure h m else .call h i n m)
      else some (st, .rest h)
  | .measure h m, .go =>
      match st.services h with
      | none => some (st.fail, .out)
      | some s => some (reads st h, .call h 0 (s.queue.skynet_mq_length >>> weight.toNat) m)
  | .call h i n _, .go => some (st, .pop h (i + 1) n)
  | .rest h, .go =>
      match st.globalmq with
      | [] => some (st, .release h (.work (some h)))
      | next :: globalmq => some ({ st with globalmq := globalmq }, .swap h next)
  | .swap h next, .go => some (st.skynet_globalmq_push h, .release h (.work (some next)))
  | .release h next, .go =>
      let (last, st') := skynet_context_release st h
      some (st', if last then .delete h next else next.thread)
  | .delete h next, .go => some (skynet_mq_mark_release st h, next.thread)
  | _, _ => none

/-- One step of one of the threads. -/
def step [Inhabited Msg] (weight : Nat → Int) (st : State Msg) (e : Nat × Move Msg) :
    Option (State Msg) :=
  match st.threads[e.1]? with
  | none => none
  | some a => (perform (weight e.1) st a e.2).map fun done =>
      { done.1 with threads := st.threads.set e.1 done.2 }

/-- No services yet, and some number of threads. -/
def start (count : Nat) : State Msg where
  services := fun _ => none
  globalmq := []
  threads := List.replicate count .out
  broken := false

end Scheduler

end RillServer.Skynet
