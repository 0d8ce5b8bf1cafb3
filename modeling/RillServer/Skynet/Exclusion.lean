import RillServer.Skynet.Scheduler

/-!
# What workers and senders keep

`Scheduler.Inv`: how the reference count of a service, the flags of its queue and the places where the
queue can be are tied to what the threads are about to do. `Scheduler.Ok` says it of one service;
`Ok.push`, `Ok.grab`, `Ok.release`, `Ok.mark` and the like say what keeps it, and `Inv.grab`,
`Inv.release`, `Inv.popTaken` and the like carry them to the steps of a thread.
-/

namespace RillServer.Skynet

namespace Scheduler

variable {Msg : Type}

/-- What threads hold of a service. -/
inductive Kind : Type where
  /-- Its queue. -/
  | queue
  /-- A reference to its context. -/
  | ref
  /-- The duty to mark its queue. -/
  | delete
  /-- The duty to drop its messages. -/
  | drop
  /-- The duty to free its queue, which has been found empty. -/
  | free
  deriving DecidableEq

/-- What a thread holds when it has released a context. -/
def Next.holdings : Next → List (Kind × Handle)
  | .launched h | .failed h | .abandon h | .work (some h) => [(.queue, h)]
  | .out | .work none => []

/-- What a thread holds. -/
def Thread.holdings : Thread Msg → List (Kind × Handle)
  | .out | .work none => []
  | .launched h | .failed h | .refuse h _ | .work (some h) => [(.queue, h)]
  | .drop h _ => [(.drop, h), (.queue, h)]
  | .free h _ => [(.free, h), (.drop, h), (.queue, h)]
  | .push h _ => [(.ref, h)]
  | .launch h | .pop h _ _ | .measure h _ | .call h _ _ _ | .rest h => [(.ref, h), (.queue, h)]
  | .swap h next => [(.queue, next), (.ref, h), (.queue, h)]
  | .release h next => (.ref, h) :: next.holdings
  | .delete h next => (.delete, h) :: next.holdings

/-- A thread that goes on has what was left to it. -/
theorem Next.holdings_thread (next : Next) : (next.thread : Thread Msg).holdings = next.holdings := by
  cases next with
  | work q => cases q <;> rfl
  | _ => rfl

theorem holdings_afterRelease (worker : Bool) : (afterRelease worker : Thread Msg).holdings = [] := by
  cases worker <;> rfl

/-- What ties a service to the number of times its queue is in the global queue and to what the
threads hold of it. -/
structure Ok (s : Service Msg) (inGlobal : Nat) (held : Kind → Nat) : Prop where
  ref : s.ref = (if s.registered then 1 else 0) + held .ref
  delete : held .delete = if s.ref = 0 ∧ s.queue.release = false then 1 else 0
  place : inGlobal + held .queue =
    if s.freed then 0 else if s.queue.in_global ∨ s.queue.release then 1 else 0
  released : s.queue.release = true → s.ref = 0
  freed : s.freed = true → s.queue.release = true ∧ s.queue.contents = []
  quiet : s.queue.in_global = false → s.queue.contents = []
  drop : 0 < held .drop → s.queue.release = true
  free : 0 < held .free → s.queue.release = true ∧ s.queue.contents = []
  history : s.pushed = s.taken ++ s.dropped ++ s.queue.contents
  dropped : s.dropped ≠ [] → s.queue.release = true

/-- A service is known as it is tied to the threads, or nothing of it is anywhere. -/
def Known (s : Option (Service Msg)) (inGlobal : Nat) (held : Kind → Nat) : Prop :=
  match s with
  | none => inGlobal = 0 ∧ ∀ k, held k = 0
  | some s => Ok s inGlobal held

/-- How much of a kind all threads hold of a service. -/
def State.held (st : State Msg) (h : Handle) (k : Kind) : Nat :=
  Holdings.total Thread.holdings st.threads (k, h)

/-- When a thread goes on, what the threads hold changes by what it holds. -/
theorem total_change {st : State Msg} {t : Nat} {a : Thread Msg} (here : st.threads[t]? = some a)
    (b : Thread Msg) (h : Handle) (k : Kind) :
    Holdings.total Thread.holdings (st.threads.set t b) (k, h) + a.holdings.count (k, h) =
      st.held h k + b.holdings.count (k, h) :=
  Holdings.total_set here b (k, h)

/-- A thread that goes on with as much of a service leaves what the threads hold of it. -/
theorem eq_of_change {a b : Thread Msg} {h : Handle} {n n' : Kind → Nat}
    (same : ∀ k, b.holdings.count (k, h) = a.holdings.count (k, h))
    (change : ∀ k, n' k + a.holdings.count (k, h) = n k + b.holdings.count (k, h)) : n' = n := by
  funext k
  have now := change k
  rw [same k] at now
  exact Nat.add_right_cancel now

/-- Nothing has gone wrong, and every service is known. -/
structure Inv (st : State Msg) : Prop where
  sound : st.broken = false
  known : ∀ h, Known (st.services h) (st.globalmq.count h) (st.held h)

/-- A step of a thread that concerns one service. -/
theorem Inv.local {st : State Msg} {t : Nat} {a b : Thread Msg} (inv : Inv st) (st' : State Msg)
    (here : st.threads[t]? = some a) (h : Handle) (sound : st'.broken = false)
    (services : ∀ g, g ≠ h → st'.services g = st.services g)
    (global : ∀ g, g ≠ h → st'.globalmq.count g = st.globalmq.count g)
    (same : ∀ g, g ≠ h → ∀ k, b.holdings.count (k, g) = a.holdings.count (k, g))
    (mine : ∀ n' : Kind → Nat,
      (∀ k, n' k + a.holdings.count (k, h) = st.held h k + b.holdings.count (k, h)) →
      Known (st.services h) (st.globalmq.count h) (st.held h) →
      Known (st'.services h) (st'.globalmq.count h) n') :
    Inv { st' with threads := st.threads.set t b } := by
  refine ⟨sound, fun g => ?_⟩
  have change := fun k => total_change here b g k
  by_cases other : g = h
  · subst other
    exact mine _ change (inv.known g)
  · have unchanged : (State.held { st' with threads := st.threads.set t b } g) = st.held g :=
      eq_of_change (same g other) change
    rw [unchanged]
    simp only
    rw [services g other, global g other]
    exact inv.known g

/-- A service whose queue is somewhere has not been freed. -/
theorem Ok.not_freed {s : Service Msg} {c : Nat} {n : Kind → Nat} (ok : Ok s c n)
    (somewhere : 0 < c + n .queue) : s.freed = false := by
  have place := ok.place
  cases freed : s.freed with
  | false => rfl
  | true =>
      rw [freed, if_pos rfl] at place
      omega

/-- A service that something holds a reference of is not marked. -/
theorem Ok.alive {s : Service Msg} {c : Nat} {n : Kind → Nat} (ok : Ok s c n)
    (referenced : 0 < n .ref) : s.queue.release = false ∧ s.freed = false ∧ s.dropped = [] := by
  have ref := ok.ref
  have alive : s.queue.release = false := by
    by_contra marked
    rw [Bool.not_eq_false] at marked
    have := ok.released marked
    omega
  refine ⟨alive, ?_, ?_⟩
  · by_contra freed
    rw [Bool.not_eq_false] at freed
    rw [(ok.freed freed).1] at alive
    cases alive
  · by_contra dropped
    rw [ok.dropped dropped] at alive
    cases alive

section

variable {s : Service Msg} {c c' : Nat} {n n' : Kind → Nat}

/-- The queue of a context that is to be deleted has not been marked. -/
theorem Ok.dead (ok : Ok s c n) (duty : 0 < n .delete) : s.ref = 0 ∧ s.queue.release = false := by
  by_contra other
  have delete := ok.delete
  rw [if_neg other] at delete
  omega

/-- A queue that has not been marked has not been freed. -/
theorem Ok.unfreed (ok : Ok s c n) (unmarked : s.queue.release = false) : s.freed = false := by
  by_contra freed
  rw [Bool.not_eq_false] at freed
  rw [(ok.freed freed).1] at unmarked
  cases unmarked

/-- The queue is marked, and a thread that has it is to drop its messages. -/
theorem Ok.resolve (ok : Ok s c n) (marked : s.queue.release = true)
    (others : ∀ k, k ≠ .drop → n' k = n k) : Ok s c n' where
  ref := by rw [others .ref (by decide)]; exact ok.ref
  delete := by rw [others .delete (by decide)]; exact ok.delete
  place := by rw [others .queue (by decide)]; exact ok.place
  released := ok.released
  freed := ok.freed
  quiet := ok.quiet
  drop := fun _ => marked
  free := by rw [others .free (by decide)]; exact ok.free
  history := ok.history
  dropped := ok.dropped
/-- The queue goes from one place to another. -/
theorem Ok.moved (ok : Ok s c n) (place : c' + n' .queue = c + n .queue)
    (others : ∀ k, k ≠ .queue → n' k = n k) : Ok s c' n' where
  ref := by rw [others .ref (by decide)]; exact ok.ref
  delete := by rw [others .delete (by decide)]; exact ok.delete
  place := by rw [place]; exact ok.place
  released := ok.released
  freed := ok.freed
  quiet := ok.quiet
  drop := by rw [others .drop (by decide)]; exact ok.drop
  free := by rw [others .free (by decide)]; exact ok.free
  history := ok.history
  dropped := ok.dropped

/-- A message is pushed by a thread that has a reference; the queue is put in the global queue if its
flag is down. -/
theorem Ok.push (ok : Ok s c n) (referenced : 0 < n .ref) (m : Msg) :
    Ok { s with queue := (s.queue.skynet_mq_push m).2, pushed := s.pushed ++ [m] }
      (c + if (s.queue.skynet_mq_push m).1 then 1 else 0) n := by
  obtain ⟨alive, unfreed, undropped⟩ := ok.alive referenced
  obtain ⟨flag, kept, wakes⟩ := s.queue.in_global_push m
  have place := ok.place
  rw [unfreed, alive] at place
  constructor
  case ref => exact ok.ref
  case delete =>
    simp only [kept]
    exact ok.delete
  case place =>
    simp only [unfreed, flag, wakes]
    cases up : s.queue.in_global <;> simp [up] at place ⊢ <;> omega
  case released => exact fun marked => ok.released (kept ▸ marked)
  case freed => exact fun freed => absurd (unfreed.symm.trans freed) Bool.false_ne_true
  case quiet => exact fun down => absurd (down.symm.trans flag) Bool.false_ne_true
  case drop => exact fun some => kept ▸ ok.drop some
  case free =>
    intro some
    have marked := (ok.free some).1
    rw [alive] at marked
    cases marked
  case history =>
    simp only [MessageQueue.contents_push]
    rw [ok.history, List.append_assoc]
  case dropped => exact fun some => kept ▸ ok.dropped some

/-- A reference is taken while the handle is registered. -/
theorem Ok.grab (ok : Ok s c n) (registered : s.registered = true)
    (more : n' .ref = n .ref + 1) (others : ∀ k, k ≠ .ref → n' k = n k) :
    Ok { s with ref := s.ref + 1 } c n' := by
  have ref := ok.ref
  have delete := ok.delete
  rw [registered, if_pos rfl] at ref
  rw [if_neg (by omega)] at delete
  constructor
  case ref => simp only [registered, if_true, more]; omega
  case delete => rw [others .delete (by decide), delete, if_neg (by simp)]
  case place => rw [others .queue (by decide)]; exact ok.place
  case released =>
    intro marked
    have := ok.released marked
    omega
  case freed => exact ok.freed
  case quiet => exact ok.quiet
  case drop => rw [others .drop (by decide)]; exact ok.drop
  case free => rw [others .free (by decide)]; exact ok.free
  case history => exact ok.history
  case dropped => exact ok.dropped

/-- The handle is retired, and its reference passes to the thread. -/
theorem Ok.retire (ok : Ok s c n) (registered : s.registered = true)
    (more : n' .ref = n .ref + 1) (others : ∀ k, k ≠ .ref → n' k = n k) :
    Ok { s with registered := false } c n' := by
  have ref := ok.ref
  rw [registered, if_pos rfl] at ref
  constructor
  case ref => simp only [Bool.false_eq_true, if_false, more]; omega
  case delete => rw [others .delete (by decide)]; exact ok.delete
  case place => rw [others .queue (by decide)]; exact ok.place
  case released => exact ok.released
  case freed => exact ok.freed
  case quiet => exact ok.quiet
  case drop => rw [others .drop (by decide)]; exact ok.drop
  case free => rw [others .free (by decide)]; exact ok.free
  case history => exact ok.history
  case dropped => exact ok.dropped

/-- A reference is released; the last one leaves the duty to mark the queue. -/
theorem Ok.release (ok : Ok s c n) (less : n' .ref + 1 = n .ref)
    (duty : n' .delete = n .delete + if s.ref = 1 then 1 else 0)
    (others : ∀ k, k ≠ .ref → k ≠ .delete → n' k = n k) : Ok { s with ref := s.ref - 1 } c n' := by
  have ref := ok.ref
  have delete := ok.delete
  have alive := (ok.alive (by omega)).1
  rw [if_neg (by omega)] at delete
  constructor
  case ref => simp only; omega
  case delete =>
    rw [duty, delete]
    simp only [alive, and_true, Nat.zero_add]
    split_ifs <;> omega
  case place => rw [others .queue (by decide) (by decide)]; exact ok.place
  case released =>
    intro marked
    rw [alive] at marked
    cases marked
  case freed => exact ok.freed
  case quiet => exact ok.quiet
  case drop => rw [others .drop (by decide) (by decide)]; exact ok.drop
  case free => rw [others .free (by decide) (by decide)]; exact ok.free
  case history => exact ok.history
  case dropped => exact ok.dropped

/-- The queue of a deleted context is marked, and put in the global queue if its flag is down. -/
theorem Ok.mark (ok : Ok s c n) (duty : n' .delete + 1 = n .delete)
    (others : ∀ k, k ≠ .delete → n' k = n k) :
    Ok { s with queue := { s.queue with release := true } }
      (c + if s.queue.in_global then 0 else 1) n' := by
  have delete := ok.delete
  have dead := ok.dead (by omega)
  have unfreed := ok.unfreed dead.2
  have place := ok.place
  rw [dead.2, unfreed] at place
  rw [if_pos dead] at delete
  constructor
  case ref => rw [others .ref (by decide)]; exact ok.ref
  case delete =>
    rw [if_neg (by simp)]
    omega
  case place =>
    rw [others .queue (by decide)]
    simp only [unfreed]
    cases up : s.queue.in_global <;> simp [up] at place ⊢ <;> omega
  case released => exact fun _ => dead.1
  case freed => exact fun freed => absurd (unfreed.symm.trans freed) Bool.false_ne_true
  case quiet => exact ok.quiet
  case drop => exact fun _ => rfl
  case free =>
    intro some
    rw [others .free (by decide)] at some
    exact ⟨rfl, (ok.free some).2⟩
  case history => exact ok.history
  case dropped => exact fun _ => rfl

/-- A worker takes a message. -/
theorem Ok.take (ok : Ok s c n) (referenced : 0 < n .ref) {m : Msg} {rest : List Msg}
    (front : s.queue.contents = m :: rest) (left : s.queue.skynet_mq_pop.2.contents = rest)
    (flag : s.queue.skynet_mq_pop.2.in_global = s.queue.in_global)
    (kept : s.queue.skynet_mq_pop.2.release = s.queue.release) :
    Ok { s with queue := s.queue.skynet_mq_pop.2, taken := s.taken ++ [m] } c n := by
  obtain ⟨alive, unfreed, undropped⟩ := ok.alive referenced
  constructor
  case ref => exact ok.ref
  case delete => simp only [kept]; exact ok.delete
  case place => simp only [kept, flag]; exact ok.place
  case released => exact fun marked => ok.released (kept ▸ marked)
  case freed => exact fun freed => absurd (unfreed.symm.trans freed) Bool.false_ne_true
  case quiet =>
    intro down
    rw [ok.quiet (flag ▸ down)] at front
    cases front
  case drop => exact fun some => kept ▸ ok.drop some
  case free =>
    intro some
    rw [(ok.free some).2] at front
    cases front
  case history =>
    simp only [left]
    rw [ok.history, undropped, front]
    simp
  case dropped => exact fun some => absurd undropped some

/-- A worker finds nothing; the flag goes down, and the worker has the queue no longer. -/
theorem Ok.rest (ok : Ok s c n) (referenced : 0 < n .ref) (has : n' .queue + 1 = n .queue)
    (others : ∀ k, k ≠ .queue → n' k = n k) (left : s.queue.skynet_mq_pop.2.contents = [])
    (empty : s.queue.contents = []) (flag : s.queue.skynet_mq_pop.2.in_global = false)
    (kept : s.queue.skynet_mq_pop.2.release = s.queue.release) :
    Ok { s with queue := s.queue.skynet_mq_pop.2 } c n' := by
  obtain ⟨alive, unfreed, undropped⟩ := ok.alive referenced
  have place := ok.place
  rw [unfreed, alive] at place
  constructor
  case ref => rw [others .ref (by decide)]; exact ok.ref
  case delete => simp only [kept]; rw [others .delete (by decide)]; exact ok.delete
  case place =>
    simp only [unfreed, flag, kept, alive]
    cases up : s.queue.in_global <;> simp [up] at place ⊢ <;> omega
  case released => exact fun marked => ok.released (kept ▸ marked)
  case freed => exact fun freed => absurd (unfreed.symm.trans freed) Bool.false_ne_true
  case quiet => exact fun _ => left
  case drop => rw [others .drop (by decide)]; exact fun some => kept ▸ ok.drop some
  case free =>
    rw [others .free (by decide)]
    exact fun some => ⟨kept ▸ (ok.free some).1, left⟩
  case history =>
    simp only [left]
    rw [ok.history, empty]
  case dropped => exact fun some => kept ▸ ok.dropped some

/-- A message of a marked queue is dropped. -/
theorem Ok.dropOne (ok : Ok s c n) (duty : 0 < n .drop) (has : 0 < n .queue) {m : Msg}
    {rest : List Msg} (front : s.queue.contents = m :: rest)
    (left : s.queue.skynet_mq_pop.2.contents = rest)
    (flag : s.queue.skynet_mq_pop.2.in_global = s.queue.in_global)
    (kept : s.queue.skynet_mq_pop.2.release = s.queue.release) :
    Ok { s with queue := s.queue.skynet_mq_pop.2, dropped := s.dropped ++ [m] } c n := by
  have unfreed := ok.not_freed (Nat.add_pos_right c has)
  constructor
  case ref => exact ok.ref
  case delete => simp only [kept]; exact ok.delete
  case place => simp only [kept, flag]; exact ok.place
  case released => exact fun marked => ok.released (kept ▸ marked)
  case freed => exact fun freed => absurd (unfreed.symm.trans freed) Bool.false_ne_true
  case quiet =>
    intro down
    rw [ok.quiet (flag ▸ down)] at front
    cases front
  case drop => exact fun some => kept ▸ ok.drop some
  case free =>
    intro some
    rw [(ok.free some).2] at front
    cases front
  case history =>
    simp only [left]
    rw [ok.history, front]
    simp
  case dropped => exact fun _ => kept ▸ ok.drop duty

/-- A marked queue is found empty, and is to be freed. -/
theorem Ok.dropNone (ok : Ok s c n) (duty : 0 < n .drop) (others : ∀ k, k ≠ .free → n' k = n k)
    (left : s.queue.skynet_mq_pop.2.contents = []) (empty : s.queue.contents = [])
    (kept : s.queue.skynet_mq_pop.2.release = s.queue.release) :
    Ok { s with queue := s.queue.skynet_mq_pop.2 } c n' := by
  have marked := ok.drop duty
  have place := ok.place
  constructor
  case ref => rw [others .ref (by decide)]; exact ok.ref
  case delete => simp only [kept]; rw [others .delete (by decide)]; exact ok.delete
  case place =>
    rw [others .queue (by decide)]
    simp only [kept, marked, or_true, if_true] at place ⊢
    exact place
  case released => exact fun _ => ok.released marked
  case freed => exact fun freed => ⟨kept ▸ marked, left⟩
  case quiet => exact fun _ => left
  case drop => exact fun _ => kept ▸ marked
  case free => exact fun _ => ⟨kept ▸ marked, left⟩
  case history =>
    simp only [left]
    rw [ok.history, empty]
  case dropped => exact fun _ => kept ▸ marked

/-- An empty marked queue is freed by the thread that has it. -/
theorem Ok.freeQueue (ok : Ok s c n) (duty : 0 < n .free) (has : n' .queue + 1 = n .queue)
    (ref : n' .ref = n .ref) (delete : n' .delete = n .delete) : Ok { s with freed := true } c n' := by
  have marked := ok.free duty
  have place := ok.place
  rw [ok.not_freed (Nat.add_pos_right c (by omega))] at place
  constructor
  case ref => rw [ref]; exact ok.ref
  case delete => rw [delete]; exact ok.delete
  case place =>
    simp [marked.1] at place ⊢
    omega
  case released => exact ok.released
  case freed => exact fun _ => marked
  case quiet => exact ok.quiet
  case drop => exact fun _ => marked.1
  case free => exact fun _ => marked
  case history => exact ok.history
  case dropped => exact ok.dropped

end

/-! ## Steps -/

section

variable {st : State Msg} {t : Nat}

/-- A service that a thread holds something of is known. -/
theorem Inv.service (inv : Inv st) {a : Thread Msg} (here : st.threads[t]? = some a) {k : Kind}
    {h : Handle} (holds : (k, h) ∈ a.holdings) :
    ∃ s, st.services h = some s ∧ Ok s (st.globalmq.count h) (st.held h) ∧ 0 < st.held h k := by
  have known := inv.known h
  have less : a.holdings.count (k, h) ≤ st.held h k := Holdings.le_total here (k, h)
  have some : 0 < st.held h k := Nat.lt_of_lt_of_le (List.count_pos_iff.mpr holds) less
  cases found : st.services h with
  | none =>
      rw [found] at known
      have := known.2 k
      omega
  | some s =>
      rw [found] at known
      exact ⟨s, rfl, known, some⟩

/-- A queue that a thread has is not in the global queue. -/
theorem Inv.not_global (inv : Inv st) {a : Thread Msg} (here : st.threads[t]? = some a) {h : Handle}
    (holds : (Kind.queue, h) ∈ a.holdings) : h ∉ st.globalmq := by
  obtain ⟨s, _, ok, has⟩ := inv.service here holds
  have place := ok.place
  have none : st.globalmq.count h = 0 := by
    split_ifs at place <;> omega
  exact List.count_eq_zero.mp none

/-- A thread has one more of a kind than another one, of one service. -/
def Gains (a b : Thread Msg) (k : Kind) (h : Handle) : Prop :=
  b.holdings.Perm ((k, h) :: a.holdings)

theorem Gains.mem {a b : Thread Msg} {k : Kind} {h : Handle} (gains : Gains a b k h) :
    (k, h) ∈ b.holdings := gains.mem_iff.mpr List.mem_cons_self

theorem Gains.same {a b : Thread Msg} {k : Kind} {h g : Handle} (gains : Gains a b k h) (other : g ≠ h)
    (k' : Kind) : b.holdings.count (k', g) = a.holdings.count (k', g) := by
  rw [gains.count_eq, List.count_cons_of_ne]
  intro same
  exact other (Prod.mk.inj same).2.symm

theorem Gains.total {a b : Thread Msg} {k : Kind} {h : Handle} {n n' : Kind → Nat}
    (gains : Gains a b k h)
    (change : ∀ k, n' k + a.holdings.count (k, h) = n k + b.holdings.count (k, h)) :
    n' k = n k + 1 ∧ ∀ k', k' ≠ k → n' k' = n k' := by
  constructor
  · have moved := change k
    rw [gains.count_eq, List.count_cons_self] at moved
    omega
  · intro k' other
    have same := change k'
    rw [gains.count_eq, List.count_cons_of_ne fun same => other (Prod.mk.inj same).1.symm] at same
    exact Nat.add_right_cancel same

theorem Gains.total_back {a b : Thread Msg} {k : Kind} {h : Handle} {n n' : Kind → Nat}
    (gains : Gains b a k h)
    (change : ∀ k, n' k + a.holdings.count (k, h) = n k + b.holdings.count (k, h)) :
    n' k + 1 = n k ∧ ∀ k', k' ≠ k → n' k' = n k' := by
  have back : n k = n' k + 1 ∧ ∀ k', k' ≠ k → n k' = n' k' :=
    gains.total fun k => (change k).symm
  exact ⟨back.1.symm, fun k' other => (back.2 k' other).symm⟩

/-- A thread that puts the queue it has in the global queue, and goes on without it. -/
theorem Inv.give (inv : Inv st) {a b : Thread Msg} (here : st.threads[t]? = some a) {h : Handle}
    (gives : Gains b a .queue h) :
    Inv { st.skynet_globalmq_push h with threads := st.threads.set t b } := by
  obtain ⟨s, found, _⟩ := inv.service here gives.mem
  have away := inv.not_global here gives.mem
  apply inv.local (st.skynet_globalmq_push h) here h
  · simp [State.skynet_globalmq_push, inv.sound, away]
  · exact fun g _ => rfl
  · intro g other
    simp [State.skynet_globalmq_push, Ne.symm other]
  · exact fun g other k => (gives.same other k).symm
  · intro n' change known
    have global : (st.skynet_globalmq_push h).globalmq.count h = st.globalmq.count h + 1 := by
      simp [State.skynet_globalmq_push]
    rw [global]
    rw [found] at known
    change Known (st.services h) _ n'
    rw [found]
    obtain ⟨left, others⟩ := gives.total_back change
    exact Ok.moved known (by omega) others

/-- A thread that takes the first queue from the global queue. -/
theorem Inv.takeGlobal (inv : Inv st) {a b : Thread Msg} (here : st.threads[t]? = some a) {h : Handle}
    {globalmq : List Handle} (first : st.globalmq = h :: globalmq) (takes : Gains a b .queue h) :
    Inv { st with globalmq := globalmq, threads := st.threads.set t b } := by
  apply inv.local { st with globalmq := globalmq } here h inv.sound
  · exact fun g _ => rfl
  · intro g other
    rw [first, List.count_cons_of_ne (Ne.symm other)]
  · exact fun g other k => takes.same other k
  · intro n' change known
    rw [first, List.count_cons_self] at known
    change Known (st.services h) (globalmq.count h) n'
    cases found : st.services h with
    | none =>
        rw [found] at known
        exact absurd known.1 (Nat.succ_ne_zero _)
    | some s =>
        rw [found] at known
        obtain ⟨more, others⟩ := takes.total change
        exact Ok.moved known (by omega) others

/-- A thread that goes on with what it holds. -/
theorem Inv.keep (inv : Inv st) {a b : Thread Msg} (here : st.threads[t]? = some a)
    (same : b.holdings = a.holdings) : Inv { st with threads := st.threads.set t b } := by
  refine ⟨inv.sound, fun g => ?_⟩
  have unchanged : (State.held { st with threads := st.threads.set t b } g) = st.held g :=
    eq_of_change (fun k => by rw [same]) (total_change here b g)
  rw [unchanged]
  exact inv.known g

/-- A step on one service, whose queue it may put in the global queue. -/
theorem Inv.serve (inv : Inv st) {a b : Thread Msg} (here : st.threads[t]? = some a) {h : Handle}
    {s' : Service Msg} (added : Bool)
    (same : ∀ g, g ≠ h → ∀ k, b.holdings.count (k, g) = a.holdings.count (k, g))
    (mine : ∀ n' : Kind → Nat,
      (∀ k, n' k + a.holdings.count (k, h) = st.held h k + b.holdings.count (k, h)) →
      Ok s' (st.globalmq.count h + if added then 1 else 0) n') :
    Inv { (if added then (st.store h true s').skynet_globalmq_push h else st.store h true s') with
      threads := st.threads.set t b } := by
  have now := mine _ (total_change here b h)
  apply inv.local _ here h
  · cases added with
    | false => simp [State.store, inv.sound]
    | true =>
        -- the step leaves one place for the queue, so it was not in the global queue before
        have place := now.place
        have none : st.globalmq.count h = 0 := by
          simp only [if_true] at place
          split_ifs at place <;> omega
        simp [State.store, State.skynet_globalmq_push, inv.sound, List.count_eq_zero.mp none]
  · intro g other
    cases added <;> exact Function.update_of_ne other _ _
  · intro g other
    cases added <;> simp [State.store, State.skynet_globalmq_push, Ne.symm other]
  · exact same
  · intro n' change _
    have stored := mine n' change
    cases added <;> simpa [State.store, State.skynet_globalmq_push, Known] using stored

/-- The same, by a thread that goes on with what it holds. -/
theorem Inv.serveKeep (inv : Inv st) {a b : Thread Msg} (here : st.threads[t]? = some a) {h : Handle}
    {s' : Service Msg} (added : Bool) (same : b.holdings = a.holdings)
    (mine : Ok s' (st.globalmq.count h + if added then 1 else 0) (st.held h)) :
    Inv { (if added then (st.store h true s').skynet_globalmq_push h else st.store h true s') with
      threads := st.threads.set t b } := by
  apply inv.serve here added fun g _ k => by rw [same]
  intro n' change
  have unchanged : n' = st.held h := eq_of_change (fun k => by rw [same]) change
  rw [unchanged]
  exact mine

/-- `skynet_handle_grab` by a thread that goes on in one of two ways. -/
theorem Inv.grab (inv : Inv st) {a b c : Thread Msg} (here : st.threads[t]? = some a) {h : Handle}
    (gains : Gains a b .ref h) (same : c.holdings = a.holdings) :
    Inv { (skynet_handle_grab st h).2 with
      threads := st.threads.set t (if (skynet_handle_grab st h).1 then b else c) } := by
  have known := inv.known h
  rw [skynet_handle_grab]
  cases found : st.services h with
  | none => exact inv.keep here same
  | some s =>
      rw [found] at known
      cases registered : s.registered with
      | false =>
          simp only [registered, Bool.false_eq_true, if_false]
          exact inv.keep here same
      | true =>
          simp only [registered, if_true]
          apply inv.serve here false fun g other => gains.same other
          intro n' change
          obtain ⟨more, others⟩ := gains.total change
          have grabbed := Ok.grab known registered more others
          rw [registered] at grabbed
          exact grabbed

/-- `skynet_handle_retire`. -/
theorem Inv.retire (inv : Inv st) {a b c : Thread Msg} (here : st.threads[t]? = some a) {h : Handle}
    (gains : Gains a b .ref h) (same : c.holdings = a.holdings) :
    Inv { (skynet_handle_retire st h).2 with
      threads := st.threads.set t (if (skynet_handle_retire st h).1 then b else c) } := by
  have known := inv.known h
  rw [skynet_handle_retire]
  cases found : st.services h with
  | none => exact inv.keep here same
  | some s =>
      rw [found] at known
      cases registered : s.registered with
      | false =>
          simp only [registered, Bool.false_eq_true, if_false]
          exact inv.keep here same
      | true =>
          simp only [registered, if_true]
          apply inv.serve here false fun g other => gains.same other
          intro n' change
          obtain ⟨more, others⟩ := gains.total change
          exact Ok.retire known registered more others

/-- To read from a queue that a thread has. -/
theorem Inv.reads_eq (inv : Inv st) {a : Thread Msg} (here : st.threads[t]? = some a) {h : Handle}
    (holds : (Kind.queue, h) ∈ a.holdings) : reads st h = st := by
  obtain ⟨s, found, ok, has⟩ := inv.service here holds
  have unfreed := ok.not_freed (by omega)
  simp [reads, found, unfreed]

/-- `skynet_mq_push` by a thread that has a reference. -/
theorem Inv.pushTo (inv : Inv st) {a b : Thread Msg} (here : st.threads[t]? = some a) {h : Handle}
    (m : Msg) (holds : (Kind.ref, h) ∈ a.holdings) (same : b.holdings = a.holdings) :
    Inv { Scheduler.pushTo st h m with threads := st.threads.set t b } := by
  obtain ⟨s, found, ok, referenced⟩ := inv.service here holds
  have unfreed := (ok.alive referenced).2.1
  simp only [Scheduler.pushTo, found, unfreed, Bool.not_false]
  apply inv.serveKeep here _ same
  have pushed := ok.push referenced m
  rw [unfreed] at pushed
  exact pushed

/-- `skynet_mq_pop` of a worker with a reference. -/
theorem Inv.popTaken (inv : Inv st) {a b c : Thread Msg} {h : Handle} (here : st.threads[t]? = some a)
    (holds : (Kind.ref, h) ∈ a.holdings) (gives : Gains b a .queue h)
    (same : c.holdings = a.holdings) :
    Inv { (popFrom st h false).2 with
      threads := st.threads.set t (if (popFrom st h false).1.isSome then c else b) } := by
  obtain ⟨s, found, ok, referenced⟩ := inv.service here holds
  have unfreed := (ok.alive referenced).2.1
  rcases s.queue.pop_cases with
    ⟨empty, got, left, flag, kept⟩ | ⟨m, rest, front, got, left, flag, kept⟩
  · simp only [popFrom, found, got, unfreed, Bool.not_false, Option.isSome_none,
      Bool.false_eq_true, if_false]
    apply inv.serve here false fun g other k => (gives.same other k).symm
    intro n' change
    obtain ⟨less, others⟩ := gives.total_back change
    have rested := ok.rest referenced less others left empty flag kept
    rw [unfreed] at rested
    exact rested
  · simp only [popFrom, found, got, unfreed, Bool.not_false, Option.isSome_some,
      Bool.false_eq_true, if_false, if_true]
    apply inv.serveKeep here false same
    have taken := ok.take referenced front left flag kept
    rw [unfreed] at taken
    exact taken

/-- `skynet_mq_pop` of `_drop_queue`. -/
theorem Inv.popDropped (inv : Inv st) {a b : Thread Msg} {h : Handle} (here : st.threads[t]? = some a)
    (holds : (Kind.queue, h) ∈ a.holdings) (duty : (Kind.drop, h) ∈ a.holdings)
    (gains : Gains a b .free h) :
    Inv { (popFrom st h true).2 with
      threads := st.threads.set t (if (popFrom st h true).1.isSome then a else b) } := by
  obtain ⟨s, found, ok, has⟩ := inv.service here holds
  have drops : 0 < st.held h .drop := (inv.service here duty).choose_spec.2.2
  have unfreed := ok.not_freed (by omega)
  rcases s.queue.pop_cases with
    ⟨empty, got, left, flag, kept⟩ | ⟨m, rest, front, got, left, flag, kept⟩
  · simp only [popFrom, found, got, unfreed, Bool.not_false, Option.isSome_none,
      Bool.false_eq_true, if_false]
    apply inv.serve here false fun g other k => gains.same other k
    intro n' change
    obtain ⟨more, others⟩ := gains.total change
    have rested := ok.dropNone drops others left empty kept
    rw [unfreed] at rested
    exact rested
  · simp only [popFrom, found, got, unfreed, Bool.not_false, Option.isSome_some, if_true]
    apply inv.serveKeep here false rfl
    have dropped := ok.dropOne drops has front left flag kept
    rw [unfreed] at dropped
    exact dropped

/-- `skynet_context_release` by a thread that has a reference. -/
theorem Inv.release (inv : Inv st) {h : Handle} {next : Next}
    (here : st.threads[t]? = some (.release h next)) :
    Inv { (skynet_context_release st h).2 with
      threads := st.threads.set t
        (if (skynet_context_release st h).1 then .delete h next else next.thread) } := by
  have gives : Gains (next.thread : Thread Msg) (.release h next) .ref h := by
    rw [Gains, next.holdings_thread]
    rfl
  obtain ⟨s, found, ok, referenced⟩ := inv.service here gives.mem
  have positive : 0 < s.ref := by
    rw [ok.ref]
    omega
  simp only [skynet_context_release, found, positive, decide_true, decide_eq_true_eq]
  split_ifs with last
  · have duty : Gains (next.thread : Thread Msg) (.delete h next) .delete h := by
      rw [Gains, next.holdings_thread]
      rfl
    apply inv.serve here false fun g other k => by rw [duty.same other, ← gives.same other]
    intro n' change
    have both : ∀ k, n' k + (if k = .ref then 1 else 0) =
        st.held h k + if k = .delete then 1 else 0 := by
      intro k
      have now := change k
      rw [gives.count_eq, duty.count_eq] at now
      cases k <;> simp at now ⊢ <;> omega
    apply ok.release
    · exact both .ref
    · rw [if_pos last]
      exact both .delete
    · intro k notRef notDelete
      have same := both k
      rw [if_neg notRef, if_neg notDelete] at same
      exact same
  · apply inv.serve here false fun g other k => (gives.same other k).symm
    intro n' change
    obtain ⟨less, others⟩ := gives.total_back change
    apply ok.release less
    · rw [if_neg last, Nat.add_zero]
      exact others .delete (by decide)
    · exact fun k notRef _ => others k notRef

/-- `skynet_mq_mark_release` by the thread that has released the last reference. -/
theorem Inv.mark (inv : Inv st) {h : Handle} {next : Next}
    (here : st.threads[t]? = some (.delete h next)) :
    Inv { skynet_mq_mark_release st h with threads := st.threads.set t next.thread } := by
  have gives : Gains (next.thread : Thread Msg) (.delete h next) .delete h := by
    rw [Gains, next.holdings_thread]
    rfl
  obtain ⟨s, found, ok, duty⟩ := inv.service here gives.mem
  obtain ⟨_, unmarked⟩ := ok.dead duty
  have good : (!s.freed && !s.queue.release) = true := by
    rw [ok.unfreed unmarked, unmarked]
    rfl
  simp only [skynet_mq_mark_release, found, good]
  cases up : s.queue.in_global with
  | false =>
      apply inv.serve here true fun g other k => (gives.same other k).symm
      intro n' change
      obtain ⟨left, others⟩ := gives.total_back change
      simpa [up] using ok.mark left others
  | true =>
      apply inv.serve here false fun g other k => (gives.same other k).symm
      intro n' change
      obtain ⟨left, others⟩ := gives.total_back change
      simpa [up] using ok.mark left others

/-- `_release` of an empty marked queue by the thread that has it. -/
theorem Inv.free (inv : Inv st) {h : Handle} {worker : Bool}
    (here : st.threads[t]? = some (.free h worker)) :
    Inv { freeQueue st h with threads := st.threads.set t (afterRelease worker) } := by
  have has : (Kind.queue, h) ∈ (Thread.free h worker : Thread Msg).holdings := by
    simp [Thread.holdings]
  have duty : (Kind.free, h) ∈ (Thread.free h worker : Thread Msg).holdings := List.mem_cons_self
  obtain ⟨s, found, ok, somewhere⟩ := inv.service here has
  have frees : 0 < st.held h .free := (inv.service here duty).choose_spec.2.2
  have unfreed := ok.not_freed (by omega)
  have away := inv.not_global here has
  simp only [freeQueue, found, unfreed, away]
  apply inv.serve here false
  · intro g other k
    rw [holdings_afterRelease]
    simp [Thread.holdings, Ne.symm other]
  · intro n' change
    simp only [holdings_afterRelease, List.count_nil, Nat.add_zero] at change
    have queue := change .queue
    have ref := change .ref
    have delete := change .delete
    simp [Thread.holdings] at queue ref delete
    exact ok.freeQueue frees queue ref delete

/-- A new service. -/
theorem Inv.launch [Inhabited Msg] (inv : Inv st) {h : Handle} (here : st.threads[t]? = some .out)
    (absent : st.services h = none) :
    Inv { st.store h true create with threads := st.threads.set t (.launch h) } := by
  apply inv.local _ here h
  · simp [State.store, inv.sound]
  · exact fun g other => Function.update_of_ne other _ _
  · exact fun g _ => rfl
  · intro g other k
    simp [Thread.holdings, Ne.symm other]
  · intro n' change known
    rw [absent] at known
    obtain ⟨away, nothing⟩ := known
    have held : ∀ k, n' k = (Thread.launch h : Thread Msg).holdings.count (k, h) := by
      intro k
      have now := change k
      rw [nothing k] at now
      simpa [Thread.holdings] using now
    simp only [State.store, Function.update_self, Known, away]
    have queue : n' .queue = 1 := by simp [held, Thread.holdings]
    have ref : n' .ref = 1 := by simp [held, Thread.holdings]
    have delete : n' .delete = 0 := by simp [held, Thread.holdings]
    have drop : n' .drop = 0 := by simp [held, Thread.holdings]
    have free : n' .free = 0 := by simp [held, Thread.holdings]
    constructor
    case ref => rw [ref]; rfl
    case delete => rw [delete]; rfl
    case place => rw [queue]; rfl
    case released => exact fun marked => nomatch marked
    case freed => exact fun freed => nomatch freed
    case quiet => exact fun down => nomatch down
    case drop => exact fun some => absurd some (by omega)
    case free => exact fun some => absurd some (by omega)
    case history => exact (MessageQueue.contents_create : (create : Service Msg).queue.contents = []).symm
    case dropped => exact fun some => absurd rfl some

/-- A marked queue is to be dropped by the thread that has it. -/
theorem Inv.resolve (inv : Inv st) {h : Handle} {worker : Bool}
    (here : st.threads[t]? = some (.refuse h worker)) (release : marked st h = true) :
    Inv { st with threads := st.threads.set t (.drop h worker) } := by
  have gains : Gains (.refuse h worker : Thread Msg) (.drop h worker) .drop h := .refl _
  have has : (Kind.queue, h) ∈ (Thread.refuse h worker : Thread Msg).holdings := List.mem_cons_self
  obtain ⟨s, found, _⟩ := inv.service here has
  have up : s.queue.release = true := by
    rw [marked, found] at release
    exact release
  apply inv.local st here h inv.sound (fun g _ => rfl) (fun g _ => rfl)
  · exact fun g other => gains.same other
  · intro n' change known
    rw [found] at known ⊢
    exact Ok.resolve known up (gains.total change).2

end

end Scheduler

end RillServer.Skynet
