import Mathlib.Data.List.Nodup
import Mathlib.Logic.Function.Basic
import RillServer.Lib.Machine

/-!
# Critical sections

`skynet.queue` of `lualib/skynet/queue.lua`, of which the gate and the agents have one. A thread is a
coroutine of the service. It may yield inside of a section, so that others call, and it may call again
itself. `Queue.exclusive`: one thread is inside at a time, the assertion holds, and threads enter in the
order in which they called. `Queue.progress`: where a thread waits, some thread is inside or has been
woken.
-/

namespace RillServer.Skynet

namespace Queue

/-- Where a thread is, and in how many calls it is. -/
inductive Place : Type where
  | running (depth : Nat)
  /-- in `skynet.wait` -/
  | waiting (depth : Nat)
  /-- in `skynet.wait`, after `skynet.wakeup` -/
  | woken (depth : Nat)
  deriving DecidableEq

/-- `skynet.wakeup`. -/
def Place.wakeup : Place → Place
  | .waiting depth => .woken depth
  | place => place

/-- The variables of a queue, and its threads. `failed` says that the assertion has failed. The last two
are what has happened: the outermost calls, and those of them that have entered. -/
structure State (T : Type) where
  current_thread : Option T
  ref : Nat
  thread_queue : List T
  place : T → Place
  failed : Bool
  called : List T
  entered : List T

/-- What a thread does: it calls the function of the queue, goes on after `skynet.wait`, or returns from
the function that it has passed. -/
inductive Move (T : Type) : Type where
  | call (thread : T)
  | resume (thread : T)
  | ret (thread : T)

variable {T : Type} [DecidableEq T]

/-- From `current_thread = thread` on to the call of `f`. -/
def enter (st : State T) (thread : T) (depth : Nat) : State T :=
  { st with
    current_thread := some thread
    ref := st.ref + 1
    place := Function.update st.place thread (.running (depth + 1))
    entered := if depth = 0 then st.entered ++ [thread] else st.entered }

/-- `xpcall_ret`, after `ref = ref - 1`. -/
def xpcall_ret (st : State T) : State T :=
  if st.ref = 0 then
    match st.thread_queue with
    | [] => { st with current_thread := none }
    | next :: rest =>
        { st with
          current_thread := some next
          thread_queue := rest
          place := Function.update st.place next (st.place next).wakeup }
  else st

/-- A step of some thread. -/
def step (st : State T) : Move T → Option (State T)
  | .call thread =>
      match st.place thread with
      | .running depth =>
          let called := if depth = 0 then st.called ++ [thread] else st.called
          if st.current_thread ≠ none ∧ st.current_thread ≠ some thread then
            some { st with
              thread_queue := st.thread_queue ++ [thread]
              place := Function.update st.place thread (.waiting depth)
              called := called }
          else some (enter { st with called := called } thread depth)
      | _ => none
  | .resume thread =>
      match st.place thread with
      | .woken depth =>
          if st.ref = 0 then some (enter st thread depth) else some { st with failed := true }
      | _ => none
  | .ret thread =>
      match st.place thread with
      | .running (depth + 1) =>
          some (xpcall_ret
            { st with
              ref := st.ref - 1
              place := Function.update st.place thread (.running depth) })
      | _ => none

/-- A new queue. -/
def start : State T where
  current_thread := none
  ref := 0
  thread_queue := []
  place := fun _ => .running 0
  failed := false
  called := []
  entered := []

/-- A thread is inside of the queue. -/
def State.inside (st : State T) (thread : T) : Prop := ∃ depth, st.place thread = .running (depth + 1)

/-! ## What every step keeps -/

/-- The thread that has the queue: it has been woken, or it is inside, as often as `ref` says. All
others wait or are outside. -/
structure Held (st : State T) (c : T) : Prop where
  has : (st.place c = .woken 0 ∧ st.ref = 0 ∧ st.called = st.entered ++ c :: st.thread_queue) ∨
    ∃ depth, st.place c = .running (depth + 1) ∧ st.ref = depth + 1 ∧
      st.called = st.entered ++ st.thread_queue
  nodup : (c :: st.thread_queue).Nodup
  others : ∀ t, t ≠ c → st.place t = if t ∈ st.thread_queue then .waiting 0 else .running 0

/-- No thread has the queue. -/
structure Free (st : State T) : Prop where
  ref : st.ref = 0
  queue : st.thread_queue = []
  called : st.called = st.entered
  place : ∀ t, st.place t = .running 0

/-- The assertion has not failed, and the queue is free or some thread has it. -/
structure Inv (st : State T) : Prop where
  sound : st.failed = false
  held : match st.current_thread with
    | none => Free st
    | some c => Held st c

theorem Inv.start : Inv (Queue.start : State T) := ⟨rfl, rfl, rfl, rfl, fun _ => rfl⟩

variable {st : State T} {t c : T}

/-- A free queue is entered. -/
theorem Free.enter (free : Free st) (t : T) :
    Held (Queue.enter { st with called := st.called ++ [t] } t 0) t where
  has := by
    refine .inr ⟨0, Function.update_self .., ?_, ?_⟩
    · simp [Queue.enter, free.ref]
    · simp [Queue.enter, free.queue, free.called]
  nodup := by simp [Queue.enter, free.queue]
  others := by
    intro u other
    simp [Queue.enter, Function.update_of_ne other, free.queue, free.place u]

/-- The thread that has the queue enters once more. -/
theorem Held.again {depth : Nat} (held : Held st c) (inside : st.place c = .running (depth + 1)) :
    Held (Queue.enter st c (depth + 1)) c where
  has := by
    rcases held.has with ⟨woken, _, _⟩ | ⟨d, here, ref, called⟩
    · rw [woken] at inside
      cases inside
    · rw [here] at inside
      cases inside
      refine .inr ⟨depth + 1, Function.update_self .., ?_, ?_⟩
      · simp [Queue.enter, ref]
      · simpa [Queue.enter] using called
  nodup := held.nodup
  others := by
    intro u other
    simpa [Queue.enter, Function.update_of_ne other] using held.others u other

/-- The woken thread enters. -/
theorem Held.resume (held : Held st c) (woken : st.place c = .woken 0) :
    st.ref = 0 ∧ Held (Queue.enter st c 0) c := by
  rcases held.has with ⟨_, ref, called⟩ | ⟨d, here, _⟩
  · refine ⟨ref, .inr ⟨0, Function.update_self .., ?_, ?_⟩, held.nodup, fun u other => ?_⟩
    · simp [Queue.enter, ref]
    · simp [Queue.enter, called]
    · simpa [Queue.enter, Function.update_of_ne other] using held.others u other
  · rw [here] at woken
    cases woken

/-- Another thread waits behind those that wait already. -/
theorem Held.wait (held : Held st c) (other : t ≠ c) (outside : st.place t = .running 0) :
    Held { st with
      thread_queue := st.thread_queue ++ [t]
      place := Function.update st.place t (.waiting 0)
      called := st.called ++ [t] } c where
  has := by
    simp only [Function.update_of_ne (Ne.symm other)]
    rcases held.has with ⟨woken, ref, called⟩ | ⟨d, here, ref, called⟩
    · exact .inl ⟨woken, ref, by simp [called]⟩
    · exact .inr ⟨d, here, ref, by simp [called]⟩
  nodup := by
    have absent : t ∉ st.thread_queue := by
      intro mem
      have place := held.others t other
      rw [if_pos mem, outside] at place
      cases place
    have before := held.nodup
    rw [← List.cons_append]
    refine List.nodup_append'.mpr ⟨before, List.nodup_singleton t, ?_⟩
    simp [other, absent]
  others := by
    intro u elsewhere
    by_cases same : u = t
    · subst same
      simp
    · simpa [Function.update_of_ne same, same] using held.others u elsewhere

/-- A thread that is inside has the queue. -/
theorem Held.of_inside {depth : Nat} (held : Held st c) (inside : st.place t = .running (depth + 1)) :
    t = c := by
  by_contra other
  have place := held.others t other
  rw [inside] at place
  split at place <;> cases place

/-- What `xpcall_ret` leaves. -/
theorem Inv.ret {depth : Nat} (inv : Inv st) (inside : st.place t = .running (depth + 1)) :
    Inv (xpcall_ret
      { st with ref := st.ref - 1, place := Function.update st.place t (.running depth) }) := by
  have held := inv.held
  cases current : st.current_thread with
  | none =>
      rw [current] at held
      have place := held.place t
      rw [inside] at place
      cases place
  | some c =>
      rw [current] at held
      obtain rfl : t = c := held.of_inside inside
      rcases held.has with ⟨woken, _, _⟩ | ⟨d, here, ref, called⟩
      · rw [woken] at inside
        cases inside
      rw [here] at inside
      cases inside
      rw [xpcall_ret]
      cases depth with
      | succ depth =>
          rw [if_neg (by simp [ref])]
          refine ⟨inv.sound, ?_⟩
          simp only
          refine ⟨.inr ⟨depth, Function.update_self .., by simp [ref], called⟩, held.nodup, ?_⟩
          intro u other
          simpa [Function.update_of_ne other] using held.others u other
      | zero =>
          rw [if_pos (by simp [ref])]
          cases waiting : st.thread_queue with
          | nil =>
              refine ⟨inv.sound, ?_⟩
              simp only
              refine ⟨by simp [ref], rfl, by simpa [waiting] using called, fun u => ?_⟩
              by_cases same : u = t
              · subst same
                exact Function.update_self ..
              · simpa [Function.update_of_ne same, waiting] using held.others u same
          | cons next rest =>
              have nodup := held.nodup
              rw [waiting, List.nodup_cons] at nodup
              have other : next ≠ t := by
                rintro rfl
                exact nodup.1 List.mem_cons_self
              have place : st.place next = .waiting 0 := by
                rw [held.others next other, waiting, if_pos List.mem_cons_self]
              refine ⟨inv.sound, ?_⟩
              simp only
              refine ⟨.inl ⟨?_, by simp [ref], by rw [called, waiting]⟩, nodup.2, ?_⟩
              · simp [Function.update_of_ne other, place, Place.wakeup]
              · intro u elsewhere
                simp only [Function.update_of_ne elsewhere]
                by_cases same : u = t
                · subst same
                  have absent : u ∉ rest := fun mem => nodup.1 (List.mem_cons_of_mem _ mem)
                  simp [absent]
                · rw [Function.update_of_ne same, held.others u same, waiting]
                  simp [elsewhere]

theorem Inv.step {st' : State T} {e : Move T} (inv : Inv st) (stepped : step st e = some st') :
    Inv st' := by
  have held := inv.held
  cases e with
  | call t =>
      simp only [Queue.step] at stepped
      split at stepped
      next depth outside =>
        cases current : st.current_thread with
        | none =>
            rw [current] at held
            obtain rfl : depth = 0 := by
              rw [held.place t] at outside
              cases outside
              rfl
            simp only [current, ne_eq, not_true_eq_false, false_and, if_false, if_true] at stepped
            cases stepped
            exact ⟨inv.sound, held.enter t⟩
        | some c =>
            rw [current] at held
            by_cases same : t = c
            · subst same
              simp only [current, ne_eq, not_true_eq_false, and_false, if_false] at stepped
              rcases held.has with ⟨woken, _, _⟩ | ⟨d, here, _, _⟩
              · rw [woken] at outside
                cases outside
              · rw [here] at outside
                cases outside
                cases stepped
                exact ⟨inv.sound, held.again here⟩
            · have other : c ≠ t := Ne.symm same
              obtain rfl : depth = 0 := by
                rw [held.others t same] at outside
                split at outside
                · cases outside
                · cases outside
                  rfl
              simp only [current, ne_eq, reduceCtorEq, not_false_eq_true, Option.some.injEq, other,
                and_self, if_true] at stepped
              cases stepped
              refine ⟨inv.sound, ?_⟩
              simp only
              have waits := held.wait same outside
              rwa [current] at waits
      next => cases stepped
  | resume t =>
      simp only [Queue.step] at stepped
      split at stepped
      next depth woken =>
        cases current : st.current_thread with
        | none =>
            rw [current] at held
            have place := held.place t
            rw [woken] at place
            cases place
        | some c =>
            rw [current] at held
            obtain rfl : t = c := by
              by_contra other
              have place := held.others t other
              rw [woken] at place
              split at place <;> cases place
            obtain rfl : depth = 0 := by
              rcases held.has with ⟨here, _, _⟩ | ⟨d, here, _, _⟩
              · rw [here] at woken
                cases woken
                rfl
              · rw [here] at woken
                cases woken
            obtain ⟨ref, entered⟩ := held.resume woken
            rw [if_pos ref] at stepped
            cases stepped
            exact ⟨inv.sound, entered⟩
      next => cases stepped
  | ret t =>
      simp only [Queue.step] at stepped
      split at stepped
      next depth inside =>
        cases stepped
        exact inv.ret inside
      next => cases stepped

/-! ## Every run -/

/-- The states that the steps of the threads reach, in any order. -/
abbrev Reached (st : State T) : Prop := Machine.Reach step (fun _ _ => True) start st

theorem Reached.inv (reached : Reached st) : Inv st :=
  Machine.Reach.invariant Inv.start (fun inv _ stepped => inv.step stepped) reached

/-- In every run at most one thread is inside, the assertion holds, and threads enter in the order in
which they called. -/
theorem exclusive (reached : Reached st) :
    st.failed = false ∧ (∀ t u, st.inside t → st.inside u → t = u) ∧
      st.entered <+: st.called := by
  have inv := reached.inv
  have held := inv.held
  refine ⟨inv.sound, ?_⟩
  cases current : st.current_thread with
  | none =>
      rw [current] at held
      refine ⟨fun t u inside _ => ?_, held.called ▸ List.prefix_rfl⟩
      obtain ⟨depth, inside⟩ := inside
      rw [held.place t] at inside
      cases inside
  | some c =>
      rw [current] at held
      constructor
      · rintro t u ⟨_, inside⟩ ⟨_, inside'⟩
        rw [held.of_inside inside, held.of_inside inside']
      · rcases held.has with ⟨_, _, called⟩ | ⟨_, _, _, called⟩
        · exact ⟨_, called.symm⟩
        · exact ⟨_, called.symm⟩

/-- In every run, where a thread waits, some thread is inside or can go on after it was woken, and the
one that waits is in the queue. -/
theorem progress (reached : Reached st) {depth : Nat} (waits : st.place t = .waiting depth) :
    t ∈ st.thread_queue ∧ ∃ c, st.inside c ∨ st.place c = .woken 0 ∧ st.ref = 0 := by
  have held := reached.inv.held
  cases current : st.current_thread with
  | none =>
      rw [current] at held
      rw [held.place t] at waits
      cases waits
  | some c =>
      rw [current] at held
      have other : t ≠ c := by
        rintro rfl
        rcases held.has with ⟨here, _, _⟩ | ⟨_, here, _, _⟩
        · rw [here] at waits
          cases waits
        · rw [here] at waits
          cases waits
      have place := held.others t other
      rw [waits] at place
      refine ⟨?_, c, ?_⟩
      · by_contra absent
        rw [if_neg absent] at place
        cases place
      · rcases held.has with ⟨here, ref, _⟩ | ⟨depth, here, _, _⟩
        · exact .inr ⟨here, ref⟩
        · exact .inl ⟨depth, here⟩

/-- Thread 1 calls twice, nested, and thread 2 in between. -/
def sampleMoves : List (Move Nat) := [.call 1, .call 2, .call 1, .ret 1, .ret 1]

theorem exclusive_sample :
    ∃ st : State Nat,
      (st.called, st.entered, st.current_thread, st.place 2) = ([1, 2], [1], some 2, .woken 0) ∧
        st.failed = false ∧ (∀ t u, st.inside t → st.inside u → t = u) ∧
        st.entered <+: st.called := by
  obtain ⟨st, reached, seen⟩ := Machine.exists_of_runs step (fun _ _ => True) (start : State Nat)
    sampleMoves (fun st => (st.called, st.entered, st.current_thread, st.place 2))
    (a := ([1, 2], [1], some 2, .woken 0)) (by decide)
  exact ⟨st, seen, exclusive reached⟩

theorem progress_sample :
    ∃ st : State Nat, st.place 2 = .waiting 0 ∧
      2 ∈ st.thread_queue ∧ ∃ c, st.inside c ∨ st.place c = .woken 0 ∧ st.ref = 0 := by
  obtain ⟨st, reached, seen⟩ := Machine.exists_of_runs step (fun _ _ => True) (start : State Nat)
    (sampleMoves.take 2) (fun st => st.place 2) (a := .waiting 0) (by decide)
  exact ⟨st, seen, progress reached seen⟩

end Queue

end RillServer.Skynet
