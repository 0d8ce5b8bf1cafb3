import RillServer.Skynet.Exclusion

/-!
# What holds in every run of workers and senders

The invariant of `Skynet.Exclusion` holds initially and every step keeps it, so that in every run
* nothing goes wrong with a queue or a context (`Scheduler.never_broken`),
* a service has one worker at most (`Scheduler.one_worker`),
* every message that was pushed is taken or dropped once, in order (`Scheduler.messages_in_order`),
* a queue that holds messages is in the global queue or some thread has it
  (`Scheduler.no_lost_wakeup`), and
* when all is quiet, every service is registered and idle, or it is gone (`Scheduler.quiet_state`).
-/

namespace RillServer.Skynet

namespace Scheduler

variable {Msg : Type} [Inhabited Msg] {st : State Msg} {t : Nat}

/-- A step of a thread keeps the invariant. -/
theorem Inv.perform (inv : Inv st) {weight : Int} {a b : Thread Msg} {e : Move Msg} {st' : State Msg}
    (here : st.threads[t]? = some a)
    (stepped : Scheduler.perform weight st a e = some (st', b)) :
    Inv { st' with threads := st.threads.set t b } := by
  cases a with
  | out =>
      cases e with
      | launch h =>
          simp only [Scheduler.perform] at stepped
          split at stepped
          next absent =>
            cases stepped
            exact inv.launch here absent
          next => cases stepped
      | send h m =>
          cases stepped
          exact inv.grab here (.refl _) rfl
      | kill h =>
          cases stepped
          exact inv.retire here (.refl _) rfl
      | begin =>
          cases stepped
          exact inv.keep here rfl
      | init ok => cases stepped
      | go => cases stepped
  | launch h =>
      cases e with
      | init ok =>
          cases stepped
          exact inv.keep here (by cases ok <;> rfl)
      | _ => cases stepped
  | launched h =>
      cases e with
      | go =>
          cases stepped
          exact inv.give here (.refl _)
      | _ => cases stepped
  | failed h =>
      cases e with
      | go =>
          cases stepped
          exact inv.retire here (.refl _) rfl
      | _ => cases stepped
  | refuse h worker =>
      cases e with
      | go =>
          have reading := inv.reads_eq (h := h) here (by simp [Thread.holdings])
          simp only [Scheduler.perform, reading] at stepped
          split at stepped
          next release =>
            cases stepped
            exact inv.resolve here release
          next =>
            cases stepped
            apply inv.give here
            rw [Gains, holdings_afterRelease]
            rfl
      | _ => cases stepped
  | drop h worker =>
      cases e with
      | go =>
          cases stepped
          exact inv.popDropped here (by simp [Thread.holdings]) List.mem_cons_self (.refl _)
      | _ => cases stepped
  | free h worker =>
      cases e with
      | go =>
          cases stepped
          exact inv.free here
      | _ => cases stepped
  | push h m =>
      cases e with
      | go =>
          cases stepped
          exact inv.pushTo here m List.mem_cons_self rfl
      | _ => cases stepped
  | work q =>
      cases e with
      | go =>
          cases q with
          | none =>
              simp only [Scheduler.perform] at stepped
              split at stepped
              next =>
                cases stepped
                exact inv.keep here rfl
              next h globalmq first =>
                cases stepped
                exact inv.takeGlobal here first (.refl _)
          | some h =>
              have reading := inv.reads_eq (h := h) here (by simp [Thread.holdings])
              simp only [Scheduler.perform, reading] at stepped
              cases stepped
              exact inv.grab here (.refl _) rfl
      | _ => cases q <;> cases stepped
  | pop h i n =>
      cases e with
      | go =>
          have popped := fun c same => inv.popTaken (b := .release h (.work none)) (c := c) (h := h)
            here List.mem_cons_self (.swap _ _ _) same
          simp only [Scheduler.perform] at stepped
          split at stepped
          next =>
            split at stepped
            next none =>
              cases stepped
              simpa [none] using popped (.pop h i n) rfl
            next m some =>
              cases stepped
              have taken := popped (if i = 0 ∧ 0 ≤ weight then .measure h m else .call h i n m)
                (by split_ifs <;> rfl)
              rw [some] at taken
              exact taken
          next =>
            cases stepped
            exact inv.keep here rfl
      | _ => cases stepped
  | measure h m =>
      cases e with
      | go =>
          have reading := inv.reads_eq (h := h) here (by simp [Thread.holdings])
          obtain ⟨s, found, _⟩ := inv.service (k := .queue) (h := h) here (by simp [Thread.holdings])
          simp only [Scheduler.perform, reading, found] at stepped
          cases stepped
          exact inv.keep here rfl
      | _ => cases stepped
  | call h i n m =>
      cases e with
      | go =>
          cases stepped
          exact inv.keep here rfl
      | _ => cases stepped
  | rest h =>
      cases e with
      | go =>
          simp only [Scheduler.perform] at stepped
          split at stepped
          next =>
            cases stepped
            exact inv.keep here rfl
          next next globalmq first =>
            cases stepped
            exact inv.takeGlobal here first (.refl _)
      | _ => cases stepped
  | swap h next =>
      cases e with
      | go =>
          cases stepped
          exact inv.give here (List.reverse_perm _).symm
      | _ => cases stepped
  | release h next =>
      cases e with
      | go =>
          cases stepped
          exact inv.release here
      | _ => cases stepped
  | delete h next =>
      cases e with
      | go =>
          cases stepped
          exact inv.mark here
      | _ => cases stepped

/-! ## The message that is worked on -/

/-- The service and the message that a thread works on. -/
def Thread.current : Thread Msg → Option (Handle × Msg)
  | .measure h m | .call h _ _ m => some (h, m)
  | _ => none

omit [Inhabited Msg] in
theorem Next.current_thread (next : Next) : (next.thread : Thread Msg).current = none := by
  cases next <;> rfl

/-- The messages of a service that workers have taken. -/
def takenOf (st : State Msg) (h : Handle) : List Msg := (st.services h).elim [] Service.taken

section

omit [Inhabited Msg]

theorem takenOf_store (h : Handle) (good : Bool) (s : Service Msg) (g : Handle) :
    takenOf (st.store h good s) g = if g = h then s.taken else takenOf st g := by
  simp only [takenOf, State.store, Function.update_apply]
  split_ifs <;> rfl

theorem takenOf_store_same {h : Handle} {good : Bool} {s s' : Service Msg}
    (found : st.services h = some s) (same : s'.taken = s.taken) :
    takenOf (st.store h good s') = takenOf st := by
  funext g
  rw [takenOf_store]
  split_ifs with here
  · rw [here, takenOf, found, same]
    rfl
  · rfl

@[simp]
theorem takenOf_globalmq_push (h : Handle) : takenOf (st.skynet_globalmq_push h) = takenOf st := rfl

@[simp]
theorem takenOf_reads (h : Handle) : takenOf (reads st h) = takenOf st := rfl

@[simp]
theorem takenOf_grab (h : Handle) : takenOf (skynet_handle_grab st h).2 = takenOf st := by
  rw [skynet_handle_grab]
  cases found : st.services h with
  | none => rfl
  | some s =>
      simp only
      split_ifs
      · exact takenOf_store_same found rfl
      · rfl

@[simp]
theorem takenOf_retire (h : Handle) : takenOf (skynet_handle_retire st h).2 = takenOf st := by
  rw [skynet_handle_retire]
  cases found : st.services h with
  | none => rfl
  | some s =>
      simp only
      split_ifs
      · exact takenOf_store_same found rfl
      · rfl

@[simp]
theorem takenOf_pushTo (h : Handle) (m : Msg) : takenOf (pushTo st h m) = takenOf st := by
  rw [pushTo]
  cases found : st.services h with
  | none => rfl
  | some s =>
      simp only
      split_ifs
      · rw [takenOf_globalmq_push]
        exact takenOf_store_same found rfl
      · exact takenOf_store_same found rfl

@[simp]
theorem takenOf_release (h : Handle) : takenOf (skynet_context_release st h).2 = takenOf st := by
  rw [skynet_context_release]
  cases found : st.services h with
  | none => rfl
  | some s => exact takenOf_store_same found rfl

@[simp]
theorem takenOf_mark (h : Handle) : takenOf (skynet_mq_mark_release st h) = takenOf st := by
  rw [skynet_mq_mark_release]
  cases found : st.services h with
  | none => rfl
  | some s =>
      simp only
      split_ifs
      · exact takenOf_store_same found rfl
      · rw [takenOf_globalmq_push]
        exact takenOf_store_same found rfl

@[simp]
theorem takenOf_freeQueue (h : Handle) : takenOf (freeQueue st h) = takenOf st := by
  rw [freeQueue]
  cases found : st.services h with
  | none => rfl
  | some s => exact takenOf_store_same found rfl

@[simp]
theorem takenOf_drop (h : Handle) : takenOf (popFrom st h true).2 = takenOf st := by
  rw [popFrom]
  cases found : st.services h with
  | none => rfl
  | some s =>
      simp only
      split
      next => exact takenOf_store_same found rfl
      next => exact takenOf_store_same found rfl

/-- What a worker takes. -/
theorem takenOf_popFrom (h : Handle) :
    takenOf (popFrom st h false).2 h = takenOf st h ++ (popFrom st h false).1.toList ∧
      ∀ g, g ≠ h → takenOf (popFrom st h false).2 g = takenOf st g := by
  rw [popFrom]
  cases found : st.services h with
  | none => exact ⟨(List.append_nil _).symm, fun _ _ => rfl⟩
  | some s =>
      have before : takenOf st h = s.taken := by rw [takenOf, found]; rfl
      rw [before]
      simp only
      split
      next =>
        refine ⟨?_, fun g other => ?_⟩
        · rw [takenOf_store, if_pos rfl]
          exact (List.append_nil _).symm
        · rw [takenOf_store, if_neg other]
      next m _ =>
        refine ⟨?_, fun g other => ?_⟩
        · rw [takenOf_store, if_pos rfl]
          rfl
        · rw [takenOf_store, if_neg other]

end

/-- A step leaves the messages that were taken, or it takes one, and then the thread works on it. -/
theorem perform_taken {weight : Int} {a b : Thread Msg} {e : Move Msg} {st' : State Msg}
    (stepped : perform weight st a e = some (st', b)) :
    (takenOf st' = takenOf st ∧ (b.current = none ∨ b.current = a.current)) ∨
      ∃ h i n m, a = .pop h i n ∧ b.current = some (h, m) ∧
        takenOf st' h = takenOf st h ++ [m] ∧ ∀ g, g ≠ h → takenOf st' g = takenOf st g := by
  cases a with
  | out =>
      cases e with
      | launch h =>
          simp only [perform] at stepped
          split at stepped
          next absent =>
            cases stepped
            refine .inl ⟨?_, .inl rfl⟩
            funext g
            rw [takenOf_store]
            split_ifs with here
            · rw [here, takenOf, absent]
              rfl
            · rfl
          next => cases stepped
      | send h m =>
          cases stepped
          exact .inl ⟨takenOf_grab h, .inl (by split_ifs <;> rfl)⟩
      | kill h =>
          cases stepped
          exact .inl ⟨takenOf_retire h, .inl (by split_ifs <;> rfl)⟩
      | begin =>
          cases stepped
          exact .inl ⟨rfl, .inl rfl⟩
      | init ok => cases stepped
      | go => cases stepped
  | launch h =>
      cases e with
      | init ok =>
          cases stepped
          exact .inl ⟨rfl, .inl rfl⟩
      | _ => cases stepped
  | launched h =>
      cases e with
      | go =>
          cases stepped
          exact .inl ⟨rfl, .inl rfl⟩
      | _ => cases stepped
  | failed h =>
      cases e with
      | go =>
          cases stepped
          exact .inl ⟨takenOf_retire h, .inl (by split_ifs <;> rfl)⟩
      | _ => cases stepped
  | refuse h worker =>
      cases e with
      | go =>
          simp only [perform] at stepped
          split at stepped
          next =>
            cases stepped
            exact .inl ⟨rfl, .inl rfl⟩
          next =>
            cases stepped
            exact .inl ⟨rfl, .inl (by cases worker <;> rfl)⟩
      | _ => cases stepped
  | drop h worker =>
      cases e with
      | go =>
          cases stepped
          exact .inl ⟨takenOf_drop h, .inl (by split_ifs <;> rfl)⟩
      | _ => cases stepped
  | free h worker =>
      cases e with
      | go =>
          cases stepped
          exact .inl ⟨takenOf_freeQueue h, .inl (by cases worker <;> rfl)⟩
      | _ => cases stepped
  | push h m =>
      cases e with
      | go =>
          cases stepped
          exact .inl ⟨takenOf_pushTo h m, .inl rfl⟩
      | _ => cases stepped
  | work q =>
      cases e with
      | go =>
          cases q with
          | none =>
              simp only [perform] at stepped
              split at stepped <;> cases stepped <;> exact .inl ⟨rfl, .inl rfl⟩
          | some h =>
              cases stepped
              have taken : takenOf (skynet_handle_grab (reads st h) h).2 = takenOf st := by
                rw [takenOf_grab, takenOf_reads]
              exact .inl ⟨taken, .inl (by split_ifs <;> rfl)⟩
      | _ => cases q <;> cases stepped
  | pop h i n =>
      cases e with
      | go =>
          have popped : takenOf (popFrom st h false).2 h =
              takenOf st h ++ (popFrom st h false).1.toList ∧
                ∀ g, g ≠ h → takenOf (popFrom st h false).2 g = takenOf st g := takenOf_popFrom h
          simp only [perform] at stepped
          split at stepped
          next =>
            split at stepped
            next none =>
              cases stepped
              rw [none, Option.toList_none, List.append_nil] at popped
              refine .inl ⟨funext fun g => ?_, .inl rfl⟩
              by_cases here : g = h
              · rw [here]
                exact popped.1
              · exact popped.2 g here
            next m some =>
              cases stepped
              rw [some] at popped
              exact .inr ⟨h, i, n, m, rfl, by split_ifs <;> rfl, popped⟩
          next =>
            cases stepped
            exact .inl ⟨rfl, .inl rfl⟩
      | _ => cases stepped
  | measure h m =>
      cases e with
      | go =>
          simp only [perform] at stepped
          split at stepped
          next =>
            cases stepped
            exact .inl ⟨rfl, .inl rfl⟩
          next =>
            cases stepped
            exact .inl ⟨rfl, .inr rfl⟩
      | _ => cases stepped
  | call h i n m =>
      cases e with
      | go =>
          cases stepped
          exact .inl ⟨rfl, .inl rfl⟩
      | _ => cases stepped
  | rest h =>
      cases e with
      | go =>
          simp only [perform] at stepped
          split at stepped <;> cases stepped <;> exact .inl ⟨rfl, .inl rfl⟩
      | _ => cases stepped
  | swap h next =>
      cases e with
      | go =>
          cases stepped
          exact .inl ⟨rfl, .inl rfl⟩
      | _ => cases stepped
  | release h next =>
      cases e with
      | go =>
          cases stepped
          refine .inl ⟨takenOf_release h, .inl ?_⟩
          split_ifs
          · rfl
          · exact next.current_thread
      | _ => cases stepped
  | delete h next =>
      cases e with
      | go =>
          cases stepped
          exact .inl ⟨takenOf_mark h, .inl next.current_thread⟩
      | _ => cases stepped

/-- Who works on a message has just taken it. -/
def Current (st : State Msg) : Prop :=
  ∀ (t : Nat) (a : Thread Msg) h m, st.threads[t]? = some a → a.current = some (h, m) → (takenOf st h).getLast? = some m

omit [Inhabited Msg] in
/-- Who works on a message has the queue. -/
theorem Thread.mem_of_current {a : Thread Msg} {h : Handle} {m : Msg}
    (current : a.current = some (h, m)) : (Kind.queue, h) ∈ a.holdings := by
  cases a with
  | measure g _ | call g _ _ _ =>
      cases current
      simp [Thread.holdings]
  | _ => cases current

omit [Inhabited Msg] in
/-- A queue has one holder at most. -/
theorem Inv.holder (inv : Inv st) {a b : Thread Msg} {u : Nat} {h : Handle}
    (here : st.threads[t]? = some a) (there : st.threads[u]? = some b)
    (holds : (Kind.queue, h) ∈ a.holdings) (holds' : (Kind.queue, h) ∈ b.holdings) : t = u := by
  obtain ⟨s, found, ok, _⟩ := inv.service here holds
  have single : st.held h .queue ≤ 1 := by
    have place := ok.place
    split_ifs at place <;> omega
  exact Holdings.unique_holder single here there holds holds'

theorem Current.perform (current : Current st) (inv : Inv st) {weight : Int} {a b : Thread Msg}
    {e : Move Msg} {st' : State Msg} (here : st.threads[t]? = some a)
    (stepped : Scheduler.perform weight st a e = some (st', b)) :
    Current { st' with threads := st.threads.set t b } := by
  intro u c h m there works
  change (takenOf st' h).getLast? = some m
  by_cases mine : u = t
  · have now : c = b := by
      rw [mine, List.getElem?_set_self (List.getElem?_eq_some_iff.mp here).1] at there
      exact (Option.some.inj there).symm
    subst now
    rcases perform_taken stepped with ⟨same, none | stays⟩ | ⟨h', i, n, m', popped, now, more, _⟩
    · rw [none] at works
      cases works
    · rw [same]
      exact current t a h m here (stays.symm.trans works)
    · obtain ⟨rfl, rfl⟩ := Prod.mk.inj (Option.some.inj (now.symm.trans works))
      rw [more, List.getLast?_concat]
  · rw [List.getElem?_set_ne (Ne.symm mine)] at there
    have before := current u c h m there works
    rcases perform_taken stepped with ⟨same, _⟩ | ⟨h', i, n, m', rfl, _, _, others⟩
    · rw [same]
      exact before
    · -- who takes a message has the queue, so that nobody else works on one of this service
      rw [others h]
      · exact before
      · intro same
        subst same
        exact mine (inv.holder there here (Thread.mem_of_current works) (by simp [Thread.holdings]))

/-! ## Runs -/

/-- The states that some number of threads reach, of these weights. -/
abbrev Reached (weight : Nat → Int) (count : Nat) (st : State Msg) : Prop :=
  Machine.Reach (step weight) (fun _ _ => True) (start count) st

theorem Reached.inv {weight : Nat → Int} {count : Nat} (reached : Reached weight count st) :
    Inv st ∧ Current st := by
  apply reached.invariant (P := fun st => Inv st ∧ Current st)
  · have out : ∀ (h : Handle) (k : Kind), (start count : State Msg).held h k = 0 := by
      intro h k
      apply Holdings.total_eq_zero
      intro a among
      rw [List.eq_of_mem_replicate among]
      cases k <;> rfl
    refine ⟨⟨rfl, fun h => ⟨rfl, out h⟩⟩, ?_⟩
    intro t a h m here works
    rw [List.eq_of_mem_replicate (List.mem_of_getElem? here)] at works
    cases works
  · intro st st' e ⟨inv, current⟩ _ stepped
    rw [step] at stepped
    split at stepped
    next => cases stepped
    next a here =>
      obtain ⟨⟨st'', b⟩, performed, rfl⟩ := Option.map_eq_some_iff.mp stepped
      exact ⟨inv.perform here performed, current.perform inv here performed⟩

/-- Thread `0` launches service `7` and sends it two messages; thread `1` is in the callback with the
first one. -/
def served : List (Nat × Move Nat) :=
  [(0, .launch 7), (0, .init true), (0, .go), (0, .go), (0, .send 7 1), (0, .go), (0, .go),
    (0, .send 7 2), (0, .go), (0, .go), (1, .begin), (1, .go), (1, .go), (1, .go), (1, .go)]

/-- Then thread `0` sends another message while the service is being killed, which thread `1` drops. -/
def gone : List (Nat × Move Nat) :=
  served ++ [(0, .send 7 3), (0, .go), (0, .go), (0, .kill 7), (0, .go), (1, .go), (1, .go), (1, .go),
    (1, .go), (1, .go), (1, .go), (1, .go), (1, .go), (1, .go), (1, .go), (1, .go)]

section

variable {weight : Nat → Int} {count : Nat}

/-- In every run: no queue is put in the global queue twice, no freed queue is used, no context is
released once too often and no queue is marked twice; and a context that some thread has a reference to
has not been deleted, nor has its queue been freed. -/
theorem never_broken (reached : Reached weight count st) :
    st.broken = false ∧
      ∀ (t : Nat) (a : Thread Msg) (h : Handle), st.threads[t]? = some a → (Kind.ref, h) ∈ a.holdings →
        ∃ s, st.services h = some s ∧ 0 < s.ref ∧ s.queue.release = false ∧ s.freed = false := by
  obtain ⟨inv, _⟩ := reached.inv
  refine ⟨inv.sound, fun t a h here holds => ?_⟩
  obtain ⟨s, found, ok, referenced⟩ := inv.service here holds
  have ref := ok.ref
  obtain ⟨unmarked, unfreed, _⟩ := ok.alive referenced
  exact ⟨s, found, by omega, unmarked, unfreed⟩

theorem never_broken_sample :
    ∃ st : State Nat, st.threads[1]? = some (.call 7 0 1 1) ∧ st.broken = false ∧
      ∃ s, st.services 7 = some s ∧ 0 < s.ref ∧ s.queue.release = false ∧ s.freed = false := by
  obtain ⟨st, reached, here⟩ := Machine.exists_of_runs (step fun _ => 0) (fun _ _ => True)
    (start 2 : State Nat) served (fun st => st.threads[1]?) (a := some (.call 7 0 1 1)) (by decide +kernel)
  have whole := never_broken reached
  exact ⟨st, here, whole.1, whole.2 1 _ 7 here (by decide)⟩

/-- In every run a queue is in the global queue once at most. A queue that a thread has is not there, and
no other thread has it: callbacks of one service never run at the same time. -/
theorem one_worker (reached : Reached weight count st) :
    st.globalmq.Nodup ∧
      ∀ (t u : Nat) (a b : Thread Msg) (h : Handle), st.threads[t]? = some a →
        st.threads[u]? = some b → (Kind.queue, h) ∈ a.holdings → (Kind.queue, h) ∈ b.holdings →
        t = u ∧ h ∉ st.globalmq := by
  obtain ⟨inv, _⟩ := reached.inv
  constructor
  · rw [List.nodup_iff_count_le_one]
    intro h
    have known := inv.known h
    cases found : st.services h with
    | none =>
        rw [found] at known
        rw [known.1]
        exact Nat.zero_le 1
    | some s =>
        rw [found] at known
        have place := Ok.place known
        split_ifs at place <;> omega
  · intro t u a b h here there holds holds'
    exact ⟨inv.holder here there holds holds', inv.not_global here holds⟩

theorem one_worker_sample :
    ∃ st : State Nat, st.threads[1]? = some (.call 7 0 1 1) ∧
      ∀ u i n m, st.threads[u]? = some (.call 7 i n m) → 1 = u ∧ 7 ∉ st.globalmq := by
  obtain ⟨st, reached, here⟩ := Machine.exists_of_runs (step fun _ => 0) (fun _ _ => True)
    (start 2 : State Nat) served (fun st => st.threads[1]?) (a := some (.call 7 0 1 1)) (by decide +kernel)
  refine ⟨st, here, fun u i n m there => ?_⟩
  exact (one_worker reached).2 1 u _ _ 7 here there (by decide) (by simp [Thread.holdings])

/-- In every run the messages that were pushed to a service are, in this order: those that its callback
got, those that were dropped, and those in its queue. Messages are dropped only when the handle has been
retired and no reference to the context is left, and a callback that runs has the message that was taken
last. -/
theorem messages_in_order (reached : Reached weight count st) {h : Handle} {s : Service Msg}
    (found : st.services h = some s) :
    s.pushed = s.taken ++ s.dropped ++ s.queue.contents ∧
      (s.dropped ≠ [] → s.registered = false ∧ s.ref = 0) ∧
      ∀ (t i n : Nat) (m : Msg), st.threads[t]? = some (.call h i n m) → s.taken.getLast? = some m := by
  obtain ⟨inv, current⟩ := reached.inv
  have ok := inv.known h
  rw [found] at ok
  refine ⟨ok.history, fun dropped => ?_, fun t i n m here => ?_⟩
  · have none := ok.released (ok.dropped dropped)
    have ref := ok.ref
    refine ⟨?_, none⟩
    by_contra registered
    rw [Bool.not_eq_false] at registered
    rw [registered, if_pos rfl] at ref
    omega
  · have last := current t _ h m here rfl
    rw [takenOf, found] at last
    exact last

theorem messages_in_order_sample :
    ∃ (st : State Nat) (s : Service Nat), st.services 7 = some s ∧ s.pushed = [1, 2, 3] ∧
      s.dropped = [2, 3] ∧ s.pushed = s.taken ++ s.dropped ++ s.queue.contents ∧
      s.registered = false ∧ s.ref = 0 := by
  obtain ⟨st, reached, seen⟩ := Machine.exists_of_runs (step fun _ => 0) (fun _ _ => True)
    (start 2 : State Nat) gone (fun st => (st.services 7).map fun s => (s.pushed, s.dropped))
    (a := some ([1, 2, 3], [2, 3])) (by decide +kernel)
  obtain ⟨s, found, lists⟩ := Option.map_eq_some_iff.mp seen
  obtain ⟨pushed, dropped⟩ := Prod.mk.inj lists
  have whole := messages_in_order reached found
  refine ⟨st, s, found, pushed, dropped, whole.1, whole.2.1 ?_⟩
  rw [dropped]
  decide

/-- In every run a queue that holds messages has not been freed, and it is in the global queue or some
thread has it. -/
theorem no_lost_wakeup (reached : Reached weight count st) {h : Handle} {s : Service Msg}
    (found : st.services h = some s) (waiting : s.queue.contents ≠ []) :
    s.freed = false ∧
      (h ∈ st.globalmq ∨ ∃ (t : Nat) (a : Thread Msg), st.threads[t]? = some a ∧ (Kind.queue, h) ∈ a.holdings) := by
  obtain ⟨inv, _⟩ := reached.inv
  have ok := inv.known h
  rw [found] at ok
  have unfreed : s.freed = false := by
    by_contra freed
    rw [Bool.not_eq_false] at freed
    exact waiting (ok.freed freed).2
  have up : s.queue.in_global = true := by
    by_contra down
    rw [Bool.not_eq_true] at down
    exact waiting (ok.quiet down)
  have place := ok.place
  rw [unfreed, up, if_neg Bool.false_ne_true, if_pos (.inl rfl)] at place
  refine ⟨unfreed, ?_⟩
  by_contra nowhere
  rw [not_or] at nowhere
  have none : st.held h .queue = 0 := by
    apply Holdings.total_eq_zero
    intro a among
    obtain ⟨t, here⟩ := List.getElem?_of_mem among
    by_contra holds
    exact nowhere.2 ⟨t, a, here, List.count_pos_iff.mp (Nat.pos_of_ne_zero holds)⟩
  rw [List.count_eq_zero.mpr nowhere.1, none] at place
  cases place

theorem no_lost_wakeup_sample :
    ∃ (st : State Nat) (s : Service Nat), st.services 7 = some s ∧ s.queue.contents = [2] ∧
      (7 ∈ st.globalmq ∨ ∃ (t : Nat) (a : Thread Nat), st.threads[t]? = some a ∧
        (Kind.queue, 7) ∈ a.holdings) := by
  obtain ⟨st, reached, seen⟩ := Machine.exists_of_runs (step fun _ => 0) (fun _ _ => True)
    (start 2 : State Nat) served (fun st => (st.services 7).map fun s => s.queue.contents)
    (a := some [2]) (by decide +kernel)
  obtain ⟨s, found, contents⟩ := Option.map_eq_some_iff.mp seen
  refine ⟨st, s, found, contents, (no_lost_wakeup reached found ?_).2⟩
  rw [contents]
  decide

/-- When no thread is about to do anything and the global queue is empty, a service is registered, and
its callback has got every message that was pushed; or it is gone, its queue has been freed, and every
message that its callback did not get was dropped. -/
theorem quiet_state (reached : Reached weight count st)
    (idle : ∀ a ∈ st.threads, a = .out ∨ a = .work none) (empty : st.globalmq = []) {h : Handle}
    {s : Service Msg} (found : st.services h = some s) :
    (s.registered = true ∧ s.ref = 1 ∧ s.freed = false ∧ s.taken = s.pushed) ∨
      (s.registered = false ∧ s.ref = 0 ∧ s.freed = true ∧ s.taken ++ s.dropped = s.pushed) := by
  obtain ⟨inv, _⟩ := reached.inv
  have ok := inv.known h
  rw [found, empty] at ok
  have nothing : ∀ k, st.held h k = 0 := by
    intro k
    apply Holdings.total_eq_zero
    intro a among
    rcases idle a among with rfl | rfl <;> cases k <;> rfl
  have ref := ok.ref
  have place := ok.place
  have delete := ok.delete
  have history := ok.history
  rw [nothing] at ref place delete
  cases freed : s.freed with
  | true =>
      right
      obtain ⟨marked, none⟩ := ok.freed freed
      have zero := ok.released marked
      rw [none, List.append_nil] at history
      refine ⟨?_, zero, rfl, history.symm⟩
      by_contra registered
      rw [Bool.not_eq_false] at registered
      rw [registered, if_pos rfl] at ref
      omega
  | false =>
      left
      rw [freed] at place
      have flags : s.queue.in_global = false ∧ s.queue.release = false := by
        cases up : s.queue.in_global <;> cases marked : s.queue.release <;>
          simp [up, marked] at place ⊢
      have some : s.ref ≠ 0 := by
        intro zero
        rw [if_pos ⟨zero, flags.2⟩] at delete
        cases delete
      have registered : s.registered = true := by
        by_contra other
        rw [if_neg other] at ref
        exact some ref
      have undropped : s.dropped = [] := by
        by_contra dropped
        rw [ok.dropped dropped] at flags
        cases flags.2
      rw [ok.quiet flags.1, undropped, List.append_nil, List.append_nil] at history
      rw [registered, if_pos rfl] at ref
      exact ⟨registered, ref, rfl, history.symm⟩

theorem quiet_state_sample :
    ∃ (st : State Nat) (s : Service Nat), st.services 7 = some s ∧ s.pushed = [1, 2, 3] ∧
      ((s.registered = true ∧ s.ref = 1 ∧ s.freed = false ∧ s.taken = s.pushed) ∨
        (s.registered = false ∧ s.ref = 0 ∧ s.freed = true ∧ s.taken ++ s.dropped = s.pushed)) := by
  obtain ⟨st, reached, seen⟩ := Machine.exists_of_runs (step fun _ => 0) (fun _ _ => True)
    (start 2 : State Nat) gone
    (fun st => (st.threads, st.globalmq, (st.services 7).map Service.pushed))
    (a := ([.out, .work none], [], some [1, 2, 3])) (by decide +kernel)
  obtain ⟨threads, seen⟩ := Prod.mk.inj seen
  obtain ⟨empty, seen⟩ := Prod.mk.inj seen
  obtain ⟨s, found, pushed⟩ := Option.map_eq_some_iff.mp seen
  refine ⟨st, s, found, pushed, quiet_state reached ?_ empty found⟩
  rw [threads]
  simp

end

end Scheduler

end RillServer.Skynet
