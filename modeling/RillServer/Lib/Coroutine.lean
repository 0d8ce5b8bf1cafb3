import Mathlib.Logic.Function.Basic

/-!
# Coroutines that call one another

A cooperative service runs one coroutine at a time. A coroutine keeps the service to itself until
it calls another service; the call suspends it, and any other coroutine may run before the answer
comes back. A call is synchronous for the coroutine that makes it, so the coroutines that wait for
one another form a stack: an `Activity` is such a stack with, at its top, either a request on its
way to the service that will handle it or a value on its way back.

* `Code` gives the text of the services: what handling a request does up to the next call or
  return (`serve`), what a suspended coroutine does when its answer arrives (`resume`), and what
  an event from outside does (`arrive`). Each is one uninterrupted segment.
* `Code.step` interleaves the segments of all activities at every call and every return, and
  `Code.Reach` is reachability along steps that all satisfy a guard.
* `Typing` records which request a suspended coroutine waits for, which request it is itself
  handling and which values may answer a request. `Typing.Ok.advance` keeps the stacks of a
  program that respects a typing well linked.
-/

namespace Coroutine

variable {σ Ora Env Req Pc Val : Type}

/-- An entry of a table that was written to is the new one or one from before. -/
theorem update_eq_some {α β : Type} [DecidableEq α] {table : α → Option β} {key key' : α}
    {entry : Option β} {value : β} (found : Function.update table key entry key' = some value) :
    (key' = key ∧ entry = some value) ∨ (key' ≠ key ∧ table key' = some value) := by
  by_cases same : key' = key
  · subst same
    rw [Function.update_self] at found
    exact .inl ⟨rfl, found⟩
  · rw [Function.update_of_ne same] at found
    exact .inr ⟨same, found⟩

/-- How one segment of a coroutine ends: in a call, after which the coroutine is suspended at
`next`, or in a return. -/
inductive Outcome (Req Pc Val : Type) where
  | call (request : Req) (next : Pc)
  | ret (value : Val)
  deriving DecidableEq

/-- A stack of suspended coroutines, innermost first, below a request or an answer in flight. -/
inductive Activity (Req Pc Val : Type) where
  | calling (request : Req) (stack : List Pc)
  | returning (value : Val) (stack : List Pc)
  deriving DecidableEq

/-- The coroutines of an activity that are suspended in a call. -/
def Activity.stack : Activity Req Pc Val → List Pc
  | .calling _ stack => stack
  | .returning _ stack => stack

@[simp] theorem Activity.stack_calling (r : Req) (st : List Pc) :
    (Activity.calling r st : Activity Req Pc Val).stack = st := rfl

@[simp] theorem Activity.stack_returning (v : Val) (st : List Pc) :
    (Activity.returning v st : Activity Req Pc Val).stack = st := rfl

/-- The coroutine that the last segment left suspended. -/
def Activity.stopped : Activity Req Pc Val → Option Pc
  | .calling _ (pc :: _) => some pc
  | _ => none

/-- The coroutine that the next segment will resume. -/
def Activity.resumed : Activity Req Pc Val → Option Pc
  | .returning _ (pc :: _) => some pc
  | _ => none

/-- Embed the program counters of one service into those of the whole system. -/
def Outcome.mapPc {Pc' : Type} (f : Pc → Pc') : Outcome Req Pc Val → Outcome Req Pc' Val
  | .call request next => .call request (f next)
  | .ret value => .ret value

/-- The activity after a segment with this outcome ran on top of `stack`. -/
def Outcome.settle (stack : List Pc) : Outcome Req Pc Val → Activity Req Pc Val
  | .call request next => .calling request (next :: stack)
  | .ret value => .returning value stack

/-- The text of a system of services over the shared state `σ`. An `Ora` is what a segment learns
from outside the system while it runs. -/
structure Code (σ Ora Env Req Pc Val : Type) where
  serve : Ora → σ → Req → σ × Outcome Req Pc Val
  resume : Ora → σ → Pc → Val → σ × Outcome Req Pc Val
  arrive : Env → σ → Option (σ × Option Req)

/-- The shared state and the activities, indexed by the identity each got when it began. -/
structure World (σ Req Pc Val : Type) where
  shared : σ
  acts : Nat → Option (Activity Req Pc Val)

/-- Some activity has a coroutine suspended at `pc`. -/
def World.Suspended (w : World σ Req Pc Val) (pc : Pc) : Prop :=
  ∃ id a, w.acts id = some a ∧ pc ∈ a.stack

/-- A scheduling decision: let an activity take its next segment, or let something happen outside
that may begin a new activity. -/
inductive Event (Ora Env : Type) where
  | run (id : Nat) (answer : Ora)
  | arrive (id : Nat) (what : Env)
  deriving DecidableEq

/-- The activity an event is about. -/
def Event.id : Event Ora Env → Nat
  | .run id _ => id
  | .arrive id _ => id

namespace Code

variable (code : Code σ Ora Env Req Pc Val)

/-- The next segment of one activity. An activity whose last value was returned is over. -/
def advance (o : Ora) (s : σ) :
    Activity Req Pc Val → Option (σ × Activity Req Pc Val)
  | .calling request stack =>
      let (s', out) := code.serve o s request
      some (s', out.settle stack)
  | .returning value (pc :: stack) =>
      let (s', out) := code.resume o s pc value
      some (s', out.settle stack)
  | .returning _ [] => none

def step (w : World σ Req Pc Val) : Event Ora Env → Option (World σ Req Pc Val)
  | .run id o =>
      match w.acts id with
      | none => none
      | some a =>
          match code.advance o w.shared a with
          | none => none
          | some (s, a') => some ⟨s, Function.update w.acts id (some a')⟩
  | .arrive id e =>
      match w.acts id with
      | some _ => none
      | none =>
          match code.arrive e w.shared with
          | none => none
          | some (s, none) => some ⟨s, w.acts⟩
          | some (s, some request) =>
              some ⟨s, Function.update w.acts id (some (.calling request []))⟩

/-- Run a whole schedule. -/
def runs (w : World σ Req Pc Val) : List (Event Ora Env) → Option (World σ Req Pc Val)
  | [] => some w
  | e :: es =>
      match code.step w e with
      | none => none
      | some w' => runs w' es

/-- Run a schedule whose events all pass a check. -/
def runsIf (check : World σ Req Pc Val → Event Ora Env → Bool) (w : World σ Req Pc Val) :
    List (Event Ora Env) → Option (World σ Req Pc Val)
  | [] => some w
  | e :: es =>
      if check w e then
        match code.step w e with
        | none => none
        | some w' => runsIf check w' es
      else none

/-- The worlds reached from `start` by steps that all satisfy `guard`. -/
inductive Reach (guard : World σ Req Pc Val → Event Ora Env → Prop)
    (start : World σ Req Pc Val) : World σ Req Pc Val → Prop
  | refl : Reach guard start start
  | tail {w w' : World σ Req Pc Val} {e : Event Ora Env} :
    Reach guard start w → guard w e → code.step w e = some w' → Reach guard start w'

variable {code}

/-- What one segment of an activity can be. -/
theorem advance_cases {o : Ora} {s s' : σ} {a a' : Activity Req Pc Val}
    (h : code.advance o s a = some (s', a')) :
    (∃ r st out, a = .calling r st ∧ code.serve o s r = (s', out) ∧ a' = out.settle st) ∨
      (∃ v pc st out, a = .returning v (pc :: st) ∧ code.resume o s pc v = (s', out) ∧
        a' = out.settle st) := by
  match a with
  | .calling r st =>
      simp only [advance, Option.some.injEq, Prod.mk.injEq] at h
      exact .inl ⟨r, st, (code.serve o s r).2, rfl, Prod.ext h.1 rfl, h.2.symm⟩
  | .returning v (pc :: st) =>
      simp only [advance, Option.some.injEq, Prod.mk.injEq] at h
      exact .inr ⟨v, pc, st, (code.resume o s pc v).2, rfl, Prod.ext h.1 rfl, h.2.symm⟩
  | .returning v [] => simp [advance] at h

/-- Everything a step can do: one segment of one activity, or an event from outside, which begins
at most one activity. -/
theorem step_cases {w w' : World σ Req Pc Val} {e : Event Ora Env}
    (h : code.step w e = some w') :
    (∃ id o a s' a', e = .run id o ∧ w.acts id = some a ∧
        code.advance o w.shared a = some (s', a') ∧
        w' = ⟨s', Function.update w.acts id (some a')⟩) ∨
      (∃ id x s', e = .arrive id x ∧ code.arrive x w.shared = some (s', none) ∧
        w' = ⟨s', w.acts⟩) ∨
      (∃ id x s' r, e = .arrive id x ∧ w.acts id = none ∧
        code.arrive x w.shared = some (s', some r) ∧
        w' = ⟨s', Function.update w.acts id (some (.calling r []))⟩) := by
  cases e with
  | run id o =>
      simp only [step] at h
      split at h
      · cases h
      · rename_i a found
        split at h
        · cases h
        · rename_i s' a' moved
          exact .inl ⟨id, o, a, s', a', rfl, found, moved, (Option.some.inj h).symm⟩
  | arrive id x =>
      simp only [step] at h
      split at h
      · cases h
      · rename_i fresh
        split at h
        · cases h
        · rename_i s' happened
          exact .inr (.inl ⟨id, x, s', rfl, happened, (Option.some.inj h).symm⟩)
        · rename_i s' r happened
          exact .inr (.inr ⟨id, x, s', r, rfl, fresh, happened, (Option.some.inj h).symm⟩)

/-- After one activity moved on, an activity is that one or one from before. -/
theorem acts_update {acts : Nat → Option (Activity Req Pc Val)} {id i : Nat}
    {a a' : Activity Req Pc Val} (found : Function.update acts id (some a') i = some a) :
    (i = id ∧ a' = a) ∨ (i ≠ id ∧ acts i = some a) := by
  rcases update_eq_some found with ⟨here, same⟩ | earlier
  · exact .inl ⟨here, Option.some.inj same⟩
  · exact .inr earlier

/-- What is known of every activity stays known when one of them moves on, if the others do not
notice. -/
theorem acts_of_run {Ok Ok' : Nat → Activity Req Pc Val → Prop}
    {acts : Nat → Option (Activity Req Pc Val)} {id : Nat} {a' : Activity Req Pc Val}
    (known : ∀ i a, acts i = some a → Ok i a)
    (others : ∀ i a, i ≠ id → Ok i a → Ok' i a) (mine : Ok' id a') :
    ∀ i a, Function.update acts id (some a') i = some a → Ok' i a := by
  intro i a found
  by_cases same : i = id
  · subst same
    simp only [Function.update_self, Option.some.injEq] at found
    subst found
    exact mine
  · rw [Function.update_of_ne same] at found
    exact others i a same (known i a found)

/-- An activity that no event of a schedule names is not touched by it. -/
theorem runs_untouched {w w' : World σ Req Pc Val} {es : List (Event Ora Env)} {id : Nat}
    (other : ∀ e ∈ es, e.id ≠ id) (ran : code.runs w es = some w') : w'.acts id = w.acts id := by
  induction es generalizing w with
  | nil =>
      cases ran
      rfl
  | cons e es ih =>
      simp only [runs] at ran
      split at ran
      · cases ran
      · rename_i w₁ stepped
        have head : w₁.acts id = w.acts id := by
          have ne : id ≠ e.id := (other e List.mem_cons_self).symm
          rcases step_cases stepped with ⟨i, o, a, s', a', rfl, -, -, rfl⟩ |
            ⟨i, x, s', rfl, -, rfl⟩ | ⟨i, x, s', r, rfl, -, -, rfl⟩
          · exact Function.update_of_ne ne _ _
          · rfl
          · exact Function.update_of_ne ne _ _
        exact (ih (fun e member => other e (List.mem_cons_of_mem _ member)) ran).trans head

section Reachability

variable {guard guard' : World σ Req Pc Val → Event Ora Env → Prop}
  {start w : World σ Req Pc Val}

/-- The invariant rule: what holds at the start and is kept by every guarded step holds in every
world reached. -/
theorem Reach.invariant {P : World σ Req Pc Val → Prop} (init : P start)
    (keep : ∀ {w w' e}, P w → guard w e → code.step w e = some w' → P w')
    (reached : code.Reach guard start w) : P w := by
  induction reached with
  | refl => exact init
  | tail _ good stepped ih => exact keep ih good stepped

theorem Reach.mono (weaker : ∀ {w e}, guard w e → guard' w e)
    (reached : code.Reach guard start w) : code.Reach guard' start w := by
  induction reached with
  | refl => exact .refl
  | tail _ good stepped ih => exact .tail ih (weaker good) stepped

/-- A schedule whose events satisfy the guard wherever they occur. -/
theorem Reach.of_runs_forall {w' : World σ Req Pc Val} {es : List (Event Ora Env)}
    (reached : code.Reach guard start w) (good : ∀ e ∈ es, ∀ w, guard w e)
    (ran : code.runs w es = some w') : code.Reach guard start w' := by
  induction es generalizing w with
  | nil =>
      cases ran
      exact reached
  | cons e es ih =>
      simp only [runs] at ran
      split at ran
      · cases ran
      · rename_i w₁ stepped
        have next := Reach.tail reached (good e List.mem_cons_self w) stepped
        exact ih next (fun e' member => good e' (List.mem_cons_of_mem _ member)) ran

theorem Reach.of_runs {w' : World σ Req Pc Val} {es : List (Event Ora Env)}
    (reached : code.Reach (fun _ _ => True) start w) (ran : code.runs w es = some w') :
    code.Reach (fun _ _ => True) start w' :=
  reached.of_runs_forall (fun _ _ _ => trivial) ran

/-- A schedule whose events all pass a check that implies the guard. The check may rely on there
being no activity from `n` on when it makes sure that the event is one of an earlier activity. -/
theorem Reach.of_runsIf {check : World σ Req Pc Val → Event Ora Env → Bool} {n : Nat}
    {w' : World σ Req Pc Val}
    (sound : ∀ {w e}, (∀ id, n ≤ id → w.acts id = none) → check w e = true →
      guard w e ∧ e.id < n) (reached : code.Reach guard start w)
    (few : ∀ id, n ≤ id → w.acts id = none) :
    ∀ {es : List (Event Ora Env)}, code.runsIf check w es = some w' →
      code.Reach guard start w' := by
  intro es
  induction es generalizing w with
  | nil =>
      intro ran
      cases ran
      exact reached
  | cons e es ih =>
      intro ran
      simp only [runsIf] at ran
      split at ran
      · rename_i passed
        split at ran
        · cases ran
        · rename_i w₁ stepped
          obtain ⟨good, early⟩ := sound few passed
          refine ih (.tail reached good stepped) ?_ ran
          intro id late
          have one : code.runs w [e] = some w₁ := by simp [runs, stepped]
          have untouched : w₁.acts id = w.acts id := by
            refine runs_untouched ?_ one
            intro e' member
            obtain rfl := List.mem_singleton.mp member
            omega
          exact untouched.trans (few id late)
      · cases ran

end Reachability

end Code

/-! ## Suspended coroutines -/

theorem mem_stack_settle {out : Outcome Req Pc Val} {stack : List Pc} {pc : Pc} :
    pc ∈ (out.settle stack).stack ↔ (∃ q, out = .call q pc) ∨ pc ∈ stack := by
  cases out with
  | call q next => simp [Outcome.settle, eq_comm]
  | ret v => simp [Outcome.settle]

theorem World.not_suspended {w : World σ Req Pc Val} (empty : ∀ id, w.acts id = none) (pc : Pc) :
    ¬ w.Suspended pc := by
  rintro ⟨id, a, found, -⟩
  rw [empty id] at found
  cases found

/-- What is suspended after a segment was suspended before, or is where the segment stopped. -/
theorem World.Suspended.of_run {w : World σ Req Pc Val} {id : Nat} {s' : σ}
    {a : Activity Req Pc Val} {out : Outcome Req Pc Val} {stack : List Pc} {pc : Pc}
    (found : w.acts id = some a) (below : ∀ pc ∈ stack, pc ∈ a.stack)
    (suspended : World.Suspended ⟨s', Function.update w.acts id (some (out.settle stack))⟩ pc) :
    (∃ q, out = .call q pc) ∨ w.Suspended pc := by
  obtain ⟨id', a', found', member⟩ := suspended
  by_cases same : id' = id
  · subst same
    simp only [Function.update_self, Option.some.injEq] at found'
    subst found'
    rcases mem_stack_settle.mp member with stopped | deeper
    · exact .inl stopped
    · exact .inr ⟨id', a, found, below pc deeper⟩
  · simp only [Function.update_of_ne same] at found'
    exact .inr ⟨id', a', found', member⟩

/-- The same, for a segment given by `advance`. -/
theorem World.Suspended.of_advance {code : Code σ Ora Env Req Pc Val} {w : World σ Req Pc Val}
    {id : Nat} {o : Ora} {s' : σ} {a a' : Activity Req Pc Val} {pc : Pc}
    (found : w.acts id = some a) (moved : code.advance o w.shared a = some (s', a'))
    (suspended : World.Suspended ⟨s', Function.update w.acts id (some a')⟩ pc) :
    (∃ q st, a' = .calling q (pc :: st)) ∨ w.Suspended pc := by
  rcases Code.advance_cases moved with ⟨r, st, out, rfl, -, rfl⟩ | ⟨v, top, st, out, rfl, -, rfl⟩
  · rcases suspended.of_run found (fun _ member => member) with ⟨q, rfl⟩ | earlier
    · exact .inl ⟨q, st, rfl⟩
    · exact .inr earlier
  · rcases suspended.of_run found (fun _ member => List.mem_cons_of_mem _ member) with
      ⟨q, rfl⟩ | earlier
    · exact .inl ⟨q, st, rfl⟩
    · exact .inr earlier

/-- What was suspended before a segment is suspended after it, or was resumed by it. -/
theorem World.Suspended.after_advance {code : Code σ Ora Env Req Pc Val} {w : World σ Req Pc Val}
    {id : Nat} {o : Ora} {s' : σ} {a a' : Activity Req Pc Val} {pc : Pc}
    (found : w.acts id = some a) (moved : code.advance o w.shared a = some (s', a'))
    (suspended : w.Suspended pc) :
    (∃ v st, a = .returning v (pc :: st)) ∨
      World.Suspended ⟨s', Function.update w.acts id (some a')⟩ pc := by
  obtain ⟨id', b, found', member⟩ := suspended
  by_cases same : id' = id
  · subst same
    rw [found] at found'
    cases found'
    rcases Code.advance_cases moved with ⟨r, st, out, rfl, -, rfl⟩ | ⟨v, top, st, out, rfl, -, rfl⟩
    · exact .inr ⟨id', _, Function.update_self .., mem_stack_settle.mpr (.inr member)⟩
    · rcases List.mem_cons.mp member with rfl | deeper
      · exact .inl ⟨v, st, rfl⟩
      · exact .inr ⟨id', _, Function.update_self .., mem_stack_settle.mpr (.inr deeper)⟩
  · exact .inr ⟨id', b, (Function.update_of_ne same _ _).trans found', member⟩

/-- A new activity leaves every other one as it was. -/
theorem World.Suspended.after_begin {w : World σ Req Pc Val} {id : Nat} {s' : σ} {r : Req}
    {pc : Pc} (fresh : w.acts id = none) (suspended : w.Suspended pc) :
    World.Suspended ⟨s', Function.update w.acts id (some (.calling r []))⟩ pc := by
  obtain ⟨id', b, found, member⟩ := suspended
  have other : id' ≠ id := by
    rintro rfl
    rw [fresh] at found
    cases found
  exact ⟨id', b, (Function.update_of_ne other _ _).trans found, member⟩

/-- A new activity has no coroutine suspended. -/
theorem World.Suspended.of_begin {w : World σ Req Pc Val} {id : Nat} {s' : σ} {r : Req} {pc : Pc}
    (suspended : World.Suspended ⟨s', Function.update w.acts id (some (.calling r []))⟩ pc) :
    w.Suspended pc := by
  obtain ⟨id', a', found', member⟩ := suspended
  by_cases same : id' = id
  · subst same
    simp only [Function.update_self, Option.some.injEq] at found'
    subst found'
    cases member
  · simp only [Function.update_of_ne same] at found'
    exact ⟨id', a', found', member⟩

/-! ## Well-linked stacks -/

/-- Which request a suspended coroutine waits for, which request it is handling, and which values
may answer a request. -/
structure Typing (Req Pc Val : Type) where
  awaits : Pc → Req → Prop
  serves : Pc → Req
  answers : Req → Val → Prop

namespace Typing

variable (τ : Typing Req Pc Val)

/-- The coroutines of a stack wait for one another, the innermost for `r`. -/
def Chain : Req → List Pc → Prop
  | _, [] => True
  | r, pc :: stack => τ.awaits pc r ∧ Chain (τ.serves pc) stack

def Ok : Activity Req Pc Val → Prop
  | .calling r stack => τ.Chain r stack
  | .returning v stack => ∃ r, τ.answers r v ∧ τ.Chain r stack

/-- An outcome fits the handling of `r`: a call leaves a coroutine that waits for it and still
handles `r`, a return answers `r`. -/
def Fits (r : Req) : Outcome Req Pc Val → Prop
  | .call q pc => τ.awaits pc q ∧ τ.serves pc = r
  | .ret v => τ.answers r v

/-- Every segment of the program ends in an outcome that fits the request it handles. -/
structure Respected (code : Code σ Ora Env Req Pc Val) : Prop where
  serve : ∀ o s r, τ.Fits r (code.serve o s r).2
  resume : ∀ o s pc q v, τ.awaits pc q → τ.answers q v →
    τ.Fits (τ.serves pc) (code.resume o s pc v).2

variable {τ}

theorem Ok.settle {r : Req} {out : Outcome Req Pc Val} {stack : List Pc}
    (fits : τ.Fits r out) (chain : τ.Chain r stack) : τ.Ok (out.settle stack) := by
  cases out with
  | call q pc =>
      obtain ⟨waits, same⟩ := fits
      exact ⟨waits, by rw [same]; exact chain⟩
  | ret v => exact ⟨r, fits, chain⟩

theorem Ok.advance {code : Code σ Ora Env Req Pc Val} (respected : τ.Respected code)
    {o : Ora} {s s' : σ} {a a' : Activity Req Pc Val} (ok : τ.Ok a)
    (moved : code.advance o s a = some (s', a')) : τ.Ok a' := by
  obtain ⟨r, st, out, rfl, run, rfl⟩ | ⟨v, pc, st, out, rfl, run, rfl⟩ := Code.advance_cases moved
  · have fits := respected.serve o s r
    rw [run] at fits
    exact Ok.settle fits ok
  · obtain ⟨q, answer, waits, chain⟩ := ok
    have fits := respected.resume o s pc q v waits answer
    rw [run] at fits
    exact Ok.settle fits chain

/-- In every world reached, the stack of every activity is well linked. -/
theorem Respected.ok_of_reach {code : Code σ Ora Env Req Pc Val} (respected : τ.Respected code)
    {guard : World σ Req Pc Val → Event Ora Env → Prop} {start w : World σ Req Pc Val}
    (init : ∀ id a, start.acts id = some a → τ.Ok a) (reached : code.Reach guard start w) :
    ∀ id a, w.acts id = some a → τ.Ok a := by
  refine reached.invariant (P := fun w => ∀ id a, w.acts id = some a → τ.Ok a) init ?_
  intro w w' e ok _ stepped id a found
  obtain ⟨id₁, o, a₁, s', a', -, found₁, moved, rfl⟩ | ⟨_, _, s', -, -, rfl⟩ |
    ⟨id₁, x, s', r, -, -, -, rfl⟩ := Code.step_cases stepped
  · by_cases same : id = id₁
    · subst same
      simp only [Function.update_self, Option.some.injEq] at found
      subst found
      exact (ok _ _ found₁).advance respected moved
    · exact ok id a (by simpa [Function.update_of_ne same] using found)
  · exact ok id a found
  · by_cases same : id = id₁
    · subst same
      simp only [Function.update_self, Option.some.injEq] at found
      subst found
      exact True.intro
    · exact ok id a (by simpa [Function.update_of_ne same] using found)

end Typing

end Coroutine
