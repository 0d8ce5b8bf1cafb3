import RillServer.Timer.Wheel
import Mathlib.Data.List.Forall2

/-!
# What is recorded of a run

The fields of a timer object that are not in the source say what the events of the run were
(`recorded_of_runs`). `inc` is the number of ticks. Every call of `register` and `registerOnce` that
was not refused has a registration with the tick at which it came, under an id of its own, and what
is stored with that id, in a bucket or in a loop under way, is the callback that was passed.
-/

namespace RillServer.Wheel

variable {F : Type}

/-- A call of `register`, or of `registerOnce`, when `inc` was `time`. -/
structure Call (F : Type) where
  time : Nat
  sec : Nat
  once : Bool
  func : F
  loop : Bool
  deriving DecidableEq

/-- How far an event moves the clock. -/
def Event.ticks : Event F → Nat
  | .timeOut _ => 1
  | _ => 0

/-- The call that an event is when `inc` is `now`, if it is not refused. -/
def Event.call (now : Nat) : Event F → Option (Call F)
  | .register sec func loop => if sec = 0 then none else some ⟨now, sec, false, func, loop⟩
  | .registerOnce sec func loop => if sec = 0 then none else some ⟨now, sec, true, func, loop⟩
  | _ => none

def Event.raises : Event F → Nat
  | .raise _ => 1
  | _ => 0

/-- The ticks of a run. -/
def ticks : List (Event F) → Nat
  | [] => 0
  | e :: es => e.ticks + ticks es

/-- The calls of a run that begins when `inc` is `now`. -/
def calls (now : Nat) : List (Event F) → List (Call F)
  | [] => []
  | e :: es => (e.call now).toList ++ calls (now + e.ticks) es

def raises : List (Event F) → Nat
  | [] => 0
  | e :: es => e.raises + raises es

/-- The registration of a call. -/
structure Registers (t : Timer F) (r : Registration) (c : Call F) : Prop where
  time : r.time = c.time
  sec : r.sec = c.sec
  once : r.once = c.once
  callback : ∀ n e, Held t n e → e.2.origin = r.id → e.2 = ⟨c.func, c.loop, r.id⟩

/-- What a timer has recorded of the events since it was made. -/
structure Recorded (es : List (Event F)) (t : Timer F) : Prop where
  inc : t.inc = ticks es
  registered : List.Forall₂ (Registers t) t.registered (calls 0 es)
  ids : (t.registered.map Registration.id).Nodup
  raised : t.raised.length = raises es

theorem ticks_concat (es : List (Event F)) (e : Event F) :
    ticks (es ++ [e]) = ticks es + e.ticks := by
  induction es with
  | nil => simp [ticks]
  | cons first es ih => rw [List.cons_append, ticks, ih, ticks, Nat.add_assoc]

theorem raises_concat (es : List (Event F)) (e : Event F) :
    raises (es ++ [e]) = raises es + e.raises := by
  induction es with
  | nil => simp [raises]
  | cons first es ih => rw [List.cons_append, raises, ih, raises, Nat.add_assoc]

theorem calls_concat (now : Nat) (es : List (Event F)) (e : Event F) :
    calls now (es ++ [e]) = calls now es ++ (e.call (now + ticks es)).toList := by
  induction es generalizing now with
  | nil => simp [calls, ticks]
  | cons first es ih =>
    have later : now + ticks (first :: es) = now + first.ticks + ticks es := by
      simp [ticks, Nat.add_assoc]
    rw [List.cons_append, calls, ih, calls, later, List.append_assoc]

variable {t t' : Timer F} {e : Event F}

theorem Does.inc_eq (does : Does t e t') : t'.inc = t.inc + e.ticks := by
  cases does with
  | @begins bucket order => cases order <;> rfl
  | @ended n e rest => cases rest <;> rfl
  | @renewed n sec e rest => cases rest <;> rfl
  | _ => rfl

theorem Does.raised_length (does : Does t e t') :
    t'.raised.length = t.raised.length + e.raises := by
  cases does with
  | @begins bucket order => cases order <;> rfl
  | @ended n e rest => cases rest <;> rfl
  | @renewed n sec e rest => cases rest <;> rfl
  | raised => simp [Event.raises]
  | _ => rfl

/-- A call is registered under the next id, and no other event registers anything. -/
theorem Does.registered_eq (does : Does t e t') :
    t'.registered = t.registered ++
      (e.call t.inc).toList.map fun c => ⟨t.timerIdx + 1, c.time, c.sec, c.once⟩ := by
  cases does with
  | registered pos =>
    rw [Event.call, if_neg (Nat.ne_of_gt pos)]
    rfl
  | registeredOnce pos =>
    rw [Event.call, if_neg (Nat.ne_of_gt pos)]
    rfl
  | @begins bucket order => cases order <;> exact (List.append_nil _).symm
  | @ended n e rest => cases rest <;> exact (List.append_nil _).symm
  | @renewed n sec e rest => cases rest <;> exact (List.append_nil _).symm
  | _ => exact (List.append_nil _).symm

/-- What is held was held before, maybe under another id, or is the callback of a call. -/
theorem Does.held_from {n : Nat} {x : Entry F} (does : Does t e t') (sound : Sound t)
    (held : Held t' n x) : (∃ m y, Held t m y ∧ y.2 = x.2) ∨
      ∃ c, e.call t.inc = some c ∧ x.2 = ⟨c.func, c.loop, t.timerIdx + 1⟩ := by
  cases does with
  | @registered sec func loop pos =>
    have held : Held (t.enlist sec ⟨func, loop, t.timerIdx + 1⟩) n x := held
    rcases (held_enlist pos).mp held with earlier | ⟨-, rfl⟩
    · exact .inl ⟨n, x, earlier, rfl⟩
    · exact .inr ⟨_, if_neg (Nat.ne_of_gt pos), rfl⟩
  | @registeredOnce sec func loop pos =>
    have held : Held (t.enlist sec ⟨func, loop, t.timerIdx + 1⟩) n x := held
    rcases (held_enlist pos).mp held with earlier | ⟨-, rfl⟩
    · exact .inl ⟨n, x, earlier, rfl⟩
    · exact .inr ⟨_, if_neg (Nat.ne_of_gt pos), rfl⟩
  | refused => exact .inl ⟨n, x, held, rfl⟩
  | refusedOnce => exact .inl ⟨n, x, held, rfl⟩
  | unregister => exact .inl ⟨n, x, held, rfl⟩
  | idle none => exact .inl ⟨n, x, ((sound.idle none).1 n x).mp held, rfl⟩
  | begins due perm =>
    have next := (held_visit (Function.update_self ..)).mp held
    exact .inl ⟨n, x, (sound.held_next due perm).mp next, rfl⟩
  | ended loop =>
    have taken := (held_visit (Function.update_self ..)).mp held
    exact .inl ⟨n, x, ((sound.held_take loop).mp taken).1, rfl⟩
  | @renewed m sec e rest loop once known pos =>
    have listed := (held_visit (Function.update_self ..)).mp held
    rcases (held_enlist pos).mp listed with taken | ⟨-, rfl⟩
    · exact .inl ⟨n, x, ((sound.held_take loop).mp taken).1, rfl⟩
    · exact .inl ⟨m, e, .inr ⟨_, loop, List.mem_cons_self⟩, rfl⟩
  | raised => exact .inl ⟨n, x, (sound.stop _).1 n x held, rfl⟩

/-- A registration stays that of its call. -/
theorem Registers.step {r : Registration} {c : Call F} (registers : Registers t r c)
    (does : Does t e t') (sound : Sound t) (old : r.id ≤ t.timerIdx) : Registers t' r c := by
  refine { registers with callback := fun n x held same => ?_ }
  rcases does.held_from sound held with ⟨m, y, before, kept⟩ | ⟨c', -, new⟩
  · rw [← kept] at same ⊢
    exact registers.callback m y before same
  · rw [new] at same
    change t.timerIdx + 1 = r.id at same
    omega

/-- A new call is registered. -/
theorem Does.registers {c : Call F} (does : Does t e t') (sound : Sound t)
    (called : e.call t.inc = some c) :
    Registers t' ⟨t.timerIdx + 1, c.time, c.sec, c.once⟩ c := by
  refine ⟨rfl, rfl, rfl, fun n x held same => ?_⟩
  change x.2.origin = t.timerIdx + 1 at same
  rcases does.held_from sound held with ⟨m, y, before, kept⟩ | ⟨c', called', new⟩
  · have old := sound.origins m y before
    rw [kept] at old
    omega
  · rw [called] at called'
    cases called'
    exact new

theorem Recorded.init : Recorded [] (init : Timer F) :=
  ⟨rfl, .nil, List.nodup_nil, rfl⟩

/-- Every event is recorded. -/
theorem Recorded.step {es : List (Event F)} (recorded : Recorded es t) (does : Does t e t')
    (sound : Sound t) : Recorded (es ++ [e]) t' := by
  constructor
  · rw [does.inc_eq, recorded.inc, ticks_concat]
  · have olds : List.Forall₂ (Registers t') t.registered (calls 0 es) := by
      refine ((List.forall₂_and_left _ _).mpr ⟨sound.ids, recorded.registered⟩).imp ?_
      intro r c before
      exact before.2.step does sound before.1
    have now : t.inc = 0 + ticks es := recorded.inc.trans (Nat.zero_add _).symm
    rw [does.registered_eq, calls_concat, ← now]
    refine List.rel_append olds ?_
    cases called : e.call t.inc with
    | none => exact .nil
    | some c => exact .cons (does.registers sound called) .nil
  · rw [does.registered_eq, List.map_append]
    refine recorded.ids.append ?_ ?_
    · cases e.call t.inc with
      | none => exact List.nodup_nil
      | some c => exact List.nodup_singleton _
    · intro id member new
      obtain ⟨r, earlier, rfl⟩ := List.mem_map.mp member
      have old := sound.ids r earlier
      cases called : e.call t.inc with
      | none =>
        rw [called] at new
        cases new
      | some c =>
        rw [called] at new
        have same : r.id = t.timerIdx + 1 := List.mem_singleton.mp new
        omega
  · rw [does.raised_length, recorded.raised, raises_concat]

/-- What a run records are its events. -/
theorem recorded_of_runs [DecidableEq F] {check : Timer F → Event F → Bool} {es : List (Event F)}
    (ran : Machine.runs step check init es = some t) : Recorded es t := by
  have both : Sound t ∧ Recorded es t := by
    refine Machine.runs_invariant (P := fun past t => Sound t ∧ Recorded past t)
      ⟨.init, .init⟩ ?_ ran
    intro past s s' e before _ stepped
    have does := step_does before.1 stepped
    exact ⟨does.sound before.1, before.2.step does before.1⟩
  exact both.2

end RillServer.Wheel
