import Mathlib.Logic.Basic

/-!
# Machines

A machine is a partial step function on states and events. `Machine.Reach` is reachability along
steps that all satisfy a guard, `Machine.runs` runs a list of events.
-/

namespace Machine

variable {σ ε : Type} (step : σ → ε → Option σ)

/-- The states reached from `start` by steps that all satisfy `guard`. -/
inductive Reach (guard : σ → ε → Prop) (start : σ) : σ → Prop
  | refl : Reach guard start start
  | tail {s s' : σ} {e : ε} :
    Reach guard start s → guard s e → step s e = some s' → Reach guard start s'

/-- Run a list of events that all pass a check. -/
def runs (check : σ → ε → Bool) (s : σ) : List ε → Option σ
  | [] => some s
  | e :: es =>
      if check s e then
        match step s e with
        | none => none
        | some s' => runs check s' es
      else none

variable {step} {guard guard' : σ → ε → Prop} {start s t : σ}

/-- The invariant rule. -/
theorem Reach.invariant {P : σ → Prop} (init : P start)
    (keep : ∀ {s s' e}, P s → guard s e → step s e = some s' → P s')
    (reached : Reach step guard start s) : P s := by
  induction reached with
  | refl => exact init
  | tail _ good stepped ih => exact keep ih good stepped

theorem Reach.mono (weaker : ∀ {s e}, guard s e → guard' s e)
    (reached : Reach step guard start s) : Reach step guard' start s := by
  induction reached with
  | refl => exact .refl
  | tail _ good stepped ih => exact .tail ih (weaker good) stepped

theorem Reach.trans (first : Reach step guard start s) (second : Reach step guard s t) :
    Reach step guard start t := by
  induction second with
  | refl => exact first
  | tail _ good stepped ih => exact .tail ih good stepped

theorem Reach.single {e : ε} (good : guard s e) (stepped : step s e = some t) :
    Reach step guard s t :=
  .tail .refl good stepped

/-- A list of events that all pass a check which implies the guard. -/
theorem Reach.of_runs {check : σ → ε → Bool} (sound : ∀ {s e}, check s e = true → guard s e)
    {es : List ε} (reached : Reach step guard start s) (ran : runs step check s es = some t) :
    Reach step guard start t := by
  induction es generalizing s with
  | nil =>
      cases ran
      exact reached
  | cons e es ih =>
      simp only [runs] at ran
      split at ran
      · rename_i passed
        split at ran
        · cases ran
        · rename_i s' stepped
          exact ih (.tail reached (sound passed) stepped) ran
      · cases ran

/-- The invariant rule for a run that remembers its events. -/
theorem runs_invariant {check : σ → ε → Bool} {P : List ε → σ → Prop} (init : P [] start)
    (keep : ∀ {past s s' e}, P past s → check s e = true → step s e = some s' → P (past ++ [e]) s')
    {es : List ε} (ran : runs step check start es = some s) : P es s := by
  suffices goes : ∀ past start, P past start → runs step check start es = some s →
      P (past ++ es) s from goes [] start init ran
  clear ran
  induction es with
  | nil =>
      intro past start before ran
      cases ran
      rwa [List.append_nil]
  | cons e es ih =>
      intro past start before ran
      simp only [runs] at ran
      split at ran
      · rename_i passed
        split at ran
        · cases ran
        · rename_i s' stepped
          rw [List.append_cons]
          exact ih _ s' (keep before passed stepped) ran
      · cases ran

theorem runs_concat {check : σ → ε → Bool} {es : List ε} {e : ε}
    (ran : runs step check start es = some s) (passed : check s e = true)
    (stepped : step s e = some t) : runs step check start (es ++ [e]) = some t := by
  induction es generalizing start with
  | nil =>
      cases ran
      simp only [List.nil_append, runs, passed, stepped, if_true]
  | cons first es ih =>
      simp only [List.cons_append, runs] at ran ⊢
      split at ran
      · rename_i good
        rw [if_pos good]
        cases moved : step start first with
        | none =>
            rw [moved] at ran
            cases ran
        | some s' =>
            rw [moved] at ran
            exact ih ran
      · cases ran

/-- What is reached is reached by a list of events. -/
theorem Reach.exists_runs {check : σ → ε → Bool} (complete : ∀ {s e}, guard s e → check s e = true)
    (reached : Reach step guard start s) : ∃ es, runs step check start es = some s := by
  induction reached with
  | refl => exact ⟨[], rfl⟩
  | tail _ good stepped ih =>
      obtain ⟨es, ran⟩ := ih
      exact ⟨_, runs_concat ran (complete good) stepped⟩

/-- What a list of events comes to, as seen by `view`. -/
theorem exists_of_runs {α : Type} (step : σ → ε → Option σ) (guard : σ → ε → Prop)
    [∀ s e, Decidable (guard s e)] (start : σ) (es : List ε) (view : σ → α) {a : α}
    (ran : (runs step (fun s e => decide (guard s e)) start es).map view = some a) :
    ∃ s, Reach step guard start s ∧ view s = a := by
  cases last : runs step (fun s e => decide (guard s e)) start es with
  | none =>
      rw [last] at ran
      cases ran
  | some s =>
      rw [last] at ran
      exact ⟨s, .of_runs of_decide_eq_true .refl last, Option.some.inj ran⟩

end Machine
