import RillServer.Timer.Missed

/-!
# Cancelling a timer

`unregister` looks the callback up in `self.callbacks[sec]`, where `sec` is not the tick but the
whole entry of `timer_idxs`. So it raises for every id that is known. After its first firing a
periodic callback has another id, and `unregister` of the id that `register` returned does nothing:
the callback is called again. Only where nothing is left to cancel does a call do what it should
(`cancels_iff`).

The histories here are all histories: callbacks may also raise, or suspend their loop.
-/

namespace RillServer.Wheel

variable {F : Type} {t : Timer F} {origin : Nat}

/-- Any event at any time. -/
def Anything (_ : Timer F) (_ : Event F) : Prop := True

instance decidableAnything (t : Timer F) (e : Event F) : Decidable (Anything t e) := .isTrue trivial

/-- What another callback is held for stays as it is. -/
def OthersKept (t t' : Timer F) (id : Nat) : Prop :=
  t'.inc = t.inc ∧ ∀ n e, e.2.origin ≠ id →
    (Waits t' n e ↔ Waits t n e) ∧ (Runs t' n e ↔ Runs t n e) ∧
      t'.timerIdxs e.1 = t.timerIdxs e.1

section Cancels

variable [DecidableEq F]

/-- Whatever happens, the callback is not invoked any more. -/
def Silent (t : Timer F) (origin : Nat) : Prop :=
  ∀ t', Machine.Reach step Anything t t' → t'.firings origin = t.firings origin

/-- `unregister` returns, the callback is not invoked any more, and others are not affected. -/
def Cancels (t : Timer F) (id : Nat) : Prop :=
  ∃ t', t.unregister id = some t' ∧ OthersKept t t' id ∧ Silent t' id

end Cancels

/-- `unregister` raises for every id that is known. -/
theorem unregister_eq_some {t' : Timer F} {idx : Nat} :
    t.unregister idx = some t' ↔ t.timerIdxs idx = none ∧ t' = t := by
  unfold Timer.unregister
  cases found : t.timerIdxs idx with
  | none => simp [eq_comm]
  | some due => simp [Timer.callbacksAt]

theorem firings_visit_le {t₁ : Timer F} {n : Nat} {rest : List (Entry F)}
    (kept : t₁.firings origin = t.firings origin) :
    (t.firings origin).length ≤ ((t₁.visit n rest).firings origin).length := by
  rw [← kept]
  cases rest with
  | nil => exact Nat.le_refl _
  | cons e rest =>
      by_cases same : e.2.origin = origin
      · rw [firings_visit_same same, List.length_append]
        exact Nat.le_add_right _ _
      · exact Nat.le_of_eq (by rw [firings_visit_other same])

/-- Invocations are only added. -/
theorem Does.firings_le {t' : Timer F} {ev : Event F} (does : Does t ev t') :
    (t.firings origin).length ≤ (t'.firings origin).length := by
  cases does with
  | begins => exact firings_visit_le rfl
  | ended => exact firings_visit_le rfl
  | renewed => exact firings_visit_le rfl
  | _ => exact Nat.le_refl _

/-- A loop leaves the buckets of later ticks alone. -/
theorem Waits.visit {n m : Nat} {e : Entry F} {rest : List (Entry F)} (waits : Waits t m e) :
    Waits (t.visit n rest) m e := by
  obtain ⟨later, bucket, due, member⟩ := waits
  cases rest with
  | nil => exact ⟨later, bucket, (Function.update_of_ne (Nat.ne_of_gt later) _ _).trans due, member⟩
  | cons => exact ⟨later, bucket, due, member⟩

section Runs

variable [DecidableEq F]

theorem sound_of_reach {t' : Timer F} (sound : Sound t)
    (reached : Machine.Reach step Anything t t') : Sound t' :=
  reached.invariant sound fun sound _ stepped => (step_does sound stepped).sound sound

/-- A callback that is not live is silent. -/
theorem silent_of_dead (sound : Sound t) (old : origin ≤ t.timerIdx) (dead : ¬ Live t origin) :
    Silent t origin := by
  intro t' reached
  have known : ¬ Live t' origin ∧ t'.firings origin = t.firings origin ∧ origin ≤ t'.timerIdx ∧
      Sound t' := by
    induction reached with
    | refl => exact ⟨dead, rfl, old, sound⟩
    | tail before _ stepped ih =>
        obtain ⟨dead, same, old, sound⟩ := ih
        have does := step_does sound stepped
        obtain ⟨dead', same'⟩ := does.dead sound old dead
        exact ⟨dead', same'.trans same, does.timerIdx old, does.sound sound⟩
  exact known.2.1

/-- A callback that is invoked in some run. -/
def Fires (t : Timer F) (origin : Nat) : Prop :=
  ∃ t', Machine.Reach step Anything t t' ∧ (t.firings origin).length < (t'.firings origin).length

theorem Fires.of_step {t' : Timer F} {ev : Event F} (sound : Sound t)
    (stepped : step t ev = some t') (fires : Fires t' origin) : Fires t origin := by
  obtain ⟨t₂, reached, more⟩ := fires
  refine ⟨t₂, (Machine.Reach.single (e := ev) trivial stepped).trans reached, ?_⟩
  exact Nat.lt_of_le_of_lt (step_does sound stepped).firings_le more

/-- The step itself invokes the callback. -/
theorem Fires.of_visit {t₁ : Timer F} {n : Nat} {e : Entry F} {rest : List (Entry F)} {ev : Event F}
    (stepped : step t ev = some (t₁.visit n (e :: rest))) (same : e.2.origin = origin)
    (kept : t₁.firings origin = t.firings origin) : Fires t origin := by
  refine ⟨_, .single (e := ev) trivial stepped, ?_⟩
  rw [firings_visit_same same, kept, List.length_append, List.length_singleton]
  exact Nat.lt_succ_self _

/-- What waits in a bucket is invoked when its tick comes. -/
theorem Waits.fires {n : Nat} {e : Entry F} (waits : Waits t n e) (sound : Sound t)
    (same : e.2.origin = origin) : Fires t origin := by
  obtain ⟨gap, rfl⟩ : ∃ gap, n = t.inc + 1 + gap := ⟨n - (t.inc + 1), by have := waits.1; omega⟩
  induction gap generalizing t with
  | zero =>
      obtain ⟨-, bucket, due, member⟩ := waits
      have perm : (e :: bucket.erase e).isPerm bucket = true :=
        List.isPerm_iff.mpr (List.perm_cons_erase member).symm
      have stepped : step t (.timeOut (e :: bucket.erase e)) =
          some ({ t with inc := t.inc + 1 }.visit (t.inc + 1) (e :: bucket.erase e)) := by
        simp only [step, Timer.onTimeOut]
        rw [show t.callbacks (t.inc + 1) = some bucket from due]
        simp only [perm, if_true]
      exact .of_visit stepped same rfl
  | succ gap ih =>
      obtain ⟨order, perm⟩ : ∃ order : List (Entry F),
          order.Perm ((t.callbacks (t.inc + 1)).getD []) := ⟨_, .refl _⟩
      obtain ⟨t₁, stepped, inc⟩ := begins_in_order t perm
      have does := step_does sound stepped
      have next : Waits t₁ (t₁.inc + 1 + gap) e := by
        have place : t.inc + 1 + (gap + 1) = t.inc + 1 + 1 + gap := by omega
        rw [place] at waits
        rw [inc]
        obtain ⟨-, bucket, due, member⟩ := waits
        have later : t.inc + 1 < t.inc + 1 + 1 + gap := by omega
        cases does with
        | idle => exact ⟨later, bucket, due, member⟩
        | begins => exact Waits.visit (t := t.next order) ⟨later, bucket, due, member⟩
      exact .of_step sound stepped (ih (does.sound sound) next)

/-- What is behind the head of a loop is invoked when the callbacks before it have returned. -/
theorem fires_of_loop {n : Nat} {h e : Entry F} {rest : List (Entry F)} (sound : Sound t)
    (loop : t.running n = some (h :: rest)) (member : e ∈ rest) (same : e.2.origin = origin) :
    Fires t origin := by
  induction rest generalizing t h with
  | nil => cases member
  | cons x rest ih =>
      obtain ⟨t₁, stepped, -, after⟩ := sound.returns loop
      have does := step_does sound stepped
      rcases List.mem_cons.mp member with rfl | member
      · cases does with
        | ended found =>
            rw [loop] at found
            cases found
            exact .of_visit stepped same rfl
        | renewed found =>
            rw [loop] at found
            cases found
            exact .of_visit stepped same rfl
      · exact .of_step sound stepped (ih (does.sound sound) after member)

/-- A callback that is live is invoked in some run. -/
theorem Live.fires (live : Live t origin) (sound : Sound t) : Fires t origin := by
  obtain ⟨n, e, held, same, renewed⟩ := live
  rcases held with waits | ⟨loop, running, member⟩
  · exact waits.fires sound same
  · cases loop with
    | nil => cases member
    | cons h rest =>
        rcases List.mem_cons.mp member with rfl | member
        · -- the callback runs, and waits again as soon as it returns
          have periodic := renewed ⟨rest, running⟩
          obtain ⟨t₁, stepped, -, -⟩ := sound.returns running
          have does := step_does sound stepped
          have sound₁ := does.sound sound
          refine .of_step sound stepped ?_
          cases does with
          | ended found once =>
              rw [periodic] at once
              cases once
          | @renewed _ sec _ rest' found once known pos =>
              rw [running] at found
              cases found
              have waits : Waits ((t.take n e rest).enlist sec e.2) (t.inc + sec)
                  (t.timerIdx + 1, e.2) := (waits_enlist pos).mpr (.inr ⟨rfl, rfl⟩)
              exact waits.visit.fires sound₁ same
        · exact fires_of_loop sound running member same

/-- **Cancelling.** After any history, `unregister` of an id that `register` or `registerOnce`
returned does what it should if and only if there is nothing to cancel: the id is forgotten, and the
callback is not held for another invocation. An id that is not known is ignored. -/
theorem cancels_iff (h : History (F := F) Anything) (r : { r // r ∈ h.1.registered }) :
    (Cancels h.1 r.1.id ↔ h.1.timerIdxs r.1.id = none ∧ ¬ Live h.1 r.1.id) ∧
      ∀ idx, h.1.timerIdxs idx = none → h.1.unregister idx = some h.1 := by
  have sound : Sound h.1 := sound_of_reach .init h.2
  refine ⟨⟨?_, ?_⟩, fun idx unknown => unregister_eq_some.mpr ⟨unknown, rfl⟩⟩
  · rintro ⟨t', returned, -, silent⟩
    obtain ⟨unknown, rfl⟩ := unregister_eq_some.mp returned
    refine ⟨unknown, fun live => ?_⟩
    obtain ⟨t', reached, more⟩ := live.fires sound
    rw [silent t' reached] at more
    exact Nat.lt_irrefl _ more
  · rintro ⟨unknown, dead⟩
    refine ⟨h.1, unregister_eq_some.mpr ⟨unknown, rfl⟩, ⟨rfl, fun n e _ => ⟨.rfl, .rfl, rfl⟩⟩, ?_⟩
    exact silent_of_dead sound (sound.ids r.1 r.2) dead

end Runs

/-- A callback that is called once, and has returned. -/
def calledOnce : List (Event Unit) :=
  [.registerOnce 1 () false, .timeOut [(1, ⟨(), false, 1⟩)], .returned 1]

theorem cancels_iff_calledOnce : ∃ h : History (F := Unit) Anything,
    h.1.registered = [⟨1, 0, 1, true⟩] ∧ Cancels h.1 1 := by
  obtain ⟨t, reached, last⟩ := Machine.exists_of_runs step Anything init calledOnce
    (fun t => (t.registered, t.timerIdx, t.timerIdxs 0, t.timerIdxs 1))
    (show _ = some ([⟨1, 0, 1, true⟩], 1, none, none) by decide)
  simp only [Prod.mk.injEq] at last
  obtain ⟨registered, idx, zero, one⟩ := last
  have dead : ¬ Live t 1 := by
    rintro ⟨n, e, held, -⟩
    have sound := sound_of_reach .init reached
    obtain ⟨sec, known, -⟩ := sound.known n e held
    have small := sound.fresh _ _ known
    rw [idx] at small
    rcases Nat.le_one_iff_eq_zero_or_eq_one.mp small with first | second
    · rw [first, zero] at known
      cases known
    · rw [second, one] at known
      cases known
  have member : (⟨1, 0, 1, true⟩ : Registration) ∈ t.registered := by
    rw [registered]
    exact List.mem_singleton_self _
  refine ⟨⟨t, reached⟩, registered, ?_⟩
  exact (cancels_iff ⟨t, reached⟩ ⟨_, member⟩).1.mpr ⟨one, dead⟩

/-- The id of a callback that was just registered cannot be cancelled. -/
theorem fresh_not_cancelled : ¬ ∀ (h : History (F := Unit) Anything)
    (r : { r // r ∈ h.1.registered }), Cancels h.1 r.1.id := by
  intro cancels
  have stepped : step init (.register 1 () false) =
      some ((init : Timer Unit).enroll false 1 () false) :=
    rfl
  have reached : Machine.Reach step Anything init ((init : Timer Unit).enroll false 1 () false) :=
    .single trivial stepped
  obtain ⟨t', returned, -⟩ := cancels ⟨_, reached⟩ ⟨⟨1, 0, 1, false⟩, List.mem_singleton.mpr rfl⟩
  cases returned

end RillServer.Wheel
