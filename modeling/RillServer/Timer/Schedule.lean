import RillServer.Timer.Records

/-!
# The schedule of a timer

A callback that was registered when `inc` was `t` is due at the ticks `t + sec`, `t + 2 * sec` and
so on, one that was registered by `registerOnce` only at the first of them. As long as all
registrations are of one kind and no callback raises, every callback is invoked at exactly these
ticks (`OnTime`): it waits in the bucket of the next of them, or it is in the loop of the current
tick.

Here callbacks do not suspend the loop, so a tick begins when the loop of the last one has ended.
-/

namespace RillServer.Wheel

variable {F : Type}

/-- The ticks at which a callback was invoked. -/
def Timer.firings (t : Timer F) (origin : Nat) : List Nat :=
  (t.invoked.filter fun p => p.2 = origin).map Prod.fst

/-- The first `k` ticks at which a registration is due. -/
def Registration.beats (r : Registration) (k : Nat) : List Nat :=
  (List.range k).map fun j => r.time + (j + 1) * r.sec

/-- The ticks up to `inc` at which a registration is due: every `sec` ticks, or once. -/
def Registration.schedule (r : Registration) (inc : Nat) : List Nat :=
  let periods := (inc - r.time) / r.sec
  r.beats (if r.once then min 1 periods else periods)

/-- Every callback was invoked once at every tick at which it was due, and at no other tick. -/
def Timer.OnSchedule (t : Timer F) : Prop :=
  ∀ r ∈ t.registered, t.firings r.id = r.schedule t.inc

/-- The loop of the last tick has ended. -/
def Timer.Idle (t : Timer F) : Prop := t.running t.inc = none

instance Timer.decidableIdle (t : Timer F) : Decidable t.Idle :=
  decidable_of_iff ((t.running t.inc).isNone = true) Option.isNone_iff_eq_none

/-- Ticks, with callbacks that return and register nothing. -/
def Ticking (t : Timer F) : Event F → Prop
  | .timeOut _ => t.Idle
  | .returned _ => True
  | _ => False

/-- Calls of `register` at any time, also in callbacks; the callbacks return. -/
def Periodic (t : Timer F) : Event F → Prop
  | .register sec _ _ => 0 < sec
  | e => Ticking t e

/-- Calls of `register` and `registerOnce` at any time; the callbacks return. -/
def Mixing (t : Timer F) : Event F → Prop
  | .registerOnce sec _ _ => 0 < sec
  | e => Periodic t e

/-- Calls of `register` at any time; the callbacks return or raise. -/
def Raising (t : Timer F) : Event F → Prop
  | .raise _ => True
  | e => Periodic t e

instance decidableTicking (t : Timer F) : ∀ e, Decidable (Ticking t e)
  | .timeOut _ => inferInstanceAs (Decidable t.Idle)
  | .returned _ => .isTrue trivial
  | .register .. | .registerOnce .. | .unregister .. | .raise .. => .isFalse id

instance decidablePeriodic (t : Timer F) : ∀ e, Decidable (Periodic t e)
  | .register sec _ _ => inferInstanceAs (Decidable (0 < sec))
  | .timeOut order => decidableTicking t (.timeOut order)
  | .returned _ => .isTrue trivial
  | .registerOnce .. | .unregister .. | .raise .. => .isFalse id

instance decidableMixing (t : Timer F) : ∀ e, Decidable (Mixing t e)
  | .registerOnce sec _ _ => inferInstanceAs (Decidable (0 < sec))
  | .register sec func loop => decidablePeriodic t (.register sec func loop)
  | .timeOut order => decidablePeriodic t (.timeOut order)
  | .returned _ => .isTrue trivial
  | .unregister .. | .raise .. => .isFalse id

instance decidableRaising (t : Timer F) : ∀ e, Decidable (Raising t e)
  | .raise _ | .returned _ => .isTrue trivial
  | .register sec func loop => decidablePeriodic t (.register sec func loop)
  | .timeOut order => decidablePeriodic t (.timeOut order)
  | .registerOnce .. | .unregister .. => .isFalse id

/-- What a timer object can have come to by events of some kind. -/
abbrev History [DecidableEq F] (guard : Timer F → Event F → Prop) :=
  { t : Timer F // Machine.Reach step guard init t }

/-- A history comes from a list of events, and what is recorded in it are those. -/
theorem History.recorded [DecidableEq F] {guard : Timer F → Event F → Prop}
    [∀ t e, Decidable (guard t e)] (h : History guard) :
    ∃ es, Machine.runs step (fun t e => decide (guard t e)) init es = some h.1 ∧
      Recorded es h.1 := by
  obtain ⟨es, ran⟩ : ∃ es, Machine.runs step (fun t e => decide (guard t e)) init es = some h.1 :=
    h.2.exists_runs decide_eq_true
  exact ⟨es, ran, recorded_of_runs ran⟩

/-- Whatever the number of ticks that follow, every callback is invoked when it is due. -/
def Timer.StaysOnSchedule [DecidableEq F] (t : Timer F) : Prop :=
  ∀ t', Machine.Reach step Ticking t t' → t'.Idle → t'.OnSchedule

/-! ## Where a registration stands -/

theorem beats_succ (r : Registration) (k : Nat) :
    r.beats (k + 1) = r.beats k ++ [r.time + (k + 1) * r.sec] := by
  simp [Registration.beats, List.range_succ]

/-- Of a registration `k` firings are over, and the callback waits for the next, in a bucket or in
the part `loop` of the current loop, or is over. -/
inductive Ready (t : Timer F) (loop : List (Entry F)) (r : Registration) (k : Nat) : Prop
  | waiting {e : Entry F} : Waits t (r.time + (k + 1) * r.sec) e → e.2.origin = r.id →
    t.timerIdxs e.1 = some ⟨r.time + (k + 1) * r.sec, r.sec⟩ → r.time + k * r.sec ≤ t.inc →
    (r.once = true → k = 0) → Ready t loop r k
  | pending {e : Entry F} : e ∈ loop → e.2.origin = r.id →
    t.timerIdxs e.1 = some ⟨t.inc, r.sec⟩ → t.inc = r.time + (k + 1) * r.sec →
    (r.once = true → k = 0) → Ready t loop r k
  | finished : r.once = true → (∀ n e, Held t n e → e.2.origin ≠ r.id) →
    r.time + r.sec ≤ t.inc → k = 1 → Ready t loop r k

/-- Where a registration with `k` firings stands. -/
inductive Stage (t : Timer F) (r : Registration) (k : Nat) : Prop
  | idle : t.Idle → Ready t [] r k → Stage t r k
  | behind {e : Entry F} {rest : List (Entry F)} : t.running t.inc = some (e :: rest) →
    Ready t rest r k → Stage t r k
  | calling {e : Entry F} {rest : List (Entry F)} : t.running t.inc = some (e :: rest) →
    e.2.origin = r.id → t.timerIdxs e.1 = some ⟨t.inc, r.sec⟩ → t.inc = r.time + k * r.sec →
    (r.once = true → k = 1) → Stage t r k

def OnTime (t : Timer F) (r : Registration) : Prop :=
  ∃ k, t.firings r.id = r.beats k ∧ Stage t r k

variable {t : Timer F} {r : Registration} {k : Nat}

theorem firings_visit_same {n id : Nat} {e : Entry F} {rest : List (Entry F)}
    (same : e.2.origin = id) :
    (t.visit n (e :: rest)).firings id = t.firings id ++ [t.inc] := by
  simp [Timer.firings, Timer.visit, same]

theorem firings_visit_other {n id : Nat} {e : Entry F} {rest : List (Entry F)}
    (other : e.2.origin ≠ id) : (t.visit n (e :: rest)).firings id = t.firings id := by
  simp [Timer.firings, Timer.visit, other]

/-- The callback that runs is not one that is still to come. -/
theorem Ready.other {h : Entry F} {rest : List (Entry F)} (ready : Ready t rest r k)
    (sound : Sound t) (running : t.running t.inc = some (h :: rest)) : h.2.origin ≠ r.id := by
  have head : Held t t.inc h := .inr ⟨_, running, List.mem_cons_self⟩
  intro same
  cases ready with
  | @waiting e waits origin =>
      have equal := sound.single _ _ h e head (.inl waits) (same.trans origin.symm)
      rw [equal] at head
      have place := sound.place head (.inl waits)
      have later := waits.1
      omega
  | @pending e member origin =>
      have equal := sound.single _ _ h e head
        (.inr ⟨_, running, List.mem_cons_of_mem _ member⟩) (same.trans origin.symm)
      rw [← equal] at member
      exact (List.nodup_cons.mp (sound.loops _ _ running)).1 member
  | finished once gone => exact gone _ h head same

/-- The loop of the current tick calls its next callback. -/
theorem Ready.visit {loop : List (Entry F)} (ready : Ready t loop r k) (sound : Sound t)
    (running : t.running t.inc = some loop) (fired : t.firings r.id = r.beats k) :
    OnTime (t.visit t.inc loop) r := by
  cases loop with
  | nil =>
      refine ⟨k, fired, .idle (Function.update_self ..) ?_⟩
      cases ready with
      | @waiting e waits origin known early single =>
          refine .waiting (e := e) ⟨waits.1, ?_⟩ origin known early single
          obtain ⟨later, bucket, found, member⟩ := waits
          exact ⟨bucket, (Function.update_of_ne (Nat.ne_of_gt later) _ _).trans found, member⟩
      | pending member => cases member
      | finished once gone late one =>
          exact .finished once (fun n e held => gone n e ((held_visit running).mp held)) late one
  | cons h rest =>
      have loops : (t.visit t.inc (h :: rest)).running t.inc = some (h :: rest) :=
        Function.update_self ..
      -- a registration that stays behind the callback that is called now
      have stays : Ready t rest r k → OnTime (t.visit t.inc (h :: rest)) r := by
        intro ready
        refine ⟨k, (firings_visit_other (ready.other sound running)).trans fired, .behind loops ?_⟩
        cases ready with
        | waiting waits origin known early single =>
            exact .waiting waits origin known early single
        | pending member origin known now single =>
            exact .pending member origin known now single
        | finished once gone late one =>
            exact .finished once (fun n e held => gone n e ((held_visit running).mp held)) late one
      cases ready with
      | waiting waits origin known early single =>
          exact stays (.waiting waits origin known early single)
      | @pending e member origin known now single =>
          rcases List.mem_cons.mp member with rfl | member
          · refine ⟨k + 1, ?_, .calling loops origin known now ?_⟩
            · rw [firings_visit_same origin, fired, beats_succ, ← now]
            · intro once
              rw [single once]
          · exact stays (.pending member origin known now single)
      | finished once gone late one => exact stays (.finished once gone late one)

/-- A callback that was registered for the first time, or once more. -/
theorem Waits.enlist {sec n : Nat} {cb : Callback F} {e : Entry F} (waits : Waits t n e)
    (pos : 0 < sec) : Waits (t.enlist sec cb) n e :=
  (waits_enlist pos).mpr (.inl waits)

/-- The stage of a callback does not change when another one is registered. -/
theorem Ready.enlist {sec : Nat} {cb : Callback F} {loop : List (Entry F)}
    (ready : Ready t loop r k) (sound : Sound t) (pos : 0 < sec) (other : cb.origin ≠ r.id) :
    Ready (t.enlist sec cb) loop r k := by
  have known : ∀ {idx due}, t.timerIdxs idx = some due →
      (t.enlist sec cb).timerIdxs idx = some due := by
    intro idx due found
    have old := sound.fresh idx due found
    have ne : idx ≠ t.timerIdx + 1 := by omega
    exact (Function.update_of_ne ne _ _).trans found
  cases ready with
  | waiting waits origin found early single =>
      exact .waiting (waits.enlist pos) origin (known found) early single
  | pending member origin found now single =>
      exact .pending member origin (known found) now single
  | finished once gone late one =>
      refine .finished once ?_ late one
      intro n e held
      rcases (held_enlist pos).mp held with earlier | ⟨-, rfl⟩
      · exact gone n e earlier
      · exact other

theorem Stage.enlist {sec : Nat} (stage : Stage t r k) (sound : Sound t) (cb : Callback F)
    (pos : 0 < sec) (other : cb.origin ≠ r.id) : Stage (t.enlist sec cb) r k := by
  cases stage with
  | idle idle ready => exact .idle idle (ready.enlist sound pos other)
  | behind running ready => exact .behind running (ready.enlist sound pos other)
  | @calling e rest running origin found now single =>
      refine .calling running origin ?_ now single
      have old := sound.fresh _ _ found
      have ne : e.1 ≠ t.timerIdx + 1 := by omega
      exact (Function.update_of_ne ne _ _).trans found

/-- A stage is a matter of the clock, the buckets, the ids and the loops. -/
theorem Stage.frame {t' : Timer F} (stage : Stage t r k) (inc : t'.inc = t.inc)
    (callbacks : t'.callbacks = t.callbacks) (idxs : t'.timerIdxs = t.timerIdxs)
    (running : t'.running = t.running) : Stage t' r k := by
  have waits : ∀ n e, Waits t' n e ↔ Waits t n e := by
    intro n e
    rw [Waits, Waits, inc, callbacks]
  have runs : ∀ n e, Runs t' n e ↔ Runs t n e := by
    intro n e
    rw [Runs, Runs, running]
  have ready : ∀ {loop}, Ready t loop r k → Ready t' loop r k := by
    intro loop ready
    cases ready with
    | waiting waiting origin known early single =>
        exact .waiting ((waits _ _).mpr waiting) origin (idxs ▸ known) (inc ▸ early) single
    | pending member origin known now single =>
        exact .pending member origin (inc ▸ idxs ▸ known) (inc ▸ now) single
    | finished once gone late one =>
        refine .finished once ?_ (inc ▸ late) one
        exact fun n e held => gone n e (held.imp (waits n e).mp (runs n e).mp)
  cases stage with
  | idle idle before =>
      refine .idle ?_ (ready before)
      rw [Timer.Idle, inc, running]
      exact idle
  | behind found before =>
      rw [← inc, ← running] at found
      exact .behind found (ready before)
  | calling found origin known now single =>
      rw [← inc, ← running] at found
      rw [← inc, ← idxs] at known
      exact .calling found origin known (inc ▸ now) single

/-! ## Runs -/

/-- What holds of every timer whose callbacks do not suspend. -/
structure Steady (t : Timer F) : Prop where
  sound : Sound t
  current : ∀ n loop, t.running n = some loop → n = t.inc ∧ loop ≠ []
  times : ∀ r ∈ t.registered, r.time ≤ t.inc ∧ 0 < r.sec
  once : t.once = true ↔ ∃ r ∈ t.registered, r.once = true
  enrolled : ∀ n e, Held t n e → ∃ r ∈ t.registered, r.id = e.2.origin

theorem Steady.init : Steady (init : Timer F) where
  sound := .init
  current := nofun
  times := nofun
  once := by simp [Wheel.init]
  enrolled _ _ held := (not_held_init held).elim

/-- After the head of the loop the only loop is that of the current tick, and it is not empty. -/
theorem current_visit {rest : List (Entry F)}
    (only : ∀ m loop, t.running m = some loop → m = t.inc) :
    ∀ m loop, (t.visit t.inc rest).running m = some loop → m = (t.visit t.inc rest).inc ∧
      loop ≠ [] := by
  intro m loop found
  cases rest with
  | nil =>
      rcases Coroutine.update_eq_some found with ⟨-, same⟩ | ⟨other, earlier⟩
      · cases same
      · exact (other (only m loop earlier)).elim
  | cons e rest =>
      rcases Coroutine.update_eq_some found with ⟨here, same⟩ | ⟨other, earlier⟩
      · cases same
        exact ⟨here, List.cons_ne_nil _ _⟩
      · exact (other (only m loop earlier)).elim

theorem inc_visit (t : Timer F) (n : Nat) (rest : List (Entry F)) :
    (t.visit n rest).inc = t.inc := by
  cases rest <;> rfl

theorem once_visit (t : Timer F) (n : Nat) (rest : List (Entry F)) :
    (t.visit n rest).once = t.once := by
  cases rest <;> rfl

theorem registered_visit (t : Timer F) (n : Nat) (rest : List (Entry F)) :
    (t.visit n rest).registered = t.registered := by
  cases rest <;> rfl

/-- Without a new registration only what is held and the loops can change for the worse. -/
theorem Steady.of_held {t' : Timer F} (steady : Steady t) (sound : Sound t')
    (current : ∀ n loop, t'.running n = some loop → n = t'.inc ∧ loop ≠ [])
    (inc : t.inc ≤ t'.inc) (registered : t'.registered = t.registered) (once : t'.once = t.once)
    (held : ∀ n e, Held t' n e → ∃ m x, Held t m x ∧ x.2.origin = e.2.origin) : Steady t' where
  sound := sound
  current := current
  times r member := by
    rw [registered] at member
    obtain ⟨early, pos⟩ := steady.times r member
    exact ⟨Nat.le_trans early inc, pos⟩
  once := by
    rw [once, registered]
    exact steady.once
  enrolled n e now := by
    obtain ⟨m, x, before, same⟩ := held n e now
    rw [registered, ← same]
    exact steady.enrolled m x before

theorem Steady.enroll {sec : Nat} (steady : Steady t) (once : Bool) (func : F) (loop : Bool)
    (pos : 0 < sec) : Steady { t.enroll once sec func loop with once := t.once || once } where
  sound := { steady.sound.enroll pos with }
  current := steady.current
  times r member := by
    rcases List.mem_append.mp member with earlier | new
    · exact steady.times r earlier
    · cases List.mem_singleton.mp new
      exact ⟨Nat.le_refl _, pos⟩
  once := by
    simp only [Timer.enroll, List.mem_append, List.mem_singleton, Bool.or_eq_true, steady.once]
    constructor
    · rintro (⟨r, member, set⟩ | set)
      · exact ⟨r, .inl member, set⟩
      · exact ⟨_, .inr rfl, set⟩
    · rintro ⟨r, member | rfl, set⟩
      · exact .inl ⟨r, member, set⟩
      · exact .inr set
  enrolled n e held := by
    have held : Held (t.enlist sec ⟨func, loop, t.timerIdx + 1⟩) n e := held
    rcases (held_enlist pos).mp held with earlier | ⟨-, rfl⟩
    · obtain ⟨r, member, same⟩ := steady.enrolled n e earlier
      exact ⟨r, List.mem_append_left _ member, same⟩
    · exact ⟨_, List.mem_append_right _ List.mem_cons_self, rfl⟩

/-- The loop that goes on is that of the current tick. -/
theorem Steady.current_take {rest loop : List (Entry F)} {e : Entry F} {m : Nat} (steady : Steady t)
    (found : (t.take t.inc e rest).running m = some loop) : m = t.inc := by
  rcases Coroutine.update_eq_some found with ⟨here, -⟩ | ⟨-, earlier⟩
  · exact here
  · exact (steady.current m loop earlier).1

/-- A step keeps a timer steady, if a tick begins only when the last loop has ended. -/
theorem Does.steady {t' : Timer F} {e : Event F} (does : Does t e t') (steady : Steady t)
    (idle : ∀ order, e = .timeOut order → t.Idle) : Steady t' := by
  have sound' := does.sound steady.sound
  have sound := steady.sound
  cases does with
  | @registered sec func loop pos =>
      have enrolled := steady.enroll false func loop pos
      rw [Bool.or_false] at enrolled
      exact enrolled
  | @registeredOnce sec func loop pos =>
      have enrolled := steady.enroll true func loop pos
      rw [Bool.or_true] at enrolled
      exact enrolled
  | refused => exact steady
  | refusedOnce => exact steady
  | unregister => exact steady
  | idle none =>
      refine steady.of_held sound' ?_ (Nat.le_succ _) rfl rfl ?_
      · intro n loop found
        obtain ⟨rfl, -⟩ := steady.current n loop found
        rw [idle _ rfl] at found
        cases found
      · exact fun n e held => ⟨n, e, ((sound.idle none).1 n e).mp held, rfl⟩
  | @begins bucket order due perm =>
      refine steady.of_held sound' (current_visit (t := t.next order) ?_) ?_ (registered_visit ..)
        (once_visit ..) ?_
      · intro n loop found
        rcases Coroutine.update_eq_some found with ⟨here, -⟩ | ⟨-, earlier⟩
        · exact here
        · obtain ⟨rfl, -⟩ := steady.current n loop earlier
          rw [idle _ rfl] at earlier
          cases earlier
      · rw [inc_visit]
        exact Nat.le_succ _
      · intro n e held
        have next := (held_visit (Function.update_self ..)).mp held
        exact ⟨n, e, (sound.held_next due perm).mp next, rfl⟩
  | @ended n e rest loop once =>
      obtain ⟨rfl, -⟩ := steady.current n _ loop
      refine steady.of_held sound' (current_visit (t := t.take t.inc e rest) ?_) ?_
        (registered_visit ..) (once_visit ..) ?_
      · exact fun _ _ found => steady.current_take found
      · rw [inc_visit]
        exact Nat.le_refl _
      · intro m x held
        have taken := (held_visit (Function.update_self ..)).mp held
        exact ⟨m, x, ((sound.held_take loop).mp taken).1, rfl⟩
  | @renewed n sec e rest loop once known pos =>
      obtain ⟨rfl, -⟩ := steady.current n _ loop
      refine steady.of_held sound'
        (current_visit (t := (t.take t.inc e rest).enlist sec e.2) ?_) ?_
        (registered_visit ..) (once_visit ..) ?_
      · exact fun _ _ found => steady.current_take (e := e) found
      · rw [inc_visit]
        exact Nat.le_refl _
      · intro m x held
        have taken := (held_visit (Function.update_self ..)).mp held
        rcases (held_enlist pos).mp taken with earlier | ⟨-, rfl⟩
        · exact ⟨m, x, ((sound.held_take loop).mp earlier).1, rfl⟩
        · exact ⟨t.inc, e, .inr ⟨_, loop, List.mem_cons_self⟩, rfl⟩
  | @raised n e rest loop =>
      refine steady.of_held sound' ?_ (Nat.le_refl _) rfl rfl ?_
      · intro m loop' found
        rcases Coroutine.update_eq_some found with ⟨-, same⟩ | ⟨-, earlier⟩
        · cases same
        · exact steady.current m loop' earlier
      · exact fun m x held => ⟨m, x, (sound.stop n).1 m x held, rfl⟩

/-- The bucket of the next tick becomes its loop. -/
theorem Ready.next {bucket order : List (Entry F)} (ready : Ready t [] r k) (sound : Sound t)
    (due : t.callbacks (t.inc + 1) = some bucket) (perm : order.Perm bucket) :
    Ready (t.next order) order r k := by
  cases ready with
  | @waiting e waits origin known early single =>
      obtain ⟨later, bucket', found, member⟩ := waits
      by_cases here : r.time + (k + 1) * r.sec = t.inc + 1
      · rw [here, due] at found
        cases found
        rw [here] at known
        exact .pending (perm.mem_iff.mpr member) origin known here.symm single
      · refine .waiting ⟨?_, bucket', found, member⟩ origin known (Nat.le_succ_of_le early) single
        change t.inc + 1 < _
        omega
  | pending member => cases member
  | finished once gone late one =>
      refine .finished once ?_ (Nat.le_succ_of_le late) one
      exact fun n e held => gone n e ((sound.held_next due perm).mp held)

/-- The callback of another registration has returned. -/
theorem Ready.take {e : Entry F} {rest : List (Entry F)} (ready : Ready t rest r k)
    (sound : Sound t) (loop : t.running t.inc = some (e :: rest)) :
    Ready (t.take t.inc e rest) rest r k := by
  have other := ready.other sound loop
  have head : Held t t.inc e := .inr ⟨_, loop, List.mem_cons_self⟩
  have known : ∀ {n x due}, Held t n x → x.2.origin = r.id → t.timerIdxs x.1 = some due →
      (t.take t.inc e rest).timerIdxs x.1 = some due := by
    intro n x due held origin found
    refine (Function.update_of_ne ?_ _ _).trans found
    intro same
    rw [sound.keyed n t.inc x e held head same] at origin
    exact other origin
  cases ready with
  | waiting waits origin found early single =>
      exact .waiting waits origin (known (.inl waits) origin found) early single
  | pending member origin found now single =>
      refine .pending member origin (known (.inr ⟨_, loop, ?_⟩) origin found) now single
      exact List.mem_cons_of_mem _ member
  | finished once gone late one =>
      exact .finished once (fun n x held => gone n x ((sound.held_take loop).mp held).1) late one

/-- A callback that is registered for the first time is on time. -/
theorem OnTime.enrolled {sec : Nat} (steady : Steady t) (once flag : Bool) (func : F) (loop : Bool)
    (pos : 0 < sec) :
    OnTime { t.enroll once sec func loop with once := flag } ⟨t.timerIdx + 1, t.inc, sec, once⟩ := by
  have ready : ∀ rest, Ready (t.enlist sec ⟨func, loop, t.timerIdx + 1⟩) rest
      ⟨t.timerIdx + 1, t.inc, sec, once⟩ 0 := by
    intro rest
    have waits : Waits (t.enlist sec ⟨func, loop, t.timerIdx + 1⟩) (t.inc + (0 + 1) * sec)
        (t.timerIdx + 1, ⟨func, loop, t.timerIdx + 1⟩) := by
      rw [Nat.zero_add, Nat.one_mul]
      exact (waits_enlist pos).mpr (.inr ⟨rfl, rfl⟩)
    refine .waiting waits rfl ?_ ?_ (fun _ => rfl)
    · rw [Nat.zero_add, Nat.one_mul]
      exact Function.update_self ..
    · rw [Nat.zero_mul]
      exact Nat.le_refl _
  refine ⟨0, ?_, Stage.frame (t := t.enlist sec ⟨func, loop, t.timerIdx + 1⟩) ?_ rfl rfl rfl rfl⟩
  · have none : ∀ p ∈ t.invoked, ¬ p.2 = t.timerIdx + 1 := by
      intro p member same
      have old := steady.sound.calls p member
      omega
    have empty : t.invoked.filter (fun p => p.2 = t.timerIdx + 1) = [] := by
      simpa [List.filter_eq_nil_iff] using none
    simp only [Timer.firings, Timer.enroll, Timer.enlist, empty]
    rfl
  · cases running : t.running t.inc with
    | none => exact .idle running (ready [])
    | some rest =>
        cases rest with
        | nil => exact ((steady.current _ _ running).2 rfl).elim
        | cons e rest => exact .behind running (ready rest)

theorem OnTime.enroll {sec : Nat} (onTime : OnTime t r) (steady : Steady t)
    (member : r ∈ t.registered) (once flag : Bool) (func : F) (loop : Bool) (pos : 0 < sec) :
    OnTime { t.enroll once sec func loop with once := flag } r := by
  obtain ⟨k, fired, stage⟩ := onTime
  have other : t.timerIdx + 1 ≠ r.id := by
    have old := steady.sound.ids r member
    omega
  have listed := stage.enlist steady.sound ⟨func, loop, t.timerIdx + 1⟩ pos other
  exact ⟨k, fired, listed.frame rfl rfl rfl rfl⟩

/-- The callback of a loop has returned and is not registered again. -/
theorem OnTime.ended {e : Entry F} {rest : List (Entry F)} (onTime : OnTime t r)
    (steady : Steady t) (loop : t.running t.inc = some (e :: rest)) (once : r.once = true) :
    OnTime ((t.take t.inc e rest).visit t.inc rest) r := by
  obtain ⟨k, fired, stage⟩ := onTime
  have sound := steady.sound
  suffices ready : Ready (t.take t.inc e rest) rest r k from
    ready.visit (sound.take loop) (Function.update_self ..) fired
  cases stage with
  | idle idle =>
      rw [idle] at loop
      cases loop
  | behind running ready =>
      rw [running] at loop
      cases loop
      exact ready.take sound running
  | calling running origin known now single =>
      rw [running] at loop
      cases loop
      refine .finished once ?_ ?_ (single once)
      · intro n x held same
        obtain ⟨held, other⟩ := (sound.held_take running).mp held
        refine other (sound.single n t.inc x e held ?_ (same.trans origin.symm))
        exact .inr ⟨_, running, List.mem_cons_self⟩
      · rw [single once, Nat.one_mul] at now
        exact Nat.le_of_eq now.symm

/-- The callback of a loop has returned and is registered again. -/
theorem OnTime.renewed {sec : Nat} {e : Entry F} {rest : List (Entry F)} (onTime : OnTime t r)
    (steady : Steady t) (loop : t.running t.inc = some (e :: rest))
    (due : t.timerIdxs e.1 = some ⟨t.inc, sec⟩) (pos : 0 < sec) (once : r.once = false) :
    OnTime (((t.take t.inc e rest).enlist sec e.2).visit t.inc rest) r := by
  obtain ⟨k, fired, stage⟩ := onTime
  have taken := steady.sound.take loop
  have origins : e.2.origin ≤ t.timerIdx :=
    steady.sound.origins t.inc e (.inr ⟨_, loop, List.mem_cons_self⟩)
  have listed : Sound ((t.take t.inc e rest).enlist sec e.2) := by
    refine taken.enlist pos ?_ (Nat.le_succ_of_le origins)
    intro m x held same
    obtain ⟨held, other⟩ := (steady.sound.held_take loop).mp held
    exact other (steady.sound.single m t.inc x e held (.inr ⟨_, loop, List.mem_cons_self⟩) same)
  suffices ready : Ready ((t.take t.inc e rest).enlist sec e.2) rest r k from
    ready.visit listed (Function.update_self ..) fired
  cases stage with
  | idle idle =>
      rw [idle] at loop
      cases loop
  | behind running ready =>
      rw [running] at loop
      cases loop
      exact (ready.take steady.sound running).enlist taken pos (ready.other steady.sound running)
  | calling running origin known now single =>
      rw [running] at loop
      cases loop
      rw [known] at due
      cases due
      have next : r.time + (k + 1) * r.sec = t.inc + r.sec := by
        rw [now, Nat.succ_mul, Nat.add_assoc]
      refine .waiting (e := (t.timerIdx + 1, e.2)) ?_ origin ?_ (Nat.le_of_eq now.symm) ?_
      · rw [next]
        exact (waits_enlist pos).mpr (.inr ⟨rfl, rfl⟩)
      · rw [next]
        exact Function.update_self ..
      · rw [once]
        nofun

/-- A step keeps the registrations on time, where all are of one kind. -/
theorem Does.onTime {t' : Timer F} {e : Event F} (does : Does t e t') (steady : Steady t)
    (good : Mixing t e) (uniform : ∀ r ∈ t.registered, r.once = t.once)
    (before : ∀ r ∈ t.registered, OnTime t r) : ∀ r ∈ t'.registered, OnTime t' r := by
  intro r member
  cases does with
  | @registered sec func loop pos =>
      rcases List.mem_append.mp member with earlier | new
      · exact (before r earlier).enroll steady earlier false t.once func loop pos
      · cases List.mem_singleton.mp new
        exact .enrolled steady false t.once func loop pos
  | @registeredOnce sec func loop pos =>
      rcases List.mem_append.mp member with earlier | new
      · exact (before r earlier).enroll steady earlier true true func loop pos
      · cases List.mem_singleton.mp new
        exact .enrolled steady true true func loop pos
  | refused => exact (Nat.lt_irrefl 0 good).elim
  | refusedOnce => exact (Nat.lt_irrefl 0 good).elim
  | unregister => exact good.elim
  | idle none =>
      obtain ⟨k, fired, stage⟩ := before r member
      have rests : t.Idle := good
      have later : t.running (t.inc + 1) = Option.none := by
        cases found : t.running (t.inc + 1) with
        | none => rfl
        | some loop =>
            have now := (steady.current _ loop found).1
            omega
      refine ⟨k, fired, .idle later ?_⟩
      cases stage with
      | idle _ ready =>
          cases ready with
          | @waiting e waits origin known early single =>
              have same := ((steady.sound.idle none).1 _ e).mpr (.inl waits)
              rcases same with waits' | ⟨loop, found, -⟩
              · exact .waiting waits' origin known (Nat.le_succ_of_le early) single
              · have now := (steady.current _ loop found).1
                have ahead := waits.1
                omega
          | pending member => cases member
          | finished once gone late one =>
              refine .finished once ?_ (Nat.le_succ_of_le late) one
              exact fun n e held => gone n e (((steady.sound.idle none).1 n e).mp held)
      | behind running =>
          rw [rests] at running
          cases running
      | calling running =>
          rw [rests] at running
          cases running
  | @begins bucket order due perm =>
      rw [registered_visit] at member
      obtain ⟨k, fired, stage⟩ := before r member
      have rests : t.Idle := good
      cases stage with
      | idle _ ready =>
          exact (ready.next steady.sound due perm).visit (steady.sound.next due perm)
            (Function.update_self ..) fired
      | behind running =>
          rw [rests] at running
          cases running
      | calling running =>
          rw [rests] at running
          cases running
  | @ended n e rest loop once =>
      rw [registered_visit] at member
      obtain ⟨rfl, -⟩ := steady.current n _ loop
      exact (before r member).ended steady loop ((uniform r member).trans once)
  | @renewed n sec e rest loop once known pos =>
      rw [registered_visit] at member
      obtain ⟨rfl, -⟩ := steady.current n _ loop
      exact (before r member).renewed steady loop known pos ((uniform r member).trans once)
  | raised => exact good.elim

/-- Registrations that are all of one kind were so before. -/
theorem Does.uniform {t' : Timer F} {e : Event F} (does : Does t e t') (steady : Steady t)
    (uniform : ∀ r ∈ t'.registered, r.once = t'.once) : ∀ r ∈ t.registered, r.once = t.once := by
  intro r member
  cases does with
  | registered pos => exact uniform r (List.mem_append_left _ member)
  | registeredOnce pos =>
      have once : r.once = true := uniform r (List.mem_append_left _ member)
      exact once.trans (steady.once.mpr ⟨r, member, once⟩).symm
  | refused => exact uniform r member
  | refusedOnce => exact uniform r member
  | unregister => exact uniform r member
  | idle => exact uniform r member
  | begins =>
      rw [registered_visit, once_visit] at uniform
      exact uniform r member
  | ended =>
      rw [registered_visit, once_visit] at uniform
      exact uniform r member
  | renewed =>
      rw [registered_visit, once_visit] at uniform
      exact uniform r member
  | raised => exact uniform r member

/-- Where the next firing lies says how many there were. -/
theorem OnTime.schedule (onTime : OnTime t r) (idle : t.Idle) (time : r.time ≤ t.inc)
    (pos : 0 < r.sec) : t.firings r.id = r.schedule t.inc := by
  obtain ⟨k, fired, stage⟩ := onTime
  rw [fired, Registration.schedule]
  congr 1
  cases stage with
  | idle _ ready =>
      cases ready with
      | waiting waits origin known early single =>
          have later := waits.1
          have periods : (t.inc - r.time) / r.sec = k := by
            refine Nat.div_eq_of_lt_le ?_ ?_
            · omega
            · omega
          rw [periods]
          split
          · rename_i once
            rw [single once]
            rfl
          · rfl
      | pending member => cases member
      | finished once gone late one =>
          have passed : 1 ≤ (t.inc - r.time) / r.sec := by
            rw [Nat.le_div_iff_mul_le pos]
            omega
          rw [if_pos once, Nat.min_eq_left passed, one]
  | behind running =>
      rw [idle] at running
      cases running
  | calling running =>
      rw [idle] at running
      cases running

theorem Ticking.mixing {e : Event F} (ticking : Ticking t e) : Mixing t e := by
  cases e with
  | timeOut => exact ticking
  | returned => exact ticking
  | _ => exact ticking.elim

/-- Ticks register nothing. -/
theorem Does.ticking {t' : Timer F} {e : Event F} (does : Does t e t') (ticking : Ticking t e) :
    t'.registered = t.registered ∧ t'.once = t.once ∧ t'.raised = t.raised := by
  cases does with
  | idle => exact ⟨rfl, rfl, rfl⟩
  | @begins bucket order due perm =>
      cases order <;> exact ⟨rfl, rfl, rfl⟩
  | @ended n e rest loop once =>
      cases rest <;> exact ⟨rfl, rfl, rfl⟩
  | @renewed n sec e rest loop once known pos =>
      cases rest <;> exact ⟨rfl, rfl, rfl⟩
  | _ => exact ticking.elim

theorem Periodic.mixing {e : Event F} (periodic : Periodic t e) : Mixing t e := by
  cases e with
  | registerOnce => exact periodic.elim
  | _ => exact periodic

theorem Does.periodic {t' : Timer F} {e : Event F} (does : Does t e t') (periodic : Periodic t e)
    (before : t.once = false) : t'.once = false := by
  cases does with
  | registered => exact before
  | idle => exact before
  | @begins bucket order due perm => exact (once_visit ..).trans before
  | @ended n e rest loop once => exact (once_visit ..).trans before
  | @renewed n sec e rest loop once known pos => exact (once_visit ..).trans before
  | refused => exact before
  | _ => exact periodic.elim

theorem running_visit (t : Timer F) (n : Nat) (rest : List (Entry F)) :
    (t.visit n rest).running n = if rest = [] then none else some rest := by
  cases rest <;> simp [Timer.visit]

section Reached

variable [DecidableEq F]

theorem steady_of_reach {guard : Timer F → Event F → Prop} {start : Timer F} (steady : Steady start)
    (idle : ∀ t order, guard t (.timeOut order) → t.Idle)
    (reached : Machine.Reach step guard start t) : Steady t := by
  apply reached.invariant steady
  intro t t' e steady good stepped
  apply (step_does steady.sound stepped).steady steady
  rintro order rfl
  exact idle t order good

/-- The callback that runs may return, and the loop gets shorter. -/
theorem Sound.returns {n : Nat} {e : Entry F} {rest : List (Entry F)} (sound : Sound t)
    (loop : t.running n = some (e :: rest)) :
    ∃ t', step t (.returned n) = some t' ∧ t'.inc = t.inc ∧
      t'.running n = if rest = [] then none else some rest := by
  obtain ⟨sec, known, -⟩ := sound.known n e (.inr ⟨_, loop, List.mem_cons_self⟩)
  refine ⟨_, by simp only [step, Timer.returned, loop, known]; rfl, ?_, running_visit ..⟩
  rw [inc_visit]
  split <;> rfl

/-- Any order of the next bucket will do. -/
theorem begins_in_order (t : Timer F) {order : List (Entry F)}
    (perm : order.Perm ((t.callbacks (t.inc + 1)).getD [])) :
    ∃ t', step t (.timeOut order) = some t' ∧ t'.inc = t.inc + 1 := by
  cases due : t.callbacks (t.inc + 1) with
  | none => exact ⟨_, by simp only [step, Timer.onTimeOut, due]; rfl, rfl⟩
  | some bucket =>
      rw [due] at perm
      have perm : order.isPerm bucket = true := List.isPerm_iff.mpr perm
      refine ⟨_, by simp only [step, Timer.onTimeOut, due, perm, if_true]; rfl, ?_⟩
      rw [inc_visit]

/-- A loop under way comes to its end. -/
theorem Steady.settles (steady : Steady t) :
    ∃ t', Machine.Reach step Ticking t t' ∧ t'.Idle ∧ t'.inc = t.inc := by
  suffices ends : ∀ m (t : Timer F), Steady t →
      (∀ loop, t.running t.inc = some loop → loop.length ≤ m) →
      ∃ t', Machine.Reach step Ticking t t' ∧ t'.Idle ∧ t'.inc = t.inc by
    apply ends ((t.running t.inc).getD []).length t steady
    intro loop running
    rw [running]
    exact Nat.le_refl _
  intro m
  induction m with
  | zero =>
      intro t steady short
      refine ⟨t, .refl, ?_, rfl⟩
      cases running : t.running t.inc with
      | none => exact running
      | some loop =>
          have empty := List.eq_nil_of_length_eq_zero (Nat.le_zero.mp (short loop running))
          exact ((steady.current _ loop running).2 empty).elim
  | succ m ih =>
      intro t steady short
      cases running : t.running t.inc with
      | none => exact ⟨t, .refl, running, rfl⟩
      | some loop =>
          cases loop with
          | nil => exact ((steady.current _ _ running).2 rfl).elim
          | cons e rest =>
              obtain ⟨t₁, stepped, inc, after⟩ := steady.sound.returns running
              have length := short _ running
              rw [List.length_cons] at length
              have steady₁ : Steady t₁ := (step_does steady.sound stepped).steady steady nofun
              obtain ⟨t', ticks, idle, last⟩ := ih t₁ steady₁ (by
                intro loop found
                rw [inc, after] at found
                split at found
                · cases found
                · cases found
                  omega)
              have first : Machine.Reach step Ticking t t₁ :=
                .single (e := .returned t.inc) trivial stepped
              exact ⟨t', first.trans ticks, idle, last.trans inc⟩

/-- Any number of ticks may follow. -/
theorem Steady.ticks (steady : Steady t) (m : Nat) :
    ∃ t', Machine.Reach step Ticking t t' ∧ t'.Idle ∧ t'.inc = t.inc + m := by
  induction m with
  | zero => exact steady.settles
  | succ m ih =>
      obtain ⟨t₁, ticks, idle, inc⟩ := ih
      have steady₁ := steady_of_reach steady (fun _ _ idle => idle) ticks
      obtain ⟨t₂, stepped, inc₂⟩ := begins_in_order t₁ (.refl _)
      have ticks₂ : Machine.Reach step Ticking t t₂ :=
        .tail (e := .timeOut _) ticks idle stepped
      have steady₂ := steady_of_reach steady (fun _ _ idle => idle) ticks₂
      obtain ⟨t₃, last, idle₃, inc₃⟩ := steady₂.settles
      refine ⟨t₃, ticks₂.trans last, idle₃, ?_⟩
      rw [inc₃, inc₂, inc]
      rfl

theorem onTime_of_uniform (reached : Machine.Reach step Mixing init t)
    (uniform : ∀ r ∈ t.registered, r.once = t.once) : ∀ r ∈ t.registered, OnTime t r := by
  induction reached with
  | refl => nofun
  | tail before good stepped ih =>
      have steady := steady_of_reach .init (fun _ _ idle => idle) before
      have does := step_does steady.sound stepped
      have earlier := does.uniform steady uniform
      exact does.onTime steady good earlier (ih earlier)

/-- With registrations of one kind every callback is invoked exactly when it is due. -/
theorem onSchedule_of_uniform (reached : Machine.Reach step Mixing init t)
    (uniform : ∀ r ∈ t.registered, r.once = t.once) (idle : t.Idle) : t.OnSchedule := by
  intro r member
  have steady := steady_of_reach .init (fun _ _ idle => idle) reached
  obtain ⟨early, pos⟩ := steady.times r member
  exact (onTime_of_uniform reached uniform r member).schedule idle early pos

theorem ticking_keeps {start : Timer F} (steady : Steady start)
    (reached : Machine.Reach step Ticking start t) :
    t.registered = start.registered ∧ t.once = start.once ∧ t.raised = start.raised := by
  induction reached with
  | refl => exact ⟨rfl, rfl, rfl⟩
  | tail before good stepped ih =>
      have steady := steady_of_reach steady (fun _ _ idle => idle) before
      obtain ⟨registered, once, raised⟩ := (step_does steady.sound stepped).ticking good
      exact ⟨registered.trans ih.1, once.trans ih.2.1, raised.trans ih.2.2⟩

/-- A timer whose registrations are of one kind stays on schedule. -/
theorem staysOnSchedule_of_uniform (reached : Machine.Reach step Mixing init t)
    (uniform : ∀ r ∈ t.registered, r.once = t.once) : t.StaysOnSchedule := by
  intro t' ticks idle
  have steady := steady_of_reach .init (fun _ _ idle => idle) reached
  obtain ⟨registered, once, -⟩ := ticking_keeps steady ticks
  refine onSchedule_of_uniform (reached.trans (ticks.mono Ticking.mixing)) ?_ idle
  rw [registered, once]
  exact uniform

/-- Where all calls are of `register`, every callback is invoked exactly when it is due. -/
theorem staysOnSchedule_of_periodic (reached : Machine.Reach step Periodic init t) :
    t.StaysOnSchedule := by
  apply staysOnSchedule_of_uniform (reached.mono Periodic.mixing)
  have known : t.once = false ∧ Steady t := by
    refine reached.invariant (P := fun t => t.once = false ∧ Steady t) ⟨rfl, .init⟩ ?_
    rintro t t' e ⟨flag, steady⟩ good stepped
    have does := step_does steady.sound stepped
    refine ⟨does.periodic good flag, does.steady steady ?_⟩
    rintro order rfl
    exact good
  obtain ⟨flag, steady⟩ := known
  intro r member
  cases once : r.once with
  | false => exact flag.symm
  | true =>
      have set := steady.once.mpr ⟨r, member, once⟩
      rw [flag] at set
      cases set

/-- **Periodic timers.** After any run of ticks and calls of `register`, between ticks or in
callbacks, and whatever the order in which the callbacks of a tick are visited, the timer has a
registration for every call, every callback was invoked exactly once at each of the ticks `t + sec`,
`t + 2 * sec` and so on that have passed, and at no other, the next tick may visit its callbacks in
any order, and any number of ticks may follow. -/
theorem periodic_on_schedule {es : List (Event F)}
    (ran : Machine.runs step (fun t e => decide (Periodic t e)) init es = some t) :
    Recorded es t ∧ (t.Idle → t.OnSchedule) ∧
      (∀ order, order.Perm ((t.callbacks (t.inc + 1)).getD []) →
        ∃ t', step t (.timeOut order) = some t' ∧ t'.inc = t.inc + 1) ∧
      ∀ m, ∃ t', Machine.Reach step Ticking t t' ∧ t'.Idle ∧ t'.inc = t.inc + m := by
  have reached : Machine.Reach step Periodic init t := .of_runs of_decide_eq_true .refl ran
  refine ⟨recorded_of_runs ran, ?_, fun order perm => begins_in_order t perm, ?_⟩
  · exact staysOnSchedule_of_periodic reached t .refl
  · exact (steady_of_reach .init (fun _ _ idle => idle) reached).ticks

end Reached

/-- A callback of every tick, which registers one of every second tick when it is called first. -/
def registering : List (Event Bool) :=
  [.register 1 true false, .timeOut [(1, ⟨true, false, 1⟩)], .register 2 false false, .returned 1,
    .timeOut [(3, ⟨true, false, 1⟩)], .returned 2,
    .timeOut [(4, ⟨true, false, 1⟩), (2, ⟨false, false, 2⟩)], .returned 3, .returned 3]

/-- They are called at the ticks 1, 2 and 3, and at the tick 3. -/
theorem periodic_on_schedule_registering :
    ∃ t, Machine.runs step (fun t e => decide (Periodic t e)) init registering = some t ∧
      t.firings 1 = [1, 2, 3] ∧ t.firings 2 = [3] := by
  have view : (Machine.runs step (fun t e => decide (Periodic t e)) init registering).map
      (fun t => (decide t.Idle, t.registered, t.inc)) =
        some (true, [⟨1, 0, 1, false⟩, ⟨2, 1, 2, false⟩], 3) := by
    decide
  obtain ⟨t, ran, last⟩ := Option.map_eq_some_iff.mp view
  simp only [Prod.mk.injEq, decide_eq_true_eq] at last
  obtain ⟨idle, registered, inc⟩ := last
  have onSchedule := (periodic_on_schedule ran).2.1 idle
  have first := onSchedule ⟨1, 0, 1, false⟩ (by rw [registered]; decide)
  have second := onSchedule ⟨2, 1, 2, false⟩ (by rw [registered]; decide)
  rw [inc] at first second
  exact ⟨t, ran, first, second⟩

end RillServer.Wheel
