import RillServer.Lib.Machine
import RillServer.Lib.Coroutine
import Mathlib.Data.List.Nodup
import Mathlib.Data.List.Perm.Basic

/-!
# Timer objects

`lualib/timer.lua`. A timer object counts ticks (`inc`). `callbacks` has a bucket for each tick to
come, with the callbacks that are due there, and `timer_idxs` says for each id when it is due.
`on_time_out` counts one up and calls every callback of the bucket; after each call the id is
forgotten and, unless `once` is set, the callback is registered again under a new id.

A callback may register others, it may raise, which ends the loop of `on_time_out`, and it may
suspend the loop. So a loop under way is part of the state here, its callbacks return or raise in
events of their own, and calls of `register` and the others may come at any time. A callback of
which nothing was said so far is an arbitrary thing of type `F`: `func` with its `parms`.

`sec` is a natural number; the assertion refuses 0. `pairs` visits a bucket in any order, and no
bucket gets a new entry while it is visited, as it would be one of a later tick.
-/

namespace RillServer.Wheel

variable {F : Type}

/-- A callback as it is stored. `origin` is not in the source: the id that the first registration
of the callback returned. -/
structure Callback (F : Type) where
  func : F
  loop : Bool
  origin : Nat
  deriving DecidableEq

/-- What is stored under an id. -/
abbrev Entry (F : Type) := Nat × Callback F

/-- An entry of `timer_idxs`. -/
structure Due where
  delay : Nat
  sec : Nat
  deriving DecidableEq

/-- A call of `register`, or of `registerOnce`, that returned `id`. -/
structure Registration where
  id : Nat
  time : Nat
  sec : Nat
  once : Bool
  deriving DecidableEq

/-- A timer object. The last three fields are not in the source: the registrations, and the ticks
and origins of the callbacks that were invoked and of those that raised. -/
structure Timer (F : Type) where
  inc : Nat
  once : Bool
  timerIdx : Nat
  callbacks : Nat → Option (List (Entry F))
  timerIdxs : Nat → Option Due
  /-- the loops of `on_time_out` under way, by their ticks: the entry whose callback runs, and those
  that come after it -/
  running : Nat → Option (List (Entry F))
  registered : List Registration
  invoked : List (Nat × Nat)
  raised : List (Nat × Nat)

/-- `timer.init`. -/
def init : Timer F where
  inc := 0
  once := false
  timerIdx := 0
  callbacks := fun _ => none
  timerIdxs := fun _ => none
  running := fun _ => none
  registered := []
  invoked := []
  raised := []

/-- What `register` and `registerOnce` do alike, for a callback with its origin. -/
def Timer.enlist (t : Timer F) (sec : Nat) (cb : Callback F) : Timer F :=
  { t with
    timerIdx := t.timerIdx + 1
    timerIdxs := Function.update t.timerIdxs (t.timerIdx + 1) (some ⟨t.inc + sec, sec⟩)
    callbacks := Function.update t.callbacks (t.inc + sec)
      (some ((t.callbacks (t.inc + sec)).getD [] ++ [(t.timerIdx + 1, cb)])) }

/-- The callback is one that was not registered before. -/
def Timer.enroll (t : Timer F) (once : Bool) (sec : Nat) (func : F) (loop : Bool) : Timer F :=
  { t.enlist sec ⟨func, loop, t.timerIdx + 1⟩ with
    registered := t.registered ++ [⟨t.timerIdx + 1, t.inc, sec, once⟩] }

/-- `timer.register`; `none` is a failed assertion. -/
def Timer.register (t : Timer F) (sec : Nat) (func : F) (loop : Bool) : Option (Timer F) :=
  if sec = 0 then none else some (t.enroll false sec func loop)

/-- `timer.registerOnce`. -/
def Timer.registerOnce (t : Timer F) (sec : Nat) (func : F) (loop : Bool) : Option (Timer F) :=
  if sec = 0 then none else some { t.enroll true sec func loop with once := true }

/-- `self.callbacks[k]`, where `k` is a number or an entry of `timer_idxs`. -/
def Timer.callbacksAt (t : Timer F) : Nat ⊕ Due → Option (List (Entry F))
  | .inl n => t.callbacks n
  | .inr _ => none

/-- `timer.unregister`. What it calls `sec` is the whole entry of `timer_idxs`; `none` is the error
of indexing `nil`. -/
def Timer.unregister (t : Timer F) (idx : Nat) : Option (Timer F) :=
  match t.timerIdxs idx with
  | none => some t
  | some sec =>
      match t.callbacksAt (.inr sec) with
      | none => none
      -- `callbacks[idx] = nil` would come here too, but no key of `callbacks` is a table
      | some _ => some { t with timerIdxs := Function.update t.timerIdxs idx none }

/-- The head of the loop of tick `n`: the next callback is called, or the bucket is removed. -/
def Timer.visit (t : Timer F) (n : Nat) : List (Entry F) → Timer F
  | [] =>
      { t with
        callbacks := Function.update t.callbacks t.inc none
        running := Function.update t.running n none }
  | e :: rest =>
      { t with
        running := Function.update t.running n (some (e :: rest))
        invoked := t.invoked ++ [(t.inc, e.2.origin)] }

section Steps

variable [DecidableEq F]

/-- `timer.on_time_out` up to the first callback, with the order of `pairs`. -/
def Timer.onTimeOut (t : Timer F) (order : List (Entry F)) : Option (Timer F) :=
  match t.callbacks (t.inc + 1) with
  | none => some { t with inc := t.inc + 1 }
  | some callbacks =>
      if order.isPerm callbacks then some ({ t with inc := t.inc + 1 }.visit (t.inc + 1) order)
      else none

end Steps

/-- The loop of tick `n` ends with an error. -/
def Timer.stop (t : Timer F) (n : Nat) : Timer F :=
  { t with running := Function.update t.running n none }

/-- The body of the loop behind the call. -/
def Timer.returned (t : Timer F) (n : Nat) : Option (Timer F) :=
  match t.running n with
  | some (e :: rest) =>
      match t.timerIdxs e.1 with
      | none => some (t.stop n)
      | some due =>
          let t := { t with timerIdxs := Function.update t.timerIdxs e.1 none }
          let t := if t.once then t else t.enlist due.sec e.2
          some (t.visit n rest)
  | _ => none

/-- The callback that the loop of tick `n` has called raises. -/
def Timer.raise (t : Timer F) (n : Nat) : Option (Timer F) :=
  match t.running n with
  | some (e :: _) => some { t.stop n with raised := t.raised ++ [(t.inc, e.2.origin)] }
  | _ => none

inductive Event (F : Type) where
  | register (sec : Nat) (func : F) (loop : Bool)
  | registerOnce (sec : Nat) (func : F) (loop : Bool)
  | unregister (idx : Nat)
  | timeOut (order : List (Entry F))
  | returned (n : Nat)
  | raise (n : Nat)
  deriving DecidableEq

section Steps

variable [DecidableEq F]

/-- A call that fails leaves the timer as it is. -/
def step (t : Timer F) : Event F → Option (Timer F)
  | .register sec func loop => some ((t.register sec func loop).getD t)
  | .registerOnce sec func loop => some ((t.registerOnce sec func loop).getD t)
  | .unregister idx => some ((t.unregister idx).getD t)
  | .timeOut order => t.onTimeOut order
  | .returned n => t.returned n
  | .raise n => t.raise n

end Steps

/-! ## Where an entry is -/

/-- The entry is in the bucket of a tick to come. -/
def Waits (t : Timer F) (n : Nat) (e : Entry F) : Prop :=
  t.inc < n ∧ ∃ bucket, t.callbacks n = some bucket ∧ e ∈ bucket

/-- The loop of the tick has not got past the entry. -/
def Runs (t : Timer F) (n : Nat) (e : Entry F) : Prop :=
  ∃ loop, t.running n = some loop ∧ e ∈ loop

def Held (t : Timer F) (n : Nat) (e : Entry F) : Prop := Waits t n e ∨ Runs t n e

/-- The head of the loop of tick `n` is taken out, and its id forgotten. -/
def Timer.take (t : Timer F) (n : Nat) (e : Entry F) (rest : List (Entry F)) : Timer F :=
  { t with
    timerIdxs := Function.update t.timerIdxs e.1 none
    running := Function.update t.running n (some rest) }

/-- The bucket of the next tick becomes a loop. -/
def Timer.next (t : Timer F) (order : List (Entry F)) : Timer F :=
  { t with
    inc := t.inc + 1
    running := Function.update t.running (t.inc + 1) (some order) }

theorem waits_enlist {t : Timer F} {sec n : Nat} {cb : Callback F} {e : Entry F} (pos : 0 < sec) :
    Waits (t.enlist sec cb) n e ↔
      Waits t n e ∨ (n = t.inc + sec ∧ e = (t.timerIdx + 1, cb)) := by
  by_cases here : n = t.inc + sec
  · subst here
    have later : t.inc < t.inc + sec := by omega
    cases found : t.callbacks (t.inc + sec) with
    | none => simp [Waits, Timer.enlist, found, pos]
    | some bucket => simp [Waits, Timer.enlist, found, pos]
  · simp [Waits, Timer.enlist, here]

theorem held_enlist {t : Timer F} {sec n : Nat} {cb : Callback F} {e : Entry F} (pos : 0 < sec) :
    Held (t.enlist sec cb) n e ↔
      Held t n e ∨ (n = t.inc + sec ∧ e = (t.timerIdx + 1, cb)) := by
  unfold Held
  rw [waits_enlist pos]
  have same : Runs (t.enlist sec cb) n e ↔ Runs t n e := Iff.rfl
  rw [same]
  tauto

theorem held_visit {t : Timer F} {n m : Nat} {rest : List (Entry F)} {e : Entry F}
    (loop : t.running n = some rest) : Held (t.visit n rest) m e ↔ Held t m e := by
  cases rest with
  | nil =>
      have waits : Waits (t.visit n []) m e ↔ Waits t m e := by
        refine and_congr_right fun later => ?_
        have other : m ≠ t.inc := Nat.ne_of_gt later
        simp only [Timer.visit, Function.update_of_ne other]
      have runs : Runs (t.visit n []) m e ↔ Runs t m e := by
        by_cases here : m = n
        · subst here
          simp [Runs, Timer.visit, loop]
        · simp only [Runs, Timer.visit, Function.update_of_ne here]
      exact or_congr waits runs
  | cons head rest =>
      have same : (t.visit n (head :: rest)).running = t.running := by
        simp only [Timer.visit, ← loop, Function.update_eq_self]
      have runs : Runs (t.visit n (head :: rest)) m e ↔ Runs t m e := by
        simp only [Runs, same]
      exact or_congr Iff.rfl runs

/-- A callback is held at most once, where `timer_idxs` says. -/
structure Sound (t : Timer F) : Prop where
  fresh : ∀ idx due, t.timerIdxs idx = some due → idx ≤ t.timerIdx
  begun : ∀ n loop, t.running n = some loop → n ≤ t.inc
  known : ∀ n e, Held t n e → ∃ sec, t.timerIdxs e.1 = some ⟨n, sec⟩ ∧ 0 < sec
  keyed : ∀ n m e x, Held t n e → Held t m x → e.1 = x.1 → e = x
  single : ∀ n m e x, Held t n e → Held t m x → e.2.origin = x.2.origin → e = x
  buckets : ∀ n bucket, t.inc < n → t.callbacks n = some bucket → bucket.Nodup
  loops : ∀ n loop, t.running n = some loop → loop.Nodup
  origins : ∀ n e, Held t n e → e.2.origin ≤ t.timerIdx
  ids : ∀ r ∈ t.registered, r.id ≤ t.timerIdx
  calls : ∀ p ∈ t.invoked, p.2 ≤ t.timerIdx

theorem not_held_init {n : Nat} {e : Entry F} : ¬ Held (init : Timer F) n e := by
  rintro (⟨-, bucket, found, -⟩ | ⟨loop, found, -⟩)
  · cases found
  · cases found

theorem Sound.init : Sound (init : Timer F) where
  fresh := nofun
  begun := nofun
  known _ _ held := (not_held_init held).elim
  keyed _ _ _ _ held := (not_held_init held).elim
  single _ _ _ _ held := (not_held_init held).elim
  buckets := nofun
  loops := nofun
  origins _ _ held := (not_held_init held).elim
  ids := nofun
  calls := nofun

variable {t : Timer F}

/-- An entry is in one place. -/
theorem Sound.place {n m : Nat} {e : Entry F} (sound : Sound t) (held : Held t n e)
    (held' : Held t m e) : n = m := by
  obtain ⟨sec, known, -⟩ := sound.known n e held
  obtain ⟨sec', known', -⟩ := sound.known m e held'
  rw [known] at known'
  cases known'
  rfl

/-- The loop goes on without its head. -/
theorem Sound.held_take {n m : Nat} {e x : Entry F} {rest : List (Entry F)} (sound : Sound t)
    (loop : t.running n = some (e :: rest)) :
    Held (t.take n e rest) m x ↔ Held t m x ∧ x ≠ e := by
  have outside : e ∉ rest := (List.nodup_cons.mp (sound.loops n _ loop)).1
  have head : Held t n e := .inr ⟨_, loop, List.mem_cons_self⟩
  constructor
  · rintro (waits | ⟨loop', found, member⟩)
    · refine ⟨.inl waits, ?_⟩
      rintro rfl
      have late : n ≤ t.inc := sound.begun n _ loop
      have same : m = n := sound.place (.inl waits) head
      have early : t.inc < m := waits.1
      omega
    · rcases Coroutine.update_eq_some found with ⟨rfl, same⟩ | ⟨other, earlier⟩
      · cases same
        exact ⟨.inr ⟨_, loop, List.mem_cons_of_mem _ member⟩, fun same => outside (same ▸ member)⟩
      · refine ⟨.inr ⟨_, earlier, member⟩, ?_⟩
        rintro rfl
        exact other (sound.place (.inr ⟨_, earlier, member⟩) head)
  · rintro ⟨waits | ⟨loop', found, member⟩, other⟩
    · exact .inl waits
    · by_cases here : m = n
      · subst here
        rw [loop] at found
        cases found
        exact .inr ⟨rest, Function.update_self .., (List.mem_cons.mp member).resolve_left other⟩
      · exact .inr ⟨loop', (Function.update_of_ne here _ _).trans found, member⟩

theorem Sound.held_next {m : Nat} {x : Entry F} {bucket order : List (Entry F)} (sound : Sound t)
    (due : t.callbacks (t.inc + 1) = some bucket) (perm : order.Perm bucket) :
    Held (t.next order) m x ↔ Held t m x := by
  constructor
  · rintro (⟨later, bucket', found, member⟩ | ⟨loop, found, member⟩)
    · exact .inl ⟨Nat.lt_of_succ_lt later, bucket', found, member⟩
    · rcases Coroutine.update_eq_some found with ⟨rfl, same⟩ | ⟨-, earlier⟩
      · cases same
        exact .inl ⟨Nat.lt_succ_self _, bucket, due, perm.mem_iff.mp member⟩
      · exact .inr ⟨loop, earlier, member⟩
  · rintro (⟨later, bucket', found, member⟩ | ⟨loop, found, member⟩)
    · by_cases here : m = t.inc + 1
      · subst here
        rw [due] at found
        cases found
        exact .inr ⟨order, Function.update_self .., perm.mem_iff.mpr member⟩
      · refine .inl ⟨?_, bucket', found, member⟩
        change t.inc + 1 < m
        omega
    · have early : m ≤ t.inc := sound.begun m _ found
      have other : m ≠ t.inc + 1 := by omega
      exact .inr ⟨loop, (Function.update_of_ne other _ _).trans found, member⟩

/-! ## What the steps keep -/

/-- Nothing new is held, and what is held is known as before. -/
theorem Sound.of_held {t' : Timer F} (sound : Sound t)
    (held : ∀ n e, Held t' n e → Held t n e ∧ t'.timerIdxs e.1 = t.timerIdxs e.1)
    (fresh : ∀ idx due, t'.timerIdxs idx = some due → t.timerIdxs idx = some due)
    (idx : t'.timerIdx = t.timerIdx) (registered : t'.registered = t.registered)
    (begun : ∀ n loop, t'.running n = some loop → n ≤ t'.inc)
    (buckets : ∀ n bucket, t'.inc < n → t'.callbacks n = some bucket → bucket.Nodup)
    (loops : ∀ n loop, t'.running n = some loop → loop.Nodup)
    (calls : ∀ p ∈ t'.invoked, p.2 ≤ t.timerIdx) : Sound t' where
  fresh i due found := idx ▸ sound.fresh i due (fresh i due found)
  begun := begun
  known n e now := by
    obtain ⟨before, same⟩ := held n e now
    rw [same]
    exact sound.known n e before
  keyed n m e x now now' := sound.keyed n m e x (held n e now).1 (held m x now').1
  single n m e x now now' := sound.single n m e x (held n e now).1 (held m x now').1
  buckets := buckets
  loops := loops
  origins n e now := idx ▸ sound.origins n e (held n e now).1
  ids := by
    rw [registered, idx]
    exact sound.ids
  calls := idx ▸ calls

theorem Sound.take {n : Nat} {e : Entry F} {rest : List (Entry F)} (sound : Sound t)
    (loop : t.running n = some (e :: rest)) : Sound (t.take n e rest) := by
  refine sound.of_held ?_ ?_ rfl rfl ?_ sound.buckets ?_ sound.calls
  · intro m x held
    obtain ⟨held, other⟩ := (sound.held_take loop).mp held
    refine ⟨held, Function.update_of_ne ?_ _ _⟩
    exact fun same => other (sound.keyed m n x e held (.inr ⟨_, loop, List.mem_cons_self⟩) same)
  · intro idx due found
    rcases Coroutine.update_eq_some found with ⟨-, same⟩ | ⟨-, earlier⟩
    · cases same
    · exact earlier
  · intro m loop' found
    rcases Coroutine.update_eq_some found with ⟨rfl, -⟩ | ⟨-, earlier⟩
    · exact sound.begun m _ loop
    · exact sound.begun m loop' earlier
  · intro m loop' found
    rcases Coroutine.update_eq_some found with ⟨-, same⟩ | ⟨-, earlier⟩
    · cases same
      exact (List.nodup_cons.mp (sound.loops n _ loop)).2
    · exact sound.loops m loop' earlier

theorem Sound.next {bucket order : List (Entry F)} (sound : Sound t)
    (due : t.callbacks (t.inc + 1) = some bucket) (perm : order.Perm bucket) :
    Sound (t.next order) := by
  refine sound.of_held (fun m x held => ⟨(sound.held_next due perm).mp held, rfl⟩)
    (fun _ _ found => found) rfl rfl ?_ ?_ ?_ sound.calls
  · intro m loop found
    change m ≤ t.inc + 1
    rcases Coroutine.update_eq_some found with ⟨rfl, -⟩ | ⟨-, earlier⟩
    · exact Nat.le_refl _
    · exact Nat.le_succ_of_le (sound.begun m loop earlier)
  · exact fun m bucket' later => sound.buckets m bucket' (Nat.lt_of_succ_lt later)
  · intro m loop found
    rcases Coroutine.update_eq_some found with ⟨-, same⟩ | ⟨-, earlier⟩
    · cases same
      exact perm.nodup_iff.mpr (sound.buckets _ bucket (Nat.lt_succ_self _) due)
    · exact sound.loops m loop earlier

/-- A tick for which nothing is registered. -/
theorem Sound.idle (sound : Sound t) (none : t.callbacks (t.inc + 1) = none) :
    (∀ m x, Held { t with inc := t.inc + 1 } m x ↔ Held t m x) ∧
      Sound { t with inc := t.inc + 1 } := by
  have same : ∀ m x, Held { t with inc := t.inc + 1 } m x ↔ Held t m x := by
    intro m x
    refine or_congr ?_ Iff.rfl
    constructor
    · rintro ⟨later, found⟩
      exact ⟨Nat.lt_of_succ_lt later, found⟩
    · rintro ⟨later, bucket, found, member⟩
      refine ⟨?_, bucket, found, member⟩
      have other : m ≠ t.inc + 1 := by
        rintro rfl
        rw [none] at found
        cases found
      change t.inc + 1 < m
      omega
  refine ⟨same, sound.of_held (fun m x held => ⟨(same m x).mp held, rfl⟩)
    (fun _ _ found => found) rfl rfl ?_ ?_ sound.loops sound.calls⟩
  · exact fun m loop found => Nat.le_succ_of_le (sound.begun m loop found)
  · exact fun m bucket' later => sound.buckets m bucket' (Nat.lt_of_succ_lt later)

theorem Sound.stop (sound : Sound t) (n : Nat) :
    (∀ m x, Held (t.stop n) m x → Held t m x) ∧ Sound (t.stop n) := by
  have fewer : ∀ m loop, (t.stop n).running m = some loop → t.running m = some loop := by
    intro m loop found
    rcases Coroutine.update_eq_some found with ⟨-, same⟩ | ⟨-, earlier⟩
    · cases same
    · exact earlier
  have held : ∀ m x, Held (t.stop n) m x → Held t m x := by
    rintro m x (waits | ⟨loop, found, member⟩)
    · exact .inl waits
    · exact .inr ⟨loop, fewer m loop found, member⟩
  refine ⟨held, sound.of_held (fun m x now => ⟨held m x now, rfl⟩) (fun _ _ found => found) rfl rfl
    ?_ sound.buckets ?_ sound.calls⟩
  · exact fun m loop found => sound.begun m loop (fewer m loop found)
  · exact fun m loop found => sound.loops m loop (fewer m loop found)

/-- A loop that was stopped holds nothing, and neither does the bucket of its tick. -/
theorem Sound.not_held_stop {n : Nat} {loop : List (Entry F)} {x : Entry F} (sound : Sound t)
    (found : t.running n = some loop) : ¬ Held (t.stop n) n x := by
  rintro (waits | ⟨loop', found', -⟩)
  · have early := sound.begun n loop found
    have later : t.inc < n := waits.1
    omega
  · have none : (t.stop n).running n = none := Function.update_self ..
    rw [none] at found'
    cases found'

theorem Sound.visit {n : Nat} {rest : List (Entry F)} (sound : Sound t)
    (loop : t.running n = some rest) : Sound (t.visit n rest) := by
  have held : ∀ m x, Held (t.visit n rest) m x → Held t m x := fun m x => (held_visit loop).mp
  have fewer : ∀ m loop', (t.visit n rest).running m = some loop' →
      t.running m = some loop' := by
    intro m loop' found
    cases rest with
    | nil =>
        rcases Coroutine.update_eq_some found with ⟨-, same⟩ | ⟨-, earlier⟩
        · cases same
        · exact earlier
    | cons e rest =>
        rcases Coroutine.update_eq_some found with ⟨rfl, same⟩ | ⟨-, earlier⟩
        · exact loop.trans same
        · exact earlier
  have inc : (t.visit n rest).inc = t.inc := by cases rest <;> rfl
  have idxs : (t.visit n rest).timerIdxs = t.timerIdxs := by cases rest <;> rfl
  refine sound.of_held (fun m x now => ⟨held m x now, by rw [idxs]⟩) ?_ ?_ ?_ ?_ ?_ ?_ ?_
  · intro idx due found
    rwa [idxs] at found
  · cases rest <;> rfl
  · cases rest <;> rfl
  · intro m loop' found
    rw [inc]
    exact sound.begun m loop' (fewer m loop' found)
  · intro m bucket later found
    rw [inc] at later
    cases rest with
    | nil =>
        rcases Coroutine.update_eq_some found with ⟨-, same⟩ | ⟨-, earlier⟩
        · cases same
        · exact sound.buckets m bucket later earlier
    | cons e rest => exact sound.buckets m bucket later found
  · exact fun m loop' found => sound.loops m loop' (fewer m loop' found)
  · intro p member
    cases rest with
    | nil => exact sound.calls p member
    | cons e rest =>
        rcases List.mem_append.mp member with earlier | new
        · exact sound.calls p earlier
        · cases List.mem_singleton.mp new
          exact sound.origins n e (.inr ⟨_, loop, List.mem_cons_self⟩)

/-- A callback that is not held is registered. -/
theorem Sound.enlist {sec : Nat} {cb : Callback F} (sound : Sound t) (pos : 0 < sec)
    (new : ∀ n e, Held t n e → e.2.origin ≠ cb.origin) (small : cb.origin ≤ t.timerIdx + 1) :
    Sound (t.enlist sec cb) := by
  have older : ∀ n e, Held t n e → e.1 ≠ t.timerIdx + 1 := by
    intro n e held same
    obtain ⟨sec', found, -⟩ := sound.known n e held
    have bound := sound.fresh _ _ found
    omega
  constructor
  · intro idx due found
    change idx ≤ t.timerIdx + 1
    rcases Coroutine.update_eq_some found with ⟨rfl, -⟩ | ⟨-, earlier⟩
    · exact Nat.le_refl _
    · exact Nat.le_succ_of_le (sound.fresh idx due earlier)
  · exact sound.begun
  · intro n e held
    rcases (held_enlist pos).mp held with earlier | ⟨rfl, rfl⟩
    · obtain ⟨sec', found, pos'⟩ := sound.known n e earlier
      exact ⟨sec', (Function.update_of_ne (older n e earlier) _ _).trans found, pos'⟩
    · exact ⟨sec, Function.update_self .., pos⟩
  · intro n m e x held held' same
    rcases (held_enlist pos).mp held with earlier | ⟨-, rfl⟩
    · rcases (held_enlist pos).mp held' with earlier' | ⟨-, rfl⟩
      · exact sound.keyed n m e x earlier earlier' same
      · exact (older n e earlier same).elim
    · rcases (held_enlist pos).mp held' with earlier' | ⟨-, rfl⟩
      · exact (older m x earlier' same.symm).elim
      · rfl
  · intro n m e x held held' same
    rcases (held_enlist pos).mp held with earlier | ⟨-, rfl⟩
    · rcases (held_enlist pos).mp held' with earlier' | ⟨-, rfl⟩
      · exact sound.single n m e x earlier earlier' same
      · exact (new n e earlier same).elim
    · rcases (held_enlist pos).mp held' with earlier' | ⟨-, rfl⟩
      · exact (new m x earlier' same.symm).elim
      · rfl
  · intro n bucket later found
    rcases Coroutine.update_eq_some found with ⟨rfl, same⟩ | ⟨-, earlier⟩
    · cases same
      cases before : t.callbacks (t.inc + sec) with
      | none => exact List.nodup_singleton _
      | some bucket =>
          apply List.Nodup.append (sound.buckets _ bucket later before) (List.nodup_singleton _)
          intro e member last
          rw [List.mem_singleton] at last
          exact older _ e (.inl ⟨later, bucket, before, member⟩) (by rw [last])
    · exact sound.buckets n bucket later earlier
  · exact sound.loops
  · intro n e held
    rcases (held_enlist pos).mp held with earlier | ⟨-, rfl⟩
    · exact Nat.le_succ_of_le (sound.origins n e earlier)
    · exact small
  · exact fun r member => Nat.le_succ_of_le (sound.ids r member)
  · exact fun p member => Nat.le_succ_of_le (sound.calls p member)

/-- A callback is registered for the first time. -/
theorem Sound.enroll {once : Bool} {sec : Nat} {func : F} {loop : Bool} (sound : Sound t)
    (pos : 0 < sec) : Sound (t.enroll once sec func loop) := by
  have listed : Sound (t.enlist sec ⟨func, loop, t.timerIdx + 1⟩) := by
    refine sound.enlist pos (fun n e held same => ?_) (Nat.le_refl _)
    have bound := sound.origins n e held
    change e.2.origin = t.timerIdx + 1 at same
    omega
  have ids : ∀ r ∈ (t.enroll once sec func loop).registered, r.id ≤ t.timerIdx + 1 := by
    intro r member
    rcases List.mem_append.mp member with earlier | new
    · exact listed.ids r earlier
    · cases List.mem_singleton.mp new
      exact Nat.le_refl _
  exact { listed with ids }

/-! ## What a step can do -/

/-- Everything an event can do to a timer whose held entries are known. -/
inductive Does (t : Timer F) : Event F → Timer F → Prop
  | registered {sec : Nat} {func : F} {loop : Bool} : 0 < sec →
    Does t (.register sec func loop) (t.enroll false sec func loop)
  | registeredOnce {sec : Nat} {func : F} {loop : Bool} : 0 < sec →
    Does t (.registerOnce sec func loop) { t.enroll true sec func loop with once := true }
  | refused {func : F} {loop : Bool} : Does t (.register 0 func loop) t
  | refusedOnce {func : F} {loop : Bool} : Does t (.registerOnce 0 func loop) t
  | unregister {idx : Nat} : Does t (.unregister idx) t
  | idle {order : List (Entry F)} : t.callbacks (t.inc + 1) = none →
    Does t (.timeOut order) { t with inc := t.inc + 1 }
  | begins {bucket order : List (Entry F)} : t.callbacks (t.inc + 1) = some bucket →
    order.Perm bucket → Does t (.timeOut order) ((t.next order).visit (t.inc + 1) order)
  | ended {n : Nat} {e : Entry F} {rest : List (Entry F)} : t.running n = some (e :: rest) →
    t.once = true → Does t (.returned n) ((t.take n e rest).visit n rest)
  | renewed {n sec : Nat} {e : Entry F} {rest : List (Entry F)} :
    t.running n = some (e :: rest) → t.once = false → t.timerIdxs e.1 = some ⟨n, sec⟩ → 0 < sec →
    Does t (.returned n) (((t.take n e rest).enlist sec e.2).visit n rest)
  | raised {n : Nat} {e : Entry F} {rest : List (Entry F)} : t.running n = some (e :: rest) →
    Does t (.raise n) { t.stop n with raised := t.raised ++ [(t.inc, e.2.origin)] }

/-- `unregister` does nothing, whether or not it raises. -/
theorem unregister_getD (t : Timer F) (idx : Nat) : (t.unregister idx).getD t = t := by
  unfold Timer.unregister
  split
  · rfl
  · rfl

theorem visit_running (t : Timer F) (n : Nat) (rest loop : List (Entry F)) :
    { t with running := Function.update t.running n (some loop) }.visit n rest = t.visit n rest := by
  cases rest <;> simp [Timer.visit]

theorem step_does [DecidableEq F] {t' : Timer F} {e : Event F} (sound : Sound t)
    (stepped : step t e = some t') : Does t e t' := by
  cases e with
  | register sec func loop =>
      cases stepped
      by_cases zero : sec = 0
      · subst zero
        exact .refused
      · rw [Timer.register, if_neg zero]
        exact .registered (Nat.pos_of_ne_zero zero)
  | registerOnce sec func loop =>
      cases stepped
      by_cases zero : sec = 0
      · subst zero
        exact .refusedOnce
      · rw [Timer.registerOnce, if_neg zero]
        exact .registeredOnce (Nat.pos_of_ne_zero zero)
  | unregister idx =>
      cases stepped
      rw [unregister_getD]
      exact .unregister
  | timeOut order =>
      simp only [step, Timer.onTimeOut] at stepped
      split at stepped
      · rename_i none
        cases stepped
        exact .idle none
      · rename_i bucket due
        split at stepped
        · rename_i perm
          cases stepped
          rw [← visit_running _ _ order order]
          exact .begins due (List.isPerm_iff.mp perm)
        · cases stepped
  | returned n =>
      simp only [step, Timer.returned] at stepped
      split at stepped
      · rename_i e rest loop
        obtain ⟨sec, known, pos⟩ := sound.known n e (.inr ⟨_, loop, List.mem_cons_self⟩)
        simp only [known] at stepped
        cases once : t.once with
        | true =>
            rw [if_pos once] at stepped
            cases stepped
            rw [← visit_running _ _ rest rest]
            exact .ended loop once
        | false =>
            rw [if_neg (Bool.eq_false_iff.mp once)] at stepped
            cases stepped
            rw [← visit_running _ _ rest rest]
            exact .renewed loop once known pos
      · cases stepped
  | raise n =>
      simp only [step, Timer.raise] at stepped
      split at stepped
      · rename_i e rest loop
        cases stepped
        exact .raised loop
      · cases stepped

/-- Every event keeps a timer sound. -/
theorem Does.sound {t' : Timer F} {e : Event F} (does : Does t e t') (sound : Sound t) :
    Sound t' := by
  cases does with
  | registered pos => exact sound.enroll pos
  | registeredOnce pos => exact { sound.enroll pos with }
  | refused => exact sound
  | refusedOnce => exact sound
  | unregister => exact sound
  | idle none => exact (sound.idle none).2
  | begins due perm => exact (sound.next due perm).visit (Function.update_self ..)
  | ended loop => exact (sound.take loop).visit (Function.update_self ..)
  | @renewed n sec e rest loop once known pos =>
      refine ((sound.take loop).enlist pos ?_ ?_).visit (Function.update_self ..)
      · intro m x held same
        obtain ⟨held, other⟩ := (sound.held_take loop).mp held
        exact other (sound.single m n x e held (.inr ⟨_, loop, List.mem_cons_self⟩) same)
      · exact Nat.le_succ_of_le (sound.origins n e (.inr ⟨_, loop, List.mem_cons_self⟩))
  | raised => exact { (sound.stop _).2 with }

end RillServer.Wheel
