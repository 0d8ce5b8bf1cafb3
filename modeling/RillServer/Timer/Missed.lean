import RillServer.Timer.Schedule

/-!
# Callbacks that are not invoked any more

A callback is invoked again as long as it is held and will be renewed (`Live`). One that is not live
stays so, and is never invoked again (`Does.dead`).

After the first `registerOnce` no callback of the timer is renewed, so a periodic one is invoked at
most once more (`lastFiring`): a timer stays on schedule exactly as long as its registrations are
of one kind (`staysOnSchedule_iff`). A callback that raises is not renewed either, and the loop ends
with it (`staysOnSchedule_iff_no_raise`).
-/

namespace RillServer.Wheel

variable {F : Type}

/-- The callback of the entry runs in the loop of the tick. -/
def Heads (t : Timer F) (n : Nat) (e : Entry F) : Prop := ∃ rest, t.running n = some (e :: rest)

/-- A callback is held, and is renewed if it runs already. -/
def Live (t : Timer F) (origin : Nat) : Prop :=
  ∃ n e, Held t n e ∧ e.2.origin = origin ∧ (Heads t n e → t.once = false)

variable {t : Timer F} {origin : Nat}

/-- The head of a loop that goes on is held, and did not run before. -/
theorem firings_visit_of_dead {n : Nat} {rest : List (Entry F)}
    (dead : ∀ e ∈ rest, e.2.origin ≠ origin) :
    (t.visit n rest).firings origin = t.firings origin := by
  cases rest with
  | nil => rfl
  | cons e rest => exact firings_visit_other (dead e List.mem_cons_self)

/-- The loop of tick `n` goes on with `rest`; other loops are as before. -/
theorem heads_visit {n m : Nat} {e : Entry F} {rest : List (Entry F)} (other : m ≠ n) :
    Heads (t.visit n rest) m e ↔ Heads t m e := by
  cases rest <;> simp only [Heads, Timer.visit, Function.update_of_ne other]

/-- A loop runs the callback of its first entry. -/
theorem Heads.eq {n : Nat} {e x : Entry F} {rest : List (Entry F)} (heads : Heads t n x)
    (loop : t.running n = some (e :: rest)) : x = e := by
  obtain ⟨rest', running⟩ := heads
  rw [loop] at running
  cases running
  rfl

theorem Live.of_registered {sec : Nat} {func : F} {loop once flag : Bool}
    (live : Live { t.enroll once sec func loop with once := flag } origin)
    (old : origin ≤ t.timerIdx) (pos : 0 < sec) (kept : flag = false → t.once = false) :
    Live t origin := by
  obtain ⟨n, e, held, same, renewed⟩ := live
  have listed : Held (t.enlist sec ⟨func, loop, t.timerIdx + 1⟩) n e := held
  rcases (held_enlist pos).mp listed with earlier | ⟨-, rfl⟩
  · exact ⟨n, e, earlier, same, fun heads => kept (renewed heads)⟩
  · change t.timerIdx + 1 = origin at same
    omega

/-- A callback that is not live does not become so, and is not invoked. -/
theorem Does.dead {t' : Timer F} {ev : Event F} (does : Does t ev t') (sound : Sound t)
    (old : origin ≤ t.timerIdx) (dead : ¬ Live t origin) :
    ¬ Live t' origin ∧ t'.firings origin = t.firings origin := by
  cases does with
  | registered pos => exact ⟨fun live => dead (live.of_registered old pos id), rfl⟩
  | registeredOnce pos => exact ⟨fun live => dead (live.of_registered old pos nofun), rfl⟩
  | refused => exact ⟨dead, rfl⟩
  | refusedOnce => exact ⟨dead, rfl⟩
  | unregister => exact ⟨dead, rfl⟩
  | idle none =>
      refine ⟨?_, rfl⟩
      rintro ⟨n, e, held, same, renewed⟩
      exact dead ⟨n, e, ((sound.idle none).1 n e).mp held, same, renewed⟩
  | @begins bucket order due perm =>
      have fresh : ∀ n e, Heads t n e → n ≠ t.inc + 1 := by
        rintro n e ⟨rest, running⟩
        have early := sound.begun n _ running
        omega
      refine ⟨?_, firings_visit_of_dead ?_⟩
      · rintro ⟨n, e, held, same, renewed⟩
        have next := (held_visit (Function.update_self ..)).mp held
        refine dead ⟨n, e, (sound.held_next due perm).mp next, same, fun heads => ?_⟩
        rw [once_visit] at renewed
        refine renewed ((heads_visit (fresh n e heads)).mpr ?_)
        obtain ⟨rest, running⟩ := heads
        exact ⟨rest, (Function.update_of_ne (fresh n e ⟨rest, running⟩) _ _).trans running⟩
      · intro e member same
        have waits : Waits t (t.inc + 1) e :=
          ⟨Nat.lt_succ_self _, bucket, due, perm.mem_iff.mp member⟩
        exact dead ⟨t.inc + 1, e, .inl waits, same, fun heads => (fresh _ e heads rfl).elim⟩
  | @ended n e rest loop once =>
      have outside := (List.nodup_cons.mp (sound.loops n _ loop)).1
      refine ⟨?_, firings_visit_of_dead ?_⟩
      · rintro ⟨m, x, held, same, renewed⟩
        have taken := (held_visit (Function.update_self ..)).mp held
        obtain ⟨held, other⟩ := (sound.held_take loop).mp taken
        refine dead ⟨m, x, held, same, fun heads => ?_⟩
        have apart : m ≠ n := by
          rintro rfl
          exact other (heads.eq loop)
        rw [once_visit] at renewed
        refine renewed ((heads_visit apart).mpr ?_)
        obtain ⟨rest', running⟩ := heads
        exact ⟨rest', (Function.update_of_ne apart _ _).trans running⟩
      · intro x member same
        refine dead ⟨n, x, .inr ⟨_, loop, List.mem_cons_of_mem _ member⟩, same, fun heads => ?_⟩
        exact (outside (heads.eq loop ▸ member)).elim
  | @renewed n sec e rest loop once known pos =>
      have head : e.2.origin ≠ origin := by
        intro same
        exact dead ⟨n, e, .inr ⟨_, loop, List.mem_cons_self⟩, same, fun _ => once⟩
      refine ⟨?_, firings_visit_of_dead ?_⟩
      · rintro ⟨m, x, held, same, -⟩
        have listed := (held_visit (Function.update_self ..)).mp held
        rcases (held_enlist pos).mp listed with taken | ⟨-, rfl⟩
        · exact dead ⟨m, x, ((sound.held_take loop).mp taken).1, same, fun _ => once⟩
        · exact head same
      · intro x member same
        exact dead ⟨n, x, .inr ⟨_, loop, List.mem_cons_of_mem _ member⟩, same, fun _ => once⟩
  | @raised n e rest loop =>
      refine ⟨?_, rfl⟩
      rintro ⟨m, x, held, same, renewed⟩
      have apart : m ≠ n := by
        rintro rfl
        exact sound.not_held_stop loop held
      refine dead ⟨m, x, (sound.stop n).1 m x held, same, ?_⟩
      rintro ⟨rest', running⟩
      exact renewed ⟨rest', (Function.update_of_ne apart _ _).trans running⟩

theorem timerIdx_visit (t : Timer F) (n : Nat) (rest : List (Entry F)) :
    (t.visit n rest).timerIdx = t.timerIdx := by
  cases rest <;> rfl

theorem raised_visit (t : Timer F) (n : Nat) (rest : List (Entry F)) :
    (t.visit n rest).raised = t.raised := by
  cases rest <;> rfl

/-- Only a callback that raises is recorded as such. -/
theorem Does.raised_eq {t' : Timer F} {ev : Event F} (does : Does t ev t')
    (returns : ∀ n, ev ≠ .raise n) : t'.raised = t.raised := by
  cases does with
  | begins => exact raised_visit ..
  | ended => exact raised_visit ..
  | renewed => exact raised_visit ..
  | raised => exact (returns _ rfl).elim
  | _ => rfl

theorem Raising.periodic {ev : Event F} (raising : Raising t ev) (returns : ∀ n, ev ≠ .raise n) :
    Periodic t ev := by
  cases ev with
  | raise n => exact (returns n rfl).elim
  | _ => exact raising

theorem Does.raising {t' : Timer F} {ev : Event F} (does : Does t ev t') (raising : Raising t ev)
    (before : t.once = false) : t'.once = false := by
  cases ev with
  | raise n =>
      cases does with
      | raised => exact before
  | _ => exact does.periodic raising before

/-- Ids are only added. -/
theorem Does.timerIdx {t' : Timer F} {ev : Event F} (does : Does t ev t')
    (old : origin ≤ t.timerIdx) : origin ≤ t'.timerIdx := by
  cases does with
  | registered => exact Nat.le_succ_of_le old
  | registeredOnce => exact Nat.le_succ_of_le old
  | begins =>
      rw [timerIdx_visit]
      exact old
  | ended =>
      rw [timerIdx_visit]
      exact old
  | renewed =>
      rw [timerIdx_visit]
      exact Nat.le_succ_of_le old
  | _ => exact old

section Progress

variable [DecidableEq F]

/-- A callback that is not live is not invoked by ticks. -/
theorem dead_ticks {t' : Timer F} (steady : Steady t) (old : origin ≤ t.timerIdx)
    (dead : ¬ Live t origin) (ticks : Machine.Reach step Ticking t t') :
    ¬ Live t' origin ∧ t'.firings origin = t.firings origin := by
  have known : ¬ Live t' origin ∧ t'.firings origin = t.firings origin ∧ origin ≤ t'.timerIdx ∧
      Steady t' := by
    induction ticks with
    | refl => exact ⟨dead, rfl, old, steady⟩
    | tail before good stepped ih =>
        obtain ⟨dead, same, old, steady⟩ := ih
        have does := step_does steady.sound stepped
        obtain ⟨dead', same'⟩ := does.dead steady.sound old dead
        refine ⟨dead', same'.trans same, does.timerIdx old, does.steady steady ?_⟩
        rintro order rfl
        exact good
  exact ⟨known.1, known.2.1⟩

end Progress

/-! ## One-shot and periodic timers -/

/-- Once `once` is set, a callback that runs is not renewed. -/
theorem not_live_of_heads {n : Nat} {e : Entry F} (sound : Sound t) (heads : Heads t n e)
    (once : t.once = true) : ¬ Live t e.2.origin := by
  rintro ⟨m, x, held, same, renewed⟩
  obtain ⟨rest, running⟩ := heads
  have head : Held t n e := .inr ⟨_, running, List.mem_cons_self⟩
  obtain rfl := sound.single m n x e held head same
  obtain rfl := sound.place held head
  have kept := renewed ⟨rest, running⟩
  rw [once] at kept
  cases kept

theorem lastFiring_visit {n : Nat} {rest : List (Entry F)} (sound : Sound (t.visit n rest))
    (once : t.once = true) :
    (t.visit n rest).firings origin = t.firings origin ∨
      (((t.visit n rest).firings origin).length = (t.firings origin).length + 1 ∧
        ¬ Live (t.visit n rest) origin) := by
  cases rest with
  | nil => exact .inl rfl
  | cons e rest =>
      by_cases same : e.2.origin = origin
      · have heads : Heads (t.visit n (e :: rest)) n e := ⟨rest, Function.update_self ..⟩
        refine .inr ⟨?_, same ▸ not_live_of_heads sound heads once⟩
        rw [firings_visit_same same, List.length_append, List.length_singleton]
      · exact .inl (firings_visit_other same)

/-- Once `once` is set, a callback is invoked at most once more. -/
theorem Does.lastFiring {t' : Timer F} {ev : Event F} (does : Does t ev t') (sound : Sound t)
    (ticking : Ticking t ev) (once : t.once = true) (origin : Nat) :
    t'.firings origin = t.firings origin ∨
      ((t'.firings origin).length = (t.firings origin).length + 1 ∧ ¬ Live t' origin) := by
  have sound' := does.sound sound
  cases does with
  | idle => exact .inl rfl
  | begins => exact lastFiring_visit sound' once
  | ended => exact lastFiring_visit sound' once
  | renewed loop periodic =>
      rw [once] at periodic
      cases periodic
  | _ => exact ticking.elim

/-- All registrations are of one kind. -/
def Timer.OneKind (t : Timer F) : Prop :=
  (∀ r ∈ t.registered, r.once = true) ∨ ∀ r ∈ t.registered, r.once = false

theorem uniform_iff_oneKind (steady : Steady t) :
    (∀ r ∈ t.registered, r.once = t.once) ↔ t.OneKind := by
  constructor
  · intro uniform
    cases once : t.once with
    | true => exact .inl fun r member => (uniform r member).trans once
    | false => exact .inr fun r member => (uniform r member).trans once
  · rintro (single | periodic) r member
    · exact (single r member).trans (steady.once.mpr ⟨r, member, single r member⟩).symm
    · cases once : t.once with
      | false => exact periodic r member
      | true =>
          obtain ⟨r', member', set⟩ := steady.once.mp once
          rw [periodic r' member'] at set
          cases set

section Kinds

variable [DecidableEq F]

theorem lastFiring_ticks {t' : Timer F} (steady : Steady t) (old : origin ≤ t.timerIdx)
    (once : t.once = true) (ticks : Machine.Reach step Ticking t t') :
    (t'.firings origin).length ≤ (t.firings origin).length + 1 := by
  have known : ((Live t' origin ∧ t'.firings origin = t.firings origin) ∨
      (¬ Live t' origin ∧ (t'.firings origin).length ≤ (t.firings origin).length + 1)) ∧
        origin ≤ t'.timerIdx ∧ t'.once = true ∧ Steady t' := by
    induction ticks with
    | refl =>
        refine ⟨?_, old, once, steady⟩
        by_cases live : Live t origin
        · exact .inl ⟨live, rfl⟩
        · exact .inr ⟨live, Nat.le_succ _⟩
    | @tail t₁ t₂ ev before good stepped ih =>
        obtain ⟨firings, old, once, steady⟩ := ih
        have does := step_does steady.sound stepped
        refine ⟨?_, does.timerIdx old, (does.ticking good).2.1.trans once, does.steady steady ?_⟩
        · rcases firings with ⟨live, same⟩ | ⟨dead, few⟩
          · rcases does.lastFiring steady.sound good once origin with same' | ⟨more, dead⟩
            · by_cases live : Live t₂ origin
              · exact .inl ⟨live, same'.trans same⟩
              · exact .inr ⟨live, by rw [same', same]; exact Nat.le_succ _⟩
            · exact .inr ⟨dead, Nat.le_of_eq (by rw [more, same])⟩
          · obtain ⟨dead', same⟩ := does.dead steady.sound old dead
            exact .inr ⟨dead', by rw [same]; exact few⟩
        · rintro order rfl
          exact good
  rcases known.1 with ⟨-, same⟩ | ⟨-, few⟩
  · rw [same]
    exact Nat.le_succ _
  · exact few

/-- A periodic schedule gets longer by one with every period. -/
theorem schedule_length {r : Registration} {inc : Nat} (periodic : r.once = false) (pos : 0 < r.sec)
    (time : r.time ≤ inc) (m : Nat) :
    (r.schedule (inc + m * r.sec)).length = (r.schedule inc).length + m := by
  have later : inc + m * r.sec - r.time = inc - r.time + m * r.sec := by omega
  simp only [Registration.schedule, periodic, Registration.beats, List.length_map, List.length_range,
    later, Nat.add_mul_div_right _ _ pos]
  rfl

/-- **One-shot and periodic timers.** However many ticks follow a history of `register` and
`registerOnce` calls, every callback is invoked exactly when it is due, if and only if all calls
were of one kind. -/
theorem staysOnSchedule_iff (h : History (F := F) Mixing) : h.1.StaysOnSchedule ↔ h.1.OneKind := by
  have steady : Steady h.1 := steady_of_reach .init (fun _ _ idle => idle) h.2
  rw [← uniform_iff_oneKind steady]
  constructor
  · intro stays
    by_contra mixed
    -- a periodic registration beside a one-shot one, at the next tick and two periods later
    obtain ⟨r, member, periodic, once⟩ :
        ∃ r ∈ h.1.registered, r.once = false ∧ h.1.once = true := by
      simp only [not_forall] at mixed
      obtain ⟨r, member, differ⟩ := mixed
      cases kind : r.once with
      | true =>
          rw [kind, steady.once.mpr ⟨r, member, kind⟩] at differ
          exact (differ rfl).elim
      | false =>
          cases once : h.1.once with
          | true => exact ⟨r, member, kind, rfl⟩
          | false =>
              rw [kind, once] at differ
              exact (differ rfl).elim
    obtain ⟨t₁, ticks₁, idle₁, inc₁⟩ := steady.settles
    have steady₁ := steady_of_reach steady (fun _ _ idle => idle) ticks₁
    obtain ⟨registered, once₁, -⟩ := ticking_keeps steady ticks₁
    obtain ⟨t₂, ticks₂, idle₂, inc₂⟩ := steady₁.ticks (2 * r.sec)
    have member₁ : r ∈ t₁.registered := registered ▸ member
    have member₂ : r ∈ t₂.registered := (ticking_keeps steady₁ ticks₂).1 ▸ member₁
    obtain ⟨time, pos⟩ := steady₁.times r member₁
    have fired₁ := stays t₁ ticks₁ idle₁ r member₁
    have fired₂ := stays t₂ (ticks₁.trans ticks₂) idle₂ r member₂
    have few := lastFiring_ticks steady₁ (steady₁.sound.ids r member₁) (once₁.trans once) ticks₂
    rw [fired₁, fired₂, inc₂, schedule_length periodic pos time] at few
    omega
  · exact staysOnSchedule_of_uniform h.2

end Kinds

/-- Two callbacks of every tick, of which one is registered while the other runs. -/
def twice : List (Event Unit) :=
  [.register 1 () false, .timeOut [(1, ⟨(), false, 1⟩)], .register 1 () false, .returned 1]

theorem staysOnSchedule_iff_twice : ∃ h : History (F := Unit) Mixing,
    h.1.registered = [⟨1, 0, 1, false⟩, ⟨2, 1, 1, false⟩] ∧ h.1.StaysOnSchedule := by
  obtain ⟨t, reached, registered⟩ := Machine.exists_of_runs step Mixing init twice
    Timer.registered (show _ = some [⟨1, 0, 1, false⟩, ⟨2, 1, 1, false⟩] by decide)
  refine ⟨⟨t, reached⟩, registered, (staysOnSchedule_iff ⟨t, reached⟩).mpr (.inr ?_)⟩
  rw [registered]
  decide

/-- A callback of every tick, and one that is to be called once. -/
def mixed : List (Event Unit) :=
  [.register 1 () false, .registerOnce 1 () false,
    .timeOut [(1, ⟨(), false, 1⟩), (2, ⟨(), false, 2⟩)], .returned 1, .returned 1, .timeOut []]

/-- The callback of every tick is not called at the second tick. -/
theorem periodic_stopped : ¬ ∀ h : History (F := Unit) Mixing, h.1.StaysOnSchedule := by
  intro stays
  obtain ⟨t, reached, last⟩ := Machine.exists_of_runs step Mixing init mixed
    (fun t => (decide t.Idle, t.registered, t.inc, t.firings 1))
    (show _ = some (true, [⟨1, 0, 1, false⟩, ⟨2, 0, 1, true⟩], 2, [1]) by decide)
  simp only [Prod.mk.injEq, decide_eq_true_eq] at last
  obtain ⟨idle, registered, inc, fired⟩ := last
  have due := stays ⟨t, reached⟩ t .refl idle ⟨1, 0, 1, false⟩ (by rw [registered]; decide)
  rw [fired, inc] at due
  exact absurd due (by decide)

/-! ## Callbacks that raise -/

/-- A callback that raised is not live, and is that of a registration. -/
def Failed (t : Timer F) : Prop :=
  ∀ p ∈ t.raised, ¬ Live t p.2 ∧ ∃ r ∈ t.registered, r.id = p.2

/-- Registrations are only added. -/
theorem Does.registered_mono {t' : Timer F} {ev : Event F} {r : Registration} (does : Does t ev t')
    (member : r ∈ t.registered) : r ∈ t'.registered := by
  cases does with
  | registered => exact List.mem_append_left _ member
  | registeredOnce => exact List.mem_append_left _ member
  | begins =>
      rw [registered_visit]
      exact member
  | ended =>
      rw [registered_visit]
      exact member
  | renewed =>
      rw [registered_visit]
      exact member
  | _ => exact member

theorem Does.failed {t' : Timer F} {ev : Event F} (does : Does t ev t') (steady : Steady t)
    (failed : Failed t) : Failed t' := by
  have sound := steady.sound
  have earlier : ∀ p ∈ t.raised, ¬ Live t' p.2 ∧ ∃ r ∈ t'.registered, r.id = p.2 := by
    intro p member
    obtain ⟨dead, r, enrolled, same⟩ := failed p member
    have old : p.2 ≤ t.timerIdx := same ▸ sound.ids r enrolled
    exact ⟨(does.dead sound old dead).1, r, does.registered_mono enrolled, same⟩
  cases does with
  | begins | ended | renewed =>
      rw [Failed, raised_visit]
      exact earlier
  | @raised n e rest loop =>
      have head : Held t n e := .inr ⟨_, loop, List.mem_cons_self⟩
      intro p member
      rcases List.mem_append.mp member with before | new
      · exact earlier p before
      · cases List.mem_singleton.mp new
        refine ⟨?_, steady.enrolled n e head⟩
        rintro ⟨m, x, held, same, -⟩
        have before := (sound.stop n).1 m x held
        obtain rfl := sound.single m n x e before head same
        obtain rfl := sound.place before head
        exact sound.not_held_stop loop held
  | _ => exact earlier

section Raises

variable [DecidableEq F]

/-- Where no callback has raised, all have returned. -/
theorem periodic_of_no_raise (reached : Machine.Reach step Raising init t) (none : t.raised = []) :
    Machine.Reach step Periodic init t := by
  induction reached with
  | refl => exact .refl
  | @tail t₁ t₂ ev before good stepped ih =>
      have steady : Steady t₁ := steady_of_reach .init (fun _ _ idle => idle) before
      have does := step_does steady.sound stepped
      by_cases raises : ∃ n, ev = .raise n
      · obtain ⟨n, rfl⟩ := raises
        cases does
        exact (List.append_ne_nil_of_right_ne_nil _ (List.cons_ne_nil _ _) none).elim
      · have returns : ∀ n, ev ≠ .raise n := fun n same => raises ⟨n, same⟩
        rw [does.raised_eq returns] at none
        exact .tail (ih none) (good.periodic returns) stepped

/-- **Callbacks that raise.** However many ticks follow a history of `register` calls in which
callbacks return or raise, every callback is invoked exactly when it is due, if and only if none
has raised. -/
theorem staysOnSchedule_iff_no_raise (h : History (F := F) Raising) :
    h.1.StaysOnSchedule ↔ h.1.raised = [] := by
  constructor
  · intro stays
    by_contra some
    have known : Steady h.1 ∧ Failed h.1 ∧ h.1.once = false := by
      refine h.2.invariant (P := fun t => Steady t ∧ Failed t ∧ t.once = false)
        ⟨.init, nofun, rfl⟩ ?_
      rintro t t' e ⟨steady, failed, periodic⟩ good stepped
      have does := step_does steady.sound stepped
      refine ⟨does.steady steady ?_, does.failed steady failed, does.raising good periodic⟩
      rintro order rfl
      exact good
    obtain ⟨steady, failed, periodic⟩ := known
    obtain ⟨p, member⟩ := List.exists_mem_of_ne_nil _ some
    obtain ⟨dead, r, enrolled, same⟩ := failed p member
    have kind : r.once = false := by
      cases kind : r.once with
      | false => rfl
      | true =>
          have set := steady.once.mpr ⟨r, enrolled, kind⟩
          rw [periodic] at set
          cases set
    -- after the loop under way, and one period later
    obtain ⟨t₁, ticks₁, idle₁, -⟩ := steady.settles
    have steady₁ := steady_of_reach steady (fun _ _ idle => idle) ticks₁
    obtain ⟨t₂, ticks₂, idle₂, inc₂⟩ := steady₁.ticks (1 * r.sec)
    have member₁ : r ∈ t₁.registered := (ticking_keeps steady ticks₁).1 ▸ enrolled
    have member₂ : r ∈ t₂.registered := (ticking_keeps steady₁ ticks₂).1 ▸ member₁
    obtain ⟨time, pos⟩ := steady₁.times r member₁
    have old : r.id ≤ h.1.timerIdx := steady.sound.ids r enrolled
    rw [← same] at dead
    obtain ⟨dead₁, -⟩ := dead_ticks steady old dead ticks₁
    obtain ⟨-, stuck⟩ := dead_ticks steady₁ (steady₁.sound.ids r member₁) dead₁ ticks₂
    have fired₁ := stays t₁ ticks₁ idle₁ r member₁
    have fired₂ := stays t₂ (ticks₁.trans ticks₂) idle₂ r member₂
    have length := schedule_length kind pos time 1
    rw [← inc₂, ← fired₁, ← fired₂, stuck] at length
    omega
  · intro none
    exact staysOnSchedule_of_periodic (periodic_of_no_raise h.2 none)

end Raises

theorem staysOnSchedule_iff_no_raise_twice : ∃ h : History (F := Unit) Raising,
    h.1.registered = [⟨1, 0, 1, false⟩, ⟨2, 1, 1, false⟩] ∧ h.1.StaysOnSchedule := by
  obtain ⟨t, reached, last⟩ := Machine.exists_of_runs step Raising init twice
    (fun t => (t.registered, t.raised)) (show _ = some ([⟨1, 0, 1, false⟩, ⟨2, 1, 1, false⟩], [])
      by decide)
  obtain ⟨registered, none⟩ := Prod.mk.inj last
  exact ⟨⟨t, reached⟩, registered, (staysOnSchedule_iff_no_raise ⟨t, reached⟩).mpr none⟩

/-- Two callbacks of every tick, of which the one that is called first raises. -/
def firstRaises : List (Event Unit) :=
  [.register 1 () false, .register 1 () false, .timeOut [(1, ⟨(), false, 1⟩), (2, ⟨(), false, 2⟩)],
    .raise 1]

/-- The other one is not called at that tick. -/
theorem other_callback_skipped : ¬ ∀ h : History (F := Unit) Raising, h.1.StaysOnSchedule := by
  intro stays
  obtain ⟨t, reached, last⟩ := Machine.exists_of_runs step Raising init firstRaises
    (fun t => (decide t.Idle, t.registered, t.inc, t.firings 2))
    (show _ = some (true, [⟨1, 0, 1, false⟩, ⟨2, 0, 1, false⟩], 1, []) by decide)
  simp only [Prod.mk.injEq, decide_eq_true_eq] at last
  obtain ⟨idle, registered, inc, fired⟩ := last
  have due := stays ⟨t, reached⟩ t .refl idle ⟨2, 0, 1, false⟩ (by rw [registered]; decide)
  rw [fired, inc] at due
  exact absurd due (by decide)

end RillServer.Wheel
