import Mathlib.Data.List.Infix

/-!
# Saving the data of a player

`mod/agent/agent_info.lua` and `agent_login.lua`. `check_save_agent_info` schedules its own next
run as long as `need_loop` is set and then saves; `env.login` starts this loop, `env.logout` clears
`need_loop` and saves once more. Each kind of player data is written when its hash has changed
since the last attempt.

`need_loop` is set when the service is launched and never again, while agents are reused through
the pool. The loop runs in an agent's sessions up to the first logout and in no later one
(`savesThroughout_iff`).

The commands of an agent wait for each other (`cs`), so each is one step here; timers do not, and
may expire between any two steps. The order of `pairs` over the tables is the order of the list.
-/

namespace RillServer.AgentSave

variable {K D H : Type}

/-- One entry of `other_info`. -/
structure Entry (K D H : Type) where
  key : K
  data : D
  hashcode : Option H

/-- `load_info`: what was read from the database has no hash yet. -/
def loadInfo (loaded : K × D) : Entry K D H := ⟨loaded.1, loaded.2, none⟩

section Save

variable [DecidableEq H] (hash : D → H) (raises : K → Bool)

/-- `save_agent_info`: the entries afterwards, the calls of `set_playerdata` that were made and
whether it returned. `raises` says for which keys that call raises. -/
def saveAgentInfo : List (Entry K D H) → List (Entry K D H) × List (K × D) × Bool
  | [] => ([], [], true)
  | e :: es =>
      let nowCode := hash e.data
      if e.hashcode ≠ some nowCode then
        let e' := { e with hashcode := some nowCode }
        if raises e.key then (e' :: es, [(e.key, e.data)], false)
        else
          let (es', written, returned) := saveAgentInfo es
          (e' :: es', (e.key, e.data) :: written, returned)
      else
        let (es', written, returned) := saveAgentInfo es
        (e :: es', written, returned)

/-- The first save after loading writes everything, so it returns when no write raises. -/
theorem saveAgentInfo_loaded (loaded : List (K × D)) :
    (saveAgentInfo hash raises (loaded.map loadInfo)).2.2 = loaded.all fun entry => !raises entry.1 := by
  induction loaded with
  | nil => rfl
  | cons entry loaded ih =>
      cases raised : raises entry.1 with
      | true => simp [saveAgentInfo, loadInfo, raised]
      | false => simpa [saveAgentInfo, loadInfo, raised] using ih

end Save

/-- An agent as far as saving goes. `timers` counts the pending timeouts of
`check_save_agent_info`; `inSession` says whether a `CMD.start` completed and no `CMD.kick` or
`CMD.disconnect` came after it. -/
structure Agent (K D H : Type) where
  needLoop : Bool
  timers : Nat
  otherInfo : List (Entry K D H)
  inSession : Bool

/-- A service that was just launched. -/
def launched : Agent K D H := ⟨true, 0, [], false⟩

/-- What can happen to an agent. `CMD.start` reads the player's data, which may raise with some of
it read; `CMD.kick` calls `kick_room` first, which may raise. -/
inductive Event (K D : Type) where
  | start (loaded : List (K × D)) (loads : Bool) (raises : K → Bool)
  | kick (roomLeft : Bool) (raises : K → Bool)
  | disconnect (raises : K → Bool)
  | expire (raises : K → Bool)

section Steps

variable [DecidableEq H] (hash : D → H)

/-- `save_agent_info` on an agent. -/
def save (a : Agent K D H) (raises : K → Bool) : Agent K D H × Bool :=
  let (otherInfo, _, returned) := saveAgentInfo hash raises a.otherInfo
  ({ a with otherInfo }, returned)

/-- `check_save_agent_info`: first the next timeout, then the save. -/
def checkSave (a : Agent K D H) (raises : K → Bool) : Agent K D H × Bool :=
  save hash (if a.needLoop then { a with timers := a.timers + 1 } else a) raises

/-- `env.logout`. -/
def logout (a : Agent K D H) (raises : K → Bool) : Agent K D H :=
  (save hash { a with needLoop := false } raises).1

def step (a : Agent K D H) : Event K D → Agent K D H
  | .start loaded loads raises =>
      let a := { a with otherInfo := loaded.map loadInfo }
      if loads then
        let (a, returned) := checkSave hash a raises
        { a with inSession := a.inSession || returned }
      else a
  | .kick roomLeft raises =>
      let a := { a with inSession := false }
      if roomLeft then logout hash a raises else a
  | .disconnect raises => logout hash { a with inSession := false } raises
  | .expire raises =>
      match a.timers with
      | 0 => a
      | timers + 1 => (checkSave hash { a with timers } raises).1

def run (a : Agent K D H) (events : List (Event K D)) : Agent K D H := events.foldl (step hash) a

end Steps

/-- During a session a timeout is pending, and it will schedule the next one. -/
def PeriodicSaving (a : Agent K D H) : Prop :=
  a.inSession = true → 0 < a.timers ∧ a.needLoop = true

/-- Periodic saving after every initial part of a sequence of events. -/
def SavesThroughout [DecidableEq H] (hash : D → H) (a : Agent K D H) (events : List (Event K D)) :
    Prop :=
  ∀ past, past <+: events → PeriodicSaving (run hash a past)

/-- The event is a `CMD.start` that returns. -/
def Event.starts : Event K D → Bool
  | .start loaded loads raises => loads && loaded.all fun entry => !raises entry.1
  | _ => false

/-- The event runs `env.logout`. -/
def Event.logsOut : Event K D → Bool
  | .kick roomLeft _ => roomLeft
  | .disconnect _ => true
  | _ => false

/-- No `CMD.start` completes after an `env.logout` was run; `stopped` says whether one was run
already. -/
def StartsBeforeLogout : Bool → List (Event K D) → Prop
  | _, [] => True
  | stopped, e :: events =>
      ¬ (stopped = true ∧ e.starts = true) ∧ StartsBeforeLogout (stopped || e.logsOut) events

/-! ## The loop -/

section Loop

variable [DecidableEq H] (hash : D → H) (a : Agent K D H) (raises : K → Bool)

@[simp] theorem save_needLoop : (save hash a raises).1.needLoop = a.needLoop := rfl

@[simp] theorem save_timers : (save hash a raises).1.timers = a.timers := rfl

@[simp] theorem save_inSession : (save hash a raises).1.inSession = a.inSession := rfl

@[simp] theorem checkSave_needLoop : (checkSave hash a raises).1.needLoop = a.needLoop := by
  unfold checkSave
  split <;> simp

@[simp] theorem checkSave_timers :
    (checkSave hash a raises).1.timers = if a.needLoop then a.timers + 1 else a.timers := by
  unfold checkSave
  split <;> simp

@[simp] theorem checkSave_inSession : (checkSave hash a raises).1.inSession = a.inSession := by
  unfold checkSave
  split <;> simp

theorem checkSave_returned (loaded : List (K × D)) :
    (checkSave hash { a with otherInfo := loaded.map loadInfo } raises).2 =
      loaded.all fun entry => !raises entry.1 := by
  have save_returned : ∀ b : Agent K D H, b.otherInfo = loaded.map loadInfo →
      (save hash b raises).2 = loaded.all fun entry => !raises entry.1 := by
    intro b same
    rw [← saveAgentInfo_loaded hash raises loaded, ← same]
    rfl
  unfold checkSave
  split
  · exact save_returned _ rfl
  · exact save_returned _ rfl

variable {hash a}

/-- The loop while no logout ran, and what a session needs. -/
structure Looping (stopped : Bool) (a : Agent K D H) : Prop where
  needLoop : a.needLoop = !stopped
  saving : PeriodicSaving a

omit [DecidableEq H] in
theorem Looping.launched : Looping false (launched : Agent K D H) :=
  ⟨rfl, fun inSession => by cases inSession⟩

/-- A start that does not come after a logout keeps the loop going, and so does every other
event. -/
theorem Looping.step {stopped : Bool} (loop : Looping stopped a) {e : Event K D}
    (early : ¬ (stopped = true ∧ e.starts = true)) :
    Looping (stopped || e.logsOut) (step hash a e) := by
  obtain ⟨needLoop, saving⟩ := loop
  cases e with
  | start loaded loads raises =>
      simp only [Event.logsOut, Bool.or_false]
      cases loads with
      | false => exact ⟨needLoop, saving⟩
      | true =>
          have returned := checkSave_returned hash a raises loaded
          refine ⟨by simpa [AgentSave.step] using needLoop, ?_⟩
          intro inSession
          simp only [AgentSave.step, if_true, checkSave_inSession, Bool.or_eq_true, returned,
            checkSave_timers, checkSave_needLoop] at inSession ⊢
          cases stopped with
          | false =>
              have loops : a.needLoop = true := needLoop
              rw [if_pos loops]
              exact ⟨Nat.succ_pos _, loops⟩
          | true =>
              have stays : a.needLoop = false := needLoop
              have silent : (loaded.all fun entry => !raises entry.1) = false := by
                simpa [Event.starts] using early
              rw [silent] at inSession
              have before : a.inSession = true := by simpa using inSession
              rw [(saving before).2] at stays
              cases stays
  | kick roomLeft raises =>
      simp only [Event.logsOut, AgentSave.step]
      cases roomLeft with
      | false => exact ⟨by simpa using needLoop, fun inSession => by cases inSession⟩
      | true => exact ⟨by simp [logout], fun inSession => by cases inSession⟩
  | disconnect raises => exact ⟨by simp [AgentSave.step, logout, Event.logsOut],
      fun inSession => by cases inSession⟩
  | expire raises =>
      simp only [Event.logsOut, Bool.or_false, AgentSave.step]
      split
      · exact ⟨needLoop, saving⟩
      · rename_i timers pending
        refine ⟨by simpa using needLoop, ?_⟩
        intro inSession
        have before : a.inSession = true := by simpa using inSession
        have loops := (saving before).2
        exact ⟨by simp [loops], by simpa using loops⟩

/-- A start after a logout opens a session without the loop. -/
theorem not_saving_of_late {stopped : Bool} (loop : Looping stopped a) {e : Event K D}
    (late : stopped = true ∧ e.starts = true) : ¬ PeriodicSaving (step hash a e) := by
  obtain ⟨rfl, starts⟩ := late
  cases e with
  | start loaded loads raises =>
      obtain ⟨loads, returns⟩ := Bool.and_eq_true_iff.mp starts
      subst loads
      have returned := checkSave_returned hash a raises loaded
      rw [returns] at returned
      intro saving
      have inSession : (AgentSave.step hash a (.start loaded true raises)).inSession = true := by
        simp [AgentSave.step, returned]
      have loops := (saving inSession).2
      have stays : a.needLoop = false := loop.needLoop
      simp [AgentSave.step, stays] at loops
  | kick | disconnect | expire => cases starts

theorem savesThroughout_cons (e : Event K D) (events : List (Event K D)) :
    SavesThroughout hash a (e :: events) ↔
      PeriodicSaving a ∧ SavesThroughout hash (step hash a e) events := by
  constructor
  · intro saves
    refine ⟨saves [] List.nil_prefix, fun past initial => ?_⟩
    exact saves (e :: past) (List.cons_prefix_cons.mpr ⟨rfl, initial⟩)
  · rintro ⟨now, later⟩ past initial
    cases past with
    | nil => exact now
    | cons e' past =>
        obtain ⟨rfl, rest⟩ := List.cons_prefix_cons.mp initial
        exact later past rest

theorem savesThroughout_iff_of_looping {stopped : Bool} (loop : Looping stopped a)
    (events : List (Event K D)) :
    SavesThroughout hash a events ↔ StartsBeforeLogout stopped events := by
  induction events generalizing a stopped with
  | nil =>
      refine ⟨fun _ => True.intro, fun _ past initial => ?_⟩
      rw [List.prefix_nil.mp initial]
      exact loop.saving
  | cons e events ih =>
      rw [savesThroughout_cons, StartsBeforeLogout]
      by_cases late : stopped = true ∧ e.starts = true
      · refine ⟨fun saves => ?_, fun early => (early.1 late).elim⟩
        exact (not_saving_of_late loop late (saves.2 [] List.nil_prefix)).elim
      · rw [ih (loop.step late)]
        exact ⟨fun saves => ⟨late, saves.2⟩, fun early => ⟨loop.saving, early.2⟩⟩

end Loop

/-- **Periodic saving.** The data of a player is saved periodically in every session of an agent
exactly when no session begins after a logout. -/
theorem savesThroughout_iff [DecidableEq H] (hash : D → H) (events : List (Event K D)) :
    SavesThroughout hash launched events ↔ StartsBeforeLogout false events :=
  savesThroughout_iff_of_looping Looping.launched events

/-- The second session of an agent is not saved periodically. -/
theorem second_session_not_saved : ¬ ∀ events : List (Event Unit Nat),
    SavesThroughout (id : Nat → Nat) launched events := by
  intro saves
  let calm : Unit → Bool := fun _ => false
  have saving := saves [.start [((), 1)] true calm, .kick true calm, .start [((), 2)] true calm] _
    (List.prefix_refl _)
  have loops := (saving rfl).2
  cases loops

end RillServer.AgentSave
