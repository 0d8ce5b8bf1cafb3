import RillServer.Session.Center

/-!
# Whose record a logout deletes

`dispatch.logout` compares the key before it asks the agent to leave and deletes the record after
the agent answered. This module runs the center by itself: any commands at any time, and any
answers of the gates and the agents, in any order (`alone`).

While a logout is suspended the record of its uid can go away (another logout of the same key) and
a login can then store the record of a new session, which the first logout deletes when its own
answer arrives (`logout_deletes_later_login`). That order is the only one that goes wrong: when no
login stores a record under a uid while a logout of another key is suspended there
(`StoresAfterLogouts`), a logout deletes a record of its own key or none.
-/

namespace RillServer.Center

open Coroutine

/-- The center with everything else outside: the gates and the agents answer what they like. -/
def alone : Code Users Val CenterReq Req Pc Val where
  serve answer users
    | .center r => serve users r
    | _ => (users, .ret answer)
  resume _ users pc ret := resume users pc ret
  arrive command users := some (users, some (.center command))

/-- A center that has no command in progress. -/
def idle (users : Users) : World Users Req Pc Val := ⟨users, fun _ => none⟩

/-- The record that the next segment of an activity stores, when that segment is one of `login`
that stores a record. -/
def storing (users : Users) : Activity Req Pc Val → Option (Uid × User)
  | .calling (.center (.login uid data)) _ =>
      if (users uid).isNone then some (uid, data) else none
  | .returning ret (.loginKick uid data :: _) =>
      if ret.truthy ∧ (users uid).isNone then some (uid, data) else none
  | _ => none

/-- The `logout` call, if any, that the next segment of an activity belongs to. -/
def logoutOf : Activity Req Pc Val → Option (Uid × Key)
  | .calling (.center (.logout uid key)) _ => some (uid, key)
  | .returning _ (.logoutKick uid key :: _) => some (uid, key)
  | _ => none

/-- No login stores a record under a uid while a logout of that uid with another key is suspended
in its call to the agent. -/
def StoresAfterLogouts (w : World Users Req Pc Val) : Event Val CenterReq → Prop
  | .run id _ => ∀ a uid data key, w.acts id = some a → storing w.shared a = some (uid, data) →
      w.Suspended (.logoutKick uid key) → data.key = key
  | .arrive _ _ => True

/-- In every run whose steps satisfy `guard`, from a center with these records and no command in
progress, a segment of `logout(uid, key)` that removes the record of `uid` removes one that
carries `key`. -/
def LogoutOwnership (guard : World Users Req Pc Val → Event Val CenterReq → Prop)
    (users : Users) : Prop :=
  ∀ w w' id answer a uid key user, alone.Reach guard (idle users) w →
    w.acts id = some a → logoutOf a = some (uid, key) →
    alone.step w (.run id answer) = some w' →
    w.shared uid = some user → w'.shared uid = none → user.key = key

/-- Some logout of this uid and key is suspended in its call to the agent. -/
def Waiting (w : World Users Req Pc Val) (uid : Uid) (key : Key) : Prop :=
  w.Suspended (.logoutKick uid key)

theorem owned_step {w w' : World Users Req Pc Val} {e : Event Val CenterReq}
    (owned : Owned (Waiting w) w.shared) (good : StoresAfterLogouts w e)
    (stepped : alone.step w e = some w') : Owned (Waiting w') w'.shared := by
  rcases Code.step_cases stepped with ⟨id, o, a, s', a', rfl, found, moved, rfl⟩ |
    ⟨_, _, s', -, happened, rfl⟩ | ⟨id, x, s', r, -, -, happened, rfl⟩
  · rcases Code.advance_cases moved with ⟨r, st, out, rfl, run, rfl⟩ |
      ⟨v, pc, st, out, rfl, run, rfl⟩
    · have next : ∀ uid key, Waiting ⟨s', Function.update w.acts id (some (out.settle st))⟩ uid key →
          (∃ q, out = .call q (.logoutKick uid key)) ∨ Waiting w uid key :=
        fun _ _ susp => susp.of_run found fun _ member => member
      cases r with
      | center c =>
          have served := serve_spec w.shared c
          rw [show serve w.shared c = (s', out) from run] at served
          refine owned.served served ?_ next
          rintro uid data key rfl free waits
          exact good _ uid data key found (by simp [storing, free]) waits
      | login | gate | pool | agent | outside =>
          -- an answer from outside the center
          cases run
          refine owned.of_sub ?_ fun _ user stored => ⟨user, stored, rfl⟩
          intro uid key waits
          rcases next uid key waits with ⟨q, stopped⟩ | earlier
          · cases stopped
          · exact earlier
    · have resumed := resume_spec w.shared pc v
      rw [show resume w.shared pc v = (s', out) from run] at resumed
      refine owned.resumed resumed ?_ ?_
      · rintro uid data key rfl truth free waits
        exact good _ uid data key found (by simp [storing, truth, free]) waits
      · intro uid key waits
        rcases waits.of_run found fun _ member => List.mem_cons_of_mem _ member with
          ⟨q, stopped⟩ | earlier
        · cases resumed <;> cases stopped
        · exact earlier
  · cases happened
  · cases happened
    exact owned.of_sub (fun _ _ waits => waits.of_begin) fun _ user stored => ⟨user, stored, rfl⟩

/-- In every run that satisfies the guard, a suspended logout still finds its own record, or
none. -/
theorem owned_of_reach {users : Users} {w : World Users Req Pc Val}
    (reached : alone.Reach StoresAfterLogouts (idle users) w) : Owned (Waiting w) w.shared :=
  reached.invariant (P := fun w => Owned (Waiting w) w.shared)
    (fun _ _ waits => (World.not_suspended (fun _ => rfl) _ waits).elim) owned_step

/-- A first segment of `logout` that removes the record has found it under its own key. -/
theorem key_of_logout_drop {users users' : Users} {uid : Uid} {key : Key} {out : Out} {user : User}
    (served : Served users (.logout uid key) users' out) (stored : users uid = some user)
    (gone : users' uid = none) : user.key = key := by
  cases served with
  | dropped found unset =>
      rw [stored] at found
      exact congrArg User.key (Option.some.inj found)
  | leaving _ _ | absent _ | foreign _ _ =>
      rw [stored] at gone
      cases gone

/-- **Logout ownership.** As long as no login stores a record over a suspended logout of another
key, a logout removes a record of its own key or none. -/
theorem logout_deletes_own_record (users : Users) :
    LogoutOwnership StoresAfterLogouts users := by
  intro w w' id answer a uid key user reached found isLogout stepped stored gone
  have owned := owned_of_reach reached
  cases a with
  | calling r st =>
      cases r with
      | center c =>
          cases c with
          | logout uid₁ key₁ =>
              simp only [logoutOf, Option.some.injEq, Prod.mk.injEq] at isLogout
              obtain ⟨rfl, rfl⟩ := isLogout
              simp only [Code.step, found, Code.advance, alone, Option.some.injEq] at stepped
              subst stepped
              exact key_of_logout_drop (serve_spec w.shared (.logout uid₁ key₁)) stored gone
          | login | register | watch => cases isLogout
      | login | gate | pool | agent | outside => cases isLogout
  | returning ret st =>
      cases st with
      | nil => cases isLogout
      | cons pc st =>
          cases pc with
          | loginKick => cases isLogout
          | logoutKick uid₁ key₁ =>
              simp only [logoutOf, Option.some.injEq, Prod.mk.injEq] at isLogout
              obtain ⟨rfl, rfl⟩ := isLogout
              exact owned uid₁ key₁ ⟨id, _, found, List.mem_cons_self⟩ user stored

/-- Two logouts of one session overlap, as a kick and a disconnect do; a login stores the next
session of uid 1 (key 3) between their deletions. -/
def overlappingLogouts : List (Event Val CenterReq) :=
  [.arrive 0 (.login 1 ⟨10, 7, 2, none, false⟩), .run 0 .nil,
    .arrive 1 (.register 1 20 2), .run 1 .nil,
    .arrive 2 (.logout 1 2), .run 2 .nil, .arrive 3 (.logout 1 2), .run 3 .nil,
    .run 2 (.bool true), .run 2 .nil,
    .arrive 4 (.login 1 ⟨11, 7, 3, none, false⟩), .run 4 .nil,
    .run 3 (.bool true)]

/-- Without the guard, the logout of key 2 deletes the record that the login with key 3 stored. -/
theorem logout_deletes_later_login : ¬ LogoutOwnership (fun _ _ => True) fun _ => none := by
  intro owned
  have ran : (alone.runs (idle fun _ => none) overlappingLogouts).map
      (fun w => (w.acts 3, w.shared 1)) =
        some (some (.returning (.bool true) [.logoutKick 1 2]),
          some ⟨11, 7, 3, none, false⟩) := rfl
  obtain ⟨w, run, facts⟩ := Option.map_eq_some_iff.mp ran
  simp only [Prod.mk.injEq] at facts
  obtain ⟨pending, stored⟩ := facts
  have stepped : alone.step w (.run 3 .nil) = some
      ⟨Function.update w.shared 1 none,
        Function.update w.acts 3 (some (.returning (.bool true) []))⟩ := by
    simp only [Code.step, pending, Code.advance]
    rfl
  have same : (3 : Key) = 2 := owned w _ 3 .nil _ 1 2 _ (Code.Reach.refl.of_runs run) pending rfl
    stepped stored (by simp)
  cases same

end RillServer.Center
