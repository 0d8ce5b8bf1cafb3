import RillServer.Session.Messages

/-!
# The center

`mod/center/login.lua`. The center keeps one record per uid. `login` suspends while the gate
closes the previous connection of the uid, `logout` suspends while the agent is told to leave;
`register` never suspends. Each definition below is one segment between two suspensions.
-/

namespace RillServer.Center

open Coroutine

/-- `env.users`. -/
abbrev Users := Uid → Option User

/-- Where a center coroutine can be suspended. -/
inductive Pc where
  /-- `dispatch.login`, in `skynet.call(user.gate, 'lua', 'kick', user.fd)` -/
  | loginKick (uid : Uid) (data : User)
  /-- `dispatch.logout`, in `skynet.call(user.agent, 'lua', 'kick', uid, season)` -/
  | logoutKick (uid : Uid) (key : Key)
  deriving DecidableEq

abbrev Out := Outcome Req Pc Val

def login (users : Users) (uid : Uid) (data : User) : Users × Out :=
  match users uid with
  | none => (Function.update users uid (some data), .ret (.bool true))
  | some user =>
      match user.agent with
      | none => (users, .ret (.bool false))
      | some _ => (users, .call (.gate user.gate (.closeAgent user.fd)) (.loginKick uid data))

/-- `dispatch.login` after the gate answered `ret`. -/
def loginKicked (users : Users) (uid : Uid) (data : User) (ret : Val) : Users × Out :=
  match ret with
  | .raise => (users, .ret .raise)
  | ret =>
      if ret.truthy then
        match users uid with
        | some _ => (users, .ret (.bool false))
        | none => (Function.update users uid (some data), .ret (.bool true))
      else (users, .ret (.bool false))

def register (users : Users) (uid : Uid) (agent : Addr) (key : Key) : Users × Out :=
  match users uid with
  | none => (users, .ret (.bool false))
  | some user =>
      if user.key ≠ key then (users, .ret (.bool false))
      else if user.agent.isSome then (users, .ret (.bool false))
      else
        (Function.update users uid (some { user with agent := some agent, logined := true }),
          .ret (.bool true))

def logout (users : Users) (uid : Uid) (key : Key) : Users × Out :=
  match users uid with
  | none => (users, .ret (.bool true))
  | some user =>
      if user.key ≠ key then (users, .ret (.bool false))
      else
        match user.agent with
        | some agent => (users, .call (.agent agent (.kick uid)) (.logoutKick uid key))
        | none => (Function.update users uid none, .ret (.bool true))

/-- `dispatch.logout` after the agent answered `ret`. The key is not compared again. -/
def logoutKicked (users : Users) (uid : Uid) (ret : Val) : Users × Out :=
  match ret with
  | .raise => (users, .ret .raise)
  | ret =>
      if ret.truthy then (Function.update users uid none, .ret (.bool true))
      else (users, .ret (.bool false))

/-- `lua_dispatch` runs a command under `xpcall` and answers a failed one with an empty
`skynet.ret()`, so an error of a center command reaches its caller as `nil`. -/
def luaDispatch : Users × Out → Users × Out
  | (users, .ret .raise) => (users, .ret .nil)
  | r => r

def serve (users : Users) : CenterReq → Users × Out
  | .login uid data => luaDispatch (login users uid data)
  | .register uid agent key => luaDispatch (register users uid agent key)
  | .logout uid key => luaDispatch (logout users uid key)
  | .watch => (users, .ret .watch)

def resume (users : Users) : Pc → Val → Users × Out
  | .loginKick uid data, ret => luaDispatch (loginKicked users uid data ret)
  | .logoutKick uid _, ret => luaDispatch (logoutKicked users uid ret)

/-! ## What a segment can do -/

/-- Everything the first segment of a command can do. -/
inductive Served (users : Users) : CenterReq → Users → Out → Prop
  | stored {uid : Uid} {data : User} : users uid = none →
    Served users (.login uid data) (Function.update users uid (some data)) (.ret (.bool true))
  | kicking {uid : Uid} {data user : User} : users uid = some user →
    Served users (.login uid data) users
      (.call (.gate user.gate (.closeAgent user.fd)) (.loginKick uid data))
  | refused {uid : Uid} {data : User} : (users uid).isSome →
    Served users (.login uid data) users (.ret (.bool false))
  | marked {uid : Uid} {agent : Addr} {user : User} : users uid = some user →
    user.agent = none →
    Served users (.register uid agent user.key)
      (Function.update users uid (some { user with agent := some agent, logined := true }))
      (.ret (.bool true))
  | unmarked {uid : Uid} {agent : Addr} {key : Key} :
    Served users (.register uid agent key) users (.ret (.bool false))
  | dropped {uid : Uid} {user : User} : users uid = some user → user.agent = none →
    Served users (.logout uid user.key) (Function.update users uid none) (.ret (.bool true))
  | leaving {uid : Uid} {agent : Addr} {user : User} : users uid = some user →
    user.agent = some agent →
    Served users (.logout uid user.key) users
      (.call (.agent agent (.kick uid)) (.logoutKick uid user.key))
  | absent {uid : Uid} {key : Key} : users uid = none →
    Served users (.logout uid key) users (.ret (.bool true))
  | foreign {uid : Uid} {key : Key} {user : User} : users uid = some user → user.key ≠ key →
    Served users (.logout uid key) users (.ret (.bool false))
  | watched : Served users .watch users (.ret .watch)

/-- Everything a suspended command can do when its answer arrives. -/
inductive Resumed (users : Users) : Pc → Val → Users → Out → Prop
  | stored {uid : Uid} {data : User} {ret : Val} : ret.truthy = true → users uid = none →
    Resumed users (.loginKick uid data) ret (Function.update users uid (some data))
      (.ret (.bool true))
  | dropped {uid : Uid} {key : Key} {ret : Val} : ret.truthy = true →
    Resumed users (.logoutKick uid key) ret (Function.update users uid none) (.ret (.bool true))
  | failed {pc : Pc} {ret v : Val} : v = .nil ∨ v = .bool false →
    Resumed users pc ret users (.ret v)

theorem serve_spec (users : Users) (r : CenterReq) :
    Served users r (serve users r).1 (serve users r).2 := by
  cases r with
  | login uid data =>
      cases stored : users uid with
      | none => simpa [serve, login, stored, luaDispatch] using Served.stored stored
      | some user =>
          cases agent : user.agent with
          | none =>
              have step : Served users (.login uid data) users (.ret (.bool false)) :=
                .refused (by simp [stored])
              simpa [serve, login, stored, agent, luaDispatch] using step
          | some a =>
              have step : Served users (.login uid data) users _ := .kicking stored
              simpa [serve, login, stored, agent, luaDispatch] using step
  | register uid agent key =>
      cases stored : users uid with
      | none => simpa [serve, register, stored, luaDispatch] using Served.unmarked
      | some user =>
          by_cases same : user.key = key
          · subst same
            cases unset : user.agent with
            | none => simpa [serve, register, stored, unset, luaDispatch] using
                Served.marked stored unset
            | some a => simpa [serve, register, stored, unset, luaDispatch] using Served.unmarked
          · simpa [serve, register, stored, same, luaDispatch] using Served.unmarked
  | logout uid key =>
      cases stored : users uid with
      | none => simpa [serve, logout, stored, luaDispatch] using Served.absent stored
      | some user =>
          by_cases same : user.key = key
          · subst same
            cases agent : user.agent with
            | none => simpa [serve, logout, stored, agent, luaDispatch] using
                Served.dropped stored agent
            | some a => simpa [serve, logout, stored, agent, luaDispatch] using
                Served.leaving stored agent
          · simpa [serve, logout, stored, same, luaDispatch] using Served.foreign stored same
  | watch => exact Served.watched

theorem resume_spec (users : Users) (pc : Pc) (ret : Val) :
    Resumed users pc ret (resume users pc ret).1 (resume users pc ret).2 := by
  by_cases raised : ret = .raise
  · subst raised
    cases pc <;> exact Resumed.failed (.inl rfl)
  · cases pc with
    | loginKick uid data =>
        cases truth : ret.truthy with
        | false =>
            simpa [resume, loginKicked, truth, luaDispatch, raised] using
              Resumed.failed (.inr rfl)
        | true =>
            cases stored : users uid with
            | none =>
                simpa [resume, loginKicked, truth, stored, luaDispatch] using
                  Resumed.stored truth stored
            | some user =>
                simpa [resume, loginKicked, truth, stored, luaDispatch] using
                  Resumed.failed (.inr rfl)
    | logoutKick uid key =>
        cases truth : ret.truthy with
        | false =>
            simpa [resume, logoutKicked, truth, luaDispatch, raised] using
              Resumed.failed (.inr rfl)
        | true =>
            simpa [resume, logoutKicked, truth, luaDispatch] using Resumed.dropped truth

/-! ## Logouts in progress -/

/-- Every logout that is suspended in its call to the agent, by `waiting`, still finds its own
record under its uid, or none. -/
def Owned (waiting : Uid → Key → Prop) (users : Users) : Prop :=
  ∀ uid key, waiting uid key → ∀ user, users uid = some user → user.key = key

section Owned

variable {waiting waiting' : Uid → Key → Prop} {users users' : Users}

/-- Records that are left in place keep their key. -/
theorem Owned.of_sub (owned : Owned waiting users)
    (fewer : ∀ uid key, waiting' uid key → waiting uid key)
    (records : ∀ uid user', users' uid = some user' →
      ∃ user, users uid = some user ∧ user.key = user'.key) : Owned waiting' users' := by
  intro uid key waits user' stored'
  obtain ⟨user, stored, same⟩ := records uid user' stored'
  rw [← same]
  exact owned uid key (fewer uid key waits) user stored

theorem Owned.of_store (owned : Owned waiting users) {uid : Uid} {data : User}
    (fewer : ∀ uid key, waiting' uid key → waiting uid key)
    (own : ∀ key, waiting uid key → data.key = key) :
    Owned waiting' (Function.update users uid (some data)) := by
  intro uid' key waits user' stored'
  by_cases here : uid' = uid
  · subst here
    simp only [Function.update_self, Option.some.injEq] at stored'
    subst stored'
    exact own key (fewer uid' key waits)
  · rw [Function.update_of_ne here] at stored'
    exact owned uid' key (fewer uid' key waits) user' stored'

theorem Owned.of_drop (owned : Owned waiting users) {uid : Uid}
    (fewer : ∀ uid key, waiting' uid key → waiting uid key) :
    Owned waiting' (Function.update users uid none) := by
  apply owned.of_sub fewer
  intro uid' user' stored'
  by_cases here : uid' = uid
  · subst here
    simp at stored'
  · rw [Function.update_of_ne here] at stored'
    exact ⟨user', stored', rfl⟩

theorem Owned.of_mark (owned : Owned waiting users) {uid : Uid} {user marked : User}
    (fewer : ∀ uid key, waiting' uid key → waiting uid key)
    (stored : users uid = some user) (same : marked.key = user.key) :
    Owned waiting' (Function.update users uid (some marked)) := by
  apply owned.of_sub fewer
  intro uid' user' stored'
  by_cases here : uid' = uid
  · subst here
    simp only [Function.update_self, Option.some.injEq] at stored'
    subst stored'
    exact ⟨user, stored, same.symm⟩
  · rw [Function.update_of_ne here] at stored'
    exact ⟨user', stored', rfl⟩

/-- The first segment of a command keeps suspended logouts with their own records, as long as it
stores no record over one of another key. -/
theorem Owned.served (owned : Owned waiting users) {r : CenterReq} {out : Out}
    (served : Served users r users' out)
    (store : ∀ uid data key, r = .login uid data → users uid = none → waiting uid key →
      data.key = key)
    (next : ∀ uid key, waiting' uid key →
      (∃ q, out = .call q (.logoutKick uid key)) ∨ waiting uid key) : Owned waiting' users' := by
  have fewer : (∀ q uid key, out ≠ .call q (.logoutKick uid key)) →
      ∀ uid key, waiting' uid key → waiting uid key := by
    intro silent uid key waits
    rcases next uid key waits with ⟨q, stopped⟩ | earlier
    · exact (silent q uid key stopped).elim
    · exact earlier
  have same : ∀ uid user', users uid = some user' →
      ∃ user, users uid = some user ∧ user.key = user'.key := fun _ user stored => ⟨user, stored, rfl⟩
  cases served with
  | stored free => exact owned.of_store (fewer (by simp)) fun key => store _ _ key rfl free
  | marked stored _ => exact owned.of_mark (fewer (by simp)) stored rfl
  | dropped _ _ => exact owned.of_drop (fewer (by simp))
  | leaving stored _ =>
      -- the logout that is suspended here has just compared the key
      intro uid' key waits user' stored'
      rcases next uid' key waits with ⟨q, stopped⟩ | earlier
      · simp only [Outcome.call.injEq, Pc.logoutKick.injEq] at stopped
        obtain ⟨-, rfl, rfl⟩ := stopped
        rw [stored] at stored'
        exact congrArg User.key (Option.some.inj stored').symm
      · exact owned uid' key earlier user' stored'
  | kicking | refused | unmarked | absent | foreign | watched =>
      exact owned.of_sub (fewer (by simp)) same

/-- So does the later segment of a command. -/
theorem Owned.resumed (owned : Owned waiting users) {pc : Pc} {ret : Val} {out : Out}
    (resumed : Resumed users pc ret users' out)
    (store : ∀ uid data key, pc = .loginKick uid data → ret.truthy = true → users uid = none →
      waiting uid key → data.key = key)
    (fewer : ∀ uid key, waiting' uid key → waiting uid key) : Owned waiting' users' := by
  cases resumed with
  | stored truth free => exact owned.of_store fewer fun key => store _ _ key rfl truth free
  | dropped _ => exact owned.of_drop fewer
  | failed _ => exact owned.of_sub fewer fun _ user stored => ⟨user, stored, rfl⟩

end Owned

end RillServer.Center
