import RillServer.Session.Cluster

/-!
# Call stacks of the session services

Which call each suspended coroutine waits for, which request it is handling and what may answer a
request: the `Typing` of the session services. It is respected (`linked`), so in every state
reached each answer finds the coroutine that asked for it. `Moved` lists what one segment of an
activity can do.
-/

namespace RillServer.Cluster

open Coroutine

/-- The request a suspended coroutine is handling. -/
def Pc.serves : Pc → Req
  | .login (.auth a) | .login (.centerLogin a _) | .login (.poolGet a _)
  | .login (.agentStart a _ _) | .login (.centerRegister a _ _) | .login (.gateRegister a _ _)
  | .login (.watch a _) | .login (.loadFailed a _) | .login (.centerRefused a _)
  | .login (.centerFailed a _) | .login (.gateFailed a _) => .login a.fd a.msg a.source
  | .center (.loginKick uid data) => .center (.login uid data)
  | .center (.logoutKick uid key) => .center (.logout uid key)
  | .gate (.closeLogout g fd _) | .gate (.closeRecycle g fd _ _) => .gate g (.closeAgent fd)
  | .gate (.clearLogout g data) | .gate (.clearRecycle g data) => .gate g (.register data)
  | .pool .getNew => .pool .get
  | .agent (.startLoad x conf) => .agent x (.start conf)

/-- The call a suspended coroutine waits for. -/
def Pc.awaits : Pc → Req → Prop
  | .login (.auth a), r => r = .outside (.loginAuth a.msg.sdkid a.msg)
  | .login (.centerLogin a uid), r => r = .center (.login uid a.user)
  | .login (.poolGet _ _), r => r = .pool .get
  | .login (.agentStart a uid x), r => r = .agent x (.start (a.conf uid))
  | .login (.centerRegister a uid x), r => r = .center (.register uid x a.key)
  | .login (.gateRegister a uid x), r => r = .gate a.source (.register (a.registerData uid x))
  | .login (.watch _ _), r => r = .center .watch
  | .login (.loadFailed a uid), r | .login (.centerFailed a uid), r
  | .login (.gateFailed a uid), r => r = .center (.logout uid a.key)
  | .login (.centerRefused _ _), r => ∃ x, r = .pool (.recycle (some x))
  | .center (.loginKick _ _), r => ∃ g fd, r = .gate g (.closeAgent fd)
  | .center (.logoutKick uid _), r => ∃ x, r = .agent x (.kick uid)
  | .gate (.closeLogout _ _ _), r => ∃ uid key, r = .center (.logout uid key)
  | .gate (.closeRecycle _ _ _ x), r => r = .pool (.recycle x)
  | .gate (.clearLogout _ data), r => r = .center (.logout data.uid data.key)
  | .gate (.clearRecycle _ data), r => r = .pool (.recycle (some data.agent))
  | .pool .getNew, r => r = .outside .newservice
  | .agent (.startLoad _ conf), r => r = .outside (.loadAgentInfo conf.uid)

/-- The values that may answer a request. `lua_dispatch` keeps errors inside the center; recycling
an agent never fails, recycling `nil` always does. -/
def answers : Req → Val → Prop
  | .center _, v => v ≠ .raise
  | .gate _ (.register _), v => v = .raise ∨ ∃ b, v = .bool b
  | .pool (.recycle none), v => v = .raise
  | .pool (.recycle (some _)), v => v = .nil
  | _, _ => True

def typing : Typing Req Pc Val where
  awaits := Pc.awaits
  serves := Pc.serves
  answers := answers

theorem fits_served (o : Ora) (s : Shared) (r : Req) : typing.Fits r (serve o s r).2 := by
  cases r with
  | login fd msg source => exact ⟨rfl, rfl⟩
  | center c =>
      have served := Center.serve_spec s.users c
      rw [serve]
      generalize Center.serve s.users c = result at served ⊢
      obtain ⟨users', out⟩ := result
      cases served with
      | kicking _ => exact ⟨⟨_, _, rfl⟩, rfl⟩
      | leaving _ _ => exact ⟨⟨_, rfl⟩, rfl⟩
      | stored | refused | marked | unmarked | dropped | absent | foreign | watched =>
          exact Val.noConfusion
  | gate gate g =>
      have served := Gate.serve_spec s.gates gate g
      rw [serve]
      generalize Gate.serve s.gates gate g = result at served ⊢
      obtain ⟨gates', out⟩ := result
      cases served with
      | bound _ => exact .inr ⟨true, rfl⟩
      | clearing _ => exact ⟨rfl, rfl⟩
      | forgotten _ => exact True.intro
      | closing _ _ => exact ⟨⟨_, _, rfl⟩, rfl⟩
  | pool p =>
      have served := AgentPool.serve_spec s.agentpool p
      rw [serve]
      generalize AgentPool.serve s.agentpool p = result at served ⊢
      obtain ⟨pool', out⟩ := result
      cases served with
      | taken _ => exact True.intro
      | launching => exact ⟨rfl, rfl⟩
      | missing | removed | returned => rfl
  | agent agent r =>
      have served := Agent.serve_spec s.agentpool.killed (o == .fails) s.agents agent r
      rw [serve]
      generalize Agent.serve s.agentpool.killed (o == .fails) s.agents agent r = result
        at served ⊢
      obtain ⟨agents', out⟩ := result
      cases served with
      | started => exact ⟨rfl, rfl⟩
      | failed | kicked => exact True.intro
  | outside r => exact True.intro

theorem fits_resumed (s : Shared) (pc : Pc) (q : Req) (v : Val) (waits : pc.awaits q)
    (answered : answers q v) : typing.Fits pc.serves (resume s pc v).2 := by
  cases pc with
  | login pc =>
      have resumed := Login.resume_spec pc v
      rw [resume]
      generalize Login.resume pc v = out at resumed ⊢
      cases resumed with
      | failed | ended => cases pc <;> exact True.intro
      | noAgent => exact True.intro
      | authed | admitted | got | started | notStarted | registered | bound | unbound
      | recycled => exact ⟨rfl, rfl⟩
      | unregistered _ => exact ⟨⟨_, rfl⟩, rfl⟩
  | center pc =>
      have resumed := Center.resume_spec s.users pc v
      rw [resume]
      generalize Center.resume s.users pc v = result at resumed ⊢
      obtain ⟨users', out⟩ := result
      cases resumed with
      | stored | dropped => exact Val.noConfusion
      | failed value => rcases value with rfl | rfl <;> cases pc <;> exact Val.noConfusion
  | gate pc =>
      have resumed := Gate.resume_spec s.gates pc v
      rw [resume]
      generalize Gate.resume s.gates pc v = result at resumed ⊢
      obtain ⟨gates', out⟩ := result
      cases resumed with
      | failed => cases pc <;> first | exact True.intro | exact .inl rfl
      | recycling _ | clearing _ => exact ⟨rfl, rfl⟩
      | closed _ => exact True.intro
      | cleared _ => exact .inr ⟨false, rfl⟩
  | pool pc => cases pc; cases v <;> exact True.intro
  | agent pc => cases pc; cases v <;> exact True.intro

/-- The session services respect their typing. -/
theorem linked : typing.Respected code where
  serve := fits_served
  resume _ := fits_resumed

/-- In every world reached, every stack is well linked. -/
theorem linked_of_reach {maxnum recyremove : Nat} {guard : World → Event Ora Env → Prop}
    {w : World} (reached : code.Reach guard (init maxnum recyremove) w) :
    ∀ id a, w.acts id = some a → typing.Ok a :=
  linked.ok_of_reach (fun _ _ found => by cases found) reached

/-! ## Who waits for a request -/

/-- Nothing waits for `forward.login`: a client message starts it. -/
theorem not_awaits_login {pc : Pc} {fd : Fd} {msg : LoginMsg} {source : Addr} :
    ¬ pc.awaits (.login fd msg source) := by
  rcases pc with (_ | _) | (_ | _) | (_ | _) | _ | _ <;> simp [Pc.awaits]

/-- Only `forward.login` asks the center to log a uid in. -/
theorem awaits_centerLogin {pc : Pc} {uid : Uid} {data : User}
    (waits : pc.awaits (.center (.login uid data))) :
    ∃ a, pc = .login (.centerLogin a uid) ∧ data = a.user := by
  rcases pc with (_ | _) | (_ | _) | (_ | _) | _ | _ <;> simp_all [Pc.awaits]

/-- Only `forward.login` registers a session with a gate. -/
theorem awaits_gateRegister {pc : Pc} {g : Addr} {data : RegisterData}
    (waits : pc.awaits (.gate g (.register data))) :
    ∃ a uid x, pc = .login (.gateRegister a uid x) ∧ data = a.registerData uid x := by
  rcases pc with (_ | _) | (_ | _) | (_ | _) | _ | _ <;> simp [Pc.awaits] at waits
  case login.gateRegister a uid x => exact ⟨a, uid, x, rfl, waits.2⟩

/-- Only the center's `login` waits for a `close_agent`. -/
theorem awaits_closeAgent {pc : Pc} {g : Addr} {fd : Fd}
    (waits : pc.awaits (.gate g (.closeAgent fd))) :
    ∃ uid data, pc = .center (.loginKick uid data) := by
  rcases pc with (_ | _) | (_ | _) | (_ | _) | _ | _ <;> simp [Pc.awaits] at waits
  case center.loginKick uid data => exact ⟨uid, data, rfl⟩

/-- Only `forward.login` starts an agent. -/
theorem awaits_start {pc : Pc} {x : Addr} {conf : AgentConf}
    (waits : pc.awaits (.agent x (.start conf))) :
    ∃ a uid, pc = .login (.agentStart a uid x) ∧ conf = a.conf uid := by
  rcases pc with (_ | _) | (_ | _) | (_ | _) | _ | _ <;> simp [Pc.awaits] at waits
  case login.agentStart a uid x =>
    obtain ⟨rfl, rfl⟩ := waits
    exact ⟨a, uid, rfl, rfl⟩

/-- Who gives an agent back: a login the center refused, `close_agent` and `clearAgent`. -/
theorem awaits_recycle {pc : Pc} {x : Option Addr} (waits : pc.awaits (.pool (.recycle x))) :
    (∃ a uid, pc = .login (.centerRefused a uid)) ∨
      (∃ g fd c, pc = .gate (.closeRecycle g fd c x)) ∨
      ∃ g data, pc = .gate (.clearRecycle g data) := by
  rcases pc with (_ | _) | (_ | _) | (_ | _) | _ | _ <;> simp [Pc.awaits] at waits
  case login.centerRefused a uid => exact .inl ⟨a, uid, rfl⟩
  case gate.closeRecycle g fd c x =>
    subst waits
    exact .inr (.inl ⟨g, fd, c, rfl⟩)
  case gate.clearRecycle g data => exact .inr (.inr ⟨g, data, rfl⟩)

theorem chain_login {fd : Fd} {msg : LoginMsg} {source : Addr} {st : List Pc}
    (chain : typing.Chain (.login fd msg source) st) : st = [] := by
  cases st with
  | nil => rfl
  | cons pc st => exact (not_awaits_login chain.1).elim

/-! ## What one segment can do -/

/-- The calls that leave the modelled services. -/
inductive Answered (s : Shared) : OutsideReq → Shared → Val → Prop
  | value {r : OutsideReq} {v : Val} : (∀ a, v ≠ .addr a) → Answered s r s v
  | launched : Answered s .newservice { s with nextAddr := s.nextAddr + 1 } (.addr s.nextAddr)

theorem outside_spec (o : Ora) (s : Shared) (r : OutsideReq) :
    Answered s r (outside o s r).1 (outside o s r).2 := by
  cases r with
  | loginAuth sdkid msg => cases o <;> exact .value (by simp [outside])
  | newservice => cases o <;> first | exact .launched | exact .value (by simp [outside])
  | loadAgentInfo uid => cases o <;> exact .value (by simp [outside])

/-- One segment of an activity, by the service that runs it. -/
inductive Moved (s : Shared) : Act → Shared → Act → Prop
  | login {fd : Fd} {msg : LoginMsg} {source : Addr} {st : List Pc} :
    Moved s (.calling (.login fd msg source) st) { s with keySeq := s.keySeq + 1 }
      (.calling (.outside (.loginAuth msg.sdkid msg))
        (.login (.auth ⟨fd, msg, source, s.keySeq + 1⟩) :: st))
  | center {r : CenterReq} {users : Center.Users} {out : Center.Out} {st : List Pc} :
    Center.Served s.users r users out →
    Moved s (.calling (.center r) st) { s with users } ((out.mapPc .center).settle st)
  | gate {g : Addr} {r : GateReq} {gates : Gates} {out : Gate.Out} {st : List Pc} :
    Gate.Served s.gates g r gates out →
    Moved s (.calling (.gate g r) st) { s with gates } ((out.mapPc .gate).settle st)
  | pool {r : PoolReq} {agentpool : AgentPool} {out : AgentPool.Out} {st : List Pc} :
    AgentPool.Served s.agentpool r agentpool out →
    Moved s (.calling (.pool r) st) { s with agentpool } ((out.mapPc .pool).settle st)
  | agent {x : Addr} {r : AgentReq} {agents : Agents} {out : Agent.Out} {st : List Pc} :
    Agent.Served s.agents x r agents out →
    Moved s (.calling (.agent x r) st) { s with agents } ((out.mapPc .agent).settle st)
  | outside {r : OutsideReq} {s' : Shared} {v : Val} {st : List Pc} :
    Answered s r s' v → Moved s (.calling (.outside r) st) s' (.returning v st)
  | loginBack {pc : Login.Pc} {v : Val} {out : Login.Out} {st : List Pc} :
    Login.Resumed pc v out →
    Moved s (.returning v (.login pc :: st)) s ((out.mapPc .login).settle st)
  | centerBack {pc : Center.Pc} {v : Val} {users : Center.Users} {out : Center.Out}
      {st : List Pc} :
    Center.Resumed s.users pc v users out →
    Moved s (.returning v (.center pc :: st)) { s with users } ((out.mapPc .center).settle st)
  | gateBack {pc : Gate.Pc} {v : Val} {gates : Gates} {out : Gate.Out} {st : List Pc} :
    Gate.Resumed s.gates pc v gates out →
    Moved s (.returning v (.gate pc :: st)) { s with gates } ((out.mapPc .gate).settle st)
  | poolBack {v v' : Val} {st : List Pc} : v' = v ∨ v' = .raise →
    Moved s (.returning v (.pool .getNew :: st)) s (.returning v' st)
  | agentBack {x : Addr} {conf : AgentConf} {v v' : Val} {st : List Pc} :
    v' = .raise ∨ v' = .bool true →
    Moved s (.returning v (.agent (.startLoad x conf) :: st)) s (.returning v' st)

theorem moved_of_advance {o : Ora} {s s' : Shared} {a a' : Act}
    (h : code.advance o s a = some (s', a')) : Moved s a s' a' := by
  rcases Code.advance_cases h with ⟨r, st, out, rfl, run, rfl⟩ | ⟨v, pc, st, out, rfl, run, rfl⟩
  · cases r with
    | login fd msg source => cases run; exact .login
    | center r => cases run; exact .center (Center.serve_spec _ _)
    | gate g r => cases run; exact .gate (Gate.serve_spec _ _ _)
    | pool r => cases run; exact .pool (AgentPool.serve_spec _ _)
    | agent x r => cases run; exact .agent (Agent.serve_spec _ _ _ _ _)
    | outside r => cases run; exact .outside (outside_spec _ _ _)
  · cases pc with
    | login pc => cases run; exact .loginBack (Login.resume_spec _ _)
    | center pc => cases run; exact .centerBack (Center.resume_spec _ _ _)
    | gate pc => cases run; exact .gateBack (Gate.resume_spec _ _ _)
    | pool pc =>
        cases pc
        cases v <;> cases run <;> first | exact .poolBack (.inl rfl) | exact .poolBack (.inr rfl)
    | agent pc =>
        cases pc
        cases v <;> cases run <;> first | exact .agentBack (.inl rfl) | exact .agentBack (.inr rfl)

/-- An event from outside that begins no activity: a new connection, or a message that goes
straight to an agent. -/
theorem arrive_none {x : Env} {s s' : Shared} (h : code.arrive x s = some (s', none)) :
    (∃ g fd, x = .connect g fd ∧ s.gates.connection (g, fd) = none ∧
        s' = { s with gates := Gate.connect s.gates g fd }) ∨
      (∃ g fd msg, x = .message g fd msg ∧ s' = s) := by
  cases x with
  | connect g fd =>
      simp only [code, arrive] at h
      split at h
      · rename_i free
        cases h
        exact .inl ⟨g, fd, rfl, free, rfl⟩
      · cases h
  | message g fd msg =>
      simp only [code, arrive] at h
      split at h
      · cases h
      · split at h <;> cases h
        exact .inr ⟨g, fd, msg, rfl, rfl⟩
  | disconnect g fd => cases h
  | kick g fd => cases h

/-- An event from outside that begins an activity: a login or a `close_agent`. -/
theorem arrive_some {x : Env} {s s' : Shared} {r : Req}
    (h : code.arrive x s = some (s', some r)) :
    s' = s ∧ ((∃ fd msg g, r = .login fd msg g) ∨ ∃ g fd, r = .gate g (.closeAgent fd)) := by
  cases x with
  | connect g fd => simp only [code, arrive] at h; split at h <;> cases h
  | message g fd msg =>
      simp only [code, arrive] at h
      split at h
      · cases h
      · split at h <;> cases h
        exact ⟨rfl, .inl ⟨fd, msg, g, rfl⟩⟩
  | disconnect g fd => cases h; exact ⟨rfl, .inr ⟨g, fd, rfl⟩⟩
  | kick g fd => cases h; exact ⟨rfl, .inr ⟨g, fd, rfl⟩⟩

end RillServer.Cluster
