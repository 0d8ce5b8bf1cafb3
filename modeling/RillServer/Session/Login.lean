import RillServer.Session.Messages

/-!
# The login service

`forward.login` of `mod/login/login.lua` (with `M.login` of `mod/libwsagentpool.lua`, which is its
call of `get` followed by its call of `start`). The function does nothing but call other services
and look at the answers, so it is a program counter per call: `resume` says which call follows
which answer. `local_dispatch` runs it under `xpcall`, and an error of a call ends it.
-/

namespace RillServer.Login

open Coroutine

/-- The locals of `forward.login` that every later step may use. -/
structure Attempt where
  fd : Fd
  msg : LoginMsg
  source : Addr
  key : Key
  deriving DecidableEq

/-- Where `forward.login` can be suspended, by the call it waits for. -/
inductive Pc where
  | auth (a : Attempt)
  | centerLogin (a : Attempt) (uid : Uid)
  | poolGet (a : Attempt) (uid : Uid)
  | agentStart (a : Attempt) (uid : Uid) (agent : Addr)
  | centerRegister (a : Attempt) (uid : Uid) (agent : Addr)
  | gateRegister (a : Attempt) (uid : Uid) (agent : Addr)
  | watch (a : Attempt) (uid : Uid)
  /-- `libcenter.logout` after the agent could not be started -/
  | loadFailed (a : Attempt) (uid : Uid)
  /-- `libagentpool.recycle` after the center refused the registration -/
  | centerRefused (a : Attempt) (uid : Uid)
  /-- `libcenter.logout` after that -/
  | centerFailed (a : Attempt) (uid : Uid)
  /-- `libcenter.logout` after the gate refused the registration -/
  | gateFailed (a : Attempt) (uid : Uid)
  deriving DecidableEq

abbrev Out := Outcome Req Pc Val

namespace Attempt

/-- The record given to `libcenter.login`. -/
def user (a : Attempt) : User := ⟨a.fd, a.source, a.key, none, false⟩

/-- The table given to the agent's `start`. -/
def conf (a : Attempt) (uid : Uid) : AgentConf :=
  ⟨a.fd, a.source, uid, a.msg.account, a.msg.password⟩

/-- The table given to the gate's `register`. -/
def registerData (a : Attempt) (uid : Uid) (agent : Addr) : RegisterData :=
  ⟨uid, a.fd, agent, a.key⟩

/-- `return msgresult` with an entry of `loginresultcode.lua`. -/
def fail (a : Attempt) (code : ResultCode) : Val :=
  .reply ⟨a.msg.account, a.msg.cmd, a.msg.check, some code, none⟩

/-- `return msgresult` with result 0. -/
def succeed (a : Attempt) (uid : Uid) : Val :=
  .reply ⟨a.msg.account, a.msg.cmd, a.msg.check, none, some uid⟩

end Attempt

/-- The head of `forward.login`: draw a key, then check the account. -/
def serve (keySeq : Key) (fd : Fd) (msg : LoginMsg) (source : Addr) : Key × Out :=
  let key := keySeq + 1
  (key, .call (.outside (.loginAuth msg.sdkid msg)) (.auth ⟨fd, msg, source, key⟩))

/-- The rest of `forward.login`, from one answer to the next call. -/
def resume : Pc → Val → Out
  | _, .raise => .ret .raise
  | .auth a, .authed uid => .call (.center (.login uid a.user)) (.centerLogin a uid)
  | .auth a, _ => .ret (a.fail .loginWrongPassword)
  | .centerLogin a uid, ret =>
      if ret.truthy then .call (.pool .get) (.poolGet a uid)
      else .ret (a.fail .loginCenterFail)
  | .poolGet a uid, .addr agent =>
      .call (.agent agent (.start (a.conf uid))) (.agentStart a uid agent)
  | .poolGet _ _, _ => .ret .raise
  | .agentStart a uid agent, ret =>
      if ret.truthy then .call (.center (.register uid agent a.key)) (.centerRegister a uid agent)
      else .call (.center (.logout uid a.key)) (.loadFailed a uid)
  | .centerRegister a uid agent, ret =>
      if ret.truthy then
        .call (.gate a.source (.register (a.registerData uid agent))) (.gateRegister a uid agent)
      else .call (.pool (.recycle (some agent))) (.centerRefused a uid)
  | .gateRegister a uid _, ret =>
      if ret.truthy then .call (.center .watch) (.watch a uid)
      else .call (.center (.logout uid a.key)) (.gateFailed a uid)
  | .watch a uid, _ => .ret (a.succeed uid)
  | .loadFailed a _, _ => .ret (a.fail .loginLoadDataFail)
  | .centerRefused a uid, _ => .call (.center (.logout uid a.key)) (.centerFailed a uid)
  | .centerFailed a _, _ => .ret (a.fail .loginRegisterCenterFail)
  | .gateFailed a _, _ => .ret (a.fail .loginRegisterGateFile)

/-- Everything `forward.login` can do when an answer arrives. -/
inductive Resumed : Pc → Val → Out → Prop
  | failed {pc : Pc} : Resumed pc .raise (.ret .raise)
  | authed {a : Attempt} {uid : Uid} :
    Resumed (.auth a) (.authed uid) (.call (.center (.login uid a.user)) (.centerLogin a uid))
  | admitted {a : Attempt} {uid : Uid} {ret : Val} : ret.truthy = true →
    Resumed (.centerLogin a uid) ret (.call (.pool .get) (.poolGet a uid))
  | got {a : Attempt} {uid : Uid} {agent : Addr} :
    Resumed (.poolGet a uid) (.addr agent)
      (.call (.agent agent (.start (a.conf uid))) (.agentStart a uid agent))
  | noAgent {a : Attempt} {uid : Uid} {ret : Val} : Resumed (.poolGet a uid) ret (.ret .raise)
  | started {a : Attempt} {uid : Uid} {agent : Addr} {ret : Val} : ret.truthy = true →
    Resumed (.agentStart a uid agent) ret
      (.call (.center (.register uid agent a.key)) (.centerRegister a uid agent))
  | notStarted {a : Attempt} {uid : Uid} {agent : Addr} {ret : Val} : ret.truthy = false →
    Resumed (.agentStart a uid agent) ret
      (.call (.center (.logout uid a.key)) (.loadFailed a uid))
  | registered {a : Attempt} {uid : Uid} {agent : Addr} {ret : Val} : ret.truthy = true →
    Resumed (.centerRegister a uid agent) ret
      (.call (.gate a.source (.register (a.registerData uid agent))) (.gateRegister a uid agent))
  | unregistered {a : Attempt} {uid : Uid} {agent : Addr} {ret : Val} : ret.truthy = false →
    Resumed (.centerRegister a uid agent) ret
      (.call (.pool (.recycle (some agent))) (.centerRefused a uid))
  | bound {a : Attempt} {uid : Uid} {agent : Addr} {ret : Val} : ret.truthy = true →
    Resumed (.gateRegister a uid agent) ret (.call (.center .watch) (.watch a uid))
  | unbound {a : Attempt} {uid : Uid} {agent : Addr} {ret : Val} : ret.truthy = false →
    Resumed (.gateRegister a uid agent) ret
      (.call (.center (.logout uid a.key)) (.gateFailed a uid))
  | recycled {a : Attempt} {uid : Uid} {ret : Val} :
    Resumed (.centerRefused a uid) ret
      (.call (.center (.logout uid a.key)) (.centerFailed a uid))
  | ended {pc : Pc} {ret : Val} {r : LoginReply} : Resumed pc ret (.ret (.reply r))

theorem resume_spec (pc : Pc) (ret : Val) : Resumed pc ret (resume pc ret) := by
  by_cases raised : ret = .raise
  · subst raised
    cases pc <;> exact Resumed.failed
  · cases pc with
    | auth a => cases ret <;> first | exact Resumed.authed | exact Resumed.ended | contradiction
    | centerLogin a uid =>
        cases truth : ret.truthy with
        | true => simpa [resume, raised, truth] using Resumed.admitted truth
        | false => simpa [resume, raised, truth, Attempt.fail] using Resumed.ended
    | poolGet a uid => cases ret <;> first | exact Resumed.got | exact Resumed.noAgent
    | agentStart a uid agent =>
        cases truth : ret.truthy with
        | true => simpa [resume, raised, truth] using Resumed.started truth
        | false => simpa [resume, raised, truth] using Resumed.notStarted truth
    | centerRegister a uid agent =>
        cases truth : ret.truthy with
        | true => simpa [resume, raised, truth] using Resumed.registered truth
        | false => simpa [resume, raised, truth] using Resumed.unregistered truth
    | gateRegister a uid agent =>
        cases truth : ret.truthy with
        | true => simpa [resume, raised, truth] using Resumed.bound truth
        | false => simpa [resume, raised, truth] using Resumed.unbound truth
    | centerRefused a uid => simpa [resume, raised] using Resumed.recycled
    | watch a uid | loadFailed a uid | centerFailed a uid | gateFailed a uid =>
        simpa [resume, raised, Attempt.fail, Attempt.succeed] using Resumed.ended

end RillServer.Login
