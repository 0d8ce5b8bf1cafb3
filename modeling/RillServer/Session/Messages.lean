import RillServer.Lib.Coroutine

/-!
# What the session services say to each other

The center, the gates, the login service, the agent pool and the agents talk through
`skynet.call`. This module names the tables that travel in those calls (`User`, `RegisterData`,
`AgentConf`, `LoginMsg`, `LoginReply`), the requests themselves (`Req`) and the values that answer
them (`Val`).

A table field that none of the modelled functions reads is left out: `node` of a center record,
`ip` of a connection, the head counts of `watch`, which only reach the debug log.
-/

namespace RillServer

/-- The address of a skynet service. -/
abbrev Addr := Nat

abbrev Uid := Nat

/-- A socket id of skynet's socket server. -/
abbrev Fd := Nat

/-- The number `forward.login` draws from `key_seq` for one login attempt. -/
abbrev Key := Nat

/-- The client message `forward.login` is called with. -/
structure LoginMsg where
  sdkid : Nat
  account : String
  password : String
  cmd : String
  check : Nat
  deriving DecidableEq

/-- An entry of `loginresultcode.lua`. -/
structure ResultCode where
  id : Int
  desc : String
  deriving DecidableEq

namespace ResultCode

def loginWrongPassword : ResultCode := ⟨-10001, "login fail, wrong password"⟩
def loginCenterFail : ResultCode := ⟨-10002, "login fail, center login fail"⟩
def loginLoadDataFail : ResultCode := ⟨-10003, "login fail, load data err"⟩
def loginRegisterCenterFail : ResultCode := ⟨-10004, "login fail, register center fail"⟩
def loginRegisterGateFile : ResultCode := ⟨-10005, "login fail, register gate fail"⟩

end ResultCode

/-- `msgresult`: the fields copied from the request, `result` (`none` is the number 0) and, on
success, `uid`. -/
structure LoginReply where
  account : String
  cmd : String
  check : Nat
  result : Option ResultCode
  uid : Option Uid
  deriving DecidableEq

/-- A record of the center's `env.users`. `agent` and `logined` are set by `register` only. -/
structure User where
  fd : Fd
  gate : Addr
  key : Key
  agent : Option Addr
  logined : Bool
  deriving DecidableEq

/-- The argument of the gate's `CMD.register`. -/
structure RegisterData where
  uid : Uid
  fd : Fd
  agent : Addr
  key : Key
  deriving DecidableEq

/-- The argument of the agent's `CMD.start`. -/
structure AgentConf where
  fd : Fd
  gate : Addr
  uid : Uid
  account : String
  password : String
  deriving DecidableEq

/-- The commands of the center. -/
inductive CenterReq where
  | login (uid : Uid) (data : User)
  | register (uid : Uid) (agent : Addr) (key : Key)
  | logout (uid : Uid) (key : Key)
  | watch
  deriving DecidableEq

/-- What makes a gate act. `closeAgent` stands for both entries that are `return close_agent(fd)`:
the command `kick` and the socket handler `disconnect`. -/
inductive GateReq where
  | register (data : RegisterData)
  | closeAgent (fd : Fd)
  deriving DecidableEq

/-- The commands of the agent pool. `recycle` can be called with `nil`. -/
inductive PoolReq where
  | get
  | recycle (agent : Option Addr)
  deriving DecidableEq

/-- The commands of an agent that a session uses. -/
inductive AgentReq where
  | start (conf : AgentConf)
  | kick (uid : Uid)
  deriving DecidableEq

/-- Calls that leave the modelled services: the account check, the launcher and the database. -/
inductive OutsideReq where
  | loginAuth (sdkid : Nat) (msg : LoginMsg)
  | newservice
  | loadAgentInfo (uid : Uid)
  deriving DecidableEq

/-- A request on its way to the service that handles it. -/
inductive Req where
  | login (fd : Fd) (msg : LoginMsg) (source : Addr)
  | center (r : CenterReq)
  | gate (gate : Addr) (r : GateReq)
  | pool (r : PoolReq)
  | agent (agent : Addr) (r : AgentReq)
  | outside (r : OutsideReq)
  deriving DecidableEq

/-- The answer of a call. `raise` is an error that reaches the caller; `authed uid` is the pair
`true, uid` of `login_auth`. -/
inductive Val where
  | nil
  | bool (b : Bool)
  | authed (uid : Uid)
  | addr (a : Addr)
  | watch
  | reply (r : LoginReply)
  | raise
  deriving DecidableEq

/-- Lua truth, of values that are not an error. -/
def Val.truthy : Val → Bool
  | .nil => false
  | .bool b => b
  | .raise => false
  | _ => true

end RillServer
