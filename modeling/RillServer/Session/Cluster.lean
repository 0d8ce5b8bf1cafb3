import RillServer.Session.Center
import RillServer.Session.Gate
import RillServer.Session.AgentPool
import RillServer.Session.Login

/-!
# The session services together

The center, the gates, the login service, the agent pool and the agents as one system of
coroutines. An event from outside is a client that connects, a client message, a socket that
disconnects or fails, or a kick (the login service sends one for a message it cannot read). Every
`skynet.call` is a point where any other activity may run.
-/

namespace RillServer

open Coroutine

/-- The state of all the session services. -/
structure Shared where
  /-- `key_seq` of the login service -/
  keySeq : Key
  users : Center.Users
  gates : Gates
  agentpool : AgentPool
  agents : Agents
  /-- the address the launcher gives to the next service -/
  nextAddr : Addr

namespace Cluster

inductive Pc where
  | login (pc : Login.Pc)
  | center (pc : Center.Pc)
  | gate (pc : Gate.Pc)
  | pool (pc : AgentPool.Pc)
  | agent (pc : Agent.Pc)
  deriving DecidableEq

abbrev Act := Activity Req Pc Val

abbrev World := Coroutine.World Shared Req Pc Val

/-- What the account check, the launcher, the database and the inside of an agent decide. -/
inductive Ora where
  | uid (uid : Uid)
  | ok
  | no
  | fails
  deriving DecidableEq

/-- What can happen outside. -/
inductive Env where
  | connect (gate : Addr) (fd : Fd)
  | message (gate : Addr) (fd : Fd) (msg : LoginMsg)
  | disconnect (gate : Addr) (fd : Fd)
  | kick (gate : Addr) (fd : Fd)
  deriving DecidableEq

/-- The calls that leave the modelled services. The launcher never hands out an address twice. -/
def outside (o : Ora) (s : Shared) : OutsideReq → Shared × Val
  | .loginAuth _ _ =>
      match o with
      | .uid uid => (s, .authed uid)
      | .fails => (s, .raise)
      | _ => (s, .bool false)
  | .newservice =>
      match o with
      | .fails => (s, .raise)
      | _ => ({ s with nextAddr := s.nextAddr + 1 }, .addr s.nextAddr)
  | .loadAgentInfo _ =>
      match o with
      | .fails => (s, .raise)
      | _ => (s, .nil)

def serve (o : Ora) (s : Shared) : Req → Shared × Outcome Req Pc Val
  | .login fd msg source =>
      let (keySeq, out) := Login.serve s.keySeq fd msg source
      ({ s with keySeq }, out.mapPc .login)
  | .center r =>
      let (users, out) := Center.serve s.users r
      ({ s with users }, out.mapPc .center)
  | .gate gate r =>
      let (gates, out) := Gate.serve s.gates gate r
      ({ s with gates }, out.mapPc .gate)
  | .pool r =>
      let (agentpool, out) := AgentPool.serve s.agentpool r
      ({ s with agentpool }, out.mapPc .pool)
  | .agent agent r =>
      let (agents, out) := Agent.serve s.agentpool.killed (o == .fails) s.agents agent r
      ({ s with agents }, out.mapPc .agent)
  | .outside r =>
      let (s, v) := outside o s r
      (s, .ret v)

def resume (s : Shared) : Pc → Val → Shared × Outcome Req Pc Val
  | .login pc, v => (s, (Login.resume pc v).mapPc .login)
  | .center pc, v =>
      let (users, out) := Center.resume s.users pc v
      ({ s with users }, out.mapPc .center)
  | .gate pc, v =>
      let (gates, out) := Gate.resume s.gates pc v
      ({ s with gates }, out.mapPc .gate)
  | .pool pc, v =>
      let (agentpool, out) := AgentPool.resume s.agentpool pc v
      ({ s with agentpool }, out.mapPc .pool)
  | .agent pc, v =>
      let (agents, out) := Agent.resume s.agents pc v
      ({ s with agents }, out.mapPc .agent)

/-- `handler.connect` is called for sockets that are not in use. `handler.message` redirects a
message to the login service as long as the connection has no session and to the session's agent
afterwards, which changes nothing here. -/
def arrive : Env → Shared → Option (Shared × Option Req)
  | .connect gate fd, s =>
      match s.gates.connection (gate, fd) with
      | none => some ({ s with gates := Gate.connect s.gates gate fd }, none)
      | some _ => none
  | .message gate fd msg, s =>
      match s.gates.connection (gate, fd) with
      | none => none
      | some c =>
          match s.gates.conn c with
          | none => some (s, some (.login fd msg gate))
          | some _ => some (s, none)
  | .disconnect gate fd, s => some (s, some (.gate gate (.closeAgent fd)))
  | .kick gate fd, s => some (s, some (.gate gate (.closeAgent fd)))

def code : Code Shared Ora Env Req Pc Val where
  serve := serve
  resume _ := resume
  arrive := arrive

/-- Before the first client connects: `init_pool` has launched `maxnum` agents. -/
def init (maxnum recyremove : Nat) : World where
  shared :=
    { keySeq := 1
      users := fun _ => none
      gates := ⟨fun _ => none, fun _ => none, 0⟩
      agentpool := ⟨List.range maxnum, maxnum, recyremove, []⟩
      agents := fun _ => none
      nextAddr := maxnum }
  acts := fun _ => none

end Cluster

end RillServer
