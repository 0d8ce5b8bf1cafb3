import RillServer.Session.Messages

/-!
# The agent pool and the agents

`service/agentpool.lua` keeps idle agents in a list: `CMD.get` takes the last one or launches a new
service, `CMD.recycle` puts the agent it is given in front, or kills it when the list is full and
`recyremove` is set. It does not look whether the agent is in the list already. `agentlist`, which
is only ever written, is left out.

Of `service/agent/wsagent.lua` a session sees `CMD.start`, which notes whom the agent serves and
then loads that account from the database, and `CMD.kick`, which leaves the room and saves. What
goes on inside an agent between its own calls changes nothing that another service reads, so the
second half of `start` and the whole of `kick` are left to an answer from outside. Commands of one
agent queue up behind `cs`; here they may be taken in any order.
-/

namespace RillServer

/-- The pool's idle agents with its configuration, and the agents it killed. -/
structure AgentPool where
  pool : List Addr
  maxnum : Nat
  recyremove : Nat
  killed : List Addr

namespace AgentPool

open Coroutine

/-- Where a pool coroutine can be suspended. -/
inductive Pc where
  /-- `CMD.get`, in `skynet.newservice(agentname, brokecachelen)` -/
  | getNew
  deriving DecidableEq

abbrev Out := Outcome Req Pc Val

/-- `table.remove(pool)` removes the last element. -/
def get (p : AgentPool) : AgentPool × Out :=
  match p.pool.getLast? with
  | some agent => ({ p with pool := p.pool.dropLast }, .ret (.addr agent))
  | none => (p, .call (.outside .newservice) .getNew)

/-- `assert(agent)`, then `skynet.kill(agent)` or `table.insert(pool, 1, agent)`. -/
def recycle (p : AgentPool) : Option Addr → AgentPool × Out
  | none => (p, .ret .raise)
  | some agent =>
      if p.recyremove = 1 ∧ p.maxnum ≤ p.pool.length then
        ({ p with killed := agent :: p.killed }, .ret .nil)
      else ({ p with pool := agent :: p.pool }, .ret .nil)

def serve (p : AgentPool) : PoolReq → AgentPool × Out
  | .get => get p
  | .recycle agent => recycle p agent

/-- `CMD.get` after the launcher answered: `assert` lets an address through. -/
def resume (p : AgentPool) : Pc → Val → AgentPool × Out
  | .getNew, .addr agent => (p, .ret (.addr agent))
  | .getNew, _ => (p, .ret .raise)

/-- Everything the first segment of a pool command can do. -/
inductive Served (p : AgentPool) : PoolReq → AgentPool → Out → Prop
  | taken {agent : Addr} {rest : List Addr} : p.pool = rest ++ [agent] →
    Served p .get { p with pool := rest } (.ret (.addr agent))
  | launching : Served p .get p (.call (.outside .newservice) .getNew)
  | missing : Served p (.recycle none) p (.ret .raise)
  | removed {agent : Addr} :
    Served p (.recycle (some agent)) { p with killed := agent :: p.killed } (.ret .nil)
  | returned {agent : Addr} :
    Served p (.recycle (some agent)) { p with pool := agent :: p.pool } (.ret .nil)

theorem serve_spec (p : AgentPool) (r : PoolReq) : Served p r (serve p r).1 (serve p r).2 := by
  cases r with
  | get =>
      cases last : p.pool.getLast? with
      | none => simpa [serve, get, last] using Served.launching
      | some agent =>
          obtain ⟨rest, split⟩ := List.getLast?_eq_some_iff.mp last
          have step : Served p .get { p with pool := rest } (.ret (.addr agent)) := .taken split
          simpa [serve, get, last, split] using step
  | recycle agent =>
      cases agent with
      | none => exact Served.missing
      | some agent =>
          by_cases full : p.recyremove = 1 ∧ p.maxnum ≤ p.pool.length
          · rw [serve, recycle, if_pos full]
            exact Served.removed
          · rw [serve, recycle, if_neg full]
            exact Served.returned

end AgentPool

/-- The agents: what `CMD.start` was last called with. -/
abbrev Agents := Addr → Option AgentConf

namespace Agent

open Coroutine

/-- Where an agent coroutine can be suspended. -/
inductive Pc where
  /-- `CMD.start`, in the database calls of `env.login` -/
  | startLoad (agent : Addr) (conf : AgentConf)
  deriving DecidableEq

abbrev Out := Outcome Req Pc Val

/-- `fails` is how the part of `CMD.kick` inside the agent ends. A killed agent answers every call
with an error. -/
def serve (killed : List Addr) (fails : Bool) (agents : Agents) (agent : Addr) :
    AgentReq → Agents × Out
  | .start conf =>
      if agent ∈ killed then (agents, .ret .raise)
      else
        (Function.update agents agent (some conf),
          .call (.outside (.loadAgentInfo conf.uid)) (.startLoad agent conf))
  | .kick _ =>
      if agent ∈ killed ∨ fails then (agents, .ret .raise) else (agents, .ret (.bool true))

/-- `env.login` returns `true` unless loading raised. -/
def resume (agents : Agents) : Pc → Val → Agents × Out
  | .startLoad _ _, .raise => (agents, .ret .raise)
  | .startLoad _ _, _ => (agents, .ret (.bool true))

/-- Everything the first segment of an agent command can do. -/
inductive Served (agents : Agents) (agent : Addr) : AgentReq → Agents → Out → Prop
  | failed {r : AgentReq} : Served agents agent r agents (.ret .raise)
  | started {conf : AgentConf} :
    Served agents agent (.start conf) (Function.update agents agent (some conf))
      (.call (.outside (.loadAgentInfo conf.uid)) (.startLoad agent conf))
  | kicked {uid : Uid} : Served agents agent (.kick uid) agents (.ret (.bool true))

theorem serve_spec (killed : List Addr) (fails : Bool) (agents : Agents) (agent : Addr)
    (r : AgentReq) : Served agents agent r (serve killed fails agents agent r).1
      (serve killed fails agents agent r).2 := by
  cases r with
  | start conf =>
      by_cases dead : agent ∈ killed
      · simpa [serve, dead] using Served.failed
      · simpa [serve, dead] using Served.started
  | kick uid =>
      by_cases dead : agent ∈ killed ∨ fails = true
      · simpa [serve, dead] using Served.failed
      · simpa [serve, dead] using Served.kicked

end Agent

end RillServer
