import RillServer.Session.Messages

/-!
# The gates

`mod/gateway/gate.lua`. A gate keeps one table per open socket; `CMD.register` writes the session
into it after a login, `close_agent` logs the session out, gives the agent back and forgets the
socket. `close_agent` holds on to the table it found, not to the socket number, so the tables are
objects here: `connection` maps a socket to a reference and `conn` holds the object.

`CMD.register` sets `uid`, `agent` and `key` together and nothing else sets `uid` or `key`, so an
object holds either no session or a whole one; `close_agent` later clears the agent alone.
-/

namespace RillServer

/-- The identity of a connection table. -/
abbrev Ref := Nat

/-- The fields `CMD.register` writes into a connection table. -/
structure Session where
  uid : Uid
  key : Key
  agent : Option Addr
  deriving DecidableEq

/-- The connection tables of all gates, by gate address and socket. -/
structure Gates where
  connection : Addr × Fd → Option Ref
  conn : Ref → Option Session
  nextRef : Ref

namespace Gate

open Coroutine

/-- Where a gate coroutine can be suspended. -/
inductive Pc where
  /-- `close_agent`, in `libcenter.logout(c.uid, c.key)` -/
  | closeLogout (gate : Addr) (fd : Fd) (c : Ref)
  /-- `close_agent`, in `libagentpool.recycle(c.agent)` -/
  | closeRecycle (gate : Addr) (fd : Fd) (c : Ref) (agent : Option Addr)
  /-- `clearAgent`, called by `CMD.register`, in `libcenter.logout(uid, key)` -/
  | clearLogout (gate : Addr) (data : RegisterData)
  /-- `clearAgent`, in `libagentpool.recycle(agent)` -/
  | clearRecycle (gate : Addr) (data : RegisterData)
  deriving DecidableEq

abbrev Out := Outcome Req Pc Val

/-- `handler.connect`: a new table without a session. -/
def connect (g : Gates) (gate : Addr) (fd : Fd) : Gates where
  connection := Function.update g.connection (gate, fd) (some g.nextRef)
  conn := Function.update g.conn g.nextRef none
  nextRef := g.nextRef + 1

/-- `connection[fd] = nil` -/
def forget (g : Gates) (gate : Addr) (fd : Fd) : Gates :=
  { g with connection := Function.update g.connection (gate, fd) none }

def closeAgent (g : Gates) (gate : Addr) (fd : Fd) : Gates × Out :=
  match g.connection (gate, fd) with
  | none => (forget g gate fd, .ret (.bool true))
  | some c =>
      match g.conn c with
      | none => (forget g gate fd, .ret (.bool true))
      | some session =>
          (g, .call (.center (.logout session.uid session.key)) (.closeLogout gate fd c))

/-- `close_agent` after the center answered. The answer is not looked at, and `c.agent` is read
only now. -/
def closeLoggedOut (g : Gates) (gate : Addr) (fd : Fd) (c : Ref) (ret : Val) : Gates × Out :=
  match ret with
  | .raise => (g, .ret .raise)
  | _ =>
      let agent := (g.conn c).bind Session.agent
      (g, .call (.pool (.recycle agent)) (.closeRecycle gate fd c agent))

/-- `c.agent = nil` -/
def clearAgentField (g : Gates) (c : Ref) : Gates :=
  { g with
    conn := Function.update g.conn c
      ((g.conn c).map fun session => { session with agent := none }) }

/-- `close_agent` after the pool answered. -/
def closeRecycled (g : Gates) (gate : Addr) (fd : Fd) (c : Ref) (ret : Val) : Gates × Out :=
  match ret with
  | .raise => (g, .ret .raise)
  | _ => (forget (clearAgentField g c) gate fd, .ret (.bool true))

def register (g : Gates) (gate : Addr) (data : RegisterData) : Gates × Out :=
  match g.connection (gate, data.fd) with
  | none => (g, .call (.center (.logout data.uid data.key)) (.clearLogout gate data))
  | some c =>
      ({ g with conn := Function.update g.conn c (some ⟨data.uid, data.key, some data.agent⟩) },
        .ret (.bool true))

def serve (g : Gates) (gate : Addr) : GateReq → Gates × Out
  | .register data => register g gate data
  | .closeAgent fd => closeAgent g gate fd

def resume (g : Gates) : Pc → Val → Gates × Out
  | .closeLogout gate fd c, ret => closeLoggedOut g gate fd c ret
  | .closeRecycle gate fd c _, ret => closeRecycled g gate fd c ret
  | .clearLogout gate data, ret =>
      match ret with
      | .raise => (g, .ret .raise)
      | _ => (g, .call (.pool (.recycle (some data.agent))) (.clearRecycle gate data))
  | .clearRecycle _ _, ret =>
      match ret with
      | .raise => (g, .ret .raise)
      | _ => (g, .ret (.bool false))

/-- A socket that is still open is another one. -/
theorem connection_of_forget {g : Gates} {gate : Addr} {fd : Fd} {sock : Addr × Fd} {c : Ref}
    (opened : (forget g gate fd).connection sock = some c) :
    sock ≠ (gate, fd) ∧ g.connection sock = some c := by
  rcases update_eq_some opened with ⟨-, gone⟩ | kept
  · cases gone
  · exact kept

/-- The table of a session that is still there; only its agent may be gone. -/
theorem conn_of_clearAgentField {g : Gates} {c c' : Ref} {session : Session}
    (stored : (clearAgentField g c).conn c' = some session) :
    (c' = c ∧ ∃ old, g.conn c = some old ∧ session = { old with agent := none }) ∨
      (c' ≠ c ∧ g.conn c' = some session) := by
  rcases update_eq_some stored with ⟨here, cleared⟩ | other
  · obtain ⟨old, known, same⟩ := Option.map_eq_some_iff.mp cleared
    exact .inl ⟨here, old, known, same.symm⟩
  · exact .inr other

/-! ## What a segment can do -/

/-- Everything the first segment of a gate request can do. -/
inductive Served (g : Gates) (gate : Addr) : GateReq → Gates → Out → Prop
  | bound {data : RegisterData} {c : Ref} : g.connection (gate, data.fd) = some c →
    Served g gate (.register data)
      { g with conn := Function.update g.conn c (some ⟨data.uid, data.key, some data.agent⟩) }
      (.ret (.bool true))
  | clearing {data : RegisterData} : g.connection (gate, data.fd) = none →
    Served g gate (.register data) g
      (.call (.center (.logout data.uid data.key)) (.clearLogout gate data))
  | forgotten {fd : Fd} : (∀ c, g.connection (gate, fd) = some c → g.conn c = none) →
    Served g gate (.closeAgent fd) (forget g gate fd) (.ret (.bool true))
  | closing {fd : Fd} {c : Ref} {session : Session} : g.connection (gate, fd) = some c →
    g.conn c = some session →
    Served g gate (.closeAgent fd) g
      (.call (.center (.logout session.uid session.key)) (.closeLogout gate fd c))

/-- Everything a suspended gate coroutine can do when its answer arrives. -/
inductive Resumed (g : Gates) : Pc → Val → Gates → Out → Prop
  | failed {pc : Pc} : Resumed g pc .raise g (.ret .raise)
  | recycling {gate : Addr} {fd : Fd} {c : Ref} {ret : Val} : ret ≠ .raise →
    Resumed g (.closeLogout gate fd c) ret g
      (.call (.pool (.recycle ((g.conn c).bind Session.agent)))
        (.closeRecycle gate fd c ((g.conn c).bind Session.agent)))
  | closed {gate : Addr} {fd : Fd} {c : Ref} {agent : Option Addr} {ret : Val} : ret ≠ .raise →
    Resumed g (.closeRecycle gate fd c agent) ret (forget (clearAgentField g c) gate fd)
      (.ret (.bool true))
  | clearing {gate : Addr} {data : RegisterData} {ret : Val} : ret ≠ .raise →
    Resumed g (.clearLogout gate data) ret g
      (.call (.pool (.recycle (some data.agent))) (.clearRecycle gate data))
  | cleared {gate : Addr} {data : RegisterData} {ret : Val} : ret ≠ .raise →
    Resumed g (.clearRecycle gate data) ret g (.ret (.bool false))

theorem serve_spec (g : Gates) (gate : Addr) (r : GateReq) :
    Served g gate r (serve g gate r).1 (serve g gate r).2 := by
  cases r with
  | register data =>
      cases found : g.connection (gate, data.fd) with
      | none => simpa [serve, register, found] using Served.clearing found
      | some c => simpa [serve, register, found] using Served.bound found
  | closeAgent fd =>
      cases found : g.connection (gate, fd) with
      | none =>
          have step : Served g gate (.closeAgent fd) (forget g gate fd) (.ret (.bool true)) :=
            .forgotten (by simp [found])
          simpa [serve, closeAgent, found] using step
      | some c =>
          cases bound : g.conn c with
          | none =>
              have step : Served g gate (.closeAgent fd) (forget g gate fd) (.ret (.bool true)) :=
                .forgotten (by simp [found, bound])
              simpa [serve, closeAgent, found, bound] using step
          | some session =>
              simpa [serve, closeAgent, found, bound] using Served.closing found bound

theorem resume_spec (g : Gates) (pc : Pc) (ret : Val) :
    Resumed g pc ret (resume g pc ret).1 (resume g pc ret).2 := by
  by_cases raised : ret = .raise
  · subst raised
    cases pc <;> exact Resumed.failed
  · cases pc with
    | closeLogout gate fd c =>
        simpa [resume, closeLoggedOut, raised] using Resumed.recycling raised
    | closeRecycle gate fd c agent =>
        simpa [resume, closeRecycled, raised] using Resumed.closed raised
    | clearLogout gate data => simpa [resume, raised] using Resumed.clearing raised
    | clearRecycle gate data => simpa [resume, raised] using Resumed.cleared raised

end Gate

end RillServer
