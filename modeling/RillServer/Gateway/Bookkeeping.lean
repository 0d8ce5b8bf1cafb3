import RillServer.Gateway.Server
import RillServer.Session.Gate
import Mathlib.Data.Set.Card

/-!
# The books of a gate

A gate keeps a socket in two tables: `gateserver_ws.lua` has its own `connection` and counts the
entries in `client_number`, and `gate.lua` has another one with the session. An entry comes into
both in `MSG.open`. It leaves the first in `closeclient` or `close_fd`, which a kick, the socket's
own events and a packet can all lead to, several times for one socket. `close_agent` removes it from
both, and suspends before it does.

A packet that was cut off the stream may be any bytes at any time here; `Gateway.Framed` says which
they are. The services that are called answer anything, and may raise. `handler.message` is logged
with the place it sends the packet to; `none` stands for the error of indexing a connection that is
not there.
-/

namespace RillServer.GateBooks

open Coroutine

/-- Where `handler.message` sends a packet. -/
inductive Target where
  | agent (agent : Option Addr)
  | login
  deriving DecidableEq

/-- The tables of the gate, the socket that it listens on, and the packets that were sent on. -/
structure Books where
  server : GateServer.Server
  gates : Gates
  socket : Option Netpack.Fd
  routed : List (Netpack.Fd × Option Target)

/-- Who called `close_agent`. -/
inductive Caller where
  | kick
  /-- `MSG.close` or `MSG.error`, which go on with `close_fd` -/
  | socket
  deriving DecidableEq

inductive Call where
  | kick (fd : Netpack.Fd)
  | closed (fd : Netpack.Fd)
  | error (fd : Netpack.Fd)
  | register (data : RegisterData)
  | outside (r : Req)
  deriving DecidableEq

/-- Where a coroutine can be suspended: in `close_agent` or in `clearAgent`. -/
inductive Pc where
  | closeLogout (caller : Caller) (fd : Netpack.Fd) (c : Ref)
  | closeRecycle (caller : Caller) (fd : Netpack.Fd) (c : Ref)
  | clearLogout (data : RegisterData)
  | clearRecycle (data : RegisterData)
  deriving DecidableEq

/-- What comes from the sockets, and the calls of other services. -/
inductive Env where
  | opened (fd : Netpack.Fd)
  | data (flag : Bool) (fd : Netpack.Fd) (msg : Bytes)
  | request (r : Call)
  deriving DecidableEq

abbrev Out := Outcome Call Pc Val

abbrev World := Coroutine.World Books Call Pc Val

section Code

variable (gate : Addr)

/-- The entry of `gate.lua` for the socket. -/
def Books.conn (b : Books) (fd : Netpack.Fd) : Option Ref := b.gates.connection (gate, fd.toNat)

/-- `handler.message`. -/
def Books.message (b : Books) (fd : Netpack.Fd) : Books :=
  { b with
    routed := b.routed ++ [(fd, (b.conn gate fd).map fun c =>
      match b.gates.conn c with
      | some session => .agent session.agent
      | none => .login)] }

/-- `MSG.open` with `handler.connect`. -/
def Books.opened (b : Books) (fd : Netpack.Fd) : Books :=
  if b.server.clientNumber ≥ b.server.maxclient then b
  else { b with server := b.server.opened fd, gates := Gate.connect b.gates gate fd.toNat }

/-- `dispatch_msg` comes to `handler.message`. -/
def handles (s : GateServer.Server) (fd : Netpack.Fd) (msg : Bytes) : Bool :=
  match s.connection fd with
  | none => false
  | some c => c.isconnect && !c.handshake && decide (msg.length < GateServer.maxPacksize)

/-- `dispatch_msg`. `write_response` sends a refusal in a `pcall`. -/
def Books.dispatchMsg (b : Books) (flag : Bool) (fd : Netpack.Fd) (msg : Bytes) : Books :=
  let b' := if handles b.server fd msg then b.message gate fd else b
  { b' with server := b.server.dispatchMsg flag fd msg }

def Books.closeclient (b : Books) (fd : Netpack.Fd) : Books :=
  { b with server := b.server.closeclient fd }

/-- The end of `close_agent`: `connection[fd] = nil`, and what the caller does then. -/
def Books.forget (b : Books) (caller : Caller) (fd : Netpack.Fd) : Books × Out :=
  let b := { b with gates := Gate.forget b.gates gate fd.toNat }
  match caller with
  | .kick => (b, .ret (.bool true))
  | .socket => ({ b with server := b.server.closeFd fd }, .ret .nil)

/-- `close_agent` up to its first call. -/
def Books.closeAgent (b : Books) (caller : Caller) (fd : Netpack.Fd) : Books × Out :=
  match b.conn gate fd with
  | none => b.forget gate caller fd
  | some c =>
      match b.gates.conn c with
      | none => (b.closeclient fd).forget gate caller fd
      | some session =>
          (b, .call (.outside (.center (.logout session.uid session.key)))
            (.closeLogout caller fd c))

/-- `close_agent` after the center answered. -/
def Books.closeLoggedOut (b : Books) (caller : Caller) (fd : Netpack.Fd) (c : Ref) (ret : Val) :
    Books × Out :=
  match ret with
  | .raise => (b, .ret .raise)
  | _ =>
      (b, .call (.outside (.pool (.recycle ((b.gates.conn c).bind Session.agent))))
        (.closeRecycle caller fd c))

/-- `close_agent` after the pool answered. -/
def Books.closeRecycled (b : Books) (caller : Caller) (fd : Netpack.Fd) (c : Ref) (ret : Val) :
    Books × Out :=
  match ret with
  | .raise => (b, .ret .raise)
  | _ =>
      ({ b with gates := Gate.clearAgentField b.gates c }.closeclient fd).forget gate caller fd

/-- `CMD.register`. -/
def Books.register (b : Books) (data : RegisterData) : Books × Out :=
  match b.gates.connection (gate, data.fd) with
  | none => (b, .call (.outside (.center (.logout data.uid data.key))) (.clearLogout data))
  | some c =>
      let session : Session := ⟨data.uid, data.key, some data.agent⟩
      ({ b with gates.conn := Function.update b.gates.conn c (some session) }, .ret (.bool true))

def serve (answer : Val) (b : Books) : Call → Books × Out
  | .kick fd => b.closeAgent gate .kick fd
  | .closed fd =>
      if b.socket = some fd then ({ b with socket := none }, .ret .nil)
      else b.closeAgent gate .socket fd
  | .error fd => if b.socket = some fd then (b, .ret .nil) else b.closeAgent gate .socket fd
  | .register data => b.register gate data
  | .outside _ => (b, .ret answer)

def resume (b : Books) (ret : Val) : Pc → Books × Out
  | .closeLogout caller fd c => b.closeLoggedOut caller fd c ret
  | .closeRecycle caller fd c => b.closeRecycled gate caller fd c ret
  | .clearLogout data =>
      match ret with
      | .raise => (b, .ret .raise)
      | _ => (b, .call (.outside (.pool (.recycle (some data.agent)))) (.clearRecycle data))
  | .clearRecycle _ =>
      match ret with
      | .raise => (b, .ret .raise)
      | _ => (b, .ret (.bool false))

def arrive (b : Books) : Env → Books × Option Call
  | .opened fd => (b.opened gate fd, none)
  | .data flag fd msg => (b.dispatchMsg gate flag fd msg, none)
  | .request r => (b, some r)

/-- The gate; the oracle answers the calls that leave it. -/
def code : Code Books Val Env Call Pc Val where
  serve := serve gate
  resume _ b pc ret := resume gate b ret pc
  arrive what b := some (arrive gate b what)

end Code

/-- The gate listens, and nobody has connected. -/
def start (maxclient : Nat) (socket : Netpack.Fd) : World where
  shared :=
    { server := GateServer.init maxclient
      gates := ⟨fun _ => none, fun _ => none, 0⟩
      socket := some socket
      routed := [] }
  acts := fun _ => none

/-- A socket that is opened is not in use. -/
def Unused (w : World) : Event Val Env → Prop
  | .arrive _ (.opened fd) => w.shared.server.connection fd = none
  | _ => True

/-- What a gate can have come to. -/
abbrev History (gate : Addr) (maxclient : Nat) (socket : Netpack.Fd) :=
  { w : World // (code gate).Reach Unused (start maxclient socket) w }

/-! ## Entries and their number -/

/-- The sockets with an entry in the table of `gateserver_ws.lua`. -/
def sockets (s : GateServer.Server) : Set Netpack.Fd := {fd | s.connection fd ≠ none}

/-- `client_number` counts the entries. -/
structure Tallied (maxclient : Nat) (s : GateServer.Server) : Prop where
  limit : s.maxclient = maxclient
  finite : (sockets s).Finite
  number : s.clientNumber = (sockets s).ncard
  bound : s.clientNumber ≤ maxclient

variable {maxclient : Nat} {s s' : GateServer.Server} {fd : Netpack.Fd} {flag : Bool} {msg : Bytes}

theorem sockets_init : sockets (GateServer.init maxclient) = ∅ := by
  simp [sockets, GateServer.init]

theorem tallied_init : Tallied maxclient (GateServer.init maxclient) where
  limit := rfl
  finite := by
    rw [sockets_init]
    exact Set.finite_empty
  number := by
    rw [sockets_init, Set.ncard_empty]
    rfl
  bound := Int.natCast_nonneg maxclient

theorem sockets_remove : sockets (s.remove fd) = sockets s \ {fd} := by
  ext other
  unfold GateServer.Server.remove
  cases found : s.connection fd with
  | none =>
      simp only [sockets, Set.mem_ofPred_eq, Set.mem_sdiff, Set.mem_singleton_iff]
      refine ⟨fun entry => ⟨entry, ?_⟩, And.left⟩
      rintro rfl
      exact entry found
  | some c =>
      by_cases same : other = fd
      · simp [sockets, same]
      · simp [sockets, same]

theorem Tallied.remove (tallied : Tallied maxclient s) : Tallied maxclient (s.remove fd) := by
  cases found : s.connection fd with
  | none =>
      have same : s.remove fd = s := by simp [GateServer.Server.remove, found]
      rw [same]
      exact tallied
  | some c =>
      have inside : fd ∈ sockets s := by simp [sockets, found]
      have number : (s.remove fd).clientNumber = s.clientNumber - 1 := by
        simp [GateServer.Server.remove, found]
      have fewer : (sockets (s.remove fd)).ncard + 1 = (sockets s).ncard := by
        rw [sockets_remove]
        exact Set.ncard_sdiff_singleton_add_one inside tallied.finite
      refine ⟨?_, ?_, ?_, ?_⟩
      · simp [GateServer.Server.remove, found, tallied.limit]
      · rw [sockets_remove]
        exact tallied.finite.sdiff
      · rw [number, tallied.number]
        omega
      · have bound := tallied.bound
        omega

/-- A socket that had no entry gets one if there is room. -/
theorem sockets_opened (room : s.clientNumber < s.maxclient) :
    sockets (s.opened fd) = insert fd (sockets s) := by
  have below : ¬ s.clientNumber ≥ s.maxclient := by omega
  ext other
  by_cases same : other = fd
  · simp [sockets, GateServer.Server.opened, below, same]
  · simp [sockets, GateServer.Server.opened, below, same]

theorem Tallied.opened (tallied : Tallied maxclient s) (room : s.clientNumber < s.maxclient)
    (unused : s.connection fd = none) : Tallied maxclient (s.opened fd) := by
  have below : ¬ s.clientNumber ≥ s.maxclient := by omega
  have outside : fd ∉ sockets s := by simp [sockets, unused]
  have number : (s.opened fd).clientNumber = s.clientNumber + 1 := by
    simp [GateServer.Server.opened, below]
  have limit : (s.opened fd).maxclient = s.maxclient := by
    simp [GateServer.Server.opened, below]
  refine ⟨limit.trans tallied.limit, ?_, ?_, ?_⟩
  · rw [sockets_opened room]
    exact tallied.finite.insert fd
  · rw [number, tallied.number, sockets_opened room,
      Set.ncard_insert_of_notMem outside tallied.finite]
    rfl
  · rw [tallied.limit] at room
    omega

/-- A packet leaves the sockets as they are, or closes its own. -/
theorem dispatchMsg_cases (s : GateServer.Server) (flag : Bool) (fd : Netpack.Fd) (msg : Bytes) :
    s.dispatchMsg flag fd msg = s.remove fd ∨
      (sockets (s.dispatchMsg flag fd msg) = sockets s ∧
        (s.dispatchMsg flag fd msg).clientNumber = s.clientNumber ∧
        (s.dispatchMsg flag fd msg).maxclient = s.maxclient) := by
  unfold GateServer.Server.dispatchMsg
  split
  · exact .inr ⟨rfl, rfl, rfl⟩
  · rename_i c found
    split
    · split
      · split
        · exact .inl rfl
        · split
          · refine .inr ⟨?_, rfl, rfl⟩
            ext other
            by_cases same : other = fd
            · simp [sockets, same, found]
            · simp [sockets, same]
          · exact .inl rfl
      · split
        · exact .inl rfl
        · exact .inr ⟨rfl, rfl, rfl⟩
    · exact .inr ⟨rfl, rfl, rfl⟩

theorem Tallied.dispatchMsg (tallied : Tallied maxclient s) :
    Tallied maxclient (s.dispatchMsg flag fd msg) := by
  rcases dispatchMsg_cases s flag fd msg with closed | ⟨same, number, limit⟩
  · rw [closed]
    exact tallied.remove
  · refine ⟨?_, ?_, ?_, ?_⟩
    · rw [limit, tallied.limit]
    · rw [same]
      exact tallied.finite
    · rw [number, same, tallied.number]
    · rw [number]
      exact tallied.bound

theorem sockets_dispatchMsg : sockets (s.dispatchMsg flag fd msg) ⊆ sockets s := by
  rcases dispatchMsg_cases s flag fd msg with closed | ⟨same, -, -⟩
  · rw [closed, sockets_remove]
    exact Set.sdiff_subset
  · exact same.subset

/-! ## Both tables -/

/-- The books are in order: every socket that `gateserver_ws.lua` knows is known to `gate.lua`, and
no packet went to `handler.message` without a connection. -/
structure Kept (gate : Addr) (maxclient : Nat) (b : Books) : Prop where
  tallied : Tallied maxclient b.server
  known : ∀ fd ∈ sockets b.server, b.conn gate fd ≠ none
  routed : ∀ p ∈ b.routed, p.2 ≠ none

variable {gate : Addr} {b b' : Books} {caller : Caller}

theorem kept_start (socket : Netpack.Fd) :
    Kept gate maxclient (start maxclient socket).shared where
  tallied := tallied_init
  known _ entry := (entry rfl).elim
  routed := nofun

/-- Different sockets have different keys in the table of `gate.lua`. -/
theorem key_ne {other : Netpack.Fd} (differ : other ≠ fd) :
    (gate, other.toNat) ≠ (gate, fd.toNat) := by
  intro equal
  exact differ (BitVec.eq_of_toNat_eq (Prod.mk.inj equal).2)

theorem Kept.opened (kept : Kept gate maxclient b) (unused : b.server.connection fd = none) :
    Kept gate maxclient (b.opened gate fd) := by
  unfold Books.opened
  split
  · exact kept
  · rename_i below
    have room : b.server.clientNumber < b.server.maxclient := by omega
    refine ⟨kept.tallied.opened room unused, ?_, kept.routed⟩
    intro other entry
    change sockets (b.server.opened fd) other at entry
    rw [sockets_opened room] at entry
    simp only [Books.conn, Gate.connect]
    by_cases same : other = fd
    · rw [same, Function.update_self]
      exact Option.some_ne_none _
    · rw [Function.update_of_ne (key_ne same)]
      exact kept.known other (entry.resolve_left same)

/-- `handler.message` is called for sockets that are known. -/
theorem mem_sockets_of_handles (handled : handles s fd msg = true) : fd ∈ sockets s := by
  intro none
  simp [handles, none] at handled

theorem Kept.message (kept : Kept gate maxclient b) (entry : fd ∈ sockets b.server) :
    Kept gate maxclient (b.message gate fd) := by
  refine ⟨kept.tallied, kept.known, ?_⟩
  intro p member
  rcases List.mem_append.mp member with old | new
  · exact kept.routed p old
  · rw [List.mem_singleton.mp new]
    intro missing
    exact kept.known fd entry (Option.map_eq_none_iff.mp missing)

/-- The server's table has lost sockets. -/
theorem Kept.of_server (kept : Kept gate maxclient b) (tallied : Tallied maxclient s')
    (fewer : sockets s' ⊆ sockets b.server) : Kept gate maxclient { b with server := s' } where
  tallied := tallied
  known fd entry := kept.known fd (fewer entry)
  routed := kept.routed

theorem Kept.dispatchMsg (kept : Kept gate maxclient b) :
    Kept gate maxclient (b.dispatchMsg gate flag fd msg) := by
  have before : ∀ b' : Books, Kept gate maxclient b' → b'.server = b.server →
      Kept gate maxclient { b' with server := b.server.dispatchMsg flag fd msg } := by
    intro b' kept' same
    rw [← same]
    exact kept'.of_server kept'.tallied.dispatchMsg sockets_dispatchMsg
  unfold Books.dispatchMsg
  split
  · rename_i handled
    exact before _ (kept.message (mem_sockets_of_handles handled)) rfl
  · exact before b kept rfl

theorem sockets_remove_subset : sockets (s.remove fd) ⊆ sockets s := by
  rw [sockets_remove]
  exact Set.sdiff_subset

theorem Kept.closeclient (kept : Kept gate maxclient b) :
    Kept gate maxclient (b.closeclient fd) :=
  kept.of_server kept.tallied.remove sockets_remove_subset

/-- `close_agent` forgets a socket that the server's table does not have any more. -/
theorem Kept.forget (kept : Kept gate maxclient b) (gone : fd ∉ sockets b.server) :
    Kept gate maxclient (b.forget gate caller fd).1 := by
  have forgotten : Kept gate maxclient { b with gates := Gate.forget b.gates gate fd.toNat } := by
    refine ⟨kept.tallied, ?_, kept.routed⟩
    intro other entry
    have differ : other ≠ fd := fun same => gone (same ▸ entry)
    simp only [Books.conn, Gate.forget]
    rw [Function.update_of_ne (key_ne differ)]
    exact kept.known other entry
  cases caller with
  | kick => exact forgotten
  | socket => exact forgotten.of_server forgotten.tallied.remove sockets_remove_subset

theorem not_mem_closeclient : fd ∉ sockets (b.closeclient fd).server := by
  change fd ∉ sockets (b.server.remove fd)
  rw [sockets_remove]
  exact fun entry => entry.2 rfl

theorem Kept.closeAgent (kept : Kept gate maxclient b) :
    Kept gate maxclient (b.closeAgent gate caller fd).1 := by
  unfold Books.closeAgent
  split
  · rename_i missing
    -- a socket that the gate does not know is none of the server's
    exact kept.forget fun entry => kept.known fd entry missing
  · split
    · exact kept.closeclient.forget not_mem_closeclient
    · exact kept

theorem Kept.closeRecycled (kept : Kept gate maxclient b) {c : Ref} {ret : Val} :
    Kept gate maxclient (b.closeRecycled gate caller fd c ret).1 := by
  have cleared : Kept gate maxclient { b with gates := Gate.clearAgentField b.gates c } :=
    ⟨kept.tallied, kept.known, kept.routed⟩
  unfold Books.closeRecycled
  split
  · exact kept
  · exact cleared.closeclient.forget not_mem_closeclient

theorem Kept.register (kept : Kept gate maxclient b) {data : RegisterData} :
    Kept gate maxclient (b.register gate data).1 := by
  unfold Books.register
  split
  · exact kept
  · exact ⟨kept.tallied, kept.known, kept.routed⟩

/-! ## Every run -/

/-- `close_agent` sends no packet on. -/
theorem forget_routed : (b.forget gate caller fd).1.routed = b.routed := by
  cases caller <;> rfl

theorem closeAgent_routed : (b.closeAgent gate caller fd).1.routed = b.routed := by
  unfold Books.closeAgent
  split
  · exact forget_routed
  · split
    · exact forget_routed
    · rfl

theorem opened_routed : (b.opened gate fd).routed = b.routed := by
  unfold Books.opened
  split <;> rfl

theorem serve_routed {answer : Val} {r : Call} : (serve gate answer b r).1.routed = b.routed := by
  cases r with
  | kick fd => exact closeAgent_routed
  | closed fd =>
      simp only [GateBooks.serve]
      split
      · rfl
      · exact closeAgent_routed
  | error fd =>
      simp only [GateBooks.serve]
      split
      · rfl
      · exact closeAgent_routed
  | register data =>
      change (b.register gate data).1.routed = b.routed
      unfold Books.register
      split <;> rfl
  | outside r => rfl

theorem resume_routed {ret : Val} {pc : Pc} : (resume gate b ret pc).1.routed = b.routed := by
  cases pc with
  | closeLogout caller fd c =>
      change (b.closeLoggedOut caller fd c ret).1.routed = b.routed
      unfold Books.closeLoggedOut
      split <;> rfl
  | closeRecycle caller fd c =>
      change (b.closeRecycled gate caller fd c ret).1.routed = b.routed
      unfold Books.closeRecycled
      split
      · rfl
      · exact forget_routed
  | clearLogout data =>
      simp only [GateBooks.resume]
      split <;> rfl
  | clearRecycle data =>
      simp only [GateBooks.resume]
      split <;> rfl

theorem Kept.serve (kept : Kept gate maxclient b) {answer : Val} {r : Call} :
    Kept gate maxclient (serve gate answer b r).1 := by
  cases r with
  | kick fd => exact kept.closeAgent
  | closed fd =>
      simp only [GateBooks.serve]
      split
      · exact ⟨kept.tallied, kept.known, kept.routed⟩
      · exact kept.closeAgent
  | error fd =>
      simp only [GateBooks.serve]
      split
      · exact kept
      · exact kept.closeAgent
  | register data => exact kept.register
  | outside r => exact kept

theorem Kept.resume (kept : Kept gate maxclient b) {pc : Pc} {ret : Val} :
    Kept gate maxclient (resume gate b ret pc).1 := by
  cases pc with
  | closeLogout caller fd c =>
      change Kept gate maxclient (b.closeLoggedOut caller fd c ret).1
      unfold Books.closeLoggedOut
      split <;> exact kept
  | closeRecycle caller fd c => exact kept.closeRecycled
  | clearLogout data =>
      simp only [GateBooks.resume]
      split <;> exact kept
  | clearRecycle data =>
      simp only [GateBooks.resume]
      split <;> exact kept

theorem Kept.arrive {w : World} {id : Nat} {what : Env} (kept : Kept gate maxclient w.shared)
    (unused : Unused w (.arrive id what)) : Kept gate maxclient (arrive gate w.shared what).1 := by
  cases what with
  | opened fd => exact kept.opened unused
  | data flag fd msg => exact kept.dispatchMsg
  | request r => exact kept

theorem Kept.step {w w' : World} {e : Event Val Env} (kept : Kept gate maxclient w.shared)
    (unused : Unused w e) (stepped : (code gate).step w e = some w') :
    Kept gate maxclient w'.shared := by
  rcases Code.step_cases stepped with ⟨id, o, a, s', a', rfl, -, moved, rfl⟩ |
    ⟨id, what, s', rfl, happened, rfl⟩ | ⟨id, what, s', r, rfl, -, happened, rfl⟩
  · rcases Code.advance_cases moved with ⟨r, st, out, -, served, -⟩ |
      ⟨v, pc, st, out, -, resumed, -⟩
    · have next : s' = (GateBooks.serve gate o w.shared r).1 := (congrArg Prod.fst served).symm
      rw [next]
      exact kept.serve
    · have next : s' = (GateBooks.resume gate w.shared v pc).1 := (congrArg Prod.fst resumed).symm
      rw [next]
      exact kept.resume
  · have next : s' = (GateBooks.arrive gate w.shared what).1 :=
      (congrArg Prod.fst (Option.some.inj happened)).symm
    rw [next]
    exact kept.arrive unused
  · have next : s' = (GateBooks.arrive gate w.shared what).1 :=
      (congrArg Prod.fst (Option.some.inj happened)).symm
    rw [next]
    exact kept.arrive unused

/-- What is noted after an event: `handler.message` is called for the packets with which
`dispatch_msg` comes to it. -/
def notedAfter (gate : Addr) (b : Books) : Event Val Env → List (Netpack.Fd × Option Target)
  | .arrive _ (.data _ fd msg) =>
      if handles b.server fd msg then (b.message gate fd).routed else b.routed
  | _ => b.routed

/-- Nothing else is noted. -/
theorem routed_of_step {w w' : World} {e : Event Val Env}
    (stepped : (code gate).step w e = some w') :
    w'.shared.routed = notedAfter gate w.shared e := by
  rcases Code.step_cases stepped with ⟨id, o, a, s', a', rfl, -, moved, rfl⟩ |
    ⟨id, what, s', rfl, happened, rfl⟩ | ⟨id, what, s', r, rfl, -, happened, rfl⟩
  · rcases Code.advance_cases moved with ⟨r, st, out, -, served, -⟩ |
      ⟨v, pc, st, out, -, resumed, -⟩
    · have next : s' = (GateBooks.serve gate o w.shared r).1 := (congrArg Prod.fst served).symm
      rw [next]
      exact serve_routed
    · have next : s' = (GateBooks.resume gate w.shared v pc).1 := (congrArg Prod.fst resumed).symm
      rw [next]
      exact resume_routed
  · have next : s' = (GateBooks.arrive gate w.shared what).1 :=
      (congrArg Prod.fst (Option.some.inj happened)).symm
    rw [next]
    cases what with
    | opened fd => exact opened_routed
    | data flag fd msg =>
        simp only [GateBooks.arrive, Books.dispatchMsg, notedAfter]
        split <;> rfl
    | request r => rfl
  · cases what with
    | request r =>
        cases happened
        rfl
    | _ => cases happened

/-- **The books of a gate.** Whatever the sockets send and however the coroutines inside
`close_agent` and `clearAgent` interleave, `client_number` is the number of entries and at most
`maxclient`, every socket with an entry has one in `gate.lua` too, and `handler.message` has never
missed a connection. -/
theorem books_kept (gate : Addr) (maxclient : Nat) (socket : Netpack.Fd)
    (h : History gate maxclient socket) :
    h.1.shared.server.clientNumber = (sockets h.1.shared.server).ncard ∧
      0 ≤ h.1.shared.server.clientNumber ∧ h.1.shared.server.clientNumber ≤ maxclient ∧
      (∀ fd, h.1.shared.server.connection fd ≠ none → h.1.shared.conn gate fd ≠ none) ∧
      ∀ p ∈ h.1.shared.routed, p.2 ≠ none := by
  have kept : Kept gate maxclient h.1.shared :=
    h.2.invariant (P := fun w => Kept gate maxclient w.shared) (kept_start socket)
      fun kept unused stepped => kept.step unused stepped
  refine ⟨kept.tallied.number, ?_, kept.tallied.bound, kept.known, kept.routed⟩
  rw [kept.tallied.number]
  exact Int.natCast_nonneg _

/-- Two clients come where one is allowed. -/
theorem books_kept_full : ∃ h : History 7 1 3,
    h.1.shared.server.clientNumber = 1 ∧ (sockets h.1.shared.server).ncard = 1 := by
  obtain ⟨w, reached, number⟩ : ∃ w, (code 7).Reach Unused (start 1 3) w ∧
      w.shared.server.clientNumber = 1 := by
    refine ⟨_, .tail (.tail .refl ?_ (e := .arrive 0 (.opened 5)) rfl) ?_
      (e := .arrive 0 (.opened 6)) rfl, rfl⟩
    · exact rfl
    · exact rfl
  refine ⟨⟨w, reached⟩, number, ?_⟩
  have count := (books_kept 7 1 3 ⟨w, reached⟩).1
  rw [number] at count
  exact Int.ofNat.inj count.symm

end RillServer.GateBooks
