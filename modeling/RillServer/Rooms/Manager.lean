import RillServer.Agent.Room
import RillServer.Rooms.Pool
import Mathlib.Data.Finset.Card

/-!
# The room manager

`mod/global/manager/roomManager.lua` with the services it works with: the room pool, the room
services it gets there (`mod/room/roomAction.lua` and the rooms under `mod/room`) and one agent
(`mod/agent/agent_room.lua`). `Room_Map` says which service is which room. `create` takes a service
from the pool and starts it, `enter` and `leave` look the room up and pass the call on, and `leave`
then gives the service of a room that is not permanent (`roomMode` 2) back to the pool and removes
its entry. The players of a room are known to its service only.

The manager and the rooms answer a call that raised with nothing; a call to a service that was
killed raises. `gp` and `ddz` rooms tell the other players through the center, which suspends, and
`lh` rooms send to the agents, which does not. Requests of other players, and `create` with the
permanent rooms of `roomData.lua`, come from outside.
-/

namespace RillServer.RoomManager

open Coroutine

/-- The classes that `require(room_type .. ".room")` finds. -/
inductive Kind where
  | gp
  | ddz
  | lh
  deriving DecidableEq

/-- The bound of `is_player_num_overload`. -/
def Kind.limit : Kind → Nat
  | .gp => 10000
  | .ddz => 10000
  | .lh => 5000

/-- `ROOM` of a room service. -/
structure Room where
  kind : Kind
  players : Finset Uid

/-- An entry of `Room_Map`. -/
structure Info where
  addr : Addr
  roomMode : Option Nat
  deriving DecidableEq

def Info.permanent (info : Info) : Prop := info.roomMode = some 2

instance Info.decidablePermanent (info : Info) : Decidable info.permanent :=
  inferInstanceAs (Decidable (_ = _))

/-- What an agent gets to see of an entry. -/
def Info.describe (info : Info) : AgentRoom.RoomInfo := ⟨some info.addr⟩

inductive ManagerReq (R : Type) where
  | create (roomId : Option R) (roomType : Option String) (roomMode : Option Nat)
  | enter (roomId : R) (uid : Uid)
  | leave (roomId : R) (uid : Uid)
  deriving DecidableEq

inductive RoomReq where
  | start (roomType : Option String)
  | enter (uid : Uid)
  | leave (uid : Uid)
  deriving DecidableEq

inductive AgentReq (R : Type) where
  | createRoom (msg : AgentRoom.Msg R)
  | enterRoom (msg : AgentRoom.Msg R)
  | leaveRoom (msg : AgentRoom.Msg R)
  | kickRoom
  deriving DecidableEq

inductive Req (R : Type) where
  | agent (r : AgentReq R)
  | manager (r : ManagerReq R)
  | room (addr : Addr) (r : RoomReq)
  | pool (r : RoomPool.Req)
  /-- the calls of `broadcast` to the center -/
  | broadcast
  /-- `libdbproxy.inc_room` -/
  | incRoom
  deriving DecidableEq

/-- Where a coroutine can be suspended. -/
inductive Pc (R : Type) where
  | agent (pc : AgentRoom.Pc R)
  | createGet (roomId : Option R) (roomType : Option String) (roomMode : Option Nat)
  | createStart (roomId : R) (roomType : Option String) (roomMode : Option Nat)
  | enterRoom (roomId : R) (uid : Uid) (room : Info)
  | leaveRoom (roomId : R) (uid : Uid) (room : Info)
  | leaveRecycle (roomId : R) (uid : Uid) (room : Info) (isok : Bool)
  | roomBroadcast (addr : Addr) (r : RoomReq)
  | pool (pc : RoomPool.Pc)
  deriving DecidableEq

/-- An answer. `nothing` is what a dispatch that raised answers; of `isok` only its truth is
kept. -/
inductive Val (R : Type) where
  | agent (result : AgentRoom.Result R)
  | created (roomInfo : Option Info)
  | entered (isok : Bool) (forward : Option Int) (roomInfo : Option Info)
  | left (isok : Bool)
  | answer (isok : Bool)
  | pool (v : RoomPool.Val)
  | number (id : Option R)
  | nothing
  | done
  | raise
  deriving DecidableEq

/-- The state of all the services. -/
structure Shared (R : Type) where
  agent : AgentRoom.Rooms R
  /-- `Room_Map` -/
  roomMap : R → Option Info
  rooms : Addr → Option Room
  pool : RoomPool.Pool
  /-- `skynet.self()` of the manager -/
  self : Int
  /-- what `require` finds for a room type -/
  require : Option String → Option Kind

/-- What the launcher, the center and the database answer. -/
inductive Ora (R : Type) where
  | ok
  | fails
  | number (id : Option R)
  deriving DecidableEq

/-- What comes from outside: commands of the agent's client and calls for other players. -/
inductive Env (R : Type) where
  | agent (r : AgentReq R)
  | manager (r : ManagerReq R)
  deriving DecidableEq

abbrev Act (R : Type) := Activity (Req R) (Pc R) (Val R)

abbrev World (R : Type) := Coroutine.World (Shared R) (Req R) (Pc R) (Val R)

abbrev Out (R : Type) := Outcome (Req R) (Pc R) (Val R)

variable {R : Type}

/-! ## The services -/

def Shared.setRoom (s : Shared R) (addr : Addr) (room : Room) : Shared R :=
  { s with rooms := Function.update s.rooms addr (some room) }

def Room.enter (room : Room) (uid : Uid) : Room :=
  { room with players := insert uid room.players }

def Room.leave (room : Room) (uid : Uid) : Room :=
  { room with players := room.players.erase uid }

section Services

variable [DecidableEq R] (s : Shared R)

def serveManager : ManagerReq R → Out R
  | .create roomId roomType roomMode => .call (.pool .get) (.createGet roomId roomType roomMode)
  | .enter roomId uid =>
      match s.roomMap roomId with
      | none => .ret (.entered false none none)
      | some room => .call (.room room.addr (.enter uid)) (.enterRoom roomId uid room)
  | .leave roomId uid =>
      match s.roomMap roomId with
      | none => .ret (.left false)
      | some room => .call (.room room.addr (.leave uid)) (.leaveRoom roomId uid room)

/-- `create` after the pool answered; an entry for `nil` raises. -/
def createGot (roomId : Option R) (roomType : Option String) (roomMode : Option Nat) :
    Val R → Shared R × Out R
  | .pool (.addr addr) =>
      match roomId with
      | none => (s, .ret .nothing)
      | some roomId =>
          ({ s with roomMap := Function.update s.roomMap roomId (some ⟨addr, roomMode⟩) },
            .call (.room addr (.start roomType)) (.createStart roomId roomType roomMode))
  | _ => (s, .ret .nothing)

/-- `leave` after the room answered. -/
def leaveLeft (roomId : R) (uid : Uid) (room : Info) : Val R → Out R
  | .answer isok =>
      if room.permanent then .ret (.left isok)
      else .call (.pool (.recycle (some room.addr))) (.leaveRecycle roomId uid room isok)
  | _ => .ret .nothing

/-- `broadcast` to all players but one, in a request. -/
def broadcast (addr : Addr) (r : RoomReq) (room : Room) (uid : Uid) : Out R :=
  if room.kind = .lh ∨ room.players.erase uid = ∅ then .ret (.answer true)
  else .call .broadcast (.roomBroadcast addr r)

/-- `dispatch.start`, `enter` and `leave` of a room service; they raise where there is no `ROOM`. -/
def serveRoom (addr : Addr) : RoomReq → Shared R × Out R
  | .start roomType =>
      match s.require roomType with
      | none => (s, .ret .nothing)
      | some kind => (s.setRoom addr ⟨kind, ∅⟩, .ret (.answer false))
  | .enter uid =>
      match s.rooms addr with
      | none => (s, .ret (.answer false))
      | some room =>
          if room.kind.limit ≤ room.players.card then (s, .ret (.answer false))
          else
            let room := room.enter uid
            (s.setRoom addr room, broadcast addr (.enter uid) room uid)
  | .leave uid =>
      match s.rooms addr with
      | none => (s, .ret (.answer false))
      | some room =>
          let room := room.leave uid
          (s.setRoom addr room, broadcast addr (.leave uid) room uid)

end Services

/-- The calls of the agent. -/
def outAgent : AgentRoom.Out R → Out R
  | .call .incRoom pc => .call .incRoom (.agent pc)
  | .call (.create id game) pc => .call (.manager (.create id game none)) (.agent pc)
  | .call (.enter id uid) pc => .call (.manager (.enter id uid)) (.agent pc)
  | .call (.leave id uid) pc => .call (.manager (.leave id uid)) (.agent pc)
  | .ret result => .ret (.agent result)

def outPool : RoomPool.Out → Out R
  | .call r pc => .call (.pool r) (.pool pc)
  | .ret v => .ret (.pool v)

def serveAgent (s : AgentRoom.Rooms R) : AgentReq R → AgentRoom.Rooms R × AgentRoom.Out R
  | .createRoom msg => AgentRoom.createRoom s msg
  | .enterRoom msg => AgentRoom.enterRoom s msg
  | .leaveRoom msg => AgentRoom.leaveRoom s msg
  | .kickRoom => AgentRoom.kickRoom s

section Code

variable [DecidableEq R] [Zero R]

def resumeAgent (s : AgentRoom.Rooms R) :
    AgentRoom.Pc R → Val R → AgentRoom.Rooms R × AgentRoom.Out R
  | .createInc msg, .number id => AgentRoom.createRoomNumbered s msg id
  | .createInc _, _ => (s, .ret .raised)
  | .createRoom msg, .created roomInfo =>
      AgentRoom.createRoomCreated s msg (roomInfo.map Info.describe)
  | .createRoom msg, _ => AgentRoom.createRoomCreated s msg none
  | .enter msg id, .entered isok forward roomInfo =>
      AgentRoom.enterRoomEntered s msg id isok forward (roomInfo.map Info.describe)
  | .enter msg id, _ => AgentRoom.enterRoomEntered s msg id false none none
  | .leave msg, .left ok => AgentRoom.leaveRoomLeft s msg ok
  | .leave msg, _ => AgentRoom.leaveRoomLeft s msg false
  | .kick, .left ok => AgentRoom.kickRoomLeft s ok
  | .kick, _ => AgentRoom.kickRoomLeft s false

def serve (o : Ora R) (s : Shared R) : Req R → Shared R × Out R
  | .agent r =>
      let (agent, out) := serveAgent s.agent r
      ({ s with agent }, outAgent out)
  | .manager r => (s, serveManager s r)
  | .room addr r => if addr ∈ s.pool.killed then (s, .ret .raise) else serveRoom s addr r
  | .pool r =>
      let (pool, out) := RoomPool.serve (o == .fails) s.pool r
      ({ s with pool }, outPool out)
  | .broadcast => (s, .ret (if o = .fails then .raise else .done))
  | .incRoom =>
      match o with
      | .number id => (s, .ret (.number id))
      | _ => (s, .ret .raise)

def resume (s : Shared R) : Pc R → Val R → Shared R × Out R
  | .agent pc, v =>
      let (agent, out) := resumeAgent s.agent pc v
      ({ s with agent }, outAgent out)
  | .createGet roomId roomType roomMode, v => createGot s roomId roomType roomMode v
  | .createStart _ _ _, .raise => (s, .ret .nothing)
  | .createStart roomId _ _, _ => (s, .ret (.created (s.roomMap roomId)))
  | .enterRoom _ _ room, .answer isok => (s, .ret (.entered isok (some s.self) (some room)))
  | .enterRoom _ _ _, _ => (s, .ret .nothing)
  | .leaveRoom roomId uid room, v => (s, leaveLeft roomId uid room v)
  | .leaveRecycle roomId _ _ isok, .pool .nil =>
      ({ s with roomMap := Function.update s.roomMap roomId none }, .ret (.left isok))
  | .leaveRecycle _ _ _ _, _ => (s, .ret .nothing)
  | .roomBroadcast addr _, v =>
      if addr ∈ s.pool.killed then (s, .ret .raise) else (s, .ret (.answer (v = .done)))
  | .pool pc, .pool v =>
      let (pool, out) := RoomPool.resume s.pool pc v
      ({ s with pool }, outPool out)
  | .pool _, _ => (s, .ret (.pool .raise))

def arrive : Env R → Shared R → Option (Shared R × Option (Req R))
  | .agent r, s => some (s, some (.agent r))
  | .manager r, s => some (s, some (.manager r))

def code : Code (Shared R) (Ora R) (Env R) (Req R) (Pc R) (Val R) where
  serve := serve
  resume _ := resume
  arrive := arrive

/-- The room types of the repository. -/
def roomTypes : Option String → Option Kind
  | some "gp" => some .gp
  | some "ddz" => some .ddz
  | some "lh" => some .lh
  | _ => none

/-- The configuration: the pool's, the manager's address, what `require` finds and the agent's
player. -/
structure Conf where
  maxnum : Nat
  recyremove : Nat
  self : Int
  require : Option String → Option Kind
  uid : Uid

/-- `init_pool` of the pool has been called, and the agent has been started. -/
def init (conf : Conf) : World R where
  shared :=
    { agent := { (AgentRoom.fresh : AgentRoom.Rooms R) with uid := conf.uid }
      roomMap := fun _ => none
      rooms := fun _ => none
      pool := RoomPool.fresh conf.maxnum conf.recyremove
      self := conf.self
      require := conf.require }
  acts := Function.update (fun _ => none) 0 (some (.calling (.pool .initPool) []))

/-! ## What a segment can do -/

/-- Everything one segment can do to the state and to its activity. -/
inductive Moves (s : Shared R) : Act R → Shared R → Act R → Prop
  | agent {r : AgentReq R} {st : List (Pc R)} :
    Moves s (.calling (.agent r) st) { s with agent := (serveAgent s.agent r).1 }
      ((outAgent (serveAgent s.agent r).2).settle st)
  | agentResumed {pc : AgentRoom.Pc R} {v : Val R} {st : List (Pc R)} :
    Moves s (.returning v (.agent pc :: st)) { s with agent := (resumeAgent s.agent pc v).1 }
      ((outAgent (resumeAgent s.agent pc v).2).settle st)
  | create {roomId : Option R} {roomType : Option String} {roomMode : Option Nat}
      {st : List (Pc R)} :
    Moves s (.calling (.manager (.create roomId roomType roomMode)) st) s
      (.calling (.pool .get) (.createGet roomId roomType roomMode :: st))
  | stored {addr : Addr} {roomId : R} {roomType : Option String} {roomMode : Option Nat}
      {st : List (Pc R)} :
    Moves s (.returning (.pool (.addr addr)) (.createGet (some roomId) roomType roomMode :: st))
      { s with roomMap := Function.update s.roomMap roomId (some ⟨addr, roomMode⟩) }
      (.calling (.room addr (.start roomType)) (.createStart roomId roomType roomMode :: st))
  | notStored {v : Val R} {roomId : Option R} {roomType : Option String} {roomMode : Option Nat}
      {st : List (Pc R)} :
    Moves s (.returning v (.createGet roomId roomType roomMode :: st)) s (.returning .nothing st)
  | created {v : Val R} {roomId : R} {roomType : Option String} {roomMode : Option Nat}
      {st : List (Pc R)} :
    Moves s (.returning v (.createStart roomId roomType roomMode :: st)) s
      (.returning (.created (s.roomMap roomId)) st)
  | notCreated {roomId : R} {roomType : Option String} {roomMode : Option Nat}
      {st : List (Pc R)} :
    Moves s (.returning .raise (.createStart roomId roomType roomMode :: st)) s
      (.returning .nothing st)
  | enterMissing {roomId : R} {uid : Uid} {st : List (Pc R)} : s.roomMap roomId = none →
    Moves s (.calling (.manager (.enter roomId uid)) st) s
      (.returning (.entered false none none) st)
  | enterFound {roomId : R} {uid : Uid} {room : Info} {st : List (Pc R)} :
    s.roomMap roomId = some room →
    Moves s (.calling (.manager (.enter roomId uid)) st) s
      (.calling (.room room.addr (.enter uid)) (.enterRoom roomId uid room :: st))
  | enterAnswered {isok : Bool} {roomId : R} {uid : Uid} {room : Info} {st : List (Pc R)} :
    Moves s (.returning (.answer isok) (.enterRoom roomId uid room :: st)) s
      (.returning (.entered isok (some s.self) (some room)) st)
  | enterFailed {v : Val R} {roomId : R} {uid : Uid} {room : Info} {st : List (Pc R)} :
    (∀ isok, v ≠ .answer isok) →
    Moves s (.returning v (.enterRoom roomId uid room :: st)) s (.returning .nothing st)
  | leaveMissing {roomId : R} {uid : Uid} {st : List (Pc R)} : s.roomMap roomId = none →
    Moves s (.calling (.manager (.leave roomId uid)) st) s (.returning (.left false) st)
  | leaveFound {roomId : R} {uid : Uid} {room : Info} {st : List (Pc R)} :
    s.roomMap roomId = some room →
    Moves s (.calling (.manager (.leave roomId uid)) st) s
      (.calling (.room room.addr (.leave uid)) (.leaveRoom roomId uid room :: st))
  | leaveAnswered {isok : Bool} {roomId : R} {uid : Uid} {room : Info} {st : List (Pc R)} :
    room.permanent →
    Moves s (.returning (.answer isok) (.leaveRoom roomId uid room :: st)) s
      (.returning (.left isok) st)
  | leaveRecycles {isok : Bool} {roomId : R} {uid : Uid} {room : Info} {st : List (Pc R)} :
    ¬ room.permanent →
    Moves s (.returning (.answer isok) (.leaveRoom roomId uid room :: st)) s
      (.calling (.pool (.recycle (some room.addr))) (.leaveRecycle roomId uid room isok :: st))
  | leaveFailed {v : Val R} {roomId : R} {uid : Uid} {room : Info} {st : List (Pc R)} :
    (∀ isok, v ≠ .answer isok) →
    Moves s (.returning v (.leaveRoom roomId uid room :: st)) s (.returning .nothing st)
  | removed {isok : Bool} {roomId : R} {uid : Uid} {room : Info} {st : List (Pc R)} :
    Moves s (.returning (.pool .nil) (.leaveRecycle roomId uid room isok :: st))
      { s with roomMap := Function.update s.roomMap roomId none } (.returning (.left isok) st)
  | notRemoved {v : Val R} {isok : Bool} {roomId : R} {uid : Uid} {room : Info}
      {st : List (Pc R)} :
    v ≠ .pool .nil →
    Moves s (.returning v (.leaveRecycle roomId uid room isok :: st)) s (.returning .nothing st)
  | killed {addr : Addr} {r : RoomReq} {st : List (Pc R)} : addr ∈ s.pool.killed →
    Moves s (.calling (.room addr r) st) s (.returning .raise st)
  | started {addr : Addr} {roomType : Option String} {kind : Kind} {st : List (Pc R)} :
    addr ∉ s.pool.killed → s.require roomType = some kind →
    Moves s (.calling (.room addr (.start roomType)) st) (s.setRoom addr ⟨kind, ∅⟩)
      (.returning (.answer false) st)
  | notStarted {addr : Addr} {roomType : Option String} {st : List (Pc R)} :
    Moves s (.calling (.room addr (.start roomType)) st) s (.returning .nothing st)
  | entered {addr : Addr} {uid : Uid} {room : Room} {st : List (Pc R)} :
    addr ∉ s.pool.killed → s.rooms addr = some room →
    Moves s (.calling (.room addr (.enter uid)) st) (s.setRoom addr (room.enter uid))
      ((RoomManager.broadcast addr (.enter uid) (room.enter uid) uid).settle st)
  | notEntered {addr : Addr} {uid : Uid} {st : List (Pc R)} :
    Moves s (.calling (.room addr (.enter uid)) st) s (.returning (.answer false) st)
  | left {addr : Addr} {uid : Uid} {room : Room} {st : List (Pc R)} :
    addr ∉ s.pool.killed → s.rooms addr = some room →
    Moves s (.calling (.room addr (.leave uid)) st) (s.setRoom addr (room.leave uid))
      ((RoomManager.broadcast addr (.leave uid) (room.leave uid) uid).settle st)
  | notLeft {addr : Addr} {uid : Uid} {st : List (Pc R)} : s.rooms addr = none →
    Moves s (.calling (.room addr (.leave uid)) st) s (.returning (.answer false) st)
  | told {v : Val R} {addr : Addr} {r : RoomReq} {st : List (Pc R)} : addr ∉ s.pool.killed →
    Moves s (.returning v (.roomBroadcast addr r :: st)) s (.returning (.answer (v = .done)) st)
  | toldKilled {v : Val R} {addr : Addr} {r : RoomReq} {st : List (Pc R)} : addr ∈ s.pool.killed →
    Moves s (.returning v (.roomBroadcast addr r :: st)) s (.returning .raise st)
  | broadcast {st : List (Pc R)} : Moves s (.calling .broadcast st) s (.returning .done st)
  | notBroadcast {st : List (Pc R)} : Moves s (.calling .broadcast st) s (.returning .raise st)
  | numbered {id : Option R} {st : List (Pc R)} :
    Moves s (.calling .incRoom st) s (.returning (.number id) st)
  | notNumbered {st : List (Pc R)} : Moves s (.calling .incRoom st) s (.returning .raise st)
  | pool {r : RoomPool.Req} {p : RoomPool.Pool} {out : RoomPool.Out} {st : List (Pc R)} :
    RoomPool.Served s.pool r p out →
    Moves s (.calling (.pool r) st) { s with pool := p } ((outPool out).settle st)
  | poolResumed {pc : RoomPool.Pc} {v : RoomPool.Val} {p : RoomPool.Pool} {out : RoomPool.Out}
      {st : List (Pc R)} : RoomPool.Resumed s.pool pc v p out →
    Moves s (.returning (.pool v) (.pool pc :: st)) { s with pool := p } ((outPool out).settle st)
  | poolFailed {pc : RoomPool.Pc} {v : Val R} {st : List (Pc R)} :
    Moves s (.returning v (.pool pc :: st)) s (.returning (.pool .raise) st)

theorem moves_serve (o : Ora R) (s : Shared R) (r : Req R) (st : List (Pc R)) :
    Moves s (.calling r st) (serve o s r).1 ((serve o s r).2.settle st) := by
  cases r with
  | agent r => exact .agent
  | manager r =>
      cases r with
      | create roomId roomType roomMode => exact .create
      | enter roomId uid =>
          cases known : s.roomMap roomId with
          | none =>
              simp only [serve, serveManager, known]
              exact .enterMissing known
          | some room =>
              simp only [serve, serveManager, known]
              exact .enterFound known
      | leave roomId uid =>
          cases known : s.roomMap roomId with
          | none =>
              simp only [serve, serveManager, known]
              exact .leaveMissing known
          | some room =>
              simp only [serve, serveManager, known]
              exact .leaveFound known
  | room addr r =>
      simp only [serve]
      split
      · rename_i dead
        exact .killed dead
      · rename_i lives
        cases r with
        | start roomType =>
            cases found : s.require roomType with
            | none =>
                simp only [serveRoom, found]
                exact .notStarted
            | some kind =>
                simp only [serveRoom, found]
                exact .started lives found
        | enter uid =>
            cases there : s.rooms addr with
            | none =>
                simp only [serveRoom, there]
                exact .notEntered
            | some room =>
                simp only [serveRoom, there]
                split
                · exact .notEntered
                · exact .entered lives there
        | leave uid =>
            cases there : s.rooms addr with
            | none =>
                simp only [serveRoom, there]
                exact .notLeft there
            | some room =>
                simp only [serveRoom, there]
                exact .left lives there
  | pool r => exact .pool (RoomPool.serve_spec _ s.pool r)
  | broadcast =>
      simp only [serve]
      split
      · exact .notBroadcast
      · exact .broadcast
  | incRoom =>
      simp only [serve]
      split
      · exact .numbered
      · exact .notNumbered

theorem moves_resume (s : Shared R) (pc : Pc R) (v : Val R) (st : List (Pc R)) :
    Moves s (.returning v (pc :: st)) (resume s pc v).1 ((resume s pc v).2.settle st) := by
  cases pc with
  | agent pc => exact .agentResumed
  | createGet roomId roomType roomMode =>
      simp only [resume]
      unfold createGot
      split
      · cases roomId with
        | none => exact .notStored
        | some roomId => exact .stored
      · exact .notStored
  | createStart roomId roomType roomMode =>
      cases v with
      | raise => exact .notCreated
      | agent | created | entered | left | answer | pool | number | nothing | done =>
          exact .created
  | enterRoom roomId uid room =>
      cases v with
      | answer isok => exact .enterAnswered
      | agent | created | entered | left | pool | number | nothing | done | raise =>
          exact .enterFailed nofun
  | leaveRoom roomId uid room =>
      cases v with
      | answer isok =>
          simp only [resume, leaveLeft]
          split
          · rename_i permanent
            exact .leaveAnswered permanent
          · rename_i passing
            exact .leaveRecycles passing
      | agent | created | entered | left | pool | number | nothing | done | raise =>
          exact .leaveFailed nofun
  | leaveRecycle roomId uid room isok =>
      by_cases nil : v = .pool .nil
      · subst nil
        exact .removed
      · have same : resume s (.leaveRecycle roomId uid room isok) v = (s, .ret .nothing) := by
          unfold resume
          split <;> simp_all
        rw [same]
        exact .notRemoved nil
  | roomBroadcast addr r =>
      simp only [resume]
      split
      · rename_i dead
        exact .toldKilled dead
      · rename_i lives
        exact .told lives
  | pool pc =>
      cases v with
      | pool v => exact .poolResumed (RoomPool.resume_spec s.pool pc v)
      | agent | created | entered | left | answer | number | nothing | done | raise =>
          exact .poolFailed

/-- The configuration of the pool stays. -/
theorem Moves.conf {s s' : Shared R} {a a' : Act R} (moves : Moves s a s' a') :
    s'.pool.maxnum = s.pool.maxnum ∧ s'.pool.recyremove = s.pool.recyremove := by
  cases moves with
  | pool served => cases served <;> exact ⟨rfl, rfl⟩
  | poolResumed resumed => cases resumed <;> exact ⟨rfl, rfl⟩
  | _ => exact ⟨rfl, rfl⟩

/-- Everything a step can do. -/
theorem step_moves {w w' : World R} {e : Event (Ora R) (Env R)}
    (stepped : code.step w e = some w') :
    (∃ id o a s' a', e = .run id o ∧ w.acts id = some a ∧ Moves w.shared a s' a' ∧
        w' = ⟨s', Function.update w.acts id (some a')⟩) ∨
      (∃ id r, e = .arrive id (.agent r) ∧ w.acts id = none ∧
        w' = ⟨w.shared, Function.update w.acts id (some (.calling (.agent r) []))⟩) ∨
      (∃ id r, e = .arrive id (.manager r) ∧ w.acts id = none ∧
        w' = ⟨w.shared, Function.update w.acts id (some (.calling (.manager r) []))⟩) := by
  rcases Code.step_cases stepped with ⟨id, o, a, s', a', rfl, found, moved, rfl⟩ |
    ⟨id, x, s', -, came, -⟩ | ⟨id, x, s', r, rfl, fresh, came, rfl⟩
  · refine .inl ⟨id, o, a, s', a', rfl, found, ?_, rfl⟩
    rcases Code.advance_cases moved with ⟨r, st, out, rfl, ran, rfl⟩ |
      ⟨v, pc, st, out, rfl, ran, rfl⟩
    · have moves := moves_serve o w.shared r st
      rw [show serve o w.shared r = (s', out) from ran] at moves
      exact moves
    · have moves := moves_resume w.shared pc v st
      rw [show resume w.shared pc v = (s', out) from ran] at moves
      exact moves
  · cases x <;> cases came
  · cases x with
    | agent r =>
        cases came
        exact .inr (.inl ⟨id, r, rfl, fresh, rfl⟩)
    | manager r =>
        cases came
        exact .inr (.inr ⟨id, r, rfl, fresh, rfl⟩)

end Code

/-! ## Who waits for whom -/

/-- Which request a suspended coroutine waits for, and which one it handles. -/
def typing : Typing (Req R) (Pc R) (Val R) where
  awaits
    | .agent (.createInc _), r => r = .incRoom
    | .agent (.createRoom _), r => ∃ id roomType, r = .manager (.create id roomType none)
    | .agent (.enter _ id), r => ∃ uid, r = .manager (.enter id uid)
    | .agent (.leave _), r => ∃ id uid, r = .manager (.leave id uid)
    | .agent .kick, r => ∃ id uid, r = .manager (.leave id uid)
    | .createGet _ _ _, r => r = .pool .get
    | .createStart _ roomType _, r => ∃ addr, r = .room addr (.start roomType)
    | .enterRoom _ uid room, r => r = .room room.addr (.enter uid)
    | .leaveRoom _ uid room, r => r = .room room.addr (.leave uid)
    | .leaveRecycle _ _ room _, r => r = .pool (.recycle (some room.addr))
    | .roomBroadcast _ _, r => r = .broadcast
    | .pool _, r => ∃ idx, r = .pool (.newservice idx)
  serves
    | .agent (.createInc msg) => .agent (.createRoom msg)
    | .agent (.createRoom msg) => .agent (.createRoom msg)
    | .agent (.enter msg _) => .agent (.enterRoom msg)
    | .agent (.leave msg) => .agent (.leaveRoom msg)
    | .agent .kick => .agent .kickRoom
    | .createGet roomId roomType roomMode => .manager (.create roomId roomType roomMode)
    | .createStart roomId roomType roomMode => .manager (.create (some roomId) roomType roomMode)
    | .enterRoom roomId uid _ => .manager (.enter roomId uid)
    | .leaveRoom roomId uid _ => .manager (.leave roomId uid)
    | .leaveRecycle roomId uid _ _ => .manager (.leave roomId uid)
    | .roomBroadcast addr r => .room addr r
    | .pool .getNew => .pool .get
    | .pool (.initNew _) => .pool .initPool
  answers _ _ := True

/-- The activity is well linked. -/
abbrev Linked (a : Act R) : Prop := typing.Ok a

theorem Linked.ret {r : Req R} {v : Val R} {st : List (Pc R)} (chain : typing.Chain r st) :
    Linked (.returning v st) := ⟨r, True.intro, chain⟩

/-- A service is given back by a `leave`. -/
theorem chain_recycle {addr : Addr} {pc : Pc R} {st : List (Pc R)}
    (chain : typing.Chain (.pool (.recycle (some addr))) (pc :: st)) :
    ∃ roomId uid info isok, pc = .leaveRecycle roomId uid info isok ∧ info.addr = addr := by
  have waits := chain.1
  cases pc with
  | leaveRecycle roomId uid info isok =>
      cases waits
      exact ⟨roomId, uid, info, isok, rfl, rfl⟩
  | agent pc => cases pc <;> simp [typing] at waits
  | _ => simp [typing] at waits

/-- Nobody in these services waits for a command of the agent. -/
theorem chain_agent {r : AgentReq R} {st : List (Pc R)} (chain : typing.Chain (.agent r) st) :
    st = [] := by
  cases st with
  | nil => rfl
  | cons pc st =>
      have waits := chain.1
      cases pc with
      | agent pc => cases pc <;> simp [typing] at waits
      | _ => simp [typing] at waits

theorem fits_broadcast {addr : Addr} {r : RoomReq} {room : Room} {uid : Uid} :
    typing.Fits (.room addr r : Req R) (broadcast addr r room uid) := by
  unfold broadcast
  split
  · exact True.intro
  · exact ⟨rfl, rfl⟩

theorem fits_agent (s : AgentRoom.Rooms R) (r : AgentReq R) :
    typing.Fits (.agent r) (outAgent (serveAgent s r).2) := by
  cases r with
  | createRoom msg => exact ⟨rfl, rfl⟩
  | enterRoom msg =>
      simp only [serveAgent, AgentRoom.enterRoom]
      split
      · exact True.intro
      · split
        · exact True.intro
        · exact ⟨⟨_, rfl⟩, rfl⟩
  | leaveRoom msg =>
      simp only [serveAgent, AgentRoom.leaveRoom]
      split
      · exact True.intro
      · exact ⟨⟨_, _, rfl⟩, rfl⟩
  | kickRoom =>
      simp only [serveAgent, AgentRoom.kickRoom]
      split
      · exact True.intro
      · split
        · exact ⟨⟨_, _, rfl⟩, rfl⟩
        · exact True.intro

section Linking

variable [DecidableEq R] [Zero R]

/-- A command that left a room, or could not, is over. -/
theorem left_ret (s : AgentRoom.Rooms R) (ok : Bool) (result : AgentRoom.Result R) :
    ∃ result', (AgentRoom.left s ok result).2 = .ret result' := by
  unfold AgentRoom.left
  split
  · split
    · exact ⟨_, rfl⟩
    · exact ⟨_, rfl⟩
  · exact ⟨_, rfl⟩

/-- After its answer a command is over, or it is `create_room` with its number. -/
theorem resumeAgent_out (s : AgentRoom.Rooms R) (pc : AgentRoom.Pc R) (v : Val R) :
    (∃ result, (resumeAgent s pc v).2 = .ret result) ∨
      ∃ msg id, pc = .createInc msg ∧
        (resumeAgent s pc v).2 = .call (.create id msg.game) (.createRoom msg) := by
  have created : ∀ msg info,
      ∃ result, (AgentRoom.createRoomCreated s msg info).2 = .ret result := by
    intro msg info
    unfold AgentRoom.createRoomCreated
    split <;> exact ⟨_, rfl⟩
  have entered : ∀ msg id isok forward info,
      ∃ result, (AgentRoom.enterRoomEntered s msg id isok forward info).2 = .ret result := by
    intro msg id isok forward info
    unfold AgentRoom.enterRoomEntered
    split
    · cases info <;> exact ⟨_, rfl⟩
    · exact ⟨_, rfl⟩
  cases pc with
  | createInc msg =>
      cases v with
      | number id => exact .inr ⟨msg, id, rfl, rfl⟩
      | agent | created | entered | left | answer | pool | nothing | done | raise =>
          exact .inl ⟨_, rfl⟩
  | createRoom msg => cases v <;> exact .inl (created _ _)
  | enter msg id => cases v <;> exact .inl (entered _ _ _ _ _)
  | leave msg => cases v <;> exact .inl (left_ret _ _ _)
  | kick => cases v <;> exact .inl (left_ret _ _ _)

/-- A segment handles the request that its activity was called with, or that its coroutine handles,
and its outcome fits that request. -/
theorem Moves.fits {s s' : Shared R} {a a' : Act R} (moves : Moves s a s' a') :
    ∃ r st out, a' = Outcome.settle st out ∧ typing.Fits r out ∧
      (a = .calling r st ∨ ∃ v pc, a = .returning v (pc :: st) ∧ typing.serves pc = r) := by
  cases moves with
  | agent => exact ⟨_, _, _, rfl, fits_agent _ _, .inl rfl⟩
  | @agentResumed pc v st =>
      refine ⟨_, st, _, rfl, ?_, .inr ⟨_, _, rfl, rfl⟩⟩
      rcases resumeAgent_out s.agent pc v with ⟨result, finished⟩ | ⟨msg, id, rfl, goes⟩
      · rw [finished]
        exact True.intro
      · rw [goes]
        exact ⟨⟨_, _, rfl⟩, rfl⟩
  | create => exact ⟨_, _, .call _ _, rfl, ⟨rfl, rfl⟩, .inl rfl⟩
  | stored => exact ⟨_, _, .call _ _, rfl, ⟨⟨_, rfl⟩, rfl⟩, .inr ⟨_, _, rfl, rfl⟩⟩
  | enterFound => exact ⟨_, _, .call _ _, rfl, ⟨rfl, rfl⟩, .inl rfl⟩
  | leaveFound => exact ⟨_, _, .call _ _, rfl, ⟨rfl, rfl⟩, .inl rfl⟩
  | leaveRecycles => exact ⟨_, _, .call _ _, rfl, ⟨rfl, rfl⟩, .inr ⟨_, _, rfl, rfl⟩⟩
  | entered => exact ⟨_, _, _, rfl, fits_broadcast, .inl rfl⟩
  | left => exact ⟨_, _, _, rfl, fits_broadcast, .inl rfl⟩
  | pool served =>
      refine ⟨_, _, _, rfl, ?_, .inl rfl⟩
      cases served with
      | round => exact ⟨⟨_, rfl⟩, rfl⟩
      | launching => exact ⟨⟨_, rfl⟩, rfl⟩
      | _ => exact True.intro
  | poolResumed resumed =>
      refine ⟨_, _, _, rfl, ?_, .inr ⟨_, _, rfl, rfl⟩⟩
      cases resumed with
      | round => exact ⟨⟨_, rfl⟩, rfl⟩
      | _ => exact True.intro
  | enterMissing | leaveMissing | killed | started | notStarted | notEntered | notLeft | broadcast
  | notBroadcast | numbered | notNumbered =>
      exact ⟨_, _, .ret _, rfl, True.intro, .inl rfl⟩
  | notStored | created | notCreated | enterAnswered | enterFailed | leaveAnswered | leaveFailed
  | removed | notRemoved | told | toldKilled | poolFailed =>
      exact ⟨_, _, .ret _, rfl, True.intro, .inr ⟨_, _, rfl, rfl⟩⟩

/-- Segments keep the activities well linked. -/
theorem Moves.linked {s s' : Shared R} {a a' : Act R} (moves : Moves s a s' a') (ok : Linked a) :
    Linked a' := by
  obtain ⟨r, st, out, rfl, fits, rfl | ⟨v, pc, rfl, handles⟩⟩ := moves.fits
  · exact Typing.Ok.settle fits ok
  · obtain ⟨q, -, -, chain⟩ := ok
    rw [handles] at chain
    exact Typing.Ok.settle fits chain

end Linking

end RillServer.RoomManager
