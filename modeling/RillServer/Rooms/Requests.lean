import RillServer.Lib.Machine
import RillServer.Rooms.Commands
import RillServer.Rooms.Presence

/-!
# Requests to a room

A request of a player goes to the service that `service_dispatch` of `wsagent.lua` finds in the
agent, under the number that `ext_info` has. The room, `forward.request` of `roomAction.lua` and
`RoomLH:onRequest`, runs the handler without looking at its `players`. So whether only members are
served is up to the agent, where `create_room` writes the same two places as `enter_room`: a player
who has created a room is served there before he has entered it (`creator_served`).

The players act one after the other: a command runs to its end before the next one begins. Every
player has an agent of his own. The commands are those of `RoomManager.code`, which has one agent;
here it is the agent of the player whose command it is.
-/

namespace RillServer.RoomRequests

open Coroutine RoomManager

/-- A run of a handler: for whom, in which service, and who was in the room. -/
structure Handled where
  uid : Uid
  addr : Addr
  handler : String
  players : Finset Uid
  deriving DecidableEq

/-- What `forward.request` answers. -/
structure Reply where
  cmd : String
  status : String
  deriving DecidableEq

/-- The agents of all players, and the other services. The last two fields are not in the source:
the handlers that were run, and the replies to requests, `none` where one has failed. -/
structure State (R : Type) where
  agents : Uid → AgentRoom.Rooms R
  shared : Shared R
  handled : List Handled
  replies : List (Uid × Option Reply)

variable {R : Type}

/-- The handlers of `roomOnCall.lua` of the `lh` room. -/
def onCall : List String := ["onLoop", "onBet"]

/-- The class has `onRequest`. -/
def hasOnRequest : Kind → Bool
  | .lh => true
  | .gp => false
  | .ddz => false

/-- `RoomLH:onRequest`: the handler it runs. -/
def onRequest (cmd : String) : Option String :=
  if "on" ++ cmd ∈ onCall then some ("on" ++ cmd) else none

/-- `onLoop` calls a method that a room does not have. -/
def raises (handler : String) : Prop := handler = "onLoop"

instance decidableRaises (handler : String) : Decidable (raises handler) :=
  inferInstanceAs (Decidable (_ = _))

/-- `service_dispatch` and `forward.request`. The call fails without a service, in one that was
killed, in a room without `onRequest`, and where the handler raises. -/
def State.request (s : State R) (uid : Uid) (cmd : String) : State R :=
  let failed := { s with replies := s.replies ++ [(uid, none)] }
  match AgentRoom.serviceDispatch (s.agents uid) with
  | none => failed
  | some info =>
      match info.addr with
      | none => failed
      | some addr =>
          if addr ∈ s.shared.pool.killed then failed
          else
            match s.shared.rooms addr with
            | none => failed
            | some room =>
                if hasOnRequest room.kind then
                  match onRequest cmd with
                  | none => { s with replies := s.replies ++ [(uid, some ⟨cmd, "成功"⟩)] }
                  | some handler =>
                      { s with
                        handled := s.handled ++ [⟨uid, addr, handler, room.players⟩]
                        replies := s.replies ++
                          [(uid, if raises handler then none else some ⟨cmd, "成功"⟩)] }
                else failed

inductive Event (R : Type) where
  /-- a command of the player's client, or a kick -/
  | command (uid : Uid) (r : RoomManager.AgentReq R) (os : List (Ora R))
  /-- a permanent room of `roomData.lua` is created -/
  | create (roomId : R) (roomType : Option String) (roomMode : Option Nat) (os : List (Ora R))
  | request (uid : Uid) (cmd : String)

def step [DecidableEq R] [Zero R] (s : State R) : Event R → Option (State R)
  | .command uid r os =>
      (complete { s.shared with agent := s.agents uid } (.calling (.agent r) []) os).map
        fun shared =>
          { s with agents := Function.update s.agents uid shared.agent, shared := shared }
  | .create roomId roomType roomMode os =>
      (complete s.shared (.calling (.manager (.create (some roomId) roomType roomMode)) []) os).map
        fun shared => { s with shared := shared }
  | .request uid cmd => some (s.request uid cmd)

/-- What `init_pool` can leave behind: idle services, none of them twice, and none killed. -/
def Filled : Type :=
  { p : RoomPool.Pool //
    p.pool.Nodup ∧ (∀ addr ∈ p.pool, addr < p.nextAddr) ∧ p.killed = [] }

/-- Nobody has done anything. -/
def start (pool : Filled) (self : Int) : State R where
  agents uid := { (AgentRoom.fresh : AgentRoom.Rooms R) with uid := uid }
  shared :=
    { agent := AgentRoom.fresh
      roomMap := fun _ => none
      rooms := fun _ => none
      pool := pool.1
      self := self
      require := roomTypes }
  handled := []
  replies := []

/-- What the players can have come to by steps of some kind. -/
abbrev History (R : Type) [DecidableEq R] [Zero R] (guard : State R → Event R → Prop)
    (pool : Filled) (self : Int) :=
  { s : State R // Machine.Reach step guard (start pool self) s }

/-- Handlers were run for members only. -/
def MembersOnly (s : State R) : Prop := ∀ h ∈ s.handled, h.uid ∈ h.players

/-- The player has entered the room. -/
def State.InRoom (s : State R) (uid : Uid) (roomId : R) : Prop :=
  (s.agents uid).roomId = some roomId

/-- A player who leaves does not take the service from under somebody else: the room is permanent,
or the pool will kill the service, or nobody else has entered the room. -/
def LeavesAlone (s : State R) (uid : Uid) : Prop :=
  ∀ roomId info, s.InRoom uid roomId → s.shared.roomMap roomId = some info → ¬ info.permanent →
    ¬ (s.shared.pool.recyremove = 1 ∧ s.shared.pool.maxnum ≤ s.shared.pool.pool.length) →
    ∀ uid', uid' ≠ uid → ¬ s.InRoom uid' roomId

/-- Rooms are created under numbers of no room that somebody is in, a room that is left is not
taken from others and its `broadcast` does not fail, and requests that reach a handler are sent to
the room that was entered. -/
def Proper (s : State R) : Event R → Prop
  | .command uid r os =>
      match r with
      | .createRoom _ => ∀ roomId, .number (some roomId) ∈ os → ∀ uid, ¬ s.InRoom uid roomId
      | .enterRoom _ => True
      | .leaveRoom _ => LeavesAlone s uid ∧ .fails ∉ os
      | .kickRoom => LeavesAlone s uid ∧ .fails ∉ os
  | .create roomId _ _ _ => ∀ uid, ¬ s.InRoom uid roomId
  | .request uid cmd =>
      onRequest cmd ≠ none → ∀ roomId info, (s.agents uid).extInfo.roomId = some roomId →
        (s.agents uid).service roomId = some info → s.InRoom uid roomId

/-! ## The services -/

/-- Every service is in one place: idle in the pool, or in one entry of `Room_Map`. -/
structure Placed (roomMap : R → Option Info) (p : RoomPool.Pool) : Prop where
  nodup : p.pool.Nodup
  apart : ∀ roomId roomId' info info', roomMap roomId = some info → roomMap roomId' = some info' →
    info.addr = info'.addr → roomId = roomId'
  idle : ∀ roomId info, roomMap roomId = some info → info.addr ∉ p.pool
  pooled : ∀ addr ∈ p.pool, addr < p.nextAddr
  launched : ∀ roomId info, roomMap roomId = some info → info.addr < p.nextAddr

section Places

variable {roomMap : R → Option Info} {p p' : RoomPool.Pool} {roomId : R}

/-- A service that was got from the pool is in no other place. -/
theorem Placed.got (placed : Placed roomMap p) {value : RoomPool.Val} (got : Got p p' value) :
    Placed roomMap p' ∧ ∀ addr, value = .addr addr → addr ∉ p'.pool ∧ addr < p'.nextAddr ∧
      ∀ roomId info, roomMap roomId = some info → info.addr ≠ addr := by
  cases got with
  | @taken addr same next _ =>
      have nodup := placed.nodup
      rw [same] at nodup
      have fewer : ∀ x ∈ p'.pool, x ∈ p.pool := by
        intro x member
        rw [same]
        exact List.mem_append_left _ member
      have last : addr ∈ p.pool := by
        rw [same]
        exact List.mem_append_right _ (List.mem_singleton.mpr rfl)
      refine ⟨⟨(List.nodup_append.mp nodup).1, placed.apart, ?_, ?_, ?_⟩, ?_⟩
      · exact fun roomId info known member => placed.idle roomId info known (fewer _ member)
      · rw [next]
        exact fun x member => placed.pooled x (fewer x member)
      · rw [next]
        exact placed.launched
      · rintro x ⟨⟩
        refine ⟨?_, ?_, ?_⟩
        · intro member
          exact (List.nodup_append.mp nodup).2.2 addr member addr (List.mem_singleton.mpr rfl) rfl
        · rw [next]
          exact placed.pooled addr last
        · intro roomId info known equal
          exact placed.idle roomId info known (equal ▸ last)
  | launched same next _ =>
      refine ⟨⟨same ▸ placed.nodup, placed.apart, ?_, ?_, ?_⟩, ?_⟩
      · rw [same]
        exact placed.idle
      · rw [same, next]
        exact fun x member => Nat.lt_succ_of_lt (placed.pooled x member)
      · rw [next]
        exact fun roomId info known => Nat.lt_succ_of_lt (placed.launched roomId info known)
      · rintro x ⟨⟩
        rw [same, next]
        refine ⟨?_, Nat.lt_succ_self _, ?_⟩
        · exact fun member => Nat.lt_irrefl _ (placed.pooled _ member)
        · exact fun roomId info known => Nat.ne_of_lt (placed.launched roomId info known)
  | failed same next _ =>
      refine ⟨⟨same ▸ placed.nodup, placed.apart, ?_, ?_, ?_⟩, nofun⟩
      · rw [same]
        exact placed.idle
      · rw [same]
        exact fun x member => Nat.lt_of_lt_of_le (placed.pooled x member) next
      · exact fun roomId info known => Nat.lt_of_lt_of_le (placed.launched roomId info known) next

theorem killed_got {value : RoomPool.Val} (got : Got p p' value) : p'.killed = p.killed := by
  cases got with
  | taken _ _ killed => exact killed
  | launched _ _ killed => exact killed
  | failed _ _ killed => exact killed

variable [DecidableEq R]

/-- A service that is in no other place gets an entry. -/
theorem Placed.stored (placed : Placed roomMap p) {addr : Addr} {roomMode : Option Nat}
    (outside : addr ∉ p.pool) (early : addr < p.nextAddr)
    (unnamed : ∀ roomId info, roomMap roomId = some info → info.addr ≠ addr) :
    Placed (Function.update roomMap roomId (some ⟨addr, roomMode⟩)) p := by
  refine ⟨placed.nodup, ?_, ?_, placed.pooled, ?_⟩
  · intro id id' info info' known known' same
    rcases update_eq_some known with ⟨rfl, new⟩ | ⟨-, old⟩
    · rcases update_eq_some known' with ⟨rfl, -⟩ | ⟨-, old'⟩
      · rfl
      · cases new
        exact (unnamed id' info' old' same.symm).elim
    · rcases update_eq_some known' with ⟨rfl, new'⟩ | ⟨-, old'⟩
      · cases new'
        exact (unnamed id info old same).elim
      · exact placed.apart id id' info info' old old' same
  · intro id info known
    rcases update_eq_some known with ⟨-, new⟩ | ⟨-, old⟩
    · cases new
      exact outside
    · exact placed.idle id info old
  · intro id info known
    rcases update_eq_some known with ⟨-, new⟩ | ⟨-, old⟩
    · cases new
      exact early
    · exact placed.launched id info old

theorem placed_created {s s' : Shared R} {mode : Option Nat} {id : Option R}
    (created : Created s id mode s') (placed : Placed s.roomMap s.pool) :
    Placed s'.roomMap s'.pool := by
  cases created with
  | nothing got => exact (placed.got got).1
  | stored _ got _ =>
      obtain ⟨placed', fresh⟩ := placed.got got
      obtain ⟨outside, early, unnamed⟩ := fresh _ rfl
      exact placed'.stored outside early unnamed

/-- An entry is removed, and its service is killed or goes to the pool. -/
theorem Placed.released (placed : Placed roomMap p) {info : Info}
    (known : roomMap roomId = some info) (recycled : Recycled p info.addr p') :
    Placed (Function.update roomMap roomId none) p' := by
  have earlier : ∀ {id other}, Function.update roomMap roomId none id = some other →
      id ≠ roomId ∧ roomMap id = some other := by
    intro id other found
    rcases update_eq_some found with ⟨-, new⟩ | old
    · cases new
    · exact old
  have apart : ∀ id id' other other', Function.update roomMap roomId none id = some other →
      Function.update roomMap roomId none id' = some other' → other.addr = other'.addr →
      id = id' := by
    intro id id' other other' found found'
    exact placed.apart id id' other other' (earlier found).2 (earlier found').2
  cases recycled with
  | killed _ same next _ =>
      refine ⟨same ▸ placed.nodup, apart, ?_, ?_, ?_⟩
      · rw [same]
        exact fun id other found => placed.idle id other (earlier found).2
      · rw [same, next]
        exact placed.pooled
      · rw [next]
        exact fun id other found => placed.launched id other (earlier found).2
  | returned _ same next _ =>
      refine ⟨?_, apart, ?_, ?_, ?_⟩
      · rw [same]
        exact List.nodup_cons.mpr ⟨placed.idle roomId info known, placed.nodup⟩
      · rw [same]
        intro id other found member
        obtain ⟨differ, old⟩ := earlier found
        rcases List.mem_cons.mp member with here | there
        · exact differ (placed.apart id roomId other info old known here)
        · exact placed.idle id other old there
      · rw [same, next]
        intro addr member
        rcases List.mem_cons.mp member with rfl | there
        · exact placed.launched roomId info known
        · exact placed.pooled addr there
      · rw [next]
        exact fun id other found => placed.launched id other (earlier found).2

end Places

/-! ## The members -/

/-- The agent has the service of the room it remembers. The service was killed, or it still is that
room and the player is in it. -/
def Member (s : Shared R) (agent : AgentRoom.Rooms R) : Prop :=
  ∀ roomId, agent.roomId = some roomId → ∃ addr, agent.service roomId = some ⟨some addr⟩ ∧
    (s.roomMap roomId = none ∧ addr ∈ s.pool.killed ∨
      ∃ info, s.roomMap roomId = some info ∧ info.addr = addr ∧ Inside s agent.uid addr)

structure Sound (s : Shared R) (agents : Uid → AgentRoom.Rooms R) : Prop where
  placed : Placed s.roomMap s.pool
  uids : ∀ uid, (agents uid).uid = uid
  members : ∀ uid, Member s (agents uid)

section Members

variable {s s' : Shared R} {agent agent' : AgentRoom.Rooms R}

/-- The room of the service is there as long as it has an entry. -/
theorem Member.there (member : Member s agent) {roomId : R} {info : Info}
    (inside : agent.roomId = some roomId) (known : s.roomMap roomId = some info) :
    ∃ room, s.rooms info.addr = some room := by
  obtain ⟨addr, -, ⟨gone, -⟩ | ⟨info', known', rfl, room, there, -⟩⟩ := member roomId inside
  · rw [gone] at known
    cases known
  · rw [known] at known'
    cases known'
    exact ⟨room, there⟩

/-- What the others do to an agent's room. -/
theorem Member.keep (member : Member s agent)
    (killed : ∀ addr ∈ s.pool.killed, addr ∈ s'.pool.killed)
    (entries : ∀ roomId, agent.roomId = some roomId → s'.roomMap roomId = s.roomMap roomId)
    (stays : ∀ roomId info, agent.roomId = some roomId → s.roomMap roomId = some info →
      Inside s agent.uid info.addr → Inside s' agent.uid info.addr) :
    Member s' agent := by
  intro roomId remembered
  obtain ⟨addr, service, ⟨gone, dead⟩ | ⟨info, known, rfl, inside⟩⟩ := member roomId remembered
  · exact ⟨addr, service, .inl ⟨(entries roomId remembered).trans gone, killed addr dead⟩⟩
  · exact ⟨info.addr, service, .inr ⟨info, (entries roomId remembered).trans known, rfl,
      stays roomId info remembered known inside⟩⟩

theorem Member.alike (member : Member s agent) {id : Option R} (alike : Alike agent agent' id)
    (away : ∀ roomId, id = some roomId → agent.roomId ≠ some roomId) : Member s agent' := by
  intro roomId remembered
  rw [alike.roomId] at remembered
  have other : id ≠ some roomId := fun same => away roomId same remembered
  rw [alike.service roomId other, alike.uid]
  exact member roomId remembered

/-- Somebody else leaves a room. -/
theorem inside_leave {addr addr' : Addr} {room : Room} {uid uid' : Uid}
    (inside : Inside s uid addr) (there : s.rooms addr' = some room) (other : uid ≠ uid') :
    Inside (s.setRoom addr' (room.leave uid')) uid addr := by
  obtain ⟨room', there', member⟩ := inside
  rcases eq_or_ne addr addr' with rfl | differ
  · rw [there] at there'
    cases there'
    exact ⟨room.leave uid', Function.update_self _ _ _, Finset.mem_erase_of_ne_of_mem other member⟩
  · exact ⟨room', (Function.update_of_ne differ _ _).trans there', member⟩

theorem member_entered {roomId : R} {uid : Uid} {v : RoomManager.Val R}
    (entered : Entered s roomId uid s' v) (member : Member s agent) : Member s' agent := by
  cases entered with
  | refused _ => exact member
  | @entered info room _ _ known there =>
      refine member.keep (fun _ dead => dead) (fun _ _ => rfl) ?_
      intro _ info' _ _ inside
      obtain ⟨room', there', member'⟩ := inside
      rcases eq_or_ne info'.addr info.addr with same | differ
      · rw [same, there] at there'
        cases there'
        rw [same]
        exact ⟨room.enter uid, Function.update_self _ _ _, Finset.mem_insert_of_mem member'⟩
      · exact ⟨room', (Function.update_of_ne differ _ _).trans there', member'⟩

/-- A command of one player, seen by the others. -/
theorem Sound.command {agents : Uid → AgentRoom.Rooms R} {uid : Uid} (sound : Sound s agents)
    (placed : Placed s'.roomMap s'.pool) (same : agent.uid = (agents uid).uid)
    (member : Member s' agent) (others : ∀ uid', uid' ≠ uid → Member s' (agents uid')) :
    Sound s' (Function.update agents uid agent) := by
  refine ⟨placed, ?_, ?_⟩
  · intro uid'
    rcases eq_or_ne uid' uid with rfl | differ
    · rw [Function.update_self, same, sound.uids uid']
    · rw [Function.update_of_ne differ, sound.uids uid']
  · intro uid'
    rcases eq_or_ne uid' uid with rfl | differ
    · rw [Function.update_self]
      exact member
    · rw [Function.update_of_ne differ]
      exact others uid' differ

variable [DecidableEq R]

/-- A service that is got from the pool is the service of no member. -/
theorem member_created {id : Option R} {mode : Option Nat} (created : Created s id mode s')
    (placed : Placed s.roomMap s.pool) (member : Member s agent)
    (away : ∀ roomId, id = some roomId → agent.roomId ≠ some roomId) : Member s' agent := by
  cases created with
  | nothing got =>
      have killed := killed_got got
      refine member.keep ?_ (fun _ _ => rfl) (fun _ _ _ _ inside => inside)
      exact fun addr dead => killed ▸ dead
  | @stored p addr id rooms same got others =>
      have killed := killed_got got
      obtain ⟨-, -, unnamed⟩ := (placed.got got).2 addr rfl
      refine member.keep ?_ ?_ ?_
      · exact fun addr dead => killed ▸ dead
      · intro roomId remembered
        have differ : roomId ≠ id := fun here => away id same (here ▸ remembered)
        exact Function.update_of_ne differ _ _
      · intro roomId info _ known inside
        obtain ⟨room, there, member'⟩ := inside
        exact ⟨room, (others info.addr (unnamed roomId info known)).trans there, member'⟩

theorem member_left {roomId : R} {uid : Uid} {v : RoomManager.Val R}
    (left : Left s roomId uid s' v) (member : Member s agent) (other : agent.uid ≠ uid)
    (alone : ∀ info, s.roomMap roomId = some info → ¬ info.permanent →
      ¬ (s.pool.recyremove = 1 ∧ s.pool.maxnum ≤ s.pool.pool.length) →
      agent.roomId ≠ some roomId) :
    Member s' agent := by
  cases left with
  | refused _ => exact member
  | stays known there permanent =>
      refine member.keep (fun _ dead => dead) (fun _ _ => rfl) ?_
      exact fun _ _ _ _ inside => inside_leave inside there other
  | @released info room p known there passing recycled =>
      rcases eq_or_ne agent.roomId (some roomId) with here | elsewhere
      · -- the agent remembers the room, so its service has been killed
        cases recycled with
        | killed _ _ _ killed =>
            intro roomId' remembered
            rw [here] at remembered
            cases remembered
            obtain ⟨addr, service, ⟨gone, -⟩ | ⟨info', known', rfl, -⟩⟩ := member roomId here
            · rw [gone] at known
              cases known
            · rw [known] at known'
              cases known'
              refine ⟨info.addr, service, .inl ⟨Function.update_self _ _ _, ?_⟩⟩
              exact killed ▸ List.mem_cons_self
        | returned space _ _ _ => exact (alone info known passing space here).elim
      · refine member.keep ?_ ?_ ?_
        · intro addr dead
          cases recycled with
          | killed _ _ _ killed => exact killed ▸ List.mem_cons_of_mem _ dead
          | returned _ _ _ killed => exact killed ▸ dead
        · intro roomId' remembered
          have differ : roomId' ≠ roomId := fun same => elsewhere (same ▸ remembered)
          exact Function.update_of_ne differ _ _
        · exact fun _ _ _ _ inside => inside_leave inside there other

/-- The entries stay apart. -/
theorem placed_left {roomId : R} {uid : Uid} {v : RoomManager.Val R}
    (left : Left s roomId uid s' v) (placed : Placed s.roomMap s.pool) :
    Placed s'.roomMap s'.pool := by
  cases left with
  | refused _ => exact placed
  | stays _ _ _ => exact placed
  | released known _ _ recycled => exact placed.released known recycled

end Members

/-! ## The steps -/

section Steps

variable [DecidableEq R] [Zero R] {s s' : Shared R} {os : List (Ora R)}
  {agents : Uid → AgentRoom.Rooms R} {uid : Uid}

theorem Sound.createRoom {msg : AgentRoom.Msg R} (sound : Sound s agents)
    (same : s.agent = agents uid)
    (free : ∀ roomId, .number (some roomId) ∈ os → ∀ uid, (agents uid).roomId ≠ some roomId)
    (ran : complete s (.calling (.agent (.createRoom msg)) []) os = some s') :
    Sound s' (Function.update agents uid s'.agent) := by
  obtain ⟨id, agent, agent', s₁, numbers, made, rfl, alike⟩ := complete_createRoom ran
  have away : ∀ uid roomId, id = some roomId → (agents uid).roomId ≠ some roomId :=
    fun uid roomId given => free roomId (numbers roomId given) uid
  have kept : Placed s₁.roomMap s₁.pool ∧ ∀ uid, Member s₁ (agents uid) := by
    rcases made with rfl | created
    · exact ⟨sound.placed, sound.members⟩
    · refine ⟨placed_created created sound.placed, ?_⟩
      exact fun uid => member_created created sound.placed (sound.members uid) (away uid)
  rw [same] at alike
  refine Sound.command sound kept.1 alike.uid ?_ (fun uid _ => kept.2 uid)
  exact Member.alike (kept.2 uid) alike (away uid)

theorem Sound.enterRoom {msg : AgentRoom.Msg R} (sound : Sound s agents)
    (same : s.agent = agents uid)
    (ran : complete s (.calling (.agent (.enterRoom msg)) []) os = some s') :
    Sound s' (Function.update agents uid s'.agent) := by
  obtain ⟨agent', ⟨rfl, alike⟩ | ⟨id, agent, s₁, v, entered, rfl, outcome⟩⟩ :=
    complete_enterRoom ran
  · rw [same] at alike
    refine Sound.command sound sound.placed alike.uid ?_ (fun uid _ => sound.members uid)
    exact Member.alike (sound.members uid) alike nofun
  · have placed : Placed s₁.roomMap s₁.pool := by
      cases entered with
      | refused _ => exact sound.placed
      | entered _ _ => exact sound.placed
    have kept : ∀ uid, Member s₁ (agents uid) :=
      fun uid => member_entered entered (sound.members uid)
    rw [same] at outcome
    rcases outcome with alike | ⟨forward, info, rfl, uids, remembers, service⟩
    · refine Sound.command sound placed alike.uid ?_ (fun uid _ => kept uid)
      exact Member.alike (kept uid) alike nofun
    · refine Sound.command sound placed uids ?_ (fun uid _ => kept uid)
      intro roomId remembered
      rw [remembers] at remembered
      cases remembered
      cases entered with
      | refused other => exact (other forward (some info) rfl).elim
      | @entered _ room _ _ known there =>
          refine ⟨info.addr, service, .inr ⟨info, known, rfl, ?_⟩⟩
          rw [uids, ← same]
          exact ⟨room.enter s.agent.uid, Function.update_self _ _ _, Finset.mem_insert_self _ _⟩

theorem Sound.departs {r : RoomManager.AgentReq R} (departs : Departs r) (sound : Sound s agents)
    (same : s.agent = agents uid) (fine : .fails ∉ os)
    (alone : ∀ roomId info, (agents uid).roomId = some roomId → s.roomMap roomId = some info →
      ¬ info.permanent → ¬ (s.pool.recyremove = 1 ∧ s.pool.maxnum ≤ s.pool.pool.length) →
      ∀ uid', uid' ≠ uid → (agents uid').roomId ≠ some roomId)
    (ran : complete s (.calling (.agent r) []) os = some s') :
    Sound s' (Function.update agents uid s'.agent) := by
  have there : ∀ id info, s.agent.roomId = some id → s.roomMap id = some info →
      ∃ room, s.rooms info.addr = some room := by
    intro id info inside known
    rw [same] at inside
    exact (sound.members uid).there inside known
  rcases complete_leaveRoom departs fine there ran with
    rfl | ⟨id, agent, agent', s₁, v, inside, left, rfl, uids, outcome⟩
  · rw [same, Function.update_eq_self]
    exact sound
  · rw [same] at inside left uids outcome
    have placed : Placed s₁.roomMap s₁.pool := placed_left left sound.placed
    refine Sound.command sound placed uids ?_ ?_
    · rcases outcome with outside | ⟨refused, alike⟩
      · intro roomId remembered
        rw [outside] at remembered
        cases remembered
      · cases left with
        | refused _ => exact Member.alike (sound.members uid) alike nofun
        | stays _ _ _ => exact (refused rfl).elim
        | released _ _ _ _ => exact (refused rfl).elim
    · intro uid' differ
      have other : (agents uid').uid ≠ (agents uid).uid := by
        rw [sound.uids uid', sound.uids uid]
        exact differ
      have kept : Member s₁ (agents uid') := member_left left (sound.members uid') other
        fun info known passing space => alone id info inside known passing space uid' differ
      exact kept

end Steps

/-- What a request does: at most a handler is run, in the service that the agent has. -/
inductive Requested (s : State R) (uid : Uid) (cmd : String) : State R → Prop
  | answered {replies : List (Uid × Option Reply)} : Requested s uid cmd { s with replies }
  | handled {roomId : R} {addr : Addr} {room : Room} {handler : String}
      {replies : List (Uid × Option Reply)} :
    (s.agents uid).extInfo.roomId = some roomId →
    (s.agents uid).service roomId = some ⟨some addr⟩ → addr ∉ s.shared.pool.killed →
    s.shared.rooms addr = some room → onRequest cmd = some handler →
    Requested s uid cmd { s with
      handled := s.handled ++ [⟨uid, addr, handler, room.players⟩]
      replies }

theorem request_spec (s : State R) (uid : Uid) (cmd : String) :
    Requested s uid cmd (s.request uid cmd) := by
  unfold State.request
  split
  · exact .answered
  · rename_i info found
    obtain ⟨roomId, ext, service⟩ := Option.bind_eq_some_iff.mp found
    obtain ⟨target⟩ := info
    split
    · exact .answered
    · rename_i addr same
      cases same
      split
      · exact .answered
      · rename_i lives
        split
        · exact .answered
        · rename_i room there
          split
          · split
            · exact .answered
            · rename_i handler handles
              exact .handled ext service lives there handles
          · exact .answered

/-- A handler that is run for a player who has entered the room finds him in it. -/
theorem Requested.membersOnly {s s' : State R} {uid : Uid} {cmd : String}
    (requested : Requested s uid cmd s') (only : MembersOnly s)
    (sound : Sound s.shared s.agents)
    (entered : onRequest cmd ≠ none → ∀ roomId info, (s.agents uid).extInfo.roomId = some roomId →
      (s.agents uid).service roomId = some info → s.InRoom uid roomId) :
    MembersOnly s' := by
  cases requested with
  | answered => exact only
  | @handled roomId addr room handler _ ext service lives there handles =>
      have handled : onRequest cmd ≠ none := by
        rw [handles]
        nofun
      have inRoom := entered handled roomId _ ext service
      obtain ⟨addr', service', outcome⟩ := sound.members uid roomId inRoom
      rw [service] at service'
      cases service'
      intro h member
      rcases List.mem_append.mp member with earlier | new
      · exact only h earlier
      · obtain rfl := List.mem_singleton.mp new
        rcases outcome with ⟨-, dead⟩ | ⟨info, -, -, room', there', member'⟩
        · exact (lives dead).elim
        · rw [there] at there'
          cases there'
          rw [sound.uids uid] at member'
          exact member'

section Runs

variable [DecidableEq R] [Zero R] {s s' : State R} {e : Event R}

theorem sound_step (sound : Sound s.shared s.agents) (proper : Proper s e)
    (stepped : step s e = some s') : Sound s'.shared s'.agents := by
  cases e with
  | command uid r os =>
      obtain ⟨shared, ran, rfl⟩ := Option.map_eq_some_iff.mp stepped
      have sound' : Sound { s.shared with agent := s.agents uid } s.agents :=
        ⟨sound.placed, sound.uids, sound.members⟩
      cases r with
      | createRoom msg => exact sound'.createRoom rfl proper ran
      | enterRoom msg => exact sound'.enterRoom rfl ran
      | leaveRoom msg => exact sound'.departs .leave rfl proper.2 proper.1 ran
      | kickRoom => exact sound'.departs .kick rfl proper.2 proper.1 ran
  | create roomId roomType roomMode os =>
      obtain ⟨shared, ran, rfl⟩ := Option.map_eq_some_iff.mp stepped
      obtain ⟨s₁, v, os', created, ends⟩ := complete_create ran
      obtain rfl := complete_done ends
      refine ⟨placed_created created sound.placed, sound.uids, ?_⟩
      intro uid
      apply member_created created sound.placed (sound.members uid)
      rintro _ ⟨⟩
      exact proper uid
  | request uid cmd =>
      cases stepped
      have requested := request_spec s uid cmd
      generalize s.request uid cmd = s' at requested
      cases requested with
      | answered => exact sound
      | handled _ _ _ _ _ => exact sound

theorem membersOnly_step (sound : Sound s.shared s.agents) (only : MembersOnly s)
    (proper : Proper s e) (stepped : step s e = some s') : MembersOnly s' := by
  cases e with
  | command uid r os =>
      obtain ⟨shared, -, rfl⟩ := Option.map_eq_some_iff.mp stepped
      exact only
  | create roomId roomType roomMode os =>
      obtain ⟨shared, -, rfl⟩ := Option.map_eq_some_iff.mp stepped
      exact only
  | request uid cmd =>
      cases stepped
      exact (request_spec s uid cmd).membersOnly only sound proper

omit [DecidableEq R] [Zero R] in
theorem sound_start (pool : Filled) (self : Int) :
    Sound (start (R := R) pool self).shared (start (R := R) pool self).agents := by
  obtain ⟨nodup, early, -⟩ := pool.2
  exact ⟨⟨nodup, nofun, nofun, early, nofun⟩, fun _ => rfl, fun _ => nofun⟩

end Runs

/-- Handlers are run for members only, in every run whose steps are all proper. -/
theorem members_only {R : Type} [DecidableEq R] [Zero R] (pool : Filled) (self : Int)
    (h : History R Proper pool self) : MembersOnly h.1 := by
  have safe : Sound h.1.shared h.1.agents ∧ MembersOnly h.1 := by
    refine Machine.Reach.invariant (P := fun s => Sound s.shared s.agents ∧ MembersOnly s)
      ⟨sound_start pool self, fun _ member => (List.not_mem_nil member).elim⟩ ?_ h.2
    rintro s s' e ⟨sound, only⟩ proper stepped
    exact ⟨sound_step sound proper stepped, membersOnly_step sound only proper stepped⟩
  exact safe.2

/-- A message of a client that asks for an `lh` room. -/
def createLh : AgentRoom.Msg Nat := ⟨some "lh", none, none, none, none, none⟩

/-- What `init_pool` leaves behind where `maxnum` is 1. -/
def onePool : Filled :=
  ⟨{ RoomPool.fresh 1 0 with
      pool := [0]
      roomlist := [⟨0, 1⟩]
      roomIdx := 2
      nextAddr := 1
      launched := Function.update (fun _ => none) 0 (some 1) },
    by decide, by decide, rfl⟩

/-- Player 7 creates room 5 and bets in it, without having entered it. -/
theorem creator_served :
    ¬ ∀ (pool : Filled) (self : Int) (h : History Nat (fun _ _ => True) pool self),
      MembersOnly h.1 := by
  intro all
  obtain ⟨s, reached, handled⟩ := Machine.exists_of_runs step (fun _ _ => True)
    (start onePool 0)
    [.command 7 (.createRoom createLh)
      [.ok, .number (some 5), .ok, .ok, .ok, .ok, .ok, .ok, .ok],
      .request 7 "Bet"]
    (·.handled) (a := [⟨7, 0, "onBet", ∅⟩]) (by rfl)
  have run : (⟨7, 0, "onBet", ∅⟩ : Handled) ∈ s.handled := by
    rw [handled]
    exact List.mem_cons_self
  exact Finset.notMem_empty 7 (all onePool 0 ⟨s, reached⟩ _ run)

end RillServer.RoomRequests
