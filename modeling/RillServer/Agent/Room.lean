import RillServer.Session.Messages
import Mathlib.Algebra.GroupWithZero.Nat

/-!
# The room of an agent

`mod/agent/agent_room.lua`. An agent keeps track of the room its player is in (`room_id`), of the
room the player created last (`create_id`), of the address to send room requests to
(`env.service`) and, in the player's `ext_info`, of the room that `service_dispatch` of
`wsagent.lua` looks up there. The commands suspend in their calls, and client commands of one
player overlap, so each definition is one segment between two suspensions. A list of segments in
any order covers every interleaving of any commands (`Event`).

Agents are reused. `CMD.kick` clears what `leave_room` would clear and `CMD.start` clears nothing,
so the next player finds the rest (`carriesNothingOver_iff`).
-/

namespace RillServer.AgentRoom

open Coroutine

/-- The part of a room's description that an agent reads. -/
structure RoomInfo where
  addr : Option Addr
  deriving DecidableEq

/-- A client command: what it carries and what the agent writes into it. `id` is `tonumber` of the
client's value. Room numbers are Lua numbers, of which only equality and 0 matter here. -/
structure Msg (R : Type) where
  game : Option String
  id : Option R
  result : Option Int
  error : Option String
  code : Option Int
  roomId : Option R
  deriving DecidableEq

/-- The fields of `ext_info`, without the nick name, which nothing here reads. -/
structure ExtInfo (R : Type) where
  sdk : Int
  addr : Addr
  roomId : Option R
  deriving DecidableEq

/-- The locals of `agent_room.lua`, `env.service` and the player's data that the room commands
use. `lib` says whether the module's library is loaded. -/
structure Rooms (R : Type) where
  uid : Uid
  extInfo : ExtInfo R
  roomId : Option R
  createId : Option R
  lib : Bool
  curGame : Option String
  service : R → Option RoomInfo

/-- The calls of the room commands: `libdbproxy.inc_room` and those to the room manager. -/
inductive Call (R : Type) where
  | incRoom
  | create (id : Option R) (game : Option String)
  | enter (id : R) (uid : Uid)
  | leave (id : R) (uid : Uid)
  deriving DecidableEq

/-- Where a room command can be suspended. -/
inductive Pc (R : Type) where
  | createInc (msg : Msg R)
  | createRoom (msg : Msg R)
  | enter (msg : Msg R) (id : R)
  | leave (msg : Msg R)
  | kick
  deriving DecidableEq

/-- What a room command returns. -/
inductive Result (R : Type) where
  | msg (m : Msg R)
  | nil
  | raised
  deriving DecidableEq

variable {R : Type} [DecidableEq R]

abbrev Out (R : Type) := Outcome (Call R) (Pc R) (Result R)

/-- An agent that was just launched. -/
def fresh : Rooms R where
  uid := 0
  extInfo := ⟨-1, 0, none⟩
  roomId := none
  createId := none
  lib := false
  curGame := none
  service := fun _ => none

/-- `create_room`: `cal_lib` finds the library for every game. -/
def createRoom (s : Rooms R) (msg : Msg R) : Rooms R × Out R :=
  ({ s with lib := true }, .call .incRoom (.createInc msg))

/-- `create_room` after `inc_room` answered. -/
def createRoomNumbered (s : Rooms R) (msg : Msg R) (id : Option R) : Rooms R × Out R :=
  ({ s with createId := id }, .call (.create id msg.game) (.createRoom msg))

/-- `create_room` after the room manager answered. `create_id` is read again here. -/
def createRoomCreated (s : Rooms R) (msg : Msg R) (roomInfo : Option RoomInfo) :
    Rooms R × Out R :=
  match roomInfo, s.createId with
  | none, _ => (s, .ret .raised)
  | some _, none => (s, .ret .raised)
  | some info, some id =>
      ({ s with
          service := Function.update s.service id (some info)
          extInfo := { s.extInfo with roomId := some id } },
        .ret (.msg { msg with result := some 0, roomId := some id }))

def enterRoom (s : Rooms R) (msg : Msg R) : Rooms R × Out R :=
  match s.roomId with
  | some _ => (s, .ret (.msg msg))
  | none =>
      match msg.id with
      | none =>
          ({ s with lib := true },
            .ret (.msg { msg with error := some "msg.id is nil", result := some (-1) }))
      | some id => ({ s with lib := true }, .call (.enter id s.uid) (.enter msg id))

/-- `enter_room` after the room manager answered. An accepted entry without a description of the
room raises when `room_id` is set already. -/
def enterRoomEntered (s : Rooms R) (msg : Msg R) (id : R) (isok : Bool) (forward : Option Int)
    (roomInfo : Option RoomInfo) : Rooms R × Out R :=
  if isok then
    let s := { s with
      curGame := msg.game
      roomId := some id
      extInfo := { s.extInfo with roomId := some id } }
    match roomInfo with
    | none => (s, .ret .raised)
    | some info =>
        ({ s with service := Function.update s.service id (some info) },
          .ret (.msg { msg with id := some id, result := some 0 }))
  else
    (s, .ret (.msg { msg with id := some id, code := forward.or msg.code, result := some 1 }))

def leaveRoom (s : Rooms R) (msg : Msg R) : Rooms R × Out R :=
  match s.roomId with
  | none => (s, .ret .nil)
  | some id => ({ s with lib := true }, .call (.leave id s.uid) (.leave msg))

def kickRoom (s : Rooms R) : Rooms R × Out R :=
  match s.roomId with
  | none => (s, .ret .nil)
  | some id =>
      if s.lib || s.curGame.isSome then
        ({ s with lib := true }, .call (.leave id s.uid) .kick)
      else (s, .ret .raised)

section Zero

variable [Zero R]

/-- `leave_room` and `kick_room` after the room manager answered. Clearing `service[nil]` raises,
which can happen when two of them overlap. -/
def left (s : Rooms R) (ok : Bool) (result : Result R) : Rooms R × Out R :=
  if ok then
    match s.roomId with
    | none => (s, .ret .raised)
    | some id =>
        ({ s with
            service := Function.update s.service id none
            roomId := none
            extInfo := { s.extInfo with roomId := some 0 } }, .ret result)
  else (s, .ret result)

def leaveRoomLeft (s : Rooms R) (msg : Msg R) (ok : Bool) : Rooms R × Out R :=
  left s ok (.msg { msg with result := some 0 })

def kickRoomLeft (s : Rooms R) (ok : Bool) : Rooms R × Out R :=
  left s ok .nil

end Zero

/-- `CMD.start`: `init_agent` and `load_agent_info` write the player's own data. -/
def start (s : Rooms R) (self : Addr) (conf : AgentConf) (sdk : Int) : Rooms R :=
  { s with uid := conf.uid, extInfo := { s.extInfo with addr := self, sdk } }

/-- The state that decides where a request goes and whether a room may be entered. -/
structure Routing (R : Type) where
  roomId : Option R
  createId : Option R
  service : R → Option RoomInfo
  extRoomId : Option R

def Rooms.routing (s : Rooms R) : Routing R :=
  ⟨s.roomId, s.createId, s.service, s.extInfo.roomId⟩

/-- `service_dispatch` of `wsagent.lua`: the room that a request of the player is sent to. -/
def serviceDispatch (s : Rooms R) : Option RoomInfo :=
  s.extInfo.roomId.bind s.service

/-- One segment of a command, with the answer that resumes it, or a `CMD.start`. -/
inductive Event (R : Type) where
  | createRoom (msg : Msg R)
  | numbered (msg : Msg R) (id : Option R)
  | created (msg : Msg R) (roomInfo : Option RoomInfo)
  | enterRoom (msg : Msg R)
  | entered (msg : Msg R) (id : R) (isok : Bool) (forward : Option Int)
      (roomInfo : Option RoomInfo)
  | leaveRoom (msg : Msg R)
  | leaveLeft (msg : Msg R) (ok : Bool)
  | kickRoom
  | kickLeft (ok : Bool)
  | start (self : Addr) (conf : AgentConf) (sdk : Int)
  deriving DecidableEq

section Histories

variable [Zero R]

def apply (s : Rooms R) : Event R → Rooms R
  | .createRoom msg => (createRoom s msg).1
  | .numbered msg id => (createRoomNumbered s msg id).1
  | .created msg roomInfo => (createRoomCreated s msg roomInfo).1
  | .enterRoom msg => (enterRoom s msg).1
  | .entered msg id isok forward roomInfo => (enterRoomEntered s msg id isok forward roomInfo).1
  | .leaveRoom msg => (leaveRoom s msg).1
  | .leaveLeft msg ok => (leaveRoomLeft s msg ok).1
  | .kickRoom => (kickRoom s).1
  | .kickLeft ok => (kickRoomLeft s ok).1
  | .start self conf sdk => start s self conf sdk

def run (s : Rooms R) (history : List (Event R)) : Rooms R := history.foldl apply s

/-- `CMD.kick` from its first to its last segment; `ok` is the room manager's answer. -/
def kick (s : Rooms R) (ok : Bool) : Rooms R :=
  match kickRoom s with
  | (s, .ret _) => s
  | (s, .call _ _) => (kickRoomLeft s ok).1

/-- After any history, a `CMD.kick` and a `CMD.start`, the agent routes like one that was just
launched and got the same `CMD.start`. Segments that come while `CMD.kick` waits, or behind it, are
events of the history too. -/
def CarriesNothingOver (history : List (Event R)) (ok : Bool) (self : Addr) (conf : AgentConf)
    (sdk : Int) : Prop :=
  (start (kick (run fresh history) ok) self conf sdk).routing =
    (start (fresh : Rooms R) self conf sdk).routing

end Histories

/-- The number that `inc_room` gave last. -/
def Event.number (number : Option R) : Event R → Option R
  | .numbered _ id => id
  | _ => number

/-- The segment accepts no entry into a room and creates none under a number. -/
def Event.Harmless (number : Option R) : Event R → Prop
  | .created _ roomInfo => number = none ∨ roomInfo = none
  | .entered _ _ isok _ _ => isok = false
  | _ => True

/-- No entry into a room was accepted, no room was created under a number, and the last number that
`inc_room` gave, if any, was `nil`. -/
def NoRoom : Option R → List (Event R) → Prop
  | number, [] => number = none
  | number, e :: history => e.Harmless number ∧ NoRoom (e.number number) history

/-! ## What stays with the agent -/

/-- No room in any of the four places, except for the number given last. -/
structure Empty (s : Rooms R) (number : Option R) : Prop where
  roomId : s.roomId = none
  createId : s.createId = number
  service : s.service = fun _ => none
  extRoomId : s.extInfo.roomId = none

omit [DecidableEq R] in
theorem empty_fresh : Empty (fresh : Rooms R) none := ⟨rfl, rfl, rfl, rfl⟩

omit [DecidableEq R] in
/-- A state is empty of rooms exactly when it routes like a new agent. -/
theorem empty_iff_routing (s : Rooms R) :
    Empty s none ↔ s.routing = (fresh : Rooms R).routing := by
  constructor
  · intro empty
    simp [Rooms.routing, empty.roomId, empty.createId, empty.service, empty.extRoomId, fresh]
  · intro same
    simp only [Rooms.routing, fresh, Routing.mk.injEq] at same
    exact ⟨same.1, same.2.1, same.2.2.1, same.2.2.2⟩

section Handover

variable [Zero R] {s : Rooms R} {number : Option R} {e : Event R} {history : List (Event R)}

/-- A harmless segment brings no room in. -/
theorem Empty.apply (empty : Empty s number) (harmless : e.Harmless number) :
    Empty (apply s e) (e.number number) := by
  obtain ⟨roomId, createId, service, extRoomId⟩ := empty
  cases e with
  | createRoom msg | start self conf sdk => exact ⟨roomId, createId, service, extRoomId⟩
  | numbered msg id => exact ⟨roomId, rfl, service, extRoomId⟩
  | created msg roomInfo =>
      have same : AgentRoom.apply s (.created msg roomInfo) = s := by
        rcases harmless with unnumbered | missing
        · rw [unnumbered] at createId
          cases roomInfo <;> simp [AgentRoom.apply, createRoomCreated, createId]
        · simp [AgentRoom.apply, createRoomCreated, missing]
      rw [same]
      exact ⟨roomId, createId, service, extRoomId⟩
  | enterRoom msg =>
      simp only [AgentRoom.apply, enterRoom, roomId]
      cases msg.id <;> exact ⟨rfl, createId, service, extRoomId⟩
  | entered msg id isok forward roomInfo =>
      have refused : isok = false := harmless
      simp only [AgentRoom.apply, enterRoomEntered, refused, Bool.false_eq_true, if_false]
      exact ⟨roomId, createId, service, extRoomId⟩
  | leaveRoom msg =>
      simp only [AgentRoom.apply, leaveRoom, roomId]
      exact ⟨roomId, createId, service, extRoomId⟩
  | kickRoom =>
      simp only [AgentRoom.apply, kickRoom, roomId]
      exact ⟨roomId, createId, service, extRoomId⟩
  | leaveLeft msg ok =>
      simp only [AgentRoom.apply, leaveRoomLeft, left, roomId]
      cases ok <;> exact ⟨roomId, createId, service, extRoomId⟩
  | kickLeft ok =>
      simp only [AgentRoom.apply, kickRoomLeft, left, roomId]
      cases ok <;> exact ⟨roomId, createId, service, extRoomId⟩

/-- Once `ext_info` names a room, it names one for good: leaving writes 0 there. -/
theorem extRoomId_apply (named : s.extInfo.roomId ≠ none) :
    (apply s e).extInfo.roomId ≠ none := by
  have leaving : ∀ ok result, (left s ok result).1.extInfo.roomId ≠ none := by
    intro ok result
    unfold left
    split
    · split
      · exact named
      · simp
    · exact named
  cases e with
  | createRoom msg | numbered msg id | start self conf sdk => exact named
  | created msg roomInfo =>
      simp only [apply, createRoomCreated]
      split
      · exact named
      · exact named
      · simp
  | enterRoom msg =>
      simp only [apply, enterRoom]
      split
      · exact named
      · split <;> exact named
  | entered msg id isok forward roomInfo =>
      simp only [apply, enterRoomEntered]
      split
      · cases roomInfo <;> simp
      · exact named
  | leaveRoom msg =>
      simp only [apply, leaveRoom]
      split <;> exact named
  | kickRoom =>
      simp only [apply, kickRoom]
      split
      · exact named
      · split <;> exact named
  | leaveLeft msg ok => exact leaving ok _
  | kickLeft ok => exact leaving ok _

theorem extRoomId_run (named : s.extInfo.roomId ≠ none) :
    (run s history).extInfo.roomId ≠ none := by
  induction history generalizing s with
  | nil => exact named
  | cons e history ih => exact ih (extRoomId_apply named)

/-- A segment that is not harmless writes a room into `ext_info`. -/
theorem extRoomId_of_harm (empty : Empty s number) (harm : ¬ e.Harmless number) :
    (apply s e).extInfo.roomId ≠ none := by
  cases e with
  | created msg roomInfo =>
      have ⟨numbered, given⟩ := not_or.mp harm
      obtain ⟨id, numbered⟩ := Option.ne_none_iff_exists'.mp numbered
      obtain ⟨info, given⟩ := Option.ne_none_iff_exists'.mp given
      simp [apply, createRoomCreated, empty.createId, numbered, given]
  | entered msg id isok forward roomInfo =>
      have accepted : isok = true := by simpa [Event.Harmless] using harm
      cases roomInfo <;> simp [apply, enterRoomEntered, accepted]
  | createRoom | numbered | enterRoom | leaveRoom | leaveLeft | kickRoom | kickLeft | start =>
      exact (harm True.intro).elim

/-- The run lemma: a history without a room leaves the agent empty, any other leaves a room in
`ext_info` or a number. -/
theorem run_of_empty (empty : Empty s number) (history : List (Event R)) :
    (NoRoom number history ∧ Empty (run s history) none) ∨
      (¬ NoRoom number history ∧
        ((run s history).extInfo.roomId ≠ none ∨ (run s history).createId ≠ none)) := by
  induction history generalizing s number with
  | nil =>
      cases number with
      | none => exact .inl ⟨rfl, empty⟩
      | some id => exact .inr ⟨by simp [NoRoom], .inr (by simp [run, empty.createId])⟩
  | cons e history ih =>
      by_cases harmless : e.Harmless number
      · rcases ih (empty.apply harmless) with ⟨quiet, clean⟩ | ⟨loud, stained⟩
        · exact .inl ⟨⟨harmless, quiet⟩, clean⟩
        · exact .inr ⟨fun quiet => loud quiet.2, stained⟩
      · have later : (run (apply s e) history).extInfo.roomId ≠ none :=
          extRoomId_run (extRoomId_of_harm empty harmless)
        exact .inr ⟨fun quiet => harmless quiet.1, .inl later⟩

/-- `CMD.kick` is two segments at most. -/
theorem kick_eq_run (s : Rooms R) (ok : Bool) :
    kick s ok = run s [.kickRoom] ∨ kick s ok = run s [.kickRoom, .kickLeft ok] := by
  unfold kick
  split
  · rename_i s' result ended
    exact .inl (by simp [run, apply, ended])
  · rename_i s' call pc asked
    exact .inr (by simp [run, apply, asked])

theorem createId_kick (s : Rooms R) (ok : Bool) : (kick s ok).createId = s.createId := by
  have leaving : ∀ (s : Rooms R), (left s ok .nil).1.createId = s.createId := by
    intro s
    unfold left
    split
    · split <;> rfl
    · rfl
  unfold kick kickRoom
  cases s.roomId with
  | none => rfl
  | some id =>
      simp only
      split
      · rename_i asked
        split at asked <;> cases asked
        rfl
      · rename_i asked
        split at asked <;> cases asked
        exact leaving _

/-- A kicked agent is without a room exactly when the history was. -/
theorem empty_kick_iff (history : List (Event R)) (ok : Bool) :
    Empty (kick (run fresh history) ok) none ↔ NoRoom none history := by
  rcases run_of_empty (empty_fresh (R := R)) history with ⟨quiet, empty⟩ | ⟨loud, stained⟩
  · refine ⟨fun _ => quiet, fun _ => ?_⟩
    have kicked : kick (run fresh history) ok = run fresh history := by
      simp [kick, kickRoom, empty.roomId]
    rw [kicked]
    exact empty
  · refine ⟨fun empty => ?_, fun quiet => (loud quiet).elim⟩
    rcases stained with named | numbered
    · refine (?_ : (kick (run fresh history) ok).extInfo.roomId ≠ none).elim empty.extRoomId
      rcases kick_eq_run (run fresh history) ok with same | same
      · rw [same]
        exact extRoomId_run named
      · rw [same]
        exact extRoomId_run named
    · rw [← createId_kick _ ok] at numbered
      exact (numbered empty.createId).elim

/-- **Handing an agent on.** The next player finds the agent without a room exactly when no entry
was accepted, no room was created under a number and no number was left over. -/
theorem carriesNothingOver_iff (history : List (Event R)) (ok : Bool) (self : Addr)
    (conf : AgentConf) (sdk : Int) :
    CarriesNothingOver history ok self conf sdk ↔ NoRoom none history := by
  have routing : CarriesNothingOver history ok self conf sdk ↔
      Empty (kick (run fresh history) ok) none := by
    rw [empty_iff_routing]
    rfl
  rw [routing]
  exact empty_kick_iff history ok

/-- What that means for the next player: no request goes to a room, and the room manager is asked
when a room is to be entered. -/
theorem routes_nowhere_of_noRoom {history : List (Event R)} (quiet : NoRoom none history) (ok : Bool)
    (self : Addr) (conf : AgentConf) (sdk : Int) (msg : Msg R) {id : R} (numeric : msg.id = some id) :
    let s := start (kick (run fresh history) ok) self conf sdk
    serviceDispatch s = none ∧ (enterRoom s msg).2 = .call (.enter id conf.uid) (.enter msg id) := by
  have empty := (empty_kick_iff history ok).mpr quiet
  have roomId : (kick (run fresh history) ok).roomId = none := empty.roomId
  refine ⟨?_, ?_⟩
  · simp [serviceDispatch, start, empty.extRoomId]
  · simp [enterRoom, start, roomId, numeric]

end Handover

/-- A player entered room 5 and the room manager did not let go of the player at the kick. -/
def entered : List (Event Nat) :=
  [.enterRoom ⟨none, some 5, none, none, none, none⟩,
    .entered ⟨none, some 5, none, none, none, none⟩ 5 true none (some ⟨some 30⟩)]

/-- The next player of the agent is still in that room. -/
theorem room_carried_over : ¬ ∀ (history : List (Event Nat)) (ok : Bool) (self : Addr)
    (conf : AgentConf) (sdk : Int), CarriesNothingOver history ok self conf sdk := by
  intro clean
  have same := clean entered false 20 ⟨3, 7, 2, "other", "secret"⟩ 1
  have roomId : some 5 = none := congrArg Routing.roomId same
  cases roomId

end RillServer.AgentRoom
