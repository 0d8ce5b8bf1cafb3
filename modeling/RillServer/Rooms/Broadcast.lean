import RillServer.Lib.Machine
import RillServer.Session.Messages
import Mathlib.Data.List.Nodup
import Mathlib.Data.List.Perm.Basic

/-!
# Broadcasting in a room

`RoomGP` and `RoomDDZ` of `mod/room`, which are the same up to their names. `broadcast` goes over
`_players` with `pairs` and waits in `libcenter.send2client` for every player, and meanwhile other
players enter and leave. Lua allows a traversal to meet keys that are cleared or assigned again, but
not new ones: once a key was added, what `next` does is undefined. So a suspended traversal is part
of the state here, with the keys it has not reached yet, and a traversal under which a key was added
is `disturbed` and goes on in any way.

`enter` adds the player and then broadcasts, so a second player who enters while the first one is
announced disturbs that traversal (`entered_twice`). Broadcasts are safe exactly in the runs in which
a new player enters only when no broadcast is suspended (`stable_iff`).
-/

namespace RillServer.Broadcast

/-- What is sent to the players. -/
structure Msg where
  cmd : String
  uid : Uid
  deriving DecidableEq

/-- What `enter` and `leave` return. -/
inductive Answer where
  | success
  /-- `false, DESK_ERROR.player_no_seat` -/
  | noSeat
  /-- `SYSTEM_ERROR.error`; there is no such entry -/
  | nil
  deriving DecidableEq

/-- A loop of `broadcast`. The last two fields are not in the source: whom `send2client` was called
for, and which players have been in the room since the loop began. -/
structure Traversal where
  msg : Msg
  filterUid : Option Uid
  /-- what the coroutine returns after the loop, if it is that of `enter` or `leave` -/
  answer : Option Answer
  rest : List Uid
  disturbed : Bool
  sent : List Uid
  stayed : List Uid
  deriving DecidableEq

/-- A room: the keys of `_players` and the loops that wait in `send2client`. The last two fields are
not in the source: the keys that were added under a loop, and the loops that came to their end. -/
structure Room where
  players : List Uid
  suspended : List Traversal
  answers : List Answer
  clashes : List Uid
  ended : List Traversal

/-- `roomInit`. -/
def roomInit : Room where
  players := []
  suspended := []
  answers := []
  clashes := []
  ended := []

/-- `is_player_num_overload`. -/
def Room.isPlayerNumOverload (s : Room) : Bool := decide (10000 ≤ s.players.length)

/-- The next key that `send2client` is called for, and the keys behind it. `next` passes over the
keys that were cleared, the loop over `filterUid`. -/
def nextKey (players : List Uid) (filterUid : Option Uid) : List Uid → Option (Uid × List Uid)
  | [] => none
  | k :: rest =>
      if k ∈ players ∧ filterUid ≠ some k then some (k, rest) else nextKey players filterUid rest

/-- The loop is at its end. -/
def Room.finish (s : Room) (t : Traversal) : Room :=
  { s with ended := s.ended ++ [t], answers := s.answers ++ t.answer.toList }

/-- The loop waits for the answer of `send2client(k, msg)`. -/
def Room.send (s : Room) (t : Traversal) (k : Uid) (rest : List Uid) : Room :=
  { s with suspended := s.suspended ++ [{ t with rest := rest, sent := t.sent ++ [k] }] }

/-- The loop goes on. -/
def Room.proceed (s : Room) (t : Traversal) : Room :=
  match nextKey s.players t.filterUid t.rest with
  | none => s.finish t
  | some (k, rest) => s.send t k rest

/-- `broadcast`, with the order of the keys in the table. -/
def Room.broadcast (s : Room) (msg : Msg) (filterUid : Option Uid) (answer : Option Answer)
    (order : List Uid) : Option Room :=
  if order.isPerm s.players then
    some (s.proceed ⟨msg, filterUid, answer, order, false, [], s.players⟩)
  else none

/-- `self._players[uid] = player`. -/
def Room.assign (s : Room) (uid : Uid) : Room :=
  if uid ∈ s.players then s
  else
    { s with
      players := s.players ++ [uid]
      suspended := s.suspended.map fun t => { t with disturbed := true }
      clashes := s.clashes ++ if s.suspended.isEmpty then [] else [uid] }

/-- `self._players[uid] = nil`. -/
def Room.clear (s : Room) (uid : Uid) : Room :=
  { s with
    players := s.players.filter (· ≠ uid)
    suspended := s.suspended.map fun t => { t with stayed := t.stayed.filter (· ≠ uid) } }

/-- `dispatch.enter` and the room's `enter`. -/
def Room.enter (s : Room) (uid : Uid) (order : List Uid) : Option Room :=
  if s.isPlayerNumOverload then some { s with answers := s.answers ++ [.noSeat] }
  else (s.assign uid).broadcast ⟨"room_move.add", uid⟩ (some uid) (some .success) order

/-- `dispatch.leave` and the room's `leave`. -/
def Room.leave (s : Room) (uid : Option Uid) (order : List Uid) : Option Room :=
  match uid with
  | none => some { s with answers := s.answers ++ [.nil] }
  | some uid =>
      (s.clear uid).broadcast ⟨"movegame.leave", uid⟩ (some uid) (some .success) order

/-- `send2client` of the loop `t` returns. `anything` is what `next` comes up with in a disturbed
loop. -/
def Room.returned (s : Room) (t : Traversal) (anything : Option Uid) : Room :=
  if t.disturbed then
    match anything with
    | none => s.finish t
    | some k => s.send t k t.rest
  else s.proceed t

inductive Event where
  | enter (uid : Uid) (order : List Uid)
  | leave (uid : Option Uid) (order : List Uid)
  | broadcast (msg : Msg) (filterUid : Option Uid) (order : List Uid)
  | returned (i : Nat) (anything : Option Uid)
  /-- `send2client`, or `next` in a disturbed loop, raises, and the loop is cut short -/
  | raised (i : Nat)

def step (s : Room) : Event → Option Room
  | .enter uid order => s.enter uid order
  | .leave uid order => s.leave uid order
  | .broadcast msg filterUid order => s.broadcast msg filterUid none order
  | .returned i anything =>
      match s.suspended[i]? with
      | none => none
      | some t => some ({ s with suspended := s.suspended.eraseIdx i }.returned t anything)
  | .raised i =>
      if i < s.suspended.length then some { s with suspended := s.suspended.eraseIdx i } else none

/-- What a room can have come to by steps of some kind. -/
abbrev History (guard : Room → Event → Prop) :=
  { s : Room // Machine.Reach step guard roomInit s }

/-- No key was added under a suspended loop, and a loop that came to its end has sent exactly one
message to everybody who was in the room throughout, but `filterUid`. -/
structure Stable (s : Room) : Prop where
  clashes : s.clashes = []
  delivered : ∀ t ∈ s.ended, ∀ uid ∈ t.stayed, t.filterUid ≠ some uid → t.sent.count uid = 1

/-- A player who is not in the room yet enters only when no broadcast is suspended. -/
def Settled (s : Room) : Event → Prop
  | .enter uid _ => s.isPlayerNumOverload ∨ uid ∈ s.players ∨ s.suspended = []
  | _ => True

/-! ## One loop -/

/-- Where a loop stands: everybody who stayed has got the message or is still to get it. -/
structure Tracks (players : List Uid) (t : Traversal) : Prop where
  calm : t.disturbed = false
  once : (t.sent ++ t.rest).Nodup
  reaches : ∀ uid ∈ t.stayed, t.filterUid ≠ some uid → uid ∈ t.sent ++ t.rest
  present : ∀ uid ∈ t.stayed, uid ∈ players

variable {players rest : List Uid} {filterUid : Option Uid} {t : Traversal}

/-- What `nextKey` passes over. -/
def Passed (players : List Uid) (filterUid : Option Uid) (keys : List Uid) : Prop :=
  ∀ k ∈ keys, k ∈ players → filterUid = some k

theorem nextKey_none (none : nextKey players filterUid rest = none) :
    Passed players filterUid rest := by
  induction rest with
  | nil => exact nofun
  | cons k rest ih =>
      simp only [nextKey] at none
      split at none
      · cases none
      · rename_i skipped
        intro x member inside
        rcases List.mem_cons.mp member with rfl | later
        · by_contra other
          exact skipped ⟨inside, other⟩
        · exact ih none x later inside

theorem nextKey_some {k : Uid} {rest' : List Uid}
    (some : nextKey players filterUid rest = some (k, rest')) :
    ∃ skipped, rest = skipped ++ k :: rest' ∧ Passed players filterUid skipped := by
  induction rest with
  | nil => cases some
  | cons x rest ih =>
      simp only [nextKey] at some
      split at some
      · cases some
        exact ⟨[], rfl, nofun⟩
      · rename_i passed
        obtain ⟨skipped, rfl, others⟩ := ih some
        refine ⟨x :: skipped, rfl, ?_⟩
        intro y member inside
        rcases List.mem_cons.mp member with rfl | later
        · by_contra other
          exact passed ⟨inside, other⟩
        · exact others y later inside

/-- The loop comes to its end. -/
theorem Tracks.delivered (tracks : Tracks players t)
    (last : nextKey players t.filterUid t.rest = none) :
    ∀ uid ∈ t.stayed, t.filterUid ≠ some uid → t.sent.count uid = 1 := by
  intro uid stayed other
  have nodup : t.sent.Nodup := (List.nodup_append.mp tracks.once).1
  rcases List.mem_append.mp (tracks.reaches uid stayed other) with sent | left
  · exact List.count_eq_one_of_mem nodup sent
  · exact (other (nextKey_none last uid left (tracks.present uid stayed))).elim

/-- The loop goes on to `k`. -/
theorem Tracks.send (tracks : Tracks players t) {k : Uid}
    (next : nextKey players t.filterUid t.rest = some (k, rest)) :
    Tracks players { t with rest := rest, sent := t.sent ++ [k] } := by
  obtain ⟨skipped, keys, passed⟩ := nextKey_some next
  refine ⟨tracks.calm, ?_, ?_, tracks.present⟩
  · have once := tracks.once
    rw [keys] at once
    have shorter : (t.sent ++ [k] ++ rest).Sublist (t.sent ++ (skipped ++ k :: rest)) := by
      rw [List.append_assoc]
      apply List.Sublist.append_left
      exact List.sublist_append_right skipped (k :: rest)
    exact once.sublist shorter
  · intro uid stayed other
    have left := tracks.reaches uid stayed other
    rw [keys] at left
    simp only [List.mem_append, List.mem_cons] at left ⊢
    rcases left with sent | skip | here | later
    · exact .inl (.inl sent)
    · exact (other (passed uid skip (tracks.present uid stayed))).elim
    · exact .inl (.inr (.inl here))
    · exact .inr later

/-! ## The room -/

/-- Every loop under way is on its track. -/
structure Sound (s : Room) : Prop where
  keys : s.players.Nodup
  tracks : ∀ t ∈ s.suspended, Tracks s.players t
  stable : Stable s

variable {s s' : Room} {e : Event}

theorem sound_roomInit : Sound roomInit := by
  refine ⟨List.nodup_nil, nofun, rfl, nofun⟩

theorem Sound.proceed (sound : Sound s) (tracks : Tracks s.players t) : Sound (s.proceed t) := by
  unfold Room.proceed
  split
  · rename_i last
    refine ⟨sound.keys, sound.tracks, sound.stable.clashes, ?_⟩
    intro t' member
    rcases List.mem_append.mp member with old | new
    · exact sound.stable.delivered t' old
    · rw [List.mem_singleton.mp new]
      exact tracks.delivered last
  · rename_i k rest next
    refine ⟨sound.keys, ?_, sound.stable.clashes, sound.stable.delivered⟩
    intro t' member
    rcases List.mem_append.mp member with old | new
    · exact sound.tracks t' old
    · rw [List.mem_singleton.mp new]
      exact tracks.send next

theorem Sound.broadcast {msg : Msg} {answer : Option Answer} {order : List Uid} (sound : Sound s)
    (sends : s.broadcast msg filterUid answer order = some s') : Sound s' := by
  unfold Room.broadcast at sends
  split at sends
  · rename_i perm
    have same : order.Perm s.players := List.isPerm_iff.mp perm
    obtain rfl := Option.some.inj sends
    apply sound.proceed
    refine ⟨rfl, same.nodup_iff.mpr sound.keys, ?_, fun uid inside => inside⟩
    intro uid inside _
    exact same.mem_iff.mpr inside
  · cases sends

/-- The key was there, or no loop is under way. -/
theorem Sound.assign (sound : Sound s) {uid : Uid}
    (settled : uid ∈ s.players ∨ s.suspended = []) : Sound (s.assign uid) := by
  unfold Room.assign
  split
  · exact sound
  · rename_i new
    have none : s.suspended = [] := settled.resolve_left new
    refine ⟨?_, ?_, ?_, sound.stable.delivered⟩
    · apply List.Nodup.append sound.keys (List.nodup_singleton uid)
      intro x inside here
      rw [List.mem_singleton.mp here] at inside
      exact new inside
    · rw [none]
      exact nofun
    · simp only [none, sound.stable.clashes]
      rfl

theorem Sound.clear (sound : Sound s) (uid : Uid) : Sound (s.clear uid) := by
  refine ⟨sound.keys.filter _, ?_, sound.stable.clashes, sound.stable.delivered⟩
  intro t member
  obtain ⟨t, inside, rfl⟩ := List.mem_map.mp member
  obtain ⟨calm, once, reaches, present⟩ := sound.tracks t inside
  refine ⟨calm, once, ?_, ?_⟩
  · intro x stayed
    exact reaches x (List.mem_filter.mp stayed).1
  · intro x stayed
    obtain ⟨stayed, other⟩ := List.mem_filter.mp stayed
    exact List.mem_filter.mpr ⟨present x stayed, other⟩

theorem Sound.eraseIdx (sound : Sound s) (i : Nat) :
    Sound { s with suspended := s.suspended.eraseIdx i } where
  keys := sound.keys
  tracks t member := sound.tracks t (List.mem_of_mem_eraseIdx member)
  stable := ⟨sound.stable.clashes, sound.stable.delivered⟩

theorem Sound.step (sound : Sound s) (settled : Settled s e) (stepped : step s e = some s') :
    Sound s' := by
  cases e with
  | enter uid order =>
      simp only [Broadcast.step, Room.enter] at stepped
      split at stepped
      · obtain rfl := Option.some.inj stepped
        exact ⟨sound.keys, sound.tracks, sound.stable.clashes, sound.stable.delivered⟩
      · rename_i room
        exact (sound.assign (settled.resolve_left room)).broadcast stepped
  | leave uid order =>
      cases uid with
      | none =>
          obtain rfl := Option.some.inj stepped
          exact ⟨sound.keys, sound.tracks, sound.stable.clashes, sound.stable.delivered⟩
      | some uid => exact (sound.clear uid).broadcast stepped
  | broadcast msg filterUid order => exact sound.broadcast stepped
  | returned i anything =>
      simp only [Broadcast.step] at stepped
      split at stepped
      · cases stepped
      · rename_i t found
        have tracks : Tracks s.players t := sound.tracks t (List.mem_of_getElem? found)
        obtain rfl := Option.some.inj stepped
        simp only [Room.returned, tracks.calm]
        exact (sound.eraseIdx i).proceed tracks
  | raised i =>
      simp only [Broadcast.step] at stepped
      split at stepped
      · obtain rfl := Option.some.inj stepped
        exact sound.eraseIdx i
      · cases stepped

/-! ## Clashes -/

theorem clashes_proceed : (s.proceed t).clashes = s.clashes := by
  unfold Room.proceed
  split <;> rfl

theorem clashes_broadcast {msg : Msg} {answer : Option Answer} {order : List Uid}
    (sends : s.broadcast msg filterUid answer order = some s') : s'.clashes = s.clashes := by
  unfold Room.broadcast at sends
  split at sends
  · obtain rfl := Option.some.inj sends
    exact clashes_proceed
  · cases sends

theorem clashes_returned {anything : Option Uid} :
    (s.returned t anything).clashes = s.clashes := by
  unfold Room.returned
  split
  · cases anything <;> rfl
  · exact clashes_proceed

/-- An enter that does not find the room settled leaves a clash behind. -/
theorem clashes_assign {uid : Uid} (none : (s.assign uid).clashes = []) :
    s.clashes = [] ∧ (uid ∈ s.players ∨ s.suspended = []) := by
  unfold Room.assign at none
  split at none
  · rename_i inside
    exact ⟨none, .inl inside⟩
  · obtain ⟨before, added⟩ := List.append_eq_nil_iff.mp none
    refine ⟨before, .inr ?_⟩
    split at added
    · rename_i empty
      exact List.isEmpty_iff.mp empty
    · cases added

theorem settled_of_clashes (stepped : step s e = some s') (none : s'.clashes = []) :
    s.clashes = [] ∧ Settled s e := by
  cases e with
  | enter uid order =>
      simp only [step, Room.enter] at stepped
      split at stepped
      · rename_i full
        obtain rfl := Option.some.inj stepped
        exact ⟨none, .inl full⟩
      · rw [clashes_broadcast stepped] at none
        obtain ⟨before, settled⟩ := clashes_assign none
        exact ⟨before, .inr settled⟩
  | leave uid order =>
      cases uid with
      | none =>
          obtain rfl := Option.some.inj stepped
          exact ⟨none, trivial⟩
      | some uid =>
          rw [clashes_broadcast stepped] at none
          exact ⟨none, trivial⟩
  | broadcast msg filterUid order =>
      rw [clashes_broadcast stepped] at none
      exact ⟨none, trivial⟩
  | returned i anything =>
      simp only [step] at stepped
      split at stepped
      · cases stepped
      · obtain rfl := Option.some.inj stepped
        rw [clashes_returned] at none
        exact ⟨none, trivial⟩
  | raised i =>
      simp only [step] at stepped
      split at stepped
      · obtain rfl := Option.some.inj stepped
        exact ⟨none, trivial⟩
      · cases stepped

/-- A run without clashes is one of settled steps. -/
theorem reach_settled {guard : Room → Event → Prop} (reached : Machine.Reach step guard roomInit s)
    (none : s.clashes = []) : Machine.Reach step Settled roomInit s := by
  induction reached with
  | refl => exact .refl
  | tail _ _ stepped ih =>
      obtain ⟨before, settled⟩ := settled_of_clashes stepped none
      exact .tail (ih before) settled stepped

/-- **Broadcasts.** In any run of players who enter and leave and of broadcasts, no key was added
under a suspended loop and every loop that came to its end has reached everybody once, if and only
if each player who was new entered when no broadcast was suspended. -/
theorem stable_iff (h : History fun _ _ => True) :
    Stable h.1 ↔ Machine.Reach step Settled roomInit h.1 := by
  constructor
  · intro stable
    exact reach_settled h.2 stable.clashes
  · intro reached
    have sound : Sound h.1 :=
      reached.invariant sound_roomInit fun sound settled stepped => sound.step settled stepped
    exact sound.stable

/-- Player 9 enters while player 8 is told that player 7 has. -/
def entered : List Event := [.enter 8 [8], .enter 7 [8, 7], .enter 9 [8, 7, 9]]

/-- The key 9 is added under the loop that announces player 7. -/
theorem entered_twice : ¬ ∀ h : History fun _ _ => True, Stable h.1 := by
  intro stable
  obtain ⟨s, reached, clashes⟩ := Machine.exists_of_runs step (fun _ _ => True) roomInit entered
    Room.clashes (show _ = some [9] by decide)
  have none := (stable ⟨s, reached⟩).clashes
  rw [clashes] at none
  cases none

end RillServer.Broadcast
