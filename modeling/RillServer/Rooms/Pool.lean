import RillServer.Lib.Coroutine
import RillServer.Session.Messages
import Mathlib.Data.Finset.Card

/-!
# The room pool

`service/roompool.lua`. The pool keeps idle room services in a list, as the agent pool does, and it
numbers the services it launches: `roomlist` has an entry for each of them with its id, and
`selectRoomIdx` looks for a number that no entry has. The number goes to the new service, and the
entry is made after `skynet.newservice` has returned, from what `roomIdx` is then.

When two launches overlap, both entries are made from the counter as the later one left it
(`id_repeated`). Ids are distinct, and are what the services were launched with, as long as no
launch begins beside another one (`ids_unique`).

`main_node.lua` calls `init_pool` before anybody else knows the service, so the configuration is
there from the beginning. `pairs` goes over `roomlist` in some order; here it is the order of the
list. Lua's integers end far beyond any number of launches.
-/

namespace RillServer.RoomPool

open Coroutine

/-- An entry of `roomlist`. -/
structure Entry where
  room : Addr
  id : Nat
  deriving DecidableEq

/-- The pool, and the launcher: the next address, the index each service was launched with, and the
services that were killed. -/
structure Pool where
  pool : List Addr
  roomlist : List Entry
  maxnum : Nat
  recyremove : Nat
  roomIdx : Nat
  nextAddr : Addr
  launched : Addr → Option Nat
  killed : List Addr

inductive Req where
  | initPool
  | get
  | recycle (room : Option Addr)
  /-- `skynet.newservice(roomname, "room", idx)` -/
  | newservice (idx : Nat)
  deriving DecidableEq

/-- Where a pool coroutine can be suspended: in `skynet.newservice`, after so many rounds of
`init_pool`. -/
inductive Pc where
  | initNew (rounds : Nat)
  | getNew
  deriving DecidableEq

inductive Val where
  | addr (room : Addr)
  | nil
  | raise
  deriving DecidableEq

abbrev Act := Activity Req Pc Val

abbrev World := Coroutine.World Pool Req Pc Val

abbrev Out := Outcome Req Pc Val

/-! ## Selecting a number -/

def ids (roomlist : List Entry) : List Nat := roomlist.map Entry.id

/-- One round of `selectRoomIdx` over the entries, with `has`. -/
def selectRound (roomlist : List Entry) (roomIdx : Nat) (has : Bool) : Nat × Bool :=
  roomlist.foldl (fun (roomIdx, has) v =>
    if roomIdx = v.id then (roomIdx + 1, true) else (roomIdx, has)) (roomIdx, has)

/-- At most so many rounds of `selectRoomIdx`. -/
def selectRounds (roomlist : List Entry) : Nat → Nat → Nat
  | 0, roomIdx => roomIdx
  | rounds + 1, roomIdx =>
      match selectRound roomlist roomIdx false with
      | (roomIdx, true) => selectRounds roomlist rounds roomIdx
      | (roomIdx, false) => roomIdx

/-- Every round but the last leaves an id behind, so this many rounds are enough
(`selectRoomIdx_not_mem`). -/
def selectRoomIdx (roomlist : List Entry) (roomIdx : Nat) : Nat :=
  selectRounds roomlist (roomlist.length + 1) roomIdx

/-- What a round does. -/
theorem selectRound_spec (roomlist : List Entry) (roomIdx : Nat) (has : Bool) :
    (selectRound roomlist roomIdx has = (roomIdx, has) ∧ roomIdx ∉ ids roomlist) ∨
      ∃ next, selectRound roomlist roomIdx has = (next, true) ∧ roomIdx < next ∧
        roomIdx ∈ ids roomlist := by
  induction roomlist generalizing roomIdx has with
  | nil => exact .inl ⟨rfl, List.not_mem_nil⟩
  | cons v rest ih =>
      by_cases same : roomIdx = v.id
      · have first : selectRound (v :: rest) roomIdx has = selectRound rest (roomIdx + 1) true := by
          simp [selectRound, same]
        have here : roomIdx ∈ ids (v :: rest) := by simp [ids, same]
        rw [first]
        rcases ih (roomIdx + 1) true with ⟨stays, -⟩ | ⟨next, moves, later, -⟩
        · exact .inr ⟨roomIdx + 1, stays, Nat.lt_succ_self _, here⟩
        · exact .inr ⟨next, moves, Nat.lt_of_succ_lt later, here⟩
      · have first : selectRound (v :: rest) roomIdx has = selectRound rest roomIdx has := by
          simp [selectRound, same]
        rw [first]
        rcases ih roomIdx has with ⟨stays, outside⟩ | ⟨next, moves, later, inside⟩
        · refine .inl ⟨stays, ?_⟩
          intro member
          rcases List.mem_cons.mp member with here | there
          · exact same here
          · exact outside there
        · exact .inr ⟨next, moves, later, List.mem_cons_of_mem _ inside⟩

/-- The ids that the loop has not left behind. -/
def ahead (roomlist : List Entry) (roomIdx : Nat) : Finset Nat :=
  (ids roomlist).toFinset.filter (roomIdx ≤ ·)

/-- A round that finds the number leaves it behind. -/
theorem ahead_ssubset {roomlist : List Entry} {roomIdx next : Nat} (later : roomIdx < next)
    (inside : roomIdx ∈ ids roomlist) : ahead roomlist next ⊂ ahead roomlist roomIdx := by
  refine (Finset.ssubset_iff_of_subset ?_).mpr ⟨roomIdx, ?_, ?_⟩
  · exact Finset.monotone_filter_right _ fun id _ far => Nat.le_trans (Nat.le_of_lt later) far
  · simpa [ahead] using inside
  · simp [ahead, Nat.not_le.mpr later]

theorem selectRounds_not_mem {roomlist : List Entry} {rounds roomIdx : Nat}
    (enough : (ahead roomlist roomIdx).card < rounds) :
    selectRounds roomlist rounds roomIdx ∉ ids roomlist := by
  induction rounds generalizing roomIdx with
  | zero => exact (Nat.not_lt_zero _ enough).elim
  | succ rounds ih =>
      rcases selectRound_spec roomlist roomIdx false with ⟨stays, outside⟩ |
        ⟨next, moves, later, inside⟩
      · rw [selectRounds, stays]
        exact outside
      · rw [selectRounds, moves]
        have fewer := Finset.card_lt_card (ahead_ssubset later inside)
        exact ih (Nat.lt_of_lt_of_le fewer (Nat.le_of_lt_succ enough))

/-- The loop ends at a number that no entry has. -/
theorem selectRoomIdx_not_mem (roomlist : List Entry) (roomIdx : Nat) :
    selectRoomIdx roomlist roomIdx ∉ ids roomlist := by
  refine selectRounds_not_mem (Nat.lt_succ_of_le ?_)
  calc (ahead roomlist roomIdx).card
      ≤ (ids roomlist).toFinset.card := Finset.card_filter_le _ _
    _ ≤ (ids roomlist).length := List.toFinset_card_le _
    _ = roomlist.length := List.length_map _

/-! ## The commands -/

/-- A launch up to its suspension. -/
def launch (s : Pool) (pc : Pc) : Pool × Out :=
  let idx := selectRoomIdx s.roomlist s.roomIdx
  ({ s with roomIdx := idx + 1 }, .call (.newservice idx) pc)

/-- `roomlist[room] = v`. -/
def setRoom (roomlist : List Entry) (v : Entry) : List Entry :=
  v :: roomlist.filter (·.room ≠ v.room)

/-- The entry of a launched room. -/
def record (s : Pool) (room : Addr) : Pool :=
  if s.roomIdx = 99999999999 then
    { s with roomIdx := 1, roomlist := setRoom s.roomlist ⟨room, 99999999999 - 1⟩ }
  else { s with roomlist := setRoom s.roomlist ⟨room, s.roomIdx - 1⟩ }

/-- The loop of `init_pool`. -/
def initNext (s : Pool) (rounds : Nat) : Pool × Out :=
  if rounds < s.maxnum then launch s (.initNew rounds) else (s, .ret .nil)

/-- `table.remove(pool)` removes the last element. -/
def get (s : Pool) : Pool × Out :=
  match s.pool.getLast? with
  | some room => ({ s with pool := s.pool.dropLast }, .ret (.addr room))
  | none => launch s .getNew

/-- `assert(room)`, then `skynet.kill(room)` or `table.insert(pool, 1, room)`. -/
def recycle (s : Pool) : Option Addr → Pool × Out
  | none => (s, .ret .raise)
  | some room =>
      if s.recyremove = 1 ∧ s.maxnum ≤ s.pool.length then
        ({ s with roomlist := s.roomlist.filter (·.room ≠ room), killed := room :: s.killed },
          .ret .nil)
      else ({ s with pool := room :: s.pool }, .ret .nil)

/-- `fails` is for the launcher, which never hands out an address twice. -/
def serve (fails : Bool) (s : Pool) : Req → Pool × Out
  | .initPool => initNext s 0
  | .get => get s
  | .recycle room => recycle s room
  | .newservice idx =>
      if fails then (s, .ret .raise)
      else
        ({ s with
            nextAddr := s.nextAddr + 1
            launched := Function.update s.launched s.nextAddr (some idx) },
          .ret (.addr s.nextAddr))

def resume (s : Pool) : Pc → Val → Pool × Out
  | .initNew rounds, .addr room =>
      initNext (record { s with pool := s.pool ++ [room] } room) (rounds + 1)
  | .getNew, .addr room => (record s room, .ret (.addr room))
  | _, _ => (s, .ret .raise)

/-- Everything the first segment of a request can do, but for the numbers. -/
inductive Served (s : Pool) : Req → Pool → Out → Prop
  | round {roomIdx idx : Nat} : Served s .initPool { s with roomIdx }
      (.call (.newservice idx) (.initNew 0))
  | ready : Served s .initPool s (.ret .nil)
  | taken {room : Addr} {rest : List Addr} : s.pool = rest ++ [room] →
    Served s .get { s with pool := rest } (.ret (.addr room))
  | launching {roomIdx idx : Nat} : Served s .get { s with roomIdx }
      (.call (.newservice idx) .getNew)
  | missing : Served s (.recycle none) s (.ret .raise)
  | removed {room : Addr} {roomlist : List Entry} : s.recyremove = 1 → s.maxnum ≤ s.pool.length →
    Served s (.recycle (some room)) { s with roomlist, killed := room :: s.killed } (.ret .nil)
  | returned {room : Addr} : ¬ (s.recyremove = 1 ∧ s.maxnum ≤ s.pool.length) →
    Served s (.recycle (some room)) { s with pool := room :: s.pool } (.ret .nil)
  | failed {idx : Nat} : Served s (.newservice idx) s (.ret .raise)
  | launched {idx : Nat} {launched : Addr → Option Nat} :
    Served s (.newservice idx) { s with nextAddr := s.nextAddr + 1, launched }
      (.ret (.addr s.nextAddr))

theorem serve_spec (fails : Bool) (s : Pool) (r : Req) :
    Served s r (serve fails s r).1 (serve fails s r).2 := by
  cases r with
  | initPool =>
      simp only [serve, initNext]
      split
      · exact .round
      · exact .ready
  | get =>
      cases last : s.pool.getLast? with
      | none => simpa [serve, get, last, launch] using Served.launching
      | some room =>
          obtain ⟨rest, split⟩ := List.getLast?_eq_some_iff.mp last
          have step : Served s .get { s with pool := rest } (.ret (.addr room)) := .taken split
          simpa [serve, get, last, split] using step
  | recycle room =>
      cases room with
      | none => exact .missing
      | some room =>
          simp only [serve, recycle]
          split
          · rename_i full
            exact .removed full.1 full.2
          · rename_i space
            exact .returned space
  | newservice idx =>
      simp only [serve]
      split
      · exact .failed
      · exact .launched

/-- Everything the rest of a request can do, but for the numbers. -/
inductive Resumed (s : Pool) : Pc → Val → Pool → Out → Prop
  | got {room : Addr} {roomIdx : Nat} {roomlist : List Entry} :
    Resumed s .getNew (.addr room) { s with roomIdx, roomlist } (.ret (.addr room))
  | round {rounds roomIdx idx : Nat} {room : Addr} {roomlist : List Entry} :
    Resumed s (.initNew rounds) (.addr room) { s with pool := s.pool ++ [room], roomIdx, roomlist }
      (.call (.newservice idx) (.initNew (rounds + 1)))
  | ready {rounds roomIdx : Nat} {room : Addr} {roomlist : List Entry} :
    Resumed s (.initNew rounds) (.addr room) { s with pool := s.pool ++ [room], roomIdx, roomlist }
      (.ret .nil)
  | failed {pc : Pc} {v : Val} : Resumed s pc v s (.ret .raise)

theorem record_spec (s : Pool) (room : Addr) :
    ∃ roomIdx roomlist, record s room = { s with roomIdx, roomlist } := by
  rw [record]
  split
  · exact ⟨_, _, rfl⟩
  · exact ⟨s.roomIdx, _, rfl⟩

theorem resume_spec (s : Pool) (pc : Pc) (v : Val) :
    Resumed s pc v (resume s pc v).1 (resume s pc v).2 := by
  cases v with
  | addr room =>
      cases pc with
      | getNew =>
          obtain ⟨roomIdx, roomlist, entered⟩ := record_spec s room
          simp only [resume, entered]
          exact .got
      | initNew rounds =>
          obtain ⟨roomIdx, roomlist, entered⟩ :=
            record_spec { s with pool := s.pool ++ [room] } room
          simp only [resume, entered, initNext]
          split
          · exact .round
          · exact .ready
  | nil => cases pc <;> exact .failed
  | raise => cases pc <;> exact .failed

/-- The calls that reach the pool. -/
inductive Env where
  | get
  | recycle (room : Option Addr)
  deriving DecidableEq

def arrive : Env → Pool → Option (Pool × Option Req)
  | .get, s => some (s, some .get)
  | .recycle room, s => some (s, some (.recycle room))

def code : Code Pool Bool Env Req Pc Val where
  serve := serve
  resume _ := resume
  arrive := arrive

/-- A pool before its first message. -/
def fresh (maxnum recyremove : Nat) : Pool where
  pool := []
  roomlist := []
  maxnum := maxnum
  recyremove := recyremove
  roomIdx := 1
  nextAddr := 0
  launched := fun _ => none
  killed := []

/-- `init_pool` has been called. -/
def init (maxnum recyremove : Nat) : World where
  shared := fresh maxnum recyremove
  acts := Function.update (fun _ => none) 0 (some (.calling .initPool []))

/-- The ids in `roomlist` are distinct, and each is the index its service was launched with. -/
def IdsUnique (guard : World → Event Bool Env → Prop) (maxnum recyremove : Nat) : Prop :=
  ∀ w, code.Reach guard (init maxnum recyremove) w →
    (ids w.shared.roomlist).Nodup ∧
      ∀ entry ∈ w.shared.roomlist, w.shared.launched entry.room = some entry.id

/-- The activity waits for a service it launches. -/
inductive Launching : Act → Prop
  | called (idx : Nat) (pc : Pc) : Launching (.calling (.newservice idx) [pc])
  | answered (room : Addr) (pc : Pc) : Launching (.returning (.addr room) [pc])

/-- The activity is about to begin a launch. -/
inductive Launches (s : Pool) : Act → Prop
  | initPool : Launches s (.calling .initPool [])
  | get : s.pool = [] → Launches s (.calling .get [])

/-- A launch begins only when no other one is under way. -/
def LaunchesAlone (w : World) (e : Event Bool Env) : Prop :=
  ∀ id o a, e = .run id o → w.acts id = some a → Launches w.shared a →
    ∀ id' a', w.acts id' = some a' → ¬ Launching a'

/-! ## Ids do not repeat -/

/-- The number of a launch under way: the counter is one ahead of it, and no entry has it. -/
def Chosen (s : Pool) (idx : Nat) : Prop := s.roomIdx = idx + 1 ∧ idx ∉ ids s.roomlist

/-- What an activity can be. -/
inductive Stage (s : Pool) : Act → Prop
  | initPool : Stage s (.calling .initPool [])
  | get : Stage s (.calling .get [])
  | recycle (room : Option Addr) : Stage s (.calling (.recycle room) [])
  | launching (idx : Nat) (pc : Pc) : Chosen s idx → Stage s (.calling (.newservice idx) [pc])
  | launched (room : Addr) (idx : Nat) (pc : Pc) : s.launched room = some idx → Chosen s idx →
    Stage s (.returning (.addr room) [pc])
  | failed (pc : Pc) : Stage s (.returning .raise [pc])
  | finished (v : Val) : Stage s (.returning v [])

/-- Only a launch depends on the pool. -/
theorem Stage.idle {s s' : Pool} {a : Act} (stage : Stage s a) (idle : ¬ Launching a) :
    Stage s' a := by
  cases stage with
  | initPool => exact .initPool
  | get => exact .get
  | recycle room => exact .recycle room
  | launching idx pc => exact (idle (.called idx pc)).elim
  | launched room idx pc => exact (idle (.answered room pc)).elim
  | failed pc => exact .failed pc
  | finished v => exact .finished v

structure PoolInv (w : World) : Prop where
  stages : ∀ id a, w.acts id = some a → Stage w.shared a
  alone : ∀ id id' a a', w.acts id = some a → w.acts id' = some a' → Launching a → Launching a' →
    id = id'
  distinct : (ids w.shared.roomlist).Nodup
  recorded : ∀ entry ∈ w.shared.roomlist, w.shared.launched entry.room = some entry.id
  fresh : ∀ room, w.shared.nextAddr ≤ room → w.shared.launched room = none

theorem PoolInv.init (maxnum recyremove : Nat) : PoolInv (init maxnum recyremove) where
  stages := by
    intro id a found
    simp only [RoomPool.init] at found
    rcases Code.acts_update found with ⟨-, rfl⟩ | ⟨-, earlier⟩
    · exact .initPool
    · cases earlier
  alone := by
    intro id id' a a' found _ launching
    simp only [RoomPool.init] at found
    rcases Code.acts_update found with ⟨-, rfl⟩ | ⟨-, earlier⟩
    · cases launching
    · cases earlier
  distinct := List.nodup_nil
  recorded := by
    intro entry member
    cases member
  fresh := fun _ _ => rfl

section Steps

variable {w : World} {id : Nat} {s' : Pool} {a' : Act}

/-- A segment that launches nothing and makes no entry. -/
theorem PoolInv.pass (inv : PoolInv w) (stage : Stage s' a') (idle : ¬ Launching a')
    (counter : s'.roomIdx = w.shared.roomIdx) (launched : s'.launched = w.shared.launched)
    (next : s'.nextAddr = w.shared.nextAddr) (less : s'.roomlist.Sublist w.shared.roomlist) :
    PoolInv ⟨s', Function.update w.acts id (some a')⟩ where
  stages := by
    intro i a found
    rcases Code.acts_update found with ⟨-, rfl⟩ | ⟨-, earlier⟩
    · exact stage
    · have chosen : ∀ {idx}, Chosen w.shared idx → Chosen s' idx := by
        intro idx before
        refine ⟨counter.trans before.1, fun member => before.2 ?_⟩
        exact (less.map Entry.id).subset member
      cases inv.stages i a earlier with
      | launching idx pc before => exact .launching idx pc (chosen before)
      | launched room idx pc known before =>
          exact .launched room idx pc (launched ▸ known) (chosen before)
      | initPool => exact .initPool
      | get => exact .get
      | recycle room => exact .recycle room
      | failed pc => exact .failed pc
      | finished v => exact .finished v
  alone := by
    intro i j a b found found' launching launching'
    rcases Code.acts_update found with ⟨-, rfl⟩ | ⟨-, earlier⟩
    · exact (idle launching).elim
    · rcases Code.acts_update found' with ⟨-, rfl⟩ | ⟨-, earlier'⟩
      · exact (idle launching').elim
      · exact inv.alone i j a b earlier earlier' launching launching'
  distinct := (less.map Entry.id).nodup inv.distinct
  recorded := by
    intro entry member
    rw [launched]
    exact inv.recorded entry (less.subset member)
  fresh := by
    intro room beyond
    rw [launched]
    rw [next] at beyond
    exact inv.fresh room beyond

/-- A segment beside which no launch is under way. -/
theorem PoolInv.launch (inv : PoolInv w)
    (others : ∀ i a, i ≠ id → w.acts i = some a → ¬ Launching a) (stage : Stage s' a')
    (distinct : (ids s'.roomlist).Nodup)
    (recorded : ∀ entry ∈ s'.roomlist, s'.launched entry.room = some entry.id)
    (fresh : ∀ room, s'.nextAddr ≤ room → s'.launched room = none) :
    PoolInv ⟨s', Function.update w.acts id (some a')⟩ where
  stages := by
    intro i a found
    rcases Code.acts_update found with ⟨-, rfl⟩ | ⟨other, earlier⟩
    · exact stage
    · exact (inv.stages i a earlier).idle (others i a other earlier)
  alone := by
    intro i j a b found found' launching launching'
    rcases Code.acts_update found with ⟨here, rfl⟩ | ⟨other, earlier⟩
    · rcases Code.acts_update found' with ⟨here', -⟩ | ⟨other', earlier'⟩
      · exact here.trans here'.symm
      · exact (others j b other' earlier' launching').elim
    · exact (others i a other earlier launching).elim
  distinct := distinct
  recorded := recorded
  fresh := fresh

/-- A launch begins. -/
theorem PoolInv.begins (inv : PoolInv w) {s : Pool} (pc : Pc)
    (others : ∀ i a, i ≠ id → w.acts i = some a → ¬ Launching a)
    (distinct : (ids s.roomlist).Nodup)
    (recorded : ∀ entry ∈ s.roomlist, s.launched entry.room = some entry.id)
    (fresh : ∀ room, s.nextAddr ≤ room → s.launched room = none) :
    PoolInv ⟨(RoomPool.launch s pc).1,
      Function.update w.acts id (some ((RoomPool.launch s pc).2.settle []))⟩ :=
  inv.launch others (.launching _ pc ⟨rfl, selectRoomIdx_not_mem s.roomlist s.roomIdx⟩) distinct
    recorded fresh

/-- The loop of `init_pool` goes on. -/
theorem PoolInv.rounds (inv : PoolInv w) {s : Pool} (rounds : Nat)
    (others : ∀ i a, i ≠ id → w.acts i = some a → ¬ Launching a)
    (distinct : (ids s.roomlist).Nodup)
    (recorded : ∀ entry ∈ s.roomlist, s.launched entry.room = some entry.id)
    (fresh : ∀ room, s.nextAddr ≤ room → s.launched room = none) :
    PoolInv ⟨(initNext s rounds).1,
      Function.update w.acts id (some ((initNext s rounds).2.settle []))⟩ := by
  rw [initNext]
  split
  · exact inv.begins (.initNew rounds) others distinct recorded fresh
  · exact inv.launch others (.finished .nil) distinct recorded fresh

theorem ids_setRoom_nodup {roomlist : List Entry} {v : Entry} (distinct : (ids roomlist).Nodup)
    (new : v.id ∉ ids roomlist) : (ids (setRoom roomlist v)).Nodup := by
  have less : (roomlist.filter (·.room ≠ v.room)).Sublist roomlist := List.filter_sublist
  refine List.nodup_cons.mpr ⟨?_, (less.map Entry.id).nodup distinct⟩
  exact fun member => new ((less.map Entry.id).subset member)

/-- The entry of a launch beside which the counter was left alone has the index of the launch. -/
theorem record_eq {s : Pool} (room : Addr) {idx : Nat} (counter : s.roomIdx = idx + 1) :
    ∃ roomIdx, record s room =
      { s with roomIdx, roomlist := setRoom s.roomlist ⟨room, idx⟩ } := by
  rw [record]
  split
  · rename_i last
    have same : 99999999999 - 1 = idx := by omega
    exact ⟨1, by rw [same]⟩
  · refine ⟨s.roomIdx, ?_⟩
    rw [counter, Nat.add_sub_cancel]

/-- A launched room gets its entry. -/
theorem PoolInv.recorded_setRoom (inv : PoolInv w) {room : Addr} {idx : Nat}
    (known : w.shared.launched room = some idx) :
    ∀ entry ∈ setRoom w.shared.roomlist ⟨room, idx⟩,
      w.shared.launched entry.room = some entry.id := by
  intro entry member
  rcases List.mem_cons.mp member with rfl | earlier
  · exact known
  · exact inv.recorded entry (List.mem_of_mem_filter earlier)

theorem PoolInv.serve (inv : PoolInv w) {e : Event Bool Env} {o : Bool} {r : Req} {st : List Pc}
    {out : Out} (alone : LaunchesAlone w e) (event : e = .run id o)
    (found : w.acts id = some (.calling r st)) (ran : RoomPool.serve o w.shared r = (s', out)) :
    PoolInv ⟨s', Function.update w.acts id (some (out.settle st))⟩ := by
  have quiet : Launches w.shared (.calling r st) →
      ∀ i a, i ≠ id → w.acts i = some a → ¬ Launching a :=
    fun launches i a _ => alone id o _ event found launches i a
  cases inv.stages id _ found with
  | initPool =>
      have next := inv.rounds 0 (quiet .initPool) inv.distinct inv.recorded inv.fresh
      rw [show initNext w.shared 0 = (s', out) from ran] at next
      exact next
  | get =>
      simp only [RoomPool.serve, RoomPool.get] at ran
      split at ran
      · cases ran
        exact inv.pass (.finished _) nofun rfl rfl rfl (List.Sublist.refl _)
      · rename_i empty
        cases ran
        exact inv.begins .getNew (quiet (.get (List.getLast?_eq_none_iff.mp empty))) inv.distinct
          inv.recorded inv.fresh
  | recycle room =>
      cases room with
      | none =>
          cases ran
          exact inv.pass (.finished _) nofun rfl rfl rfl (List.Sublist.refl _)
      | some room =>
          simp only [RoomPool.serve, RoomPool.recycle] at ran
          split at ran
          · cases ran
            exact inv.pass (.finished _) nofun rfl rfl rfl List.filter_sublist
          · cases ran
            exact inv.pass (.finished _) nofun rfl rfl rfl (List.Sublist.refl _)
  | launching idx pc chosen =>
      simp only [RoomPool.serve] at ran
      split at ran
      · cases ran
        exact inv.pass (.failed pc) nofun rfl rfl rfl (List.Sublist.refl _)
      · cases ran
        refine inv.launch ?_ (.launched _ idx pc (Function.update_self ..) chosen) inv.distinct
          ?_ ?_
        · intro i a other before launching
          exact other (inv.alone i id a _ before found launching (.called idx pc))
        · intro entry member
          have known := inv.recorded entry member
          have older : entry.room ≠ w.shared.nextAddr := by
            intro same
            rw [inv.fresh entry.room (Nat.le_of_eq same.symm)] at known
            cases known
          exact (Function.update_of_ne older _ _).trans known
        · intro room beyond
          have other : room ≠ w.shared.nextAddr := Nat.ne_of_gt beyond
          exact (Function.update_of_ne other _ _).trans (inv.fresh room (Nat.le_of_succ_le beyond))

theorem PoolInv.resume (inv : PoolInv w) {pc : Pc} {st : List Pc} {v : Val} {out : Out}
    (found : w.acts id = some (.returning v (pc :: st)))
    (ran : RoomPool.resume w.shared pc v = (s', out)) :
    PoolInv ⟨s', Function.update w.acts id (some (out.settle st))⟩ := by
  cases inv.stages id _ found with
  | failed pc =>
      have fails : RoomPool.resume w.shared pc .raise = (w.shared, .ret .raise) := by
        cases pc <;> rfl
      rw [fails] at ran
      cases ran
      exact inv.pass (.finished _) nofun rfl rfl rfl (List.Sublist.refl _)
  | launched room idx pc known chosen =>
      have others : ∀ i a, i ≠ id → w.acts i = some a → ¬ Launching a := by
        intro i a other before launching
        exact other (inv.alone i id a _ before found launching (.answered room pc))
      have distinct : (ids (setRoom w.shared.roomlist ⟨room, idx⟩)).Nodup :=
        ids_setRoom_nodup inv.distinct chosen.2
      have recorded := inv.recorded_setRoom known
      cases pc with
      | getNew =>
          obtain ⟨roomIdx, entered⟩ := record_eq room chosen.1
          simp only [RoomPool.resume, entered] at ran
          cases ran
          exact inv.launch others (.finished _) distinct recorded inv.fresh
      | initNew rounds =>
          obtain ⟨roomIdx, entered⟩ :=
            record_eq (s := { w.shared with pool := w.shared.pool ++ [room] }) room chosen.1
          simp only [RoomPool.resume, entered] at ran
          have next := inv.rounds (s := { w.shared with
            pool := w.shared.pool ++ [room]
            roomIdx
            roomlist := setRoom w.shared.roomlist ⟨room, idx⟩ })
            (rounds + 1) others distinct recorded inv.fresh
          rw [ran] at next
          exact next

end Steps

theorem PoolInv.step {w w' : World} {e : Event Bool Env} (inv : PoolInv w)
    (alone : LaunchesAlone w e) (stepped : code.step w e = some w') : PoolInv w' := by
  rcases Code.step_cases stepped with ⟨id, o, a, s', a', event, found, moved, rfl⟩ |
    ⟨id, x, s', -, came, rfl⟩ | ⟨id, x, s', r, -, fresh, came, rfl⟩
  · rcases Code.advance_cases moved with ⟨r, st, out, rfl, ran, rfl⟩ |
      ⟨v, pc, st, out, rfl, ran, rfl⟩
    · exact inv.serve alone event found ran
    · exact inv.resume found ran
  · cases x <;> cases came
  · cases x with
    | get =>
        cases came
        exact inv.pass .get nofun rfl rfl rfl (List.Sublist.refl _)
    | recycle room =>
        cases came
        exact inv.pass (.recycle room) nofun rfl rfl rfl (List.Sublist.refl _)

/-- **Room ids are unique** as long as no launch begins beside another one. -/
theorem ids_unique (maxnum recyremove : Nat) : IdsUnique LaunchesAlone maxnum recyremove := by
  intro w reached
  have inv : PoolInv w := reached.invariant (PoolInv.init maxnum recyremove) PoolInv.step
  exact ⟨inv.distinct, inv.recorded⟩

/-- Two rooms are asked for on an empty pool. -/
def twoLaunches : List (Event Bool Env) :=
  [.run 0 false, .arrive 1 .get, .arrive 2 .get, .run 1 false, .run 2 false, .run 1 false,
    .run 2 false, .run 1 false, .run 2 false]

/-- The services were launched with 1 and 2, and both have the id 2. -/
theorem id_repeated :
    ¬ ∀ maxnum recyremove, IdsUnique (fun _ _ => True) maxnum recyremove := by
  intro unique
  have ran : (code.runs (init 0 1) twoLaunches).map (fun w => w.shared.roomlist) =
      some [⟨1, 2⟩, ⟨0, 2⟩] := by decide
  obtain ⟨w, run, state⟩ := Option.map_eq_some_iff.mp ran
  have distinct := (unique 0 1 w (Code.Reach.refl.of_runs run)).1
  rw [state] at distinct
  simp [ids] at distinct

end RillServer.RoomPool
