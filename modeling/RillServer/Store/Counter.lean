import RillServer.Lib.Coroutine
import RillServer.Store.Mysql

/-!
# The number generator

`dispatch.incr` of `mod/dbproxy/dbproxy.lua` with `event.start` and `event.exit`. The counters are
kept in memory, `incr` counts one up and stores the new value in the table `tb_key`, by an update
and, when the update finds no row, an insertion (`mysqldb:update`, `mysqldb:insert`). `event.start`
reads the counters back. Every statement suspends the coroutine that sends it, the service may be
killed at any time, and it may be started again.

Two allocations of a name that has no row yet may both insert one. A restart then reads the one that
was inserted first and gives the other's number out again (`number_repeated`). Numbers do not repeat
as long as no allocation begins beside another one while its name has no row, and none while
`event.start` is reading, and as long as no statement of a stopped service is carried out after the
next start (`numbers_distinct`).

`event.exit` sends an update whose `where` is empty, as its `k` is not defined; the database refuses
it. The statements of a service go through one connection and are carried out in the order in which
they were sent (`InOrder`). The table exists. `pairs` goes over the two names in some order; here it
is the order of `Cname.all`.
-/

namespace RillServer.Counter

open Coroutine

/-- The keys of `t_max_uuid`. -/
inductive Cname where
  | account
  | roomid
  deriving DecidableEq

def Cname.all : List Cname := [.account, .roomid]

theorem Cname.mem_all (cname : Cname) : cname ∈ Cname.all := by
  cases cname
  · exact List.mem_cons_self
  · exact List.mem_cons_of_mem _ List.mem_cons_self

/-- A row of `tb_key`. -/
structure KeyRow where
  keyName : Cname
  uuid : Int
  deriving DecidableEq

/-- A statement. The selector of an update is what `build_selector` makes of `{key_name = ..}`: it
is empty when there is no name. -/
inductive Stmt where
  | select (cname : Cname)
  | update (keyName : Option Cname) (uuid : Int) (selector : Option Cname)
  | desc
  | insert (row : KeyRow)
  deriving DecidableEq

/-- The service, the table, and what the source does not have: how often the service was started,
the number of statements sent and the numbers that `incr` has returned. -/
structure Shared where
  life : Nat
  up : Bool
  /-- `t_max_uuid[cname].uuid` -/
  uuid : Cname → Int
  /-- `table_desc.tb_key` is there -/
  tableDesc : Bool
  sent : Nat
  rows : List KeyRow
  returned : List (Cname × Int)

/-- Requests to the service in one of its lives, and statements in the order of their tickets. -/
inductive Req where
  | incr (life : Nat) (cname : Cname)
  | start (life : Nat)
  | exit (life : Nat)
  | stmt (life ticket : Nat) (stmt : Stmt)
  deriving DecidableEq

/-- Where a coroutine of the service can be suspended. -/
inductive Pc where
  | incrUpdate (life : Nat) (cname : Cname) (uuid : Int)
  | incrDesc (life : Nat) (cname : Cname) (uuid : Int)
  | incrInsert (life : Nat) (cname : Cname) (uuid : Int)
  | startFind (life : Nat) (cname : Cname) (rest : List Cname)
  | exitUpdate (life : Nat) (rest : List Cname)
  deriving DecidableEq

def Pc.life : Pc → Nat
  | .incrUpdate life _ _ => life
  | .incrDesc life _ _ => life
  | .incrInsert life _ _ => life
  | .startFind life _ _ => life
  | .exitUpdate life _ => life

inductive Val where
  | row (ret : Option KeyRow)
  | affected (rows : Nat)
  | done
  | error
  | number (cname : Cname) (uuid : Int)
  | raise
  deriving DecidableEq

/-- What happens to the service. -/
inductive Env where
  | incr (cname : Cname)
  | restart
  | exit
  | crash
  deriving DecidableEq

abbrev Act := Activity Req Pc Val

abbrev World := Coroutine.World Shared Req Pc Val

abbrev Out := Outcome Req Pc Val

/-- The service is in this life. -/
def Shared.alive (s : Shared) (life : Nat) : Bool := s.up && s.life == life

def send (s : Shared) (life : Nat) (stmt : Stmt) (pc : Pc) : Shared × Out :=
  ({ s with sent := s.sent + 1 }, .call (.stmt life s.sent stmt) pc)

/-- What the database does with a statement. -/
def exec (choice : Mysql.Choice KeyRow) (s : Shared) : Stmt → Shared × Val
  | .select cname => (s, .row (Mysql.findOne KeyRow.keyName choice s.rows cname))
  | .update _ _ none => (s, .error)
  | .update keyName uuid (some cname) =>
      let set := fun row : KeyRow => ⟨keyName.getD row.keyName, uuid⟩
      ({ s with rows := Mysql.update KeyRow.keyName s.rows cname set },
        .affected (Mysql.affectedRows KeyRow.keyName s.rows cname))
  | .desc => (s, .done)
  | .insert row => ({ s with rows := Mysql.insert s.rows row }, .done)

/-- The loop of `event.start`. -/
def startNext (s : Shared) (life : Nat) : List Cname → Shared × Out
  | [] => (s, .ret .done)
  | cname :: rest => send s life (.select cname) (.startFind life cname rest)

/-- The loop of `event.exit`, after which `faci_dispatch.stop` ends the service. -/
def exitNext (s : Shared) (life : Nat) : List Cname → Shared × Out
  | [] => ({ s with up := false }, .ret .done)
  | cname :: rest => send s life (.update none (s.uuid cname) none) (.exitUpdate life rest)

/-- `return uuid`. -/
def give (s : Shared) (cname : Cname) (uuid : Int) : Shared × Out :=
  ({ s with returned := (cname, uuid) :: s.returned }, .ret (.number cname uuid))

/-- `rand_inc_num` is 1. A service that has stopped answers nothing, but a statement that it sent
may still be carried out. -/
def serve (choice : Mysql.Choice KeyRow) (s : Shared) : Req → Shared × Out
  | .incr life cname =>
      let uuid := s.uuid cname + 1
      if s.alive life then
        send { s with uuid := Function.update s.uuid cname uuid } life
          (.update (some cname) uuid (some cname)) (.incrUpdate life cname uuid)
      else (s, .ret .raise)
  | .start life => if s.alive life then startNext s life Cname.all else (s, .ret .raise)
  | .exit life => if s.alive life then exitNext s life Cname.all else (s, .ret .raise)
  | .stmt _ _ stmt =>
      let (s, v) := exec choice s stmt
      (s, .ret v)

def resumeAlive (s : Shared) : Pc → Val → Shared × Out
  | .incrUpdate life cname uuid, .affected 0 =>
      if s.tableDesc then send s life (.insert ⟨cname, uuid⟩) (.incrInsert life cname uuid)
      else send s life .desc (.incrDesc life cname uuid)
  | .incrUpdate _ cname uuid, _ => give s cname uuid
  | .incrDesc life cname uuid, _ =>
      send { s with tableDesc := true } life (.insert ⟨cname, uuid⟩) (.incrInsert life cname uuid)
  | .incrInsert _ cname uuid, _ => give s cname uuid
  | .startFind life cname rest, .row (some ret) =>
      startNext { s with uuid := Function.update s.uuid cname ret.uuid } life rest
  | .startFind life _ rest, _ => startNext s life rest
  | .exitUpdate life rest, _ => exitNext s life rest

def resume (s : Shared) (pc : Pc) (v : Val) : Shared × Out :=
  if s.alive pc.life then resumeAlive s pc v else (s, .ret .raise)

/-- The initial values of `t_max_uuid`. -/
def maxUuid : Cname → Int := fun _ => 50000

def arrive : Env → Shared → Option (Shared × Option Req)
  | .incr cname, s => if s.up then some (s, some (.incr s.life cname)) else none
  | .restart, s =>
      some ({ s with life := s.life + 1, up := true, uuid := maxUuid, tableDesc := false },
        some (.start (s.life + 1)))
  | .exit, s => if s.up then some (s, some (.exit s.life)) else none
  | .crash, s => some ({ s with up := false }, none)

def code (choice : Mysql.Choice KeyRow) : Code Shared Unit Env Req Pc Val where
  serve _ := serve choice
  resume _ := resume
  arrive := arrive

/-- Before the service is started for the first time. -/
def init (rows : List KeyRow) : World where
  shared := ⟨0, false, maxUuid, false, 0, rows, []⟩
  acts := fun _ => none

/-- No number is returned twice for a name. -/
def NumbersDistinct (choice : Mysql.Choice KeyRow) (guard : World → Event Unit Env → Prop)
    (rows : List KeyRow) : Prop :=
  ∀ w, (code choice).Reach guard (init rows) w → w.shared.returned.Nodup

/-- The statements of one connection, which a service opens when it starts, are carried out in the
order in which they were sent. -/
def InOrder (w : World) (e : Event Unit Env) : Prop :=
  ∀ id o life ticket stmt st, e = .run id o →
    w.acts id = some (.calling (.stmt life ticket stmt) st) →
    ∀ id' ticket' stmt' st', w.acts id' = some (.calling (.stmt life ticket' stmt') st') →
      ticket ≤ ticket'

/-- No statement of a service that was stopped is carried out after it has been started again. -/
def NoneLate (w : World) (e : Event Unit Env) : Prop :=
  ∀ id o life ticket stmt st, e = .run id o →
    w.acts id = some (.calling (.stmt life ticket stmt) st) → life = w.shared.life

/-! ## The stages of the coroutines -/

/-- How far an allocation has come: its update waits with a ticket, its update found no row, or its
number is stored. -/
inductive Phase where
  | waiting (ticket : Nat)
  | missing
  | stored

/-- An allocation of a number for a name. -/
inductive Allocating (life : Nat) (cname : Cname) (uuid : Int) : Phase → Act → Prop
  | updating (ticket : Nat) : Allocating life cname uuid (.waiting ticket)
      (.calling (.stmt life ticket (.update (some cname) uuid (some cname)))
        [.incrUpdate life cname uuid])
  | missed : Allocating life cname uuid .missing
      (.returning (.affected 0) [.incrUpdate life cname uuid])
  | describing (ticket : Nat) : Allocating life cname uuid .missing
      (.calling (.stmt life ticket .desc) [.incrDesc life cname uuid])
  | described : Allocating life cname uuid .missing
      (.returning .done [.incrDesc life cname uuid])
  | inserting (ticket : Nat) : Allocating life cname uuid .missing
      (.calling (.stmt life ticket (.insert ⟨cname, uuid⟩)) [.incrInsert life cname uuid])
  | updated (rows : Nat) : Allocating life cname uuid .stored
      (.returning (.affected (rows + 1)) [.incrUpdate life cname uuid])
  | inserted : Allocating life cname uuid .stored
      (.returning .done [.incrInsert life cname uuid])

/-- An `event.start` with the names it has not read yet. -/
inductive Starting (life : Nat) : List Cname → Act → Prop
  | called : Starting life Cname.all (.calling (.start life) [])
  | reading (ticket : Nat) (cname : Cname) (rest : List Cname) : Starting life (cname :: rest)
      (.calling (.stmt life ticket (.select cname)) [.startFind life cname rest])
  | read (ret : Option KeyRow) (cname : Cname) (rest : List Cname) : Starting life (cname :: rest)
      (.returning (.row ret) [.startFind life cname rest])

/-- The other activities. -/
inductive Aside (s : Shared) : Act → Prop
  | asked (life : Nat) (cname : Cname) : life ≤ s.life → Aside s (.calling (.incr life cname) [])
  | exit (life : Nat) : life ≤ s.life → Aside s (.calling (.exit life) [])
  | exiting (life ticket : Nat) (uuid : Int) (rest : List Cname) : life ≤ s.life →
    Aside s (.calling (.stmt life ticket (.update none uuid none)) [.exitUpdate life rest])
  | exited (life : Nat) (v : Val) (rest : List Cname) : life ≤ s.life →
    Aside s (.returning v [.exitUpdate life rest])
  | finished (v : Val) : Aside s (.returning v [])

/-- What an activity can be. -/
inductive Kind (s : Shared) (a : Act) : Prop
  | allocating {life : Nat} {cname : Cname} {uuid : Int} {phase : Phase} : life ≤ s.life →
    Allocating life cname uuid phase a → Kind s a
  | starting {life : Nat} {names : List Cname} : life ≤ s.life → Starting life names a → Kind s a
  | aside : Aside s a → Kind s a

/-- An allocation of the name in the present life. -/
def Allocates (w : World) (cname : Cname) : Prop :=
  ∃ id a uuid phase, w.acts id = some a ∧ Allocating w.shared.life cname uuid phase a

/-- `event.start` of the present life is under way. -/
def Loading (w : World) : Prop :=
  ∃ id a names, w.acts id = some a ∧ Starting w.shared.life names a

/-- An allocation begins only when `event.start` is over and, if its name has no row yet, beside no
other one of the name. -/
def AllocatesSafely (w : World) (e : Event Unit Env) : Prop :=
  ∀ id o cname st, e = .run id o → w.acts id = some (.calling (.incr w.shared.life cname) st) →
    ¬ Loading w ∧ (Mysql.Absent KeyRow.keyName w.shared.rows cname → ¬ Allocates w cname)

end RillServer.Counter
