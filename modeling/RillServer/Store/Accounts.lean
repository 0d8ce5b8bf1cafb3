import RillServer.Lib.Coroutine
import RillServer.Session.Messages
import RillServer.Store.Mysql

/-!
# Accounts and their uids

`check_normal_sdk` and `register` of `mod/login/login_auth.lua`, with the account table behind
`libdbproxy.get_accountdata` and `set_accountdata`. An account that is not stored, or whose password
is not the one given, is registered: it is looked up again, gets a number from `inc_uid` and is
stored with it. Storing is an update and, when the update finds no row, an insertion
(`mysqldb:update`). Every query suspends, and authentications overlap.

Two first logins of one account may both find nothing. Both then take a number, both succeed, and
the account keeps the number that was stored last (`two_uids`). There is one uid for each account
as long as a registration goes on from its own look-up only when no other registration of the
account is under way and the account is still not stored (`one_uid`).

The number that `inc_uid` returns is any number. A query of the model is answered: failures of the
database are left out. What `mysqldb:insert` asks first (`get_table_desc`, `create_table`) changes
no row.
-/

namespace RillServer.Accounts

open Coroutine

/-- A row of the table `account`. A column that was never written is empty. -/
structure Row where
  uid : Uid
  account : String
  password : Option String
  sdk : Nat
  deriving DecidableEq

/-- The statements that are under way, and the calls of the login service. -/
inductive Req where
  | checkNormalSdk (account password : Option String)
  /-- `libdbproxy.get_accountdata` -/
  | getAccountdata (account : String)
  | incUid
  /-- `libdbproxy.set_accountdata` -/
  | setAccountdata (data : Row)
  | update (data : Row)
  | insert (data : Row)
  deriving DecidableEq

/-- Where a coroutine can be suspended. -/
inductive Pc where
  /-- `check_normal_sdk`, looking the account up -/
  | check (account : String) (password : Option String)
  /-- `register`, looking the account up again -/
  | registerGet (account : String) (password : Option String)
  | registerInc (account : String) (password : Option String)
  | registerSet (account : String) (uid : Uid)
  /-- `mysqldb:update` -/
  | update (data : Row)
  /-- `mysqldb:insert` -/
  | insert
  deriving DecidableEq

inductive Val where
  | row (ret : Option Row)
  | uid (uid : Uid)
  | affected (rows : Nat)
  | done
  /-- `true, uid` for the account -/
  | accepted (account : String) (uid : Uid)
  /-- `false` -/
  | refused
  deriving DecidableEq

abbrev Act := Activity Req Pc Val

abbrev World := Coroutine.World (List Row) Req Pc Val

abbrev Out := Outcome Req Pc Val

/-- `sdk.inner`. -/
def inner : Nat := 1

/-- The columns that an update sets; `build_selector` drops those without a value. -/
def Row.set (data row : Row) : Row := { data with password := data.password.or row.password }

section Code

variable (choice : Mysql.Choice Row)

/-- The number that `inc_uid` returns is given from outside. -/
def serve (uid : Uid) (rows : List Row) : Req → List Row × Out
  | .checkNormalSdk none _ => (rows, .ret .refused)
  | .checkNormalSdk (some account) password =>
      (rows, .call (.getAccountdata account) (.check account password))
  | .getAccountdata account => (rows, .ret (.row (Mysql.findOne Row.account choice rows account)))
  | .incUid => (rows, .ret (.uid uid))
  | .setAccountdata data => (rows, .call (.update data) (.update data))
  | .update data =>
      (Mysql.update Row.account rows data.account data.set,
        .ret (.affected (Mysql.affectedRows Row.account rows data.account)))
  | .insert data => (Mysql.insert rows data, .ret .done)

/-- Values of another kind do not answer the call. -/
def resume : Pc → Val → Out
  | .check account password, .row (some ret) =>
      if ret.password = password then .ret (.accepted account ret.uid)
      else .call (.getAccountdata account) (.registerGet account password)
  | .check account password, _ => .call (.getAccountdata account) (.registerGet account password)
  | .registerGet _ _, .row (some _) => .ret .refused
  | .registerGet account password, _ => .call .incUid (.registerInc account password)
  | .registerInc account password, .uid uid =>
      .call (.setAccountdata ⟨uid, account, password, inner⟩) (.registerSet account uid)
  | .registerInc _ _, _ => .ret .refused
  | .registerSet account uid, _ => .ret (.accepted account uid)
  | .update data, .affected rows => if rows = 0 then .call (.insert data) .insert else .ret .done
  | .update _, _ => .ret .done
  | .insert, _ => .ret .done

def code : Code (List Row) Uid (Option String × Option String) Req Pc Val where
  serve := serve choice
  resume _ rows pc v := (rows, resume pc v)
  arrive auth rows := some (rows, some (.checkNormalSdk auth.1 auth.2))

def init (rows : List Row) : World := ⟨rows, fun _ => none⟩

/-- The uid that is stored for an account. -/
def Stored (rows : List Row) (account : String) (uid : Uid) : Prop :=
  ∃ row, Mysql.findOne Row.account choice rows account = some row ∧ row.uid = uid

/-- The authentication has returned `true, uid`. -/
def Accepted (w : World) (id : Nat) (account : String) (uid : Uid) : Prop :=
  w.acts id = some (.returning (.accepted account uid) [])

/-- All authentications of an account that succeeded returned one uid, the one that is stored. -/
def OneUid (guard : World → Event Uid (Option String × Option String) → Prop) (rows : List Row) :
    Prop :=
  ∀ w, (code choice).Reach guard (init rows) w → ∀ id account uid, Accepted w id account uid →
    Stored choice w.shared account uid ∧ ∀ id' uid', Accepted w id' account uid' → uid = uid'

end Code

/-- The account that a coroutine registers, once it has looked it up. -/
def Pc.registers : Pc → Option String
  | .registerInc account _ => some account
  | .registerSet account _ => some account
  | _ => none

/-- An activity registers an account. -/
def Registers (a : Act) (account : String) : Prop :=
  ∃ pc ∈ a.stack, pc.registers = some account

/-- A registration goes on from its own look-up only when the account is still not stored and no
registration of it is under way. -/
def RegistersAlone (w : World) (e : Event Uid (Option String × Option String)) : Prop :=
  ∀ id o account password st, e = .run id o →
    w.acts id = some (.returning (.row none) (.registerGet account password :: st)) →
    Mysql.Absent Row.account w.shared account ∧
      ∀ id' a, w.acts id' = some a → ¬ Registers a account

/-! ## Authentications of an account, one registration at a time -/

/-- What is known of an authentication at each of its stages: the account of a registration is not
stored before its insertion, and is stored with its uid afterwards. -/
inductive Stage (choice : Mysql.Choice Row) (rows : List Row) : Act → Prop
  | called (account password : Option String) :
    Stage choice rows (.calling (.checkNormalSdk account password) [])
  | checking (account : String) (password : Option String) :
    Stage choice rows (.calling (.getAccountdata account) [.check account password])
  | checked {account : String} {ret : Option Row} (password : Option String) :
    (∀ row, ret = some row → Mysql.findOne Row.account choice rows account = some row) →
    Stage choice rows (.returning (.row ret) [.check account password])
  | looking (account : String) (password : Option String) :
    Stage choice rows (.calling (.getAccountdata account) [.registerGet account password])
  | looked (account : String) (ret : Option Row) (password : Option String) :
    Stage choice rows (.returning (.row ret) [.registerGet account password])
  | numbering {account : String} (password : Option String) :
    Mysql.Absent Row.account rows account →
    Stage choice rows (.calling .incUid [.registerInc account password])
  | numbered {account : String} (password : Option String) (uid : Uid) :
    Mysql.Absent Row.account rows account →
    Stage choice rows (.returning (.uid uid) [.registerInc account password])
  | storing {data : Row} : Mysql.Absent Row.account rows data.account →
    Stage choice rows (.calling (.setAccountdata data) [.registerSet data.account data.uid])
  | updating {data : Row} : Mysql.Absent Row.account rows data.account →
    Stage choice rows (.calling (.update data) [.update data, .registerSet data.account data.uid])
  | updated {data : Row} : Mysql.Absent Row.account rows data.account →
    Stage choice rows (.returning (.affected 0) [.update data, .registerSet data.account data.uid])
  | inserting {data : Row} : Mysql.Absent Row.account rows data.account →
    Stage choice rows (.calling (.insert data) [.insert, .registerSet data.account data.uid])
  | inserted {account : String} {uid : Uid} : Stored choice rows account uid →
    Stage choice rows (.returning .done [.insert, .registerSet account uid])
  | stored {account : String} {uid : Uid} : Stored choice rows account uid →
    Stage choice rows (.returning .done [.registerSet account uid])
  | accepted {account : String} {uid : Uid} : Stored choice rows account uid →
    Stage choice rows (.returning (.accepted account uid) [])
  | refused : Stage choice rows (.returning .refused [])

variable {choice : Mysql.Choice Row}

theorem Stored.insert {rows : List Row} {account : String} {uid : Uid}
    (stored : Stored choice rows account uid) {data : Row} (other : data.account ≠ account) :
    Stored choice (Mysql.insert rows data) account uid := by
  obtain ⟨row, found, same⟩ := stored
  exact ⟨row, (Mysql.findOne_insert_of_ne other).trans found, same⟩

theorem stored_of_absent {rows : List Row} {data : Row}
    (absent : Mysql.Absent Row.account rows data.account) :
    Stored choice (Mysql.insert rows data) data.account data.uid :=
  ⟨data, Mysql.findOne_insert_of_absent absent, rfl⟩

/-- An account that is not stored is another one than one that is. -/
theorem Stored.ne {rows : List Row} {account account' : String} {uid : Uid}
    (stored : Stored choice rows account uid) (absent : Mysql.Absent Row.account rows account') :
    account' ≠ account := by
  rintro rfl
  obtain ⟨row, found, -⟩ := stored
  rw [Mysql.absent_iff_findOne.mp absent] at found
  cases found

/-- The first insertion of one account does not concern those that do not register it. -/
theorem Stage.insert {rows : List Row} {a : Act} (stage : Stage choice rows a) {data : Row}
    (absent : Mysql.Absent Row.account rows data.account)
    (other : ¬ Registers a data.account) : Stage choice (Mysql.insert rows data) a := by
  have apart : ∀ {account : String} {pc : Pc}, pc ∈ a.stack → pc.registers = some account →
      data.account ≠ account := by
    intro account pc member registers same
    exact other ⟨pc, member, by rw [registers, same]⟩
  cases stage with
  | called account password => exact .called account password
  | checking account password => exact .checking account password
  | checked password known =>
      refine .checked password fun row same => ?_
      have stored : Stored choice rows _ row.uid := ⟨row, known row same, rfl⟩
      exact (Mysql.findOne_insert_of_ne (stored.ne absent)).trans (known row same)
  | looking account password => exact .looking account password
  | looked account ret password => exact .looked account ret password
  | numbering password none =>
      exact .numbering password (none.insert (apart List.mem_cons_self rfl))
  | numbered password uid none =>
      exact .numbered password uid (none.insert (apart List.mem_cons_self rfl))
  | storing none => exact .storing (none.insert (apart List.mem_cons_self rfl))
  | updating none =>
      exact .updating (none.insert (apart (List.mem_cons_of_mem _ List.mem_cons_self) rfl))
  | updated none =>
      exact .updated (none.insert (apart (List.mem_cons_of_mem _ List.mem_cons_self) rfl))
  | inserting none =>
      exact .inserting (none.insert (apart (List.mem_cons_of_mem _ List.mem_cons_self) rfl))
  | inserted stored => exact .inserted (stored.insert (stored.ne absent))
  | stored stored => exact .stored (stored.insert (stored.ne absent))
  | accepted stored => exact .accepted (stored.insert (stored.ne absent))
  | refused => exact .refused

/-- Every authentication is at a stage, and an account has one registration. -/
structure AccountInv (choice : Mysql.Choice Row) (w : World) : Prop where
  stages : ∀ id a, w.acts id = some a → Stage choice w.shared a
  single : ∀ id id' a a' account, w.acts id = some a → w.acts id' = some a' →
    Registers a account → Registers a' account → id = id'

theorem AccountInv.init (rows : List Row) : AccountInv choice (init rows) := by
  refine ⟨?_, ?_⟩
  · intro id a found
    cases found
  · intro id id' a a' account found
    cases found

/-- An activity moves on to a stage in which it registers nothing that it did not register
before. -/
theorem AccountInv.move {w : World} (inv : AccountInv choice w) {id : Nat} {rows' : List Row} {a' : Act}
    (others : ∀ i a, i ≠ id → w.acts i = some a → Stage choice rows' a) (stage : Stage choice rows' a')
    (registers : ∀ account, Registers a' account → ∀ i a, i ≠ id → w.acts i = some a →
      ¬ Registers a account) :
    AccountInv choice ⟨rows', Function.update w.acts id (some a')⟩ := by
  refine ⟨?_, ?_⟩
  · intro i a found
    rcases Code.acts_update found with ⟨-, rfl⟩ | ⟨other, before⟩
    · exact stage
    · exact others i a other before
  · intro i j a b account found found' reg reg'
    rcases Code.acts_update found with ⟨here, rfl⟩ | ⟨other, before⟩
    · rcases Code.acts_update found' with ⟨here', -⟩ | ⟨other', before'⟩
      · rw [here, here']
      · exact (registers account reg j b other' before' reg').elim
    · rcases Code.acts_update found' with ⟨-, rfl⟩ | ⟨-, before'⟩
      · exact (registers account reg' i a other before reg).elim
      · exact inv.single i j a b account before before' reg reg'

/-- The same, when no row changes and what is registered was registered before. -/
theorem AccountInv.pass {w : World} (inv : AccountInv choice w) {id : Nat} {a a' : Act}
    (found : w.acts id = some a) (stage : Stage choice w.shared a')
    (registers : ∀ account, Registers a' account → Registers a account) :
    AccountInv choice ⟨w.shared, Function.update w.acts id (some a')⟩ := by
  refine inv.move (fun i b _ before => inv.stages i b before) stage ?_
  intro account reg i b other before reg'
  exact other (inv.single i id b a account before found reg' (registers account reg))

theorem AccountInv.step {w w' : World} {e : Event Uid (Option String × Option String)}
    (inv : AccountInv choice w) (alone : RegistersAlone w e) (stepped : (code choice).step w e = some w') :
    AccountInv choice w' := by
  rcases Code.step_cases stepped with ⟨id, o, a, s', a', rfl, found, moved, rfl⟩ |
    ⟨id, x, s', rfl, came, rfl⟩ | ⟨id, x, s', r, rfl, fresh, came, rfl⟩
  · have stage := inv.stages id a found
    cases stage with
    | called account password =>
        cases account with
        | none =>
            cases moved
            exact inv.pass found .refused (by simp [Registers, Outcome.settle])
        | some account =>
            cases moved
            exact inv.pass found (.checking account password)
              (by simp [Registers, Outcome.settle, Pc.registers])
    | checking account password =>
        cases moved
        exact inv.pass found (.checked password fun row same => same)
          (by simp [Registers, Outcome.settle, Pc.registers])
    | @checked account ret password known =>
        cases ret with
        | none =>
            cases moved
            exact inv.pass found (.looking account password)
              (by simp [Registers, Outcome.settle, Pc.registers, resume])
        | some row =>
            by_cases right : row.password = password
            · simp only [Code.advance, code, resume, if_pos right] at moved
              cases moved
              exact inv.pass found (.accepted ⟨row, known row rfl, rfl⟩)
                (by simp [Registers, Outcome.settle])
            · simp only [Code.advance, code, resume, if_neg right] at moved
              cases moved
              exact inv.pass found (.looking account password)
                (by simp [Registers, Outcome.settle, Pc.registers])
    | looking account password =>
        cases moved
        exact inv.pass found (.looked account _ password)
          (by simp [Registers, Outcome.settle, Pc.registers])
    | looked account ret password =>
        cases ret with
        | some row =>
            cases moved
            exact inv.pass found .refused (by simp [Registers, Outcome.settle, resume])
        | none =>
            cases moved
            obtain ⟨absent, nobody⟩ := alone id o account password [] rfl found
            refine inv.move (fun i b _ before => inv.stages i b before)
              (.numbering password absent) ?_
            intro account' reg i b _ before
            have same : account = account' := by
              simpa [Registers, Outcome.settle, Pc.registers, resume] using reg
            exact same ▸ nobody i b before
    | numbering password absent =>
        cases moved
        exact inv.pass found (.numbered password o absent) fun account reg => reg
    | numbered password uid absent =>
        cases moved
        apply inv.pass found (.storing absent)
        intro account reg
        simpa [Registers, Outcome.settle, Pc.registers, resume] using reg
    | storing absent =>
        cases moved
        apply inv.pass found (.updating absent)
        intro account reg
        simpa [Registers, Outcome.settle, Pc.registers, resume] using reg
    | @updating data absent =>
        have nothing := Mysql.absent_iff_affectedRows.mp absent
        simp only [Code.advance, code, serve, nothing, Mysql.update_of_absent absent] at moved
        cases moved
        exact inv.pass found (.updated absent) fun account reg => reg
    | updated absent =>
        cases moved
        apply inv.pass found (.inserting absent)
        intro account reg
        simpa [Registers, Outcome.settle, Pc.registers, resume] using reg
    | @inserting data absent =>
        cases moved
        have mine : Registers
            (.calling (.insert data) [.insert, .registerSet data.account data.uid])
            data.account := by simp [Registers, Pc.registers]
        refine inv.move ?_ (.inserted (stored_of_absent absent)) ?_
        · intro i b other before
          refine (inv.stages i b before).insert absent fun reg => ?_
          exact other (inv.single i id b _ data.account before found reg mine)
        · intro account reg i b other before reg'
          exact other (inv.single i id b _ account before found reg' reg)
    | inserted stored =>
        cases moved
        apply inv.pass found (.stored stored)
        intro account reg
        simpa [Registers, Outcome.settle, Pc.registers, resume] using reg
    | stored stored =>
        cases moved
        exact inv.pass found (.accepted stored) (by simp [Registers, Outcome.settle, resume])
    | accepted stored => cases moved
    | refused => cases moved
  · cases came
  · cases came
    refine inv.move (fun i b _ before => inv.stages i b before) (.called x.1 x.2) ?_
    intro account reg
    simp [Registers] at reg

/-- **One uid for each account** as long as no two registrations of an account overlap. -/
theorem one_uid (choice : Mysql.Choice Row) (rows : List Row) :
    OneUid choice RegistersAlone rows := by
  intro w reached id account uid accepted
  have inv : AccountInv choice w := reached.invariant (AccountInv.init rows) AccountInv.step
  have known : ∀ {id uid}, Accepted w id account uid → Stored choice w.shared account uid := by
    intro id uid accepted
    cases inv.stages id _ accepted with
    | accepted stored => exact stored
  obtain ⟨row, found, same⟩ := known accepted
  refine ⟨⟨row, found, same⟩, ?_⟩
  intro id' uid' accepted'
  obtain ⟨row', found', same'⟩ := known accepted'
  rw [found] at found'
  cases found'
  rw [← same, same']

/-- Two authentications of a new account find nothing, take the numbers 50001 and 50002 and store
one after the other. -/
def twoFirstLogins : List (Event Uid (Option String × Option String)) :=
  [Event.arrive 0 (some "player", some "secret"),
      Event.arrive 1 (some "player", some "secret")] ++
    List.replicate 6 (Event.run 0 50001) ++ List.replicate 6 (Event.run 1 50002) ++
    List.replicate 7 (Event.run 0 50001) ++ List.replicate 5 (Event.run 1 50002)

/-- Both succeed, with different uids. -/
theorem two_uids : ¬ ∀ rows, OneUid Mysql.topmost (fun _ _ => True) rows := by
  intro one
  have ran : ((code Mysql.topmost).runs (init []) twoFirstLogins).map (fun w => (w.acts 0, w.acts 1)) =
      some (some (.returning (.accepted "player" 50001) []),
        some (.returning (.accepted "player" 50002) [])) := by decide
  obtain ⟨w, run, state⟩ := Option.map_eq_some_iff.mp ran
  obtain ⟨first, second⟩ := Prod.mk.inj state
  have same := (one [] w (Code.Reach.refl.of_runs run) 0 "player" 50001 first).2 1 50002 second
  cases same

end RillServer.Accounts
