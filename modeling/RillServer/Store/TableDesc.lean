import RillServer.Store.Statements
import Mathlib.Logic.Function.Basic

/-!
# Decoding by the description of a table

`get_table_desc`, `build_find_data` and `find` of `lualib/mysqldb.lua`. The first call for a table
asks the database for its description and remembers, for each column, the name of its type. It
returns the rows of the answer, though, and only later calls return what is remembered.
`build_find_data` looks for the entries that are `varchar`, which no row is, so that the first
`find` decodes nothing (`find_cached`).
-/

namespace RillServer.Mysqldb

open Readers (bind_eq_ok)

/-- A value in a row: a string, or a number or what `json.decode` makes. -/
inductive Cell (J : Type) where
  | string (s : Text)
  | other (j : J)
  deriving DecidableEq

/-- A row of a result. A column that is `NULL` has no value. -/
abbrev Row (J : Type) : Type := Text → Option (Cell J)

/-- A row of the answer to `desc`, with the columns that are read. -/
structure DescRow where
  field : Text
  type : Text
  deriving DecidableEq

/-- What is remembered of a table: columns with the names of their types. -/
abbrev Desc : Type := List (Text × Text)

/-- An entry of what `get_table_desc` returns. -/
inductive DescEntry where
  | row (ret : DescRow)
  | column (name type : Text)
  deriving DecidableEq

/-- The answer to `desc`: rows, or an error of the server with its `errno`. -/
inductive DescAnswer where
  | rows (ret : List DescRow)
  | bad (errno : Nat)

/-- `json.decode`. A string in JSON is longer than the string. -/
structure Decoder (J : Type) where
  decode : Cell J → Except String (Cell J)
  shorter : ∀ s t, decode (.string s) = .ok (.string t) → t.length < s.length

/-- The order of `pairs`, whatever it is. -/
structure Pairs where
  order : Desc → Desc
  perm : ∀ desc, (order desc).Perm desc

/-- `%w`. -/
def alnum (c : Char) : Bool := c.isAlphanum

/-- `(%w+)%(%w+%)` at the beginning of a string. No `%w` is a bracket, so that each `%w+` takes all
characters that it can. -/
def matchHere (s : Text) : Option Text :=
  match s.dropWhile alnum with
  | '(' :: rest =>
    if s.takeWhile alnum ≠ [] ∧ rest.takeWhile alnum ≠ [] ∧
        (rest.dropWhile alnum).head? = some ')' then some (s.takeWhile alnum)
    else none
  | _ => none

/-- `string.match(s, "(%w+)%(%w+%)")`. -/
def matchType : Text → Option Text
  | [] => none
  | c :: s => (matchHere (c :: s)).or (matchType s)

/-- `desc[k] = v`. -/
def setField (desc : Desc) (k : Text) (v : Option Text) : Desc :=
  desc.filter (fun entry => entry.1 ≠ k) ++ (v.map fun v => (k, v)).toList

/-- The loop of `get_table_desc`. -/
def describe (ret : List DescRow) : Desc :=
  ret.foldl (fun desc v => setField desc v.field (matchType v.type)) []

/-- `mysqldb:get_table_desc`: what it returns, with `none` for `nil`, and what is remembered. -/
def getTableDesc (pairs : Pairs) (cached : Option Desc) (answer : DescAnswer) :
    Option (List DescEntry) × Option Desc :=
  match cached with
  | some desc => (some ((pairs.order desc).map fun (k, v) => .column k v), cached)
  | none =>
    match answer with
    | .bad _ => (none, none)
    | .rows ret => (some (ret.map .row), some (describe ret))

section

variable {J : Type} (json : Decoder J)

/-- The loop over the rows in `build_find_data`, for the column `k`. -/
def decodeColumn (k : Text) : List (Row J) → Except String (List (Row J))
  | [] => .ok []
  | vv :: data => do
    let vv ← match vv k with
      | none => .ok vv
      | some str => do
        let t ← json.decode str
        .ok (Function.update vv k (some t))
    let data ← decodeColumn k data
    return vv :: data

/-- The loop over the description in `build_find_data`. -/
def decodeRows : List DescEntry → List (Row J) → Except String (List (Row J))
  | [], data => .ok data
  | .row _ :: desc, data => decodeRows desc data
  | .column k v :: desc, data =>
    if v = "varchar".toList then do
      let data ← decodeColumn json k data
      decodeRows desc data
    else decodeRows desc data

/-- `mysqldb:build_find_data`. -/
def buildFindData (desc : Option (List DescEntry)) (data : List (Row J)) :
    Except String (Option (List (Row J))) :=
  match desc with
  | none => .ok none
  | some desc => (decodeRows json desc data).map some

/-- `mysqldb:find`, with the rows that its query gives: what it returns, and what is remembered
then. -/
def find (pairs : Pairs) (cached : Option Desc) (answer : DescAnswer) (data : List (Row J)) :
    Except String (Option (List (Row J))) × Option Desc :=
  let (desc, cached) := getTableDesc pairs cached answer
  (buildFindData json desc data, cached)

end

variable {J : Type} {json : Decoder J}

/-! ### Descriptions -/

theorem setField_nodup {desc : Desc} (distinct : (desc.map Prod.fst).Nodup) (k : Text)
    (v : Option Text) : ((setField desc k v).map Prod.fst).Nodup := by
  have others : ((desc.filter fun entry => entry.1 ≠ k).map Prod.fst).Nodup :=
    distinct.sublist (List.filter_sublist.map Prod.fst)
  cases v with
  | none => simpa [setField] using others
  | some v =>
    have missing : k ∉ (desc.filter fun entry => entry.1 ≠ k).map Prod.fst := by simp
    rw [setField, List.map_append]
    refine List.nodup_append.mpr ⟨others, by simp, ?_⟩
    intro a member b member' same
    simp only [Option.map_some, Option.toList_some, List.map_cons, List.map_nil,
      List.mem_singleton] at member'
    rw [same, member'] at member
    exact missing member

theorem describe_nodup (ret : List DescRow) : ((describe ret).map Prod.fst).Nodup := by
  have fold : ∀ (ret : List DescRow) (desc : Desc), (desc.map Prod.fst).Nodup →
      ((ret.foldl (fun desc v => setField desc v.field (matchType v.type)) desc).map
        Prod.fst).Nodup := by
    intro ret
    induction ret with
    | nil => exact fun desc distinct => distinct
    | cons v ret ih => exact fun desc distinct => ih _ (setField_nodup distinct _ _)
  exact fold ret [] List.nodup_nil

/-- No row of the answer is `varchar`. -/
theorem decodeRows_rows (ret : List DescRow) (data : List (Row J)) :
    decodeRows json (ret.map .row) data = .ok data := by
  induction ret with
  | nil => rfl
  | cons v ret ih => exact ih

/-! ### Decoding -/

/-- Each value of the column decodes to itself. -/
def Fixed (json : Decoder J) (k : Text) (data : List (Row J)) : Prop :=
  ∀ vv ∈ data, ∀ cell, vv k = some cell → json.decode cell = .ok cell

theorem decodeColumn_cons {k : Text} {vv : Row J} {data data' : List (Row J)}
    (ok : decodeColumn json k (vv :: data) = .ok data') :
    ∃ vv' rest, data' = vv' :: rest ∧ decodeColumn json k data = .ok rest ∧
      (∀ k', k' ≠ k → vv' k' = vv k') ∧
      ((vv k = none ∧ vv' = vv) ∨ ∃ cell t, vv k = some cell ∧ json.decode cell = .ok t ∧
        vv' = Function.update vv k (some t)) := by
  have goesOn : ∀ vv', (do let data ← decodeColumn json k data; return vv' :: data) = .ok data' →
      ∃ rest, data' = vv' :: rest ∧ decodeColumn json k data = .ok rest := by
    intro vv' later
    obtain ⟨rest, ok', both⟩ := bind_eq_ok.mp later
    cases both
    exact ⟨rest, rfl, ok'⟩
  rw [decodeColumn] at ok
  cases value : vv k with
  | none =>
    rw [value] at ok
    obtain ⟨rest, rfl, ok'⟩ := goesOn vv ok
    exact ⟨vv, rest, rfl, ok', fun _ _ => rfl, .inl ⟨rfl, rfl⟩⟩
  | some cell =>
    rw [value] at ok
    obtain ⟨t, decoded, later⟩ := bind_eq_ok.mp ok
    obtain ⟨rest, rfl, ok'⟩ := goesOn (Function.update vv k (some t)) later
    exact ⟨_, rest, rfl, ok', fun k' other => Function.update_of_ne other _ _,
      .inr ⟨cell, t, rfl, decoded, rfl⟩⟩

/-- The other columns stay. -/
theorem decodeColumn_other {k k' : Text} (other : k' ≠ k) : ∀ {data data' : List (Row J)},
    decodeColumn json k data = .ok data' → data'.map (· k') = data.map (· k')
  | [], _, ok => by
    cases ok
    rfl
  | vv :: data, _, ok => by
    obtain ⟨vv', rest, rfl, ok', same, -⟩ := decodeColumn_cons ok
    rw [List.map_cons, List.map_cons, same k' other, decodeColumn_other other ok']

/-- A column of values that decode to themselves stays as it is. -/
theorem decodeColumn_fixed {k : Text} : ∀ {data : List (Row J)}, Fixed json k data →
    decodeColumn json k data = .ok data
  | [], _ => rfl
  | vv :: data, fixed => by
    have rest : decodeColumn json k data = .ok data :=
      decodeColumn_fixed fun vv' member => fixed vv' (List.mem_cons_of_mem vv member)
    rw [decodeColumn, rest]
    cases value : vv k with
    | none => rfl
    | some cell =>
      have decoded := fixed vv List.mem_cons_self cell value
      have same : Function.update vv k (some cell) = vv := by
        rw [← value, Function.update_eq_self]
      simp only [decoded, bind, Except.bind, same]
      rfl

/-- And a column that stays has no other values. -/
theorem fixed_of_decodeColumn {k : Text} : ∀ {data data' : List (Row J)},
    decodeColumn json k data = .ok data' → data'.map (· k) = data.map (· k) →
      Fixed json k data
  | [], _, _, _ => fun vv member => absurd member List.not_mem_nil
  | vv :: data, _, ok, same => by
    obtain ⟨vv', rest, rfl, ok', -, changed⟩ := decodeColumn_cons ok
    obtain ⟨first, later⟩ := List.cons.inj same
    intro row member cell value
    rcases List.mem_cons.mp member with rfl | inside
    · rcases changed with ⟨null, -⟩ | ⟨cell', t, value', decoded, rfl⟩
      · rw [null] at value
        cases value
      · rw [value'] at value
        cases value
        dsimp only at first
        rw [Function.update_self, value'] at first
        cases first
        exact decoded
    · exact fixed_of_decodeColumn ok' later row inside cell value

theorem decodeRows_other {k : Text} : ∀ {desc : Desc} {data data' : List (Row J)},
    k ∉ desc.map Prod.fst →
    decodeRows json (desc.map fun (k, v) => .column k v) data = .ok data' →
      data'.map (· k) = data.map (· k)
  | [], _, _, _, ok => by
    cases ok
    rfl
  | (k', v) :: desc, data, data', missing, ok => by
    obtain ⟨other, missing'⟩ := not_or.mp (mt List.mem_cons.mpr missing)
    rw [List.map_cons, decodeRows] at ok
    split at ok
    · obtain ⟨data'', first, later⟩ := bind_eq_ok.mp ok
      rw [decodeRows_other missing' later, decodeColumn_other other first]
    · exact decodeRows_other missing' ok

/-- The rows stay as they are if and only if the values of each decoded column do. -/
theorem decodeRows_same_iff : ∀ {desc : Desc} {data : List (Row J)},
    (desc.map Prod.fst).Nodup →
      (decodeRows json (desc.map fun (k, v) => .column k v) data = .ok data ↔
        ∀ k, (k, "varchar".toList) ∈ desc → Fixed json k data)
  | [], data, _ => by simp [decodeRows]
  | (k, v) :: desc, data, distinct => by
    obtain ⟨missing, distinct'⟩ := List.nodup_cons.mp distinct
    rw [List.map_cons, decodeRows]
    by_cases varchar : v = "varchar".toList
    · rw [if_pos varchar]
      constructor
      · intro ok
        obtain ⟨data', first, ok⟩ := bind_eq_ok.mp ok
        -- nothing decodes the column a second time
        have stays : data'.map (· k) = data.map (· k) := (decodeRows_other missing ok).symm
        have fixed : Fixed json k data := fixed_of_decodeColumn first stays
        rw [decodeColumn_fixed fixed] at first
        cases first
        intro k' member
        rcases List.mem_cons.mp member with here | later
        · rw [(Prod.mk.inj here).1]
          exact fixed
        · exact (decodeRows_same_iff distinct').mp ok k' later
      · intro fixed
        have here : (k, "varchar".toList) ∈ (k, v) :: desc := by
          rw [varchar]
          exact List.mem_cons_self
        rw [decodeColumn_fixed (fixed k here)]
        exact (decodeRows_same_iff distinct').mpr
          fun k' later => fixed k' (List.mem_cons_of_mem _ later)
    · rw [if_neg varchar, decodeRows_same_iff distinct']
      constructor
      · intro fixed k' member
        rcases List.mem_cons.mp member with here | later
        · exact (varchar (Prod.mk.inj here).2.symm).elim
        · exact fixed k' later
      · exact fun fixed k' later => fixed k' (List.mem_cons_of_mem _ later)

/-- What decodes to itself is no string. -/
theorem fixed_iff {k : Text} {data : List (Row J)} :
    Fixed json k data ↔ ∀ vv ∈ data, ∀ cell, vv k = some cell →
      ∃ j, cell = .other j ∧ json.decode (.other j) = .ok (.other j) := by
  constructor
  · intro fixed vv member cell value
    have decoded := fixed vv member cell value
    cases cell with
    | string s => exact absurd (json.shorter s s decoded) (Nat.lt_irrefl _)
    | other j => exact ⟨j, rfl, decoded⟩
  · intro others vv member cell value
    obtain ⟨j, rfl, decoded⟩ := others vv member cell value
    exact decoded

/-! ### The cache -/

/-- The first use of a table decodes nothing. -/
theorem find_first (pairs : Pairs) (ret : List DescRow) (data : List (Row J)) :
    find json pairs none (.rows ret) data = (.ok (some data), some (describe ret)) := by
  simp only [find, getTableDesc, buildFindData, decodeRows_rows]
  rfl

/-- **`find` does not depend on the cache** if and only if no row has a string in a column that is
described as `varchar`, or anything else that `json.decode` changes or refuses. -/
theorem find_cached (json : Decoder J) (pairs : Pairs) (ret : List DescRow) (data : List (Row J)) :
    (find json pairs (find json pairs none (.rows ret) data).2 (.rows ret) data).1 =
        (find json pairs none (.rows ret) data).1 ↔
      ∀ k, (k, "varchar".toList) ∈ describe ret → ∀ vv ∈ data, ∀ cell, vv k = some cell →
        ∃ j, cell = .other j ∧ json.decode (.other j) = .ok (.other j) := by
  have perm := pairs.perm (describe ret)
  have distinct : ((pairs.order (describe ret)).map Prod.fst).Nodup :=
    (perm.map Prod.fst).nodup_iff.mpr (describe_nodup ret)
  have later : (find json pairs (some (describe ret)) (.rows ret) data).1 = .ok (some data) ↔
      decodeRows json ((pairs.order (describe ret)).map fun (k, v) => .column k v) data =
        .ok data := by
    simp only [find, getTableDesc, buildFindData]
    cases decodeRows json ((pairs.order (describe ret)).map fun (k, v) => .column k v) data with
    | error e => simp [Except.map]
    | ok data' => simp [Except.map]
  rw [find_first, later, decodeRows_same_iff distinct]
  refine forall_congr' fun k => ?_
  rw [perm.mem_iff, fixed_iff]

/-- `json.decode` of numbers. -/
def numerals : Decoder Int where
  decode
    | .string s =>
      if s ≠ [] ∧ s.all Char.isDigit then .ok (.other (Nat.ofDigitChars 10 s 0))
      else .error "Expected value but found invalid token at character 1"
    | .other n => .ok (.other n)
  shorter := by
    intro s t ok
    dsimp only at ok
    split at ok <;> cases ok

/-- The column `a` of type `varchar(10)` has the string `1` in a row. The first `find` returns the
string, the second one the number. -/
theorem first_find_not_decoded :
    ¬ ∀ (pairs : Pairs) (ret : List DescRow) (data : List (Row Int)),
      (find numerals pairs (find numerals pairs none (.rows ret) data).2 (.rows ret) data).1 =
        (find numerals pairs none (.rows ret) data).1 := by
  intro same
  let pairs : Pairs := ⟨id, fun desc => List.Perm.refl desc⟩
  let ret : List DescRow := [⟨['a'], "varchar(10)".toList⟩]
  let row : Row Int := Function.update (fun _ => none) ['a'] (some (.string ['1']))
  have remembered : describe ret = [(['a'], "varchar".toList)] := by decide
  have decoded : (find numerals pairs (some (describe ret)) (.rows ret) [row]).1 =
      .ok (some [Function.update row ['a'] (some (.other 1))]) := by
    rw [remembered]
    rfl
  have agreed := same pairs ret [row]
  rw [find_first, decoded] at agreed
  have rows := Option.some.inj (Except.ok.inj agreed)
  have value := congrFun (List.cons.inj rows).1 ['a']
  simp [row] at value

end RillServer.Mysqldb
