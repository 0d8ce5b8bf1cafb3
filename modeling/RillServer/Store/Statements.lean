import RillServer.Lib.Readers
import Mathlib.Data.List.Basic
import Mathlib.Data.List.Nodup

/-!
# The texts of statements

`build_selector` and `build_insert_data` of `lualib/mysqldb.lua`, which `update`, `insert` and the
queries build their statements with, and `quote_sql_str` of the driver. Lua strings are lists of
characters, one for each byte. A table is the list of its entries in the order of `pairs`, which may
be any.

The columns and the values of an insertion line up if and only if an entry is stored whole or not at
all (`columns_line_up`). An update and an insertion of one record store the same only when its
values are strings and integers (`same_data`).
-/

namespace RillServer.Mysqldb

open Readers (bind_eq_ok)

/-- A Lua string. -/
abbrev Text : Type := List Char

/-- A key of a table. -/
inductive Key where
  | string (k : Text)
  /-- a number, a boolean, …: told apart, and not looked at -/
  | other (id : Nat)
  deriving DecidableEq

/-- A value of a table: `F` are the floats and `T` the tables of Lua. -/
inductive Value (F T : Type) where
  | string (s : Text)
  | integer (n : Int)
  | float (x : F)
  | table (t : T)
  /-- a boolean, a function, … -/
  | other

/-- A table of Lua, in the order in which `pairs` gives its entries. -/
structure Table (F T : Type) where
  entries : List (Key × Value F T)
  distinct : (entries.map Prod.fst).Nodup

/-- What is taken as given. -/
structure Given (F T : Type) where
  /-- the integer that a float is equal to -/
  toInteger : F → Option Int
  /-- `lua_number2str` -/
  number2str : F → Text
  /-- `json.encode` -/
  encode : T → Except String Text

/-- `escape_map`: what is written after a backslash. -/
def escapeMap : List (Char × Char) :=
  [(Char.ofNat 0, '0'), (Char.ofNat 8, 'b'), ('\n', 'n'), ('\r', 'r'), ('\t', 't'),
    (Char.ofNat 26, 'Z'), ('\\', '\\'), ('\'', '\''), ('"', '"')]

/-- A character in a quoted string. -/
def escape (c : Char) : Text :=
  match escapeMap.lookup c with
  | some d => ['\\', d]
  | none => [c]

/-- `mysql.quote_sql_str`. -/
def quoteSqlStr (str : Text) : Text := '\'' :: str.flatMap escape ++ ['\'']

/-- An integer as `%d` and `tostring` write it. -/
def integerText : Int → Text
  | .ofNat n => Nat.toDigits 10 n
  | .negSucc n => '-' :: Nat.toDigits 10 (n + 1)

/-- One of `-0123456789`. -/
def integerChar (c : Char) : Bool := c == '-' || c.isDigit

/-- `luaO_tostring` of a float: what looks like an integer gets a fraction. -/
def floatText {F T : Type} (given : Given F T) (x : F) : Text :=
  let buff := given.number2str x
  if buff.all integerChar then buff ++ ['.', '0'] else buff

section

variable {F T : Type} (given : Given F T)

/-- `%d` of a number. -/
def formatInteger : Value F T → Except String (Option Text)
  | .integer n => .ok (some (integerText n))
  | .float x =>
    match given.toInteger x with
    | some n => .ok (some (integerText n))
    | none => .error "bad argument #3 to 'format' (number has no integer representation)"
  | _ => .ok none

/-- What `build_selector` writes for a value; nothing for one that it leaves out. -/
def selectorValue : Value F T → Except String (Option Text)
  | .string s => .ok (some (quoteSqlStr s))
  | v => formatInteger given v

/-- The loop of `build_selector`: the columns, and what is written for them. -/
def selectorPairs : List (Key × Value F T) → Except String (List (Text × Text))
  | [] => .ok []
  | (.string k, v) :: entries => do
    let text ← selectorValue given v
    let t ← selectorPairs entries
    return (text.map fun text => (k, text)).toList ++ t
  | (.other _, _) :: entries => selectorPairs entries

/-- `%s = %s`. -/
def assignment (pair : Text × Text) : Text := pair.1 ++ " = ".toList ++ pair.2

/-- `build_selector`. -/
def buildSelector (selector : Table F T) : Except String Text := do
  let t ← selectorPairs given selector.entries
  return [','].intercalate (t.map assignment)

/-- What `build_insert_data` writes for a value; nothing for one that it leaves out. -/
def insertValue : Value F T → Except String (Option Text)
  | .string s => .ok (some (quoteSqlStr s))
  | .integer n => .ok (some (integerText n))
  | .float x => .ok (some (floatText given x))
  | .table t => do
    let str ← given.encode t
    return some (quoteSqlStr str)
  | .other => .ok none

/-- The column of a key. -/
def Key.field : Key → Option Text
  | .string k => some k
  | .other _ => none

/-- The loop of `build_insert_data`: the lists `field` and `value`. -/
def insertLists : List (Key × Value F T) → Except String (List Text × List Text)
  | [] => .ok ([], [])
  | (k, v) :: entries => do
    let text ← insertValue given v
    let (field, value) ← insertLists entries
    return (k.field.toList ++ field, text.toList ++ value)

/-- `build_insert_data`. -/
def buildInsertData (data : Table F T) : Except String (Text × Text) := do
  let (field, value) ← insertLists given data.entries
  return ([','].intercalate field, [','].intercalate value)

/-- `build_field_selector`. -/
def buildFieldSelector : Option (List Text) → Text
  | none => ['*']
  | some fieldSelector => [','].intercalate fieldSelector

/-- The statement of `mysqldb:findOne`. -/
def findOneSql (cname : Text) (selector : Table F T) (fieldSelector : Option (List Text)) :
    Except String Text := do
  let selectorStr ← buildSelector given selector
  return "select ".toList ++ buildFieldSelector fieldSelector ++ " from ".toList ++ cname ++
    " where ".toList ++ selectorStr ++ " limit 1".toList

/-- The statement of `mysqldb:find`. -/
def findSql (cname : Text) (selector : Table F T) (fieldSelector : Option (List Text)) :
    Except String Text := do
  let selectorStr ← buildSelector given selector
  return "select ".toList ++ buildFieldSelector fieldSelector ++ " from ".toList ++ cname ++
    " where ".toList ++ selectorStr

/-- The statement of `mysqldb:delete`. -/
def deleteSql (cname : Text) (selector : Table F T) : Except String Text := do
  let selectorStr ← buildSelector given selector
  return "delete from ".toList ++ cname ++ " where ".toList ++ selectorStr

/-- The statement of `mysqldb:update`. -/
def updateSql (cname : Text) (selector fieldSelector : Table F T) : Except String Text := do
  let selectorStr ← buildSelector given selector
  let fieldSelectorStr ← buildSelector given fieldSelector
  return "update ".toList ++ cname ++ " set ".toList ++ fieldSelectorStr ++ " where ".toList ++
    selectorStr

/-- The statement of `mysqldb:insert`. -/
def insertSql (cname : Text) (data : Table F T) : Except String Text := do
  let (fieldStr, valueStr) ← buildInsertData given data
  return "insert into ".toList ++ cname ++ "(".toList ++ fieldStr ++ ")values(".toList ++
    valueStr ++ ")".toList

end

variable {F T : Type} {given : Given F T}

/-! ## Columns and values of an insertion -/

/-- A key that is a string. -/
def Key.isString : Key → Bool
  | .string _ => true
  | .other _ => false

/-- A value that an insertion writes: a string, a number or a table. -/
def Value.isStored : Value F T → Bool
  | .other => false
  | _ => true

/-- Each entry of the list of values is what is written for the value stored under the column at the
same place, and there are as many. -/
def LinesUp (given : Given F T) (data : Table F T) (field value : List Text) : Prop :=
  field.length = value.length ∧
    ∀ (i : Nat) (k : Text), field[i]? = some k → ∃ v text, (Key.string k, v) ∈ data.entries ∧
      insertValue given v = .ok (some text) ∧ value[i]? = some text

theorem insertValue_stored {v : Value F T} {text : Option Text}
    (ok : insertValue given v = .ok text) : text.isSome = v.isStored := by
  cases v with
  | table t =>
    rw [insertValue] at ok
    obtain ⟨str, -, quoted⟩ := bind_eq_ok.mp ok
    cases quoted
    rfl
  | string s | integer n | float x | other =>
    cases ok
    rfl

/-- One more entry in front: the lists of the loop, with what the entry adds to each. -/
theorem insertLists_cons {k : Key} {v : Value F T} {entries : List (Key × Value F T)}
    {field value : List Text}
    (ok : insertLists given ((k, v) :: entries) = .ok (field, value)) :
    ∃ text field' value', insertValue given v = .ok text ∧
      insertLists given entries = .ok (field', value') ∧
      field = k.field.toList ++ field' ∧ value = text.toList ++ value' := by
  rw [insertLists] at ok
  obtain ⟨text, written, later⟩ := bind_eq_ok.mp ok
  obtain ⟨lists, rest, both⟩ := bind_eq_ok.mp later
  cases both
  exact ⟨text, lists.1, lists.2, written, rest, rfl, rfl⟩

/-- The columns are the string keys in their order. -/
theorem insertLists_field : ∀ {entries : List (Key × Value F T)} {field value : List Text},
    insertLists given entries = .ok (field, value) →
      field = entries.filterMap (fun entry => entry.1.field)
  | [], _, _, ok => by
    cases ok
    rfl
  | (k, v) :: entries, field, value, ok => by
    obtain ⟨text, field', value', -, rest, rfl, -⟩ := insertLists_cons ok
    rw [insertLists_field rest]
    cases k <;> rfl

/-- There are as many values as entries with a value to write. -/
theorem insertLists_value : ∀ {entries : List (Key × Value F T)} {field value : List Text},
    insertLists given entries = .ok (field, value) →
      value.length = entries.countP fun entry => entry.2.isStored
  | [], _, _, ok => by
    cases ok
    rfl
  | (k, v) :: entries, field, value, ok => by
    obtain ⟨text, field', value', written, rest, -, rfl⟩ := insertLists_cons ok
    have stored := insertValue_stored written
    rw [List.length_append, insertLists_value rest, List.countP_cons, ← stored, Nat.add_comm]
    cases text <;> rfl

/-- Without half entries the lists go in step. -/
theorem insertLists_inStep : ∀ {entries : List (Key × Value F T)} {field value : List Text},
    (∀ entry ∈ entries, entry.1.isString = entry.2.isStored) →
    insertLists given entries = .ok (field, value) →
      field.length = value.length ∧
        ∀ (i : Nat) (k : Text), field[i]? = some k → ∃ v text, (Key.string k, v) ∈ entries ∧
          insertValue given v = .ok (some text) ∧ value[i]? = some text
  | [], _, _, _, ok => by
    cases ok
    exact ⟨rfl, fun i k at' => by simp at at'⟩
  | (k, v) :: entries, field, value, whole, ok => by
    obtain ⟨text, field', value', written, rest, rfl, rfl⟩ := insertLists_cons ok
    obtain ⟨length, inStep⟩ :=
      insertLists_inStep (fun entry member => whole entry (List.mem_cons_of_mem _ member)) rest
    have first : k.isString = v.isStored := whole (k, v) List.mem_cons_self
    rw [← insertValue_stored written] at first
    have later : ∀ (i : Nat) (k' : Text), field'[i]? = some k' → ∃ v' text',
        (Key.string k', v') ∈ (k, v) :: entries ∧ insertValue given v' = .ok (some text') ∧
          value'[i]? = some text' := by
      intro i k' at'
      obtain ⟨v', text', member, written', there⟩ := inStep i k' at'
      exact ⟨v', text', List.mem_cons_of_mem _ member, written', there⟩
    match k, text, first with
    | .other id, none, _ => exact ⟨length, later⟩
    | .string k, some text, _ =>
      refine ⟨by simpa [Key.field] using length, ?_⟩
      intro i k' at'
      cases i with
      | zero =>
        cases at'
        exact ⟨v, text, List.mem_cons_self, written, rfl⟩
      | succ i => exact later i k' at'

theorem insertLists_written : ∀ {entries : List (Key × Value F T)} {field value : List Text},
    insertLists given entries = .ok (field, value) →
      ∀ {k v}, (k, v) ∈ entries → ∃ text, insertValue given v = .ok text
  | (k', v') :: entries, _, _, ok, k, v, member => by
    obtain ⟨text, field', value', written, rest, -, -⟩ := insertLists_cons ok
    rcases List.mem_cons.mp member with here | later
    · cases here
      exact ⟨text, written⟩
    · exact insertLists_written rest later

/-- There is one value under a key. -/
theorem Table.unique {data : Table F T} {k : Key} {v v' : Value F T}
    (member : (k, v) ∈ data.entries) (member' : (k, v') ∈ data.entries) : v = v' :=
  congrArg Prod.snd (List.inj_on_of_nodup_map data.distinct member member' rfl)

/-- A value that is written is one that is stored. -/
theorem LinesUp.isStored {data : Table F T} {field value : List Text}
    (linesUp : LinesUp given data field value)
    (ok : insertLists given data.entries = .ok (field, value)) {k : Text} {v : Value F T}
    (member : (Key.string k, v) ∈ data.entries) : v.isStored = true := by
  have column : k ∈ field := by
    rw [insertLists_field ok]
    exact List.mem_filterMap.mpr ⟨_, member, rfl⟩
  obtain ⟨i, inside, at'⟩ := List.getElem_of_mem column
  obtain ⟨v', text, member', written, -⟩ :=
    linesUp.2 i k (by rw [List.getElem?_eq_getElem inside, at'])
  rw [data.unique member member', ← insertValue_stored written]
  rfl

/-- As many entries of two kinds, one of which is among the other, are of both kinds. -/
theorem same_of_countP {α : Type} {p q : α → Bool} : ∀ {l : List α},
    (∀ a ∈ l, p a = true → q a = true) → l.countP p = l.countP q → ∀ a ∈ l, p a = q a
  | [], _, _, a, member => absurd member List.not_mem_nil
  | b :: l, among, count, a, member => by
    have amongRest : ∀ a ∈ l, p a = true → q a = true :=
      fun a inside => among a (List.mem_cons_of_mem b inside)
    have fewer : l.countP p ≤ l.countP q := List.countP_mono_left amongRest
    have first := among b List.mem_cons_self
    rw [List.countP_cons, List.countP_cons] at count
    have here : p b = q b := by
      cases pb : p b with
      | true => exact (first pb).symm
      | false =>
        cases qb : q b with
        | false => rfl
        | true =>
          rw [pb, qb] at count
          simp only [Bool.false_eq_true, if_false, if_true] at count
          omega
    rw [here] at count
    rcases List.mem_cons.mp member with rfl | inside
    · exact here
    · exact same_of_countP amongRest (Nat.add_right_cancel count) a inside

/-- **Columns and values line up** if and only if each string key has a string, a number or a table
under it, and no other key has. -/
theorem columns_line_up (given : Given F T) (data : Table F T) (field value : List Text)
    (ok : insertLists given data.entries = .ok (field, value)) :
    LinesUp given data field value ↔
      ∀ entry ∈ data.entries, entry.1.isString = entry.2.isStored := by
  refine ⟨?_, fun whole => insertLists_inStep whole ok⟩
  intro linesUp
  have among : ∀ entry ∈ data.entries, entry.1.isString = true → entry.2.isStored = true := by
    intro entry member isString
    obtain ⟨k, v⟩ := entry
    cases k with
    | string k => exact linesUp.isStored ok member
    | other id => cases isString
  have count : (data.entries.countP fun entry => entry.1.isString) =
      data.entries.countP fun entry => entry.2.isStored := by
    have fields : field.length = data.entries.countP fun entry => entry.1.isString := by
      rw [insertLists_field ok, List.length_filterMap_eq_countP]
      refine List.countP_congr fun entry _ => ?_
      cases entry.1 <;> simp [Key.field, Key.isString]
    rw [← fields, ← insertLists_value ok]
    exact linesUp.1
  exact same_of_countP among count

/-- An insertion is built unless `json.encode` raises an error. -/
theorem insertLists_ok : ∀ (entries : List (Key × Value F T)),
    (∀ k t, (k, Value.table t) ∈ entries → ∃ str, given.encode t = .ok str) →
      ∃ lists, insertLists given entries = .ok lists
  | [], _ => ⟨_, rfl⟩
  | (k, v) :: entries, encodes => by
    obtain ⟨lists, rest⟩ := insertLists_ok entries
      fun k' t member => encodes k' t (List.mem_cons_of_mem _ member)
    have written : ∃ text, insertValue given v = .ok text := by
      cases v with
      | table t =>
        obtain ⟨str, encoded⟩ := encodes k t List.mem_cons_self
        exact ⟨some (quoteSqlStr str), by rw [insertValue, encoded]; rfl⟩
      | string s | integer n | float x | other => exact ⟨_, rfl⟩
    obtain ⟨text, written⟩ := written
    rw [insertLists, written, rest]
    exact ⟨_, rfl⟩

/-- Halves as floats, up to those that are written with an exponent, and the empty table. -/
def halves : Given Nat Unit where
  toInteger x := if x % 2 = 0 then some (x / 2) else none
  number2str x := Nat.toDigits 10 (x / 2) ++ if x % 2 = 0 then [] else ['.', '5']
  encode _ := .ok ['{', '}']

/-- `{a = "x", b = 1.5}`. -/
theorem columns_line_up_two :
    let data : Table Nat Unit :=
      ⟨[(.string ['a'], .string ['x']), (.string ['b'], .float 3)], by decide⟩
    LinesUp halves data [['a'], ['b']] [['\'', 'x', '\''], ['1', '.', '5']] ↔
      ∀ entry ∈ data.entries, entry.1.isString = entry.2.isStored :=
  columns_line_up halves ⟨[(.string ['a'], .string ['x']), (.string ['b'], .float 3)], by decide⟩
    [['a'], ['b']] [['\'', 'x', '\''], ['1', '.', '5']] (by rfl)

/-- `{a = true, [1] = "x"}` becomes a valid statement, with `x` for the column `a`. -/
theorem columns_shifted :
    ¬ ∀ (data : Table Nat Unit) (field value : List Text),
      insertLists halves data.entries = .ok (field, value) → LinesUp halves data field value := by
  intro linesUp
  let data : Table Nat Unit := ⟨[(.string ['a'], .other), (.other 1, .string ['x'])], by decide⟩
  obtain ⟨-, inStep⟩ := linesUp data [['a']] [['\'', 'x', '\'']] rfl
  obtain ⟨v, text, member, written, -⟩ := inStep 0 ['a'] rfl
  simp only [data, List.mem_cons, Prod.mk.injEq, reduceCtorEq, false_and, or_false, true_and,
    List.not_mem_nil] at member
  rw [member] at written
  cases written

/-! ## An update and an insertion of one record -/

/-- The columns that an update sets and what it sets them to. An update of which the selector cannot
be built sets none. -/
def updatePairs (given : Given F T) (selector record : Table F T) :
    Except String (List (Text × Text)) := do
  let _ ← selectorPairs given selector.entries
  selectorPairs given record.entries

/-- The columns that an insertion names, each with the value at the same place. -/
def insertPairs (given : Given F T) (record : Table F T) : Except String (List (Text × Text)) := do
  let (field, value) ← insertLists given record.entries
  return field.zip value

/-- An update and an insertion of the record are both built and store the same. -/
def SameData (given : Given F T) (selector record : Table F T) : Prop :=
  ∃ set inserted, updatePairs given selector record = .ok set ∧
    insertPairs given record = .ok inserted ∧ ∀ pair, pair ∈ set ↔ pair ∈ inserted

/-- A record: string keys, and strings, numbers and tables under them. -/
def Table.IsRecord (record : Table F T) : Prop :=
  ∀ entry ∈ record.entries, entry.1.isString = true ∧ entry.2.isStored = true

/-- Strings and integers. -/
def Value.isPlain : Value F T → Bool
  | .string _ | .integer _ => true
  | _ => false

/-- `%d` and `tostring` of an integer have digits and a sign only. -/
theorem integerText_all (n : Int) : (integerText n).all integerChar = true := by
  have digits : ∀ m : Nat, (Nat.toDigits 10 m).all integerChar = true := by
    intro m
    rw [List.all_eq_true]
    intro c member
    have digit : c.isDigit = true := Nat.isDigit_of_mem_toDigits (by decide) (by decide) member
    rw [integerChar, digit, Bool.or_true]
  cases n with
  | ofNat n => exact digits n
  | negSucc n => simpa [integerText, integerChar] using digits (n + 1)

/-- A float is never written like an integer. -/
theorem floatText_ne (x : F) (n : Int) : floatText given x ≠ integerText n := by
  intro same
  have all := integerText_all n
  rw [← same] at all
  simp only [floatText] at all
  split at all
  · have dot : integerChar '.' = true := by
      rw [List.all_eq_true] at all
      exact all '.' (List.mem_append_right _ List.mem_cons_self)
    cases dot
  · rename_i other
    exact other all

theorem selectorValue_eq {v : Value F T} (plain : v.isPlain = true) :
    selectorValue given v = insertValue given v := by
  cases v with
  | string s | integer n => rfl
  | float x | table t | other => cases plain

/-- The two encoders write the same for strings and integers only. -/
theorem isPlain_of_same {v : Value F T} {text : Text}
    (set : selectorValue given v = .ok (some text))
    (inserted : insertValue given v = .ok (some text)) : v.isPlain = true := by
  cases v with
  | string s | integer n => rfl
  | table t | other => cases set
  | float x =>
    simp only [selectorValue, formatInteger] at set
    cases whole : given.toInteger x with
    | none =>
      rw [whole] at set
      cases set
    | some n =>
      rw [whole] at set
      cases inserted
      exact (floatText_ne x n (Option.some.inj (Except.ok.inj set)).symm).elim

theorem exists_mem_cons {k k' : Text} {v' : Value F T} {entries : List (Key × Value F T)}
    {P : Value F T → Prop} :
    (∃ v, (Key.string k, v) ∈ (Key.string k', v') :: entries ∧ P v) ↔
      k = k' ∧ P v' ∨ ∃ v, (Key.string k, v) ∈ entries ∧ P v := by
  constructor
  · intro found
    obtain ⟨v, member, holds⟩ := found
    rcases List.mem_cons.mp member with here | later
    · cases here
      exact .inl ⟨rfl, holds⟩
    · exact .inr ⟨v, later, holds⟩
  · intro found
    rcases found with ⟨rfl, holds⟩ | ⟨v, later, holds⟩
    · exact ⟨v', List.mem_cons_self, holds⟩
    · exact ⟨v, List.mem_cons_of_mem _ later, holds⟩

/-- What an update sets. -/
theorem mem_selectorPairs : ∀ {entries : List (Key × Value F T)} {t : List (Text × Text)},
    selectorPairs given entries = .ok t → ∀ k text, (k, text) ∈ t ↔
      ∃ v, (Key.string k, v) ∈ entries ∧ selectorValue given v = .ok (some text)
  | [], _, ok, k, text => by
    cases ok
    simp
  | (.other id, v) :: entries, t, ok, k, text => by
    rw [selectorPairs] at ok
    rw [mem_selectorPairs ok]
    simp
  | (.string k', v') :: entries, t, ok, k, text => by
    rw [selectorPairs] at ok
    obtain ⟨text', first, later⟩ := bind_eq_ok.mp ok
    obtain ⟨t', rest, both⟩ := bind_eq_ok.mp later
    cases both
    rw [exists_mem_cons, ← mem_selectorPairs rest k text, first]
    cases text' with
    | none => simp
    | some text' => simp [eq_comm]

/-- What an insertion of a record stores. -/
theorem mem_insertPairs : ∀ {entries : List (Key × Value F T)} {field value : List Text},
    (∀ entry ∈ entries, entry.1.isString = true ∧ entry.2.isStored = true) →
    insertLists given entries = .ok (field, value) → ∀ k text, (k, text) ∈ field.zip value ↔
      ∃ v, (Key.string k, v) ∈ entries ∧ insertValue given v = .ok (some text)
  | [], _, _, _, ok, k, text => by
    cases ok
    simp
  | (k', v') :: entries, field, value, isRecord, ok, k, text => by
    obtain ⟨text', field', value', written, rest, rfl, rfl⟩ := insertLists_cons ok
    have later := mem_insertPairs
      (fun entry member => isRecord entry (List.mem_cons_of_mem _ member)) rest k text
    obtain ⟨isString, isStored⟩ := isRecord (k', v') List.mem_cons_self
    rw [← insertValue_stored written] at isStored
    match k', text', isString, isStored with
    | .string k', some text', _, _ =>
      rw [exists_mem_cons, ← later, written]
      simp [Key.field, eq_comm]

/-- A selector can be built when its numbers are integers. -/
theorem selectorPairs_ok_iff : ∀ (entries : List (Key × Value F T)),
    (∃ t, selectorPairs given entries = .ok t) ↔
      ∀ k x, (Key.string k, Value.float x) ∈ entries → given.toInteger x ≠ none
  | [] => by simp [selectorPairs]
  | (.other id, v) :: entries => by
    rw [selectorPairs, selectorPairs_ok_iff entries]
    simp
  | (.string k, v) :: entries => by
    have rest := selectorPairs_ok_iff entries
    have first : (∃ text, selectorValue given v = .ok text) ↔
        ∀ x, v = .float x → given.toInteger x ≠ none := by
      cases v with
      | float x =>
        simp only [selectorValue, formatInteger]
        cases whole : given.toInteger x <;> simp [whole]
      | string s | integer n | table t | other => simp [selectorValue, formatInteger]
    have both : (∃ t, selectorPairs given ((.string k, v) :: entries) = .ok t) ↔
        (∃ text, selectorValue given v = .ok text) ∧ ∃ t, selectorPairs given entries = .ok t := by
      rw [selectorPairs]
      constructor
      · intro built
        obtain ⟨t, ok⟩ := built
        obtain ⟨text, written, later⟩ := bind_eq_ok.mp ok
        obtain ⟨t', pairs, -⟩ := bind_eq_ok.mp later
        exact ⟨⟨text, written⟩, t', pairs⟩
      · intro parts
        obtain ⟨⟨text, written⟩, t, pairs⟩ := parts
        rw [written, pairs]
        exact ⟨_, rfl⟩
    rw [both, first, rest]
    simp only [List.mem_cons, Prod.mk.injEq, Key.string.injEq]
    constructor
    · intro ok k' x member
      rcases member with ⟨-, here⟩ | later
      · exact ok.1 x here.symm
      · exact ok.2 k' x later
    · intro ok
      exact ⟨fun x here => ok k x (.inl ⟨rfl, here.symm⟩), fun k' x later => ok k' x (.inr later)⟩

/-- **An update and an insertion store the same** if and only if all values of the record are
strings and integers, and no number of the selector lacks an integer. -/
theorem same_data (given : Given F T) (selector record : Table F T) (isRecord : record.IsRecord) :
    SameData given selector record ↔
      (∀ entry ∈ record.entries, entry.2.isPlain = true) ∧
      ∀ k x, (Key.string k, Value.float x) ∈ selector.entries → given.toInteger x ≠ none := by
  constructor
  · intro same
    obtain ⟨set, inserted, updated, stored, alike⟩ := same
    rw [updatePairs] at updated
    obtain ⟨t, selected, updated⟩ := bind_eq_ok.mp updated
    rw [insertPairs] at stored
    obtain ⟨⟨field, value⟩, lists, zipped⟩ := bind_eq_ok.mp stored
    cases zipped
    refine ⟨?_, (selectorPairs_ok_iff _).mp ⟨t, selected⟩⟩
    intro entry member
    obtain ⟨k, v⟩ := entry
    obtain ⟨isString, isStored⟩ := isRecord (k, v) member
    obtain ⟨text, written⟩ := insertLists_written lists member
    rw [← insertValue_stored written] at isStored
    match k, text, isString, isStored with
    | .string k, some text, _, _ =>
      -- the update sets the column too, and for the same entry
      have inserted : (k, text) ∈ field.zip value :=
        (mem_insertPairs isRecord lists k text).mpr ⟨v, member, written⟩
      obtain ⟨v', member', selected⟩ :=
        (mem_selectorPairs updated k text).mp ((alike (k, text)).mpr inserted)
      obtain rfl := record.unique member member'
      exact isPlain_of_same selected written
  · intro condition
    obtain ⟨plain, whole⟩ := condition
    obtain ⟨t, selected⟩ := (selectorPairs_ok_iff _).mpr whole
    obtain ⟨set, updated⟩ : ∃ set, selectorPairs given record.entries = .ok set := by
      refine (selectorPairs_ok_iff _).mpr fun k x member => ?_
      cases plain _ member
    obtain ⟨⟨field, value⟩, lists⟩ : ∃ lists, insertLists given record.entries = .ok lists := by
      refine insertLists_ok _ fun k x member => ?_
      cases plain _ member
    refine ⟨set, field.zip value, ?_, ?_, ?_⟩
    · rw [updatePairs, selected]
      exact updated
    · rw [insertPairs, lists]
      rfl
    · intro pair
      obtain ⟨k, text⟩ := pair
      rw [mem_selectorPairs updated, mem_insertPairs isRecord lists]
      refine exists_congr fun v => and_congr_right fun member => ?_
      rw [selectorValue_eq (plain _ member)]

/-- `{a = "x", b = 2}` for the row with `k = 1`. -/
theorem same_data_plain :
    let selector : Table Nat Unit := ⟨[(.string ['k'], .integer 1)], by decide⟩
    let record : Table Nat Unit :=
      ⟨[(.string ['a'], .string ['x']), (.string ['b'], .integer 2)], by decide⟩
    SameData halves selector record ↔
      (∀ entry ∈ record.entries, entry.2.isPlain = true) ∧
      ∀ k x, (Key.string k, Value.float x) ∈ selector.entries → halves.toInteger x ≠ none :=
  same_data halves ⟨[(.string ['k'], .integer 1)], by decide⟩
    ⟨[(.string ['a'], .string ['x']), (.string ['b'], .integer 2)], by decide⟩
    (by simp [Table.IsRecord, Key.isString, Value.isStored])

/-- `{a = {}}` is inserted as the text of an empty object, and an update sets nothing. -/
theorem table_not_updated :
    ¬ ∀ selector record : Table Nat Unit, record.IsRecord → SameData halves selector record := by
  intro same
  let selector : Table Nat Unit := ⟨[(.string ['k'], .integer 1)], by decide⟩
  let record : Table Nat Unit := ⟨[(.string ['a'], .table ())], by decide⟩
  obtain ⟨set, inserted, updated, stored, alike⟩ :=
    same selector record (by simp [Table.IsRecord, record, Key.isString, Value.isStored])
  cases updated
  cases stored
  have set : ((['a'], ['\'', '{', '}', '\'']) : Text × Text) ∈ [] :=
    (alike (['a'], ['\'', '{', '}', '\''])).mpr List.mem_cons_self
  cases set

end RillServer.Mysqldb
