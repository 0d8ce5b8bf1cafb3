import RillServer.Lib.Conditions
import RillServer.Store.Statements

/-!
# Selectors as conditions

What the text of `build_selector` means behind `where`, where `findOne`, `find`, `update` and
`delete` of `lualib/mysqldb.lua` put it. Strings are read back as they were before they were quoted
(`lex_quoteSqlStr`), and integers as they were. The entries are separated by commas, as a `set` list
wants them, so that the text is a condition for a selector of one entry only, whose key has to be a
word that the database takes for a column (`selector_selects`).
-/

namespace RillServer.Mysqldb

variable {F T V : Type} {given : Given F T} {dialect : Sql.Dialect}

/-- The literal that a string or an integer is in SQL. -/
def Value.literal : Value F T → Option Sql.Literal
  | .string s => some (.string s)
  | .integer n => some (.number n)
  | _ => none

/-- A selector: string keys, with strings and integers. -/
structure Selector (F T : Type) extends Table F T where
  strings : ∀ entry ∈ entries, ∃ k, entry.1 = .string k
  plain : ∀ entry ∈ entries, entry.2.isPlain = true

/-- Every listed column equals its value. -/
def Matches (cmp : Sql.Comparison V) (selector : Selector F T) (row : Sql.Row V) : Prop :=
  ∀ k v, (Key.string k, v) ∈ selector.entries → ∀ literal, v.literal = some literal →
    ∃ value, row k = some value ∧ cmp.same value literal = true

/-- The text stands in the statement behind `where` and in front of `tail`. -/
def StandsBehindWhere (text tail : Text) (sql : Except String Text) : Prop :=
  ∃ head : Text, sql = .ok (head ++ " where ".toList ++ text ++ tail)

/-- The text of the selector is a condition that selects the rows it matches. -/
def MeansConjunction (given : Given F T) (dialect : Sql.Dialect) (cmp : Sql.Comparison V)
    (selector : Selector F T) : Prop :=
  ∃ text, buildSelector given selector.toTable = .ok text ∧
    Sql.Selects dialect cmp text (Matches cmp selector)

/-! ### Literals -/

/-- What is written behind a backslash is read as the character that it stands for. -/
theorem unescape_of_lookup {c d : Char} (found : escapeMap.lookup c = some d) :
    Sql.unescape d = [c] := by
  have all : ∀ pair ∈ escapeMap, Sql.unescape pair.2 = [pair.1] := by decide
  obtain ⟨front, back, split, -⟩ := List.lookup_eq_some_iff.mp found
  have member : (c, d) ∈ escapeMap := by
    rw [split]
    exact List.mem_append_right front List.mem_cons_self
  exact all (c, d) member

theorem run_escape (s : Text) (c : Char) :
    Sql.run dialect (.inString s) (escape c) = some ([], .inString (s ++ [c])) := by
  unfold escape
  cases found : escapeMap.lookup c with
  | some d =>
    rw [← unescape_of_lookup found]
    exact Sql.run_escaped s d
  | none =>
    refine Sql.run_plain ?_ ?_
    · intro same
      rw [same] at found
      cases found
    · intro same
      rw [same] at found
      cases found

theorem run_escapes : ∀ (str s : Text),
    Sql.run dialect (.inString s) (str.flatMap escape) = some ([], .inString (s ++ str))
  | [], s => by simp [Sql.run]
  | c :: str, s => by
    rw [List.flatMap_cons, Sql.run_append _ (run_escape s c), run_escapes str]
    simp [Prod.map]

/-- A quoted string is read as the string. -/
theorem lex_quoteSqlStr (str : Text) : Sql.lex dialect (quoteSqlStr str) = some [.string str] :=
  Sql.lex_string (run_escapes str [])

/-- What is written for a string or an integer is read as it. -/
theorem lex_selectorValue {v : Value F T} (plain : v.isPlain = true) :
    ∃ text ts literal, selectorValue given v = .ok (some text) ∧ Sql.lex dialect text = some ts ∧
      v.literal = some literal ∧ Sql.ReadsLiteral ts literal := by
  cases v with
  | string s => exact ⟨_, _, _, rfl, lex_quoteSqlStr s, rfl, .string s⟩
  | integer n =>
    cases n with
    | ofNat n => exact ⟨_, _, _, rfl, Sql.lex_number n, rfl, .number n⟩
    | negSucc n =>
      exact ⟨_, _, _, rfl, Sql.lex_cons rfl (Sql.lex_number (n + 1)), rfl, .negative (n + 1)⟩
  | float x | table t | other => cases plain

/-! ### Selectors -/

/-- The first entry of a selector, with what is written and read for it. -/
theorem selectorPairs_first {k : Key} {v : Value F T} {entries : List (Key × Value F T)}
    (name : ∃ k', k = .string k' ∧ Sql.IsName dialect k') (plain : v.isPlain = true)
    {t : List (Text × Text)} (rest : selectorPairs given entries = .ok t) :
    ∃ k' text ts literal, k = .string k' ∧
      selectorPairs given ((k, v) :: entries) = .ok ((k', text) :: t) ∧
      Sql.lex dialect (assignment (k', text)) = some (.name k' :: .equals :: ts) ∧
      v.literal = some literal ∧ Sql.ReadsLiteral ts literal := by
  obtain ⟨k', rfl, isName⟩ := name
  obtain ⟨text, ts, literal, written, lexed, value, read⟩ := lex_selectorValue plain
  refine ⟨k', text, ts, literal, rfl, ?_, Sql.lex_comparison isName lexed, value, read⟩
  rw [selectorPairs, written, rest]
  rfl

/-- A text of strings and integers can be built. -/
theorem selectorPairs_plain (given : Given F T) {entries : List (Key × Value F T)}
    (plain : ∀ entry ∈ entries, entry.2.isPlain = true) :
    ∃ t, selectorPairs given entries = .ok t := by
  refine (selectorPairs_ok_iff entries).mpr fun k x member => ?_
  cases plain _ member

theorem Value.exists_literal {v : Value F T} (plain : v.isPlain = true) :
    ∃ literal, v.literal = some literal := by
  cases v with
  | string s | integer n => exact ⟨_, rfl⟩
  | float x | table t | other => cases plain

/-- Each selector matches a row. -/
theorem exists_matches (cmp : Sql.Comparison V) (selector : Selector F T) :
    ∃ row : Sql.Row V, Matches cmp selector row := by
  have each : ∀ k : Text, ∃ value? : Option V, ∀ v, (Key.string k, v) ∈ selector.entries →
      ∀ literal, v.literal = some literal →
        ∃ value, value? = some value ∧ cmp.same value literal = true := by
    intro k
    by_cases listed : ∃ v, (Key.string k, v) ∈ selector.entries
    · obtain ⟨v, member⟩ := listed
      obtain ⟨literal, read⟩ := Value.exists_literal (selector.plain _ member)
      obtain ⟨value, same⟩ := cmp.attained literal
      refine ⟨some value, fun v' member' literal' read' => ⟨value, rfl, ?_⟩⟩
      rw [selector.unique member' member, read] at read'
      cases read'
      exact same
    · exact ⟨none, fun v member => (listed ⟨v, member⟩).elim⟩
  choose row listed using each
  exact ⟨row, listed⟩

/-- If the text selects the rows that the selector matches, each listed column is a name: what is
not is never looked at. -/
theorem MeansConjunction.isName {cmp : Sql.Comparison V} {selector : Selector F T}
    (means : MeansConjunction given dialect cmp selector) {k : Text} {v : Value F T}
    (member : (Key.string k, v) ∈ selector.entries) : Sql.IsName dialect k := by
  obtain ⟨text, -, selects⟩ := means
  obtain ⟨row, matched⟩ := exists_matches cmp selector
  have agree : ∀ other, other ≠ k → row other = Function.update row k none other := by
    intro other elsewhere
    rw [Function.update_of_ne elsewhere]
  have unmatched : ¬ Matches cmp selector (Function.update row k none) := by
    intro matched'
    obtain ⟨literal, read⟩ := Value.exists_literal (selector.plain _ member)
    obtain ⟨value, null, -⟩ := matched' k v member literal read
    rw [Function.update_self] at null
    cases null
  exact selects.isName agree matched unmatched

theorem meansConjunction_iff {cmp : Sql.Comparison V} {selector : Selector F T} :
    MeansConjunction given dialect cmp selector ↔
      ∃ k v, selector.entries = [(.string k, v)] ∧ Sql.IsName dialect k := by
  constructor
  · intro means
    have names : ∀ entry ∈ selector.entries, ∃ k, entry.1 = .string k ∧ Sql.IsName dialect k := by
      intro entry member
      obtain ⟨k, v⟩ := entry
      obtain ⟨k, rfl⟩ := selector.strings _ member
      exact ⟨k, rfl, means.isName member⟩
    have plain := selector.plain
    obtain ⟨text, built, ⟨a, condition⟩, -⟩ := means
    rw [buildSelector] at built
    match found : selector.entries with
    | [] =>
      rw [found] at built
      cases built
      exact (Sql.not_isCondition_nil condition).elim
    | [(k, v)] =>
      rw [found] at names
      obtain ⟨k, rfl, isName⟩ := names _ List.mem_cons_self
      exact ⟨k, v, rfl, isName⟩
    | (k, v) :: entry :: entries =>
      rw [found] at built names plain
      obtain ⟨t, rest⟩ := selectorPairs_plain given
        fun e member => plain e (List.mem_cons_of_mem _ (List.mem_cons_of_mem _ member))
      obtain ⟨k₂, text₂, _, _, _, second, -⟩ := selectorPairs_first
        (names entry (by simp)) (plain entry (by simp)) rest
      obtain ⟨k₁, text₁, _, _, _, first, lexed, -⟩ := selectorPairs_first
        (names (k, v) (by simp)) (plain (k, v) (by simp)) second
      have comma : text = assignment (k₁, text₁) ++
          ',' :: [','].intercalate (assignment (k₂, text₂) :: t.map assignment) := by
        rw [first] at built
        cases built
        simp [List.intercalate]
      rw [comma] at condition
      exact (Sql.not_isCondition_comma lexed condition).elim
  · intro one
    obtain ⟨k, v, found, isName⟩ := one
    have member : (Key.string k, v) ∈ selector.entries := by
      rw [found]
      exact List.mem_cons_self
    have nothing : selectorPairs given ([] : List (Key × Value F T)) = .ok [] := rfl
    obtain ⟨k', text, ts, literal, same, pairs, lexed, value, read⟩ :=
      selectorPairs_first ⟨k, rfl, isName⟩ (selector.plain _ member) nothing
    cases same
    refine ⟨assignment (k, text), ?_, ?_⟩
    · rw [buildSelector, found, pairs]
      simp [bind, Except.bind, pure, Except.pure, List.intercalate]
    · refine (Sql.selects_equal cmp lexed read).congr fun row => ?_
      constructor
      · intro equal k' v' listed literal' value'
        rw [found] at listed
        cases List.mem_singleton.mp listed
        rw [value] at value'
        cases value'
        exact equal
      · intro matched
        exact matched k v member literal value

/-- **A selector means the conjunction of its entries** if and only if it has exactly one, and its
key is a name: the text for none is empty, and the one for several has commas between them. The text
is what the statements have behind `where`. -/
theorem selector_selects (given : Given F T) (dialect : Sql.Dialect) (cmp : Sql.Comparison V)
    (selector : Selector F T) :
    (MeansConjunction given dialect cmp selector ↔
      ∃ k v, selector.entries = [(.string k, v)] ∧ Sql.IsName dialect k) ∧
    ∀ text, buildSelector given selector.toTable = .ok text → ∀ cname fieldSelector,
      StandsBehindWhere text " limit 1".toList
          (findOneSql given cname selector.toTable fieldSelector) ∧
      StandsBehindWhere text [] (findSql given cname selector.toTable fieldSelector) ∧
      StandsBehindWhere text [] (deleteSql given cname selector.toTable) ∧
      ∀ record set, buildSelector given record = .ok set →
        StandsBehindWhere text [] (updateSql given cname selector.toTable record) := by
  refine ⟨meansConjunction_iff, fun text built cname fieldSelector => ⟨?_, ?_, ?_, ?_⟩⟩
  · refine ⟨"select ".toList ++ buildFieldSelector fieldSelector ++ " from ".toList ++ cname, ?_⟩
    rw [findOneSql, built]
    rfl
  · refine ⟨"select ".toList ++ buildFieldSelector fieldSelector ++ " from ".toList ++ cname, ?_⟩
    rw [findSql, built, List.append_nil]
    rfl
  · refine ⟨"delete from ".toList ++ cname, ?_⟩
    rw [deleteSql, built, List.append_nil]
    rfl
  · intro record set builtSet
    refine ⟨"update ".toList ++ cname ++ " set ".toList ++ set, ?_⟩
    rw [updateSql, built, builtSet, List.append_nil]
    rfl

/-- Values that are literals. -/
def literals : Sql.Comparison Sql.Literal where
  same value literal := decide (value = literal)
  attained literal := ⟨literal, by simp⟩

/-- Names are letters, digits, `_`, `$` and the bytes from 128 on, begin with none of the digits and
are none of some words. -/
def someDialect : Sql.Dialect where
  wordChar c := c.isAlphanum || c == '_' || c == '$' || decide (128 ≤ c.toNat)
  isName w := (w.head?.any fun c => !c.isDigit) &&
    ["order", "key", "true", "false", "null", "limit"].all fun k =>
      k != String.ofList (w.map Char.toLower)
  digit c digit := by simp [Char.isAlphanum, digit]
  separator c member := by
    simp only [List.mem_cons, List.not_mem_nil, or_false] at member
    rcases member with rfl | rfl | rfl | rfl | rfl | rfl | rfl | rfl <;> rfl

/-- `{account = "a"}` -/
def accountSelector : Selector Nat Unit where
  entries := [(.string "account".toList, .string ['a'])]
  distinct := by decide
  strings entry member := ⟨"account".toList, by rw [List.mem_singleton.mp member]⟩
  plain entry member := by rw [List.mem_singleton.mp member]; rfl

theorem account_selected : MeansConjunction halves someDialect literals accountSelector :=
  (selector_selects halves someDialect literals accountSelector).1.mpr
    ⟨_, _, rfl, by decide, by decide, by decide⟩

example : Sql.word someDialect "order".toList = .keyword "order".toList := by decide

/-- `{a = 1, b = 2}`: the text is `a = 1,b = 2`, which is no condition. -/
theorem two_columns_not_selected :
    ¬ ∀ selector : Selector Nat Unit, MeansConjunction halves someDialect literals selector := by
  intro means
  let selector : Selector Nat Unit :=
    { entries := [(.string ['a'], .integer 1), (.string ['b'], .integer 2)]
      distinct := by decide
      strings := by
        intro entry member
        rcases List.mem_cons.mp member with rfl | later
        · exact ⟨['a'], rfl⟩
        · cases List.mem_singleton.mp later
          exact ⟨['b'], rfl⟩
      plain := by
        intro entry member
        rcases List.mem_cons.mp member with rfl | later
        · rfl
        · cases List.mem_singleton.mp later
          rfl }
  obtain ⟨text, built, ⟨a, condition⟩, -⟩ := means selector
  have written : buildSelector halves selector.toTable =
      .ok (['a', ' ', '=', ' ', '1'] ++ ',' :: ['b', ' ', '=', ' ', '2']) := rfl
  rw [written] at built
  cases built
  have lexed : Sql.lex someDialect ['a', ' ', '=', ' ', '1'] =
      some [.name ['a'], .equals, .number 1] := by decide
  exact Sql.not_isCondition_comma lexed condition

end RillServer.Mysqldb
