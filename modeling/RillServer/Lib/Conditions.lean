import Mathlib.Data.List.Basic

/-!
# Conditions of SQL

The part of SQL that conditions on the columns of a row are written in: comparisons of a column with
a literal, `NOT`, `AND`, `OR` and brackets. A text is cut into tokens by an automaton (`lex`), and
the tokens are read by the grammar (`Reads`). Which words are names of columns is up to the `Dialect`:
the others are keywords, or numbers in some notation of it. A condition is true, false or unknown of a
row, unknown where it compares with `NULL`.

Texts that are separated by a blank or a comma are cut apart (`lex_blank`, `lex_comma`), and no
condition has a comma in it (`Reads.no_comma`).
-/

namespace Sql

/-- A text, one character for each byte. -/
abbrev Text : Type := List Char

inductive Token where
  | name (column : Text)
  /-- a word that is none of the other tokens -/
  | keyword (w : Text)
  | string (s : Text)
  | number (n : Nat)
  | minus
  | equals
  | comma
  | opening
  | closing
  | and
  | or
  | not
  deriving DecidableEq

/-! ## Tokens -/

/-- What differs from one database to the other, and what does not: digits are characters of words,
and what stands between words is not. -/
structure Dialect where
  /-- the characters of names, keywords and numbers -/
  wordChar : Char → Bool
  /-- whether a word is a column where it is written without quotation marks -/
  isName : Text → Bool
  digit : ∀ c, c.isDigit = true → wordChar c = true
  separator : ∀ c ∈ [' ', '=', ',', '-', '(', ')', '\'', '\\'], wordChar c = false

variable (dialect : Dialect)

/-- A word. -/
def word (w : Text) : Token :=
  if w.all Char.isDigit then .number (Nat.ofDigitChars 10 w 0)
  else
    let lower := w.map Char.toLower
    if lower = "and".toList then .and
    else if lower = "or".toList then .or
    else if lower = "not".toList then .not
    else if dialect.isName w then .name w
    else .keyword w

/-- What a backslash and a character stand for in a string. -/
def unescape : Char → Text
  | '0' => [Char.ofNat 0]
  | 'b' => [Char.ofNat 8]
  | 'n' => ['\n']
  | 'r' => ['\r']
  | 't' => ['\t']
  | 'Z' => [Char.ofNat 26]
  | '%' => ['\\', '%']
  | '_' => ['\\', '_']
  | c => [c]

/-- Where the automaton is, with what it has read of a token. -/
inductive State where
  | between
  | inWord (w : Text)
  | inString (s : Text)
  /-- behind a backslash in a string -/
  | escaped (s : Text)
  /-- behind a quotation mark that ends the string, or is doubled in it -/
  | closed (s : Text)
  deriving DecidableEq

/-- A character between two tokens. -/
def begin (c : Char) : Option (List Token × State) :=
  if c = ' ' then some ([], .between)
  else if c = '=' then some ([.equals], .between)
  else if c = ',' then some ([.comma], .between)
  else if c = '-' then some ([.minus], .between)
  else if c = '(' then some ([.opening], .between)
  else if c = ')' then some ([.closing], .between)
  else if c = '\'' then some ([], .inString [])
  else if dialect.wordChar c then some ([], .inWord [c])
  else none

/-- The tokens that a character completes, and where the automaton is then. -/
def step : State → Char → Option (List Token × State)
  | .between, c => begin dialect c
  | .inWord w, c =>
    if dialect.wordChar c then some ([], .inWord (w ++ [c]))
    else (begin dialect c).map fun (ts, st) => (word dialect w :: ts, st)
  | .inString s, c =>
    if c = '\\' then some ([], .escaped s)
    else if c = '\'' then some ([], .closed s)
    else some ([], .inString (s ++ [c]))
  | .escaped s, c => some ([], .inString (s ++ unescape c))
  | .closed s, c =>
    if c = '\'' then some ([], .inString (s ++ [c]))
    else (begin dialect c).map fun (ts, st) => (.string s :: ts, st)

/-- The token that is complete at the end of a text. -/
def finish : State → Option (List Token)
  | .between => some []
  | .inWord w => some [word dialect w]
  | .closed s => some [.string s]
  | .inString _ | .escaped _ => none

/-- The automaton on a text. -/
def run : State → Text → Option (List Token × State)
  | st, [] => some ([], st)
  | st, c :: text =>
    (step dialect st c).bind fun stepped => (run stepped.2 text).map (Prod.map (stepped.1 ++ ·) id)

/-- The tokens of a text. -/
def lex (text : Text) : Option (List Token) :=
  (run dialect .between text).bind fun ran => (finish dialect ran.2).map (ran.1 ++ ·)

section Lex

variable {dialect} {st st' : State} {c : Char} {text text' : Text} {ts us : List Token}

/-- A text goes on where the one in front of it has led. -/
theorem run_append (text' : Text) : ∀ {text : Text} {st st' : State} {ts : List Token},
    run dialect st text = some (ts, st') →
      run dialect st (text ++ text') = (run dialect st' text').map (Prod.map (ts ++ ·) id)
  | [], st, _, _, ran => by
    cases ran
    rw [List.nil_append]
    cases run dialect st text' <;> rfl
  | c :: text, st, _, _, ran => by
    obtain ⟨stepped, first, rest⟩ := Option.bind_eq_some_iff.mp ran
    obtain ⟨later, ran', both⟩ := Option.map_eq_some_iff.mp rest
    cases both
    rw [List.cons_append, run, first, Option.bind_some, run_append text' ran', Option.map_map]
    refine congrArg₂ Option.map ?_ rfl
    funext ended
    simp [Prod.map]

theorem run_singleton (stepped : step dialect st c = some (ts, st')) :
    run dialect st [c] = some (ts, st') := by
  rw [run, stepped]
  simp [run]

/-- A character between tokens is a token or a blank, or begins a string or a word. -/
theorem begin_cases (begun : begin dialect c = some (ts, st)) :
    (dialect.wordChar c = false ∧ (∀ n, Token.name n ∉ ts) ∧ st = .between) ∨
    (c = '\'' ∧ ts = [] ∧ st = .inString []) ∨
    (dialect.wordChar c = true ∧ ts = [] ∧ st = .inWord [c]) := by
  unfold begin at begun
  iterate 6
    rcases ite_eq_iff.mp begun with ⟨separator, here⟩ | ⟨-, begun⟩
    · cases here
      exact .inl ⟨dialect.separator c (by simp [separator]), by simp, rfl⟩
  rcases ite_eq_iff.mp begun with ⟨quote, here⟩ | ⟨-, begun⟩
  · cases here
    exact .inr (.inl ⟨quote, rfl, rfl⟩)
  rcases ite_eq_iff.mp begun with ⟨isWord, here⟩ | ⟨-, nothing⟩
  · cases here
    exact .inr (.inr ⟨isWord, rfl, rfl⟩)
  · cases nothing

/-- What the characters between tokens lead to belongs to no word. -/
theorem wordChar_of_begin (begun : begin dialect c = some (ts, .between)) :
    dialect.wordChar c = false := by
  rcases begin_cases begun with ⟨notWord, -⟩ | ⟨-, -, inString⟩ | ⟨-, -, inWord⟩
  · exact notWord
  · cases inString
  · cases inWord

/-- A character that belongs to no word and no string ends the token in front of it. -/
theorem step_of_begin (begun : begin dialect c = some (ts, .between))
    (finished : finish dialect st = some us) :
    step dialect st c = some (us ++ ts, .between) := by
  have notWord : dialect.wordChar c = false := wordChar_of_begin begun
  have notQuote : c ≠ '\'' := by
    intro same
    rw [same] at begun
    cases begun
  cases st with
  | between =>
    cases finished
    exact begun
  | inWord w =>
    cases finished
    simp [step, notWord, begun]
  | closed s =>
    cases finished
    simp [step, notQuote, begun]
  | inString s => cases finished
  | escaped s => cases finished

/-- Such a character cuts a text in two. -/
theorem lex_append_begin (text' : Text) (begun : begin dialect c = some (ts, .between))
    (lexed : lex dialect text = some us) :
    lex dialect (text ++ c :: text') = (lex dialect text').map ((us ++ ts) ++ ·) := by
  obtain ⟨⟨vs, st⟩, ran, rest⟩ := Option.bind_eq_some_iff.mp lexed
  obtain ⟨ws, finished, rfl⟩ := Option.map_eq_some_iff.mp rest
  have cut : run dialect .between (text ++ [c]) = some (vs ++ (ws ++ ts), .between) := by
    rw [run_append [c] ran, run_singleton (step_of_begin begun finished)]
    rfl
  have whole : text ++ c :: text' = (text ++ [c]) ++ text' := by simp
  rw [whole, lex, run_append text' cut, lex]
  cases run dialect .between text' with
  | none => rfl
  | some ran' =>
    simp only [Option.map_some, Option.bind_some, Option.map_map, Prod.map]
    refine congrArg₂ Option.map ?_ rfl
    funext last
    simp

theorem lex_blank (lexed : lex dialect text = some us) :
    lex dialect (text ++ ' ' :: text') = (lex dialect text').map (us ++ ·) := by
  have begun : begin dialect ' ' = some ([], .between) := rfl
  rw [lex_append_begin text' begun lexed, List.append_nil]

theorem lex_comma (lexed : lex dialect text = some us) :
    lex dialect (text ++ ',' :: text') = (lex dialect text').map ((us ++ [.comma]) ++ ·) :=
  lex_append_begin text' rfl lexed

theorem begin_word (isWord : dialect.wordChar c = true) :
    begin dialect c = some ([], .inWord [c]) := by
  have other : c ∉ [' ', '=', ',', '-', '(', ')', '\'', '\\'] := by
    intro member
    rw [dialect.separator c member] at isWord
    cases isWord
  simp only [List.mem_cons, List.not_mem_nil, or_false, not_or] at other
  obtain ⟨blank, equals, comma, minus, opening, closing, quote, -⟩ := other
  rw [begin, if_neg blank, if_neg equals, if_neg comma, if_neg minus, if_neg opening,
    if_neg closing, if_neg quote, if_pos isWord]

theorem run_inWord : ∀ {text : Text} (w : Text), text.all dialect.wordChar = true →
    run dialect (.inWord w) text = some ([], .inWord (w ++ text))
  | [], w, _ => by simp [run]
  | c :: text, w, isWord => by
    rw [List.all_cons, Bool.and_eq_true] at isWord
    have stepped : step dialect (.inWord w) c = some ([], .inWord (w ++ [c])) := by
      rw [step, if_pos isWord.1]
    rw [run, stepped, Option.bind_some, run_inWord (w ++ [c]) isWord.2]
    simp

/-- A word by itself. -/
theorem lex_word (nonempty : text ≠ []) (isWord : text.all dialect.wordChar = true) :
    lex dialect text = some [word dialect text] := by
  obtain ⟨c, text, rfl⟩ := List.exists_cons_of_ne_nil nonempty
  rw [List.all_cons, Bool.and_eq_true] at isWord
  have ran : run dialect .between (c :: text) = some ([], .inWord ([c] ++ text)) := by
    rw [run, step, begin_word isWord.1, Option.bind_some, run_inWord [c] isWord.2]
    rfl
  rw [lex, ran]
  rfl

/-- A number by itself. -/
theorem lex_number (n : Nat) : lex dialect (Nat.toDigits 10 n) = some [.number n] := by
  have digits : ∀ c ∈ Nat.toDigits 10 n, c.isDigit = true :=
    fun c member => Nat.isDigit_of_mem_toDigits (by decide) (by decide) member
  have isWord : (Nat.toDigits 10 n).all dialect.wordChar = true := by
    rw [List.all_eq_true]
    intro c member
    exact dialect.digit c (digits c member)
  rw [lex_word Nat.toDigits_ne_nil isWord, word, if_pos (List.all_eq_true.mpr digits),
    Nat.ofDigitChars_ten_toDigits]

/-- A character that belongs to no word and no string, in front of a text. -/
theorem lex_cons (begun : begin dialect c = some (ts, .between))
    (lexed : lex dialect text = some us) :
    lex dialect (c :: text) = some (ts ++ us) := by
  have nothing : lex dialect [] = some [] := rfl
  have first := lex_append_begin text begun nothing
  rw [List.nil_append, List.nil_append, lexed] at first
  exact first

theorem run_plain {s : Text} (notEscape : c ≠ '\\') (notQuote : c ≠ '\'') :
    run dialect (.inString s) [c] = some ([], .inString (s ++ [c])) :=
  run_singleton (by rw [step, if_neg notEscape, if_neg notQuote])

theorem run_escaped (s : Text) (d : Char) :
    run dialect (.inString s) ['\\', d] = some ([], .inString (s ++ unescape d)) := rfl

/-- A string between its quotation marks. -/
theorem lex_string {s : Text} (body : run dialect (.inString []) text = some ([], .inString s)) :
    lex dialect ('\'' :: text ++ ['\'']) = some [.string s] := by
  have opened : run dialect .between ['\''] = some ([], .inString []) := rfl
  have closed : run dialect (.inString s) ['\''] = some ([], .closed s) := rfl
  have whole : run dialect .between ('\'' :: text ++ ['\'']) = some ([], .closed s) := by
    rw [List.cons_append, ← List.singleton_append, run_append _ opened, run_append _ body, closed]
    rfl
  rw [lex, whole]
  rfl

end Lex

/-- A text that is a name where it is written without quotation marks. -/
structure IsName (s : Text) : Prop where
  nonempty : s ≠ []
  chars : s.all dialect.wordChar = true
  name : word dialect s = .name s

theorem IsName.lex {dialect : Dialect} {s : Text} (isName : IsName dialect s) : lex dialect s = some [.name s] := by
  rw [lex_word isName.nonempty isName.chars, isName.name]

section Names

variable {dialect} {st st' : State} {ts : List Token} {c : Char} {n : Text}

/-- A word is a name, and then itself. -/
theorem isName_of_word {w : Text} (nonempty : w ≠ []) (chars : w.all dialect.wordChar = true)
    (name : word dialect w = .name n) : IsName dialect n := by
  have itself : n = w := by
    unfold word at name
    dsimp only at name
    split_ifs at name
    exact (Token.name.inj name).symm
  rw [itself] at name ⊢
  exact ⟨nonempty, chars, name⟩

/-- What is read of a word so far. -/
def State.Ok (dialect : Dialect) : State → Prop
  | .inWord w => w ≠ [] ∧ w.all dialect.wordChar = true
  | _ => True

theorem begin_ok (begun : begin dialect c = some (ts, st)) :
    st.Ok dialect ∧ ∀ n, Token.name n ∉ ts := by
  rcases begin_cases begun with ⟨-, names, rfl⟩ | ⟨-, rfl, rfl⟩ | ⟨isWord, rfl, rfl⟩
  · exact ⟨trivial, names⟩
  · exact ⟨trivial, fun n => List.not_mem_nil⟩
  · exact ⟨by simp [State.Ok, isWord], fun n => List.not_mem_nil⟩

theorem finish_names (ok : st.Ok dialect) (finished : finish dialect st = some ts)
    (member : Token.name n ∈ ts) :
    IsName dialect n := by
  cases st with
  | between =>
    cases finished
    cases member
  | inWord w =>
    cases finished
    exact isName_of_word ok.1 ok.2 (List.mem_singleton.mp member).symm
  | closed s =>
    cases finished
    cases List.mem_singleton.mp member
  | inString s | escaped s => cases finished

/-- A step is from a character between tokens, behind what is complete then, or goes on with a
token. -/
theorem step_names (ok : st.Ok dialect) (stepped : step dialect st c = some (ts, st')) :
    st'.Ok dialect ∧ ∀ n, Token.name n ∈ ts → IsName dialect n := by
  have ends : ∀ us, finish dialect st = some us →
      (begin dialect c).map (Prod.map (us ++ ·) id) = some (ts, st') →
      st'.Ok dialect ∧ ∀ n, Token.name n ∈ ts → IsName dialect n := by
    intro us finished mapped
    obtain ⟨⟨vs, st''⟩, begun, both⟩ := Option.map_eq_some_iff.mp mapped
    cases both
    refine ⟨(begin_ok begun).1, ?_⟩
    intro n member
    rcases List.mem_append.mp member with complete | later
    · exact finish_names ok finished complete
    · exact absurd later ((begin_ok begun).2 n)
  cases st with
  | between =>
    apply ends [] rfl
    rw [step] at stepped
    rw [stepped]
    rfl
  | inWord w =>
    rw [step] at stepped
    split at stepped
    · rename_i isWord
      cases stepped
      simp [State.Ok, ok.2, isWord]
    · exact ends [word dialect w] rfl stepped
  | inString s =>
    rw [step] at stepped
    split_ifs at stepped
    all_goals cases stepped
    all_goals simp [State.Ok]
  | escaped s =>
    cases stepped
    simp [State.Ok]
  | closed s =>
    rw [step] at stepped
    split at stepped
    · cases stepped
      simp [State.Ok]
    · exact ends [.string s] rfl stepped

theorem run_names : ∀ {text : Text} {st st' : State} {ts : List Token}, st.Ok dialect →
    run dialect st text = some (ts, st') → st'.Ok dialect ∧ ∀ n, Token.name n ∈ ts → IsName dialect n
  | [], _, _, _, ok, ran => by
    cases ran
    exact ⟨ok, fun n member => absurd member List.not_mem_nil⟩
  | c :: text, st, _, _, ok, ran => by
    obtain ⟨stepped, first, rest⟩ := Option.bind_eq_some_iff.mp ran
    obtain ⟨later, ran', both⟩ := Option.map_eq_some_iff.mp rest
    cases both
    obtain ⟨ok', names⟩ := step_names ok first
    obtain ⟨ok'', names'⟩ := run_names ok' ran'
    refine ⟨ok'', fun n member => ?_⟩
    rcases List.mem_append.mp member with here | there
    · exact names n here
    · exact names' n there

/-- The name tokens of a text are names. -/
theorem lex_names {text : Text} (lexed : lex dialect text = some ts) (member : Token.name n ∈ ts) :
    IsName dialect n := by
  obtain ⟨⟨us, st⟩, ran, rest⟩ := Option.bind_eq_some_iff.mp lexed
  obtain ⟨vs, finished, rfl⟩ := Option.map_eq_some_iff.mp rest
  have start : State.Ok dialect .between := trivial
  obtain ⟨ok, names⟩ := run_names start ran
  rcases List.mem_append.mp member with complete | last
  · exact names n complete
  · exact finish_names ok finished last

end Names

/-- A column, an equality sign and a text. -/
theorem lex_comparison {dialect : Dialect} {column text : Text} {ts : List Token}
    (isName : IsName dialect column) (lexed : lex dialect text = some ts) :
    lex dialect (column ++ " = ".toList ++ text) = some (.name column :: .equals :: ts) := by
  have blank : begin dialect ' ' = some ([], .between) := rfl
  have equals : begin dialect '=' = some ([.equals], .between) := rfl
  have whole : column ++ " = ".toList ++ text = column ++ ' ' :: '=' :: ' ' :: text := by simp
  rw [whole, lex_blank isName.lex, lex_cons equals (lex_cons blank lexed)]
  rfl

/-! ## Conditions -/

inductive Literal where
  | string (s : Text)
  | number (n : Int)
  deriving DecidableEq

inductive Cond where
  | equal (column : Text) (literal : Literal)
  | not (a : Cond)
  | and (a b : Cond)
  | or (a b : Cond)
  deriving DecidableEq

/-- A row: the values of its columns, without those that are `NULL`. -/
abbrev Row (V : Type) : Type := Text → Option V

/-- How values are compared with literals. Each literal is the same as some value. -/
structure Comparison (V : Type) where
  same : V → Literal → Bool
  attained : ∀ literal, ∃ value, same value literal = true

/-- The truth of a condition. -/
def Cond.eval {V : Type} (cmp : Comparison V) (row : Row V) : Cond → Option Bool
  | .equal column literal => (row column).map fun value => cmp.same value literal
  | .not a => (a.eval cmp row).map (!·)
  | .and a b =>
    match a.eval cmp row, b.eval cmp row with
    | some false, _ => some false
    | _, some false => some false
    | some true, some true => some true
    | _, _ => none
  | .or a b =>
    match a.eval cmp row, b.eval cmp row with
    | some true, _ => some true
    | _, some true => some true
    | some false, some false => some false
    | _, _ => none

/-- The columns that a condition looks at. -/
def Cond.columns : Cond → List Text
  | .equal column _ => [column]
  | .not a => a.columns
  | .and a b | .or a b => a.columns ++ b.columns

inductive ReadsLiteral : List Token → Literal → Prop
  | string (s : Text) : ReadsLiteral [.string s] (.string s)
  | number (n : Nat) : ReadsLiteral [.number n] (.number n)
  | negative (n : Nat) : ReadsLiteral [.minus, .number n] (.number (-n))

/-- The levels of the grammar, by how strongly their operators bind. -/
inductive Level where
  | simple
  | negation
  | conjunction
  | disjunction

/-- What tokens are read as. -/
inductive Reads : Level → List Token → Cond → Prop
  | equal {ts : List Token} {literal : Literal} (column : Text) (read : ReadsLiteral ts literal) :
      Reads .simple (.name column :: .equals :: ts) (.equal column literal)
  | brackets {ts : List Token} {a : Cond} (read : Reads .disjunction ts a) :
      Reads .simple (.opening :: ts ++ [.closing]) a
  | simple {ts : List Token} {a : Cond} (read : Reads .simple ts a) : Reads .negation ts a
  | not {ts : List Token} {a : Cond} (read : Reads .negation ts a) :
      Reads .negation (.not :: ts) (.not a)
  | negation {ts : List Token} {a : Cond} (read : Reads .negation ts a) : Reads .conjunction ts a
  | and {ts us : List Token} {a b : Cond} (left : Reads .conjunction ts a)
      (right : Reads .negation us b) : Reads .conjunction (ts ++ .and :: us) (.and a b)
  | conjunction {ts : List Token} {a : Cond} (read : Reads .conjunction ts a) :
      Reads .disjunction ts a
  | or {ts us : List Token} {a b : Cond} (left : Reads .disjunction ts a)
      (right : Reads .conjunction us b) : Reads .disjunction (ts ++ .or :: us) (.or a b)

/-- The text is a condition. -/
def IsCondition (text : Text) (a : Cond) : Prop :=
  ∃ ts, lex dialect text = some ts ∧ Reads .disjunction ts a

/-- The text is a condition, and one that is true of the rows for which `holds`. -/
def Selects {V : Type} (cmp : Comparison V) (text : Text) (holds : Row V → Prop) : Prop :=
  (∃ a, IsCondition dialect text a) ∧
    ∀ a, IsCondition dialect text a → ∀ row, a.eval cmp row = some true ↔ holds row

section Meaning

variable {dialect} {V : Type} {cmp : Comparison V} {text : Text} {holds holds' : Row V → Prop}

theorem Selects.congr (selects : Selects dialect cmp text holds)
    (alike : ∀ row, holds row ↔ holds' row) :
    Selects dialect cmp text holds' :=
  ⟨selects.1, fun a condition row => (selects.2 a condition row).trans (alike row)⟩

/-- Columns that a condition does not look at do not matter. -/
theorem Cond.eval_congr {row row' : Row V} : ∀ {a : Cond},
    (∀ column ∈ a.columns, row column = row' column) → a.eval cmp row = a.eval cmp row'
  | .equal column literal, agree => by
    rw [eval, eval, agree column List.mem_cons_self]
  | .not a, agree => by
    rw [eval, eval, eval_congr (a := a) agree]
  | .and a b, agree | .or a b, agree => by
    have left : a.eval cmp row = a.eval cmp row' :=
      eval_congr fun column member => agree column (List.mem_append_left _ member)
    have right : b.eval cmp row = b.eval cmp row' :=
      eval_congr fun column member => agree column (List.mem_append_right _ member)
    rw [eval, eval, left, right]

end Meaning

section Grammar

variable {dialect} {ts us : List Token} {a : Cond} {level : Level} {literal : Literal}

theorem ReadsLiteral.no_comma (read : ReadsLiteral ts literal) : Token.comma ∉ ts := by
  cases read <;> simp

/-- There is no comma in a condition. -/
theorem Reads.no_comma (read : Reads level ts a) : Token.comma ∉ ts := by
  induction read with
  | equal column read => simp [read.no_comma]
  | brackets _ ih => simp [ih]
  | simple _ ih | negation _ ih | conjunction _ ih => exact ih
  | not _ ih => simp [ih]
  | and _ _ left right | or _ _ left right => simp [left, right]

theorem Reads.ne_nil (read : Reads level ts a) : ts ≠ [] := by
  induction read with
  | equal column read => simp
  | brackets _ ih => simp
  | simple _ ih | negation _ ih | conjunction _ ih => exact ih
  | not _ ih => simp
  | and _ _ left right | or _ _ left right => simp

theorem ReadsLiteral.unique {literal' : Literal} (read : ReadsLiteral ts literal)
    (read' : ReadsLiteral ts literal') : literal = literal' := by
  cases read <;> cases read' <;> rfl

theorem ReadsLiteral.no_operator (read : ReadsLiteral ts literal) :
    Token.and ∉ ts ∧ Token.or ∉ ts := by
  cases read <;> simp

/-- A comparison is what its tokens are read as, and nothing else. -/
theorem Reads.of_equal {column : Text} (literalRead : ReadsLiteral us literal)
    (read : Reads level ts a) (tokens : ts = .name column :: .equals :: us) :
    a = .equal column literal := by
  obtain ⟨noAnd, noOr⟩ := literalRead.no_operator
  induction read with
  | equal column' read =>
    cases tokens
    rw [read.unique literalRead]
  | brackets _ ih => simp at tokens
  | simple _ ih | negation _ ih | conjunction _ ih => exact ih tokens
  | not _ ih => simp at tokens
  | @and ts' us' _ _ _ _ left right =>
    have member : Token.and ∈ ts' ++ .and :: us' :=
      List.mem_append_right ts' List.mem_cons_self
    rw [tokens] at member
    simp [noAnd] at member
  | @or ts' us' _ _ _ _ left right =>
    have member : Token.or ∈ ts' ++ .or :: us' :=
      List.mem_append_right ts' List.mem_cons_self
    rw [tokens] at member
    simp [noOr] at member

/-- A text that compares a column with a literal selects the rows in which they are the same. -/
theorem selects_equal {V : Type} (cmp : Comparison V) {text column : Text}
    (lexed : lex dialect text = some (.name column :: .equals :: us))
    (literalRead : ReadsLiteral us literal) :
    Selects dialect cmp text fun row =>
      ∃ value, row column = some value ∧ cmp.same value literal = true := by
  refine ⟨⟨.equal column literal, _, lexed,
    .conjunction (.negation (.simple (.equal column literalRead)))⟩, ?_⟩
  intro a condition row
  obtain ⟨ts, lexed', read⟩ := condition
  rw [lexed] at lexed'
  obtain rfl := Reads.of_equal literalRead read (Option.some.inj lexed').symm
  simp [Cond.eval]

theorem Reads.columns (read : Reads level ts a) : ∀ column ∈ a.columns, Token.name column ∈ ts := by
  induction read with
  | equal column read =>
    intro column' member
    rw [List.mem_singleton.mp member]
    exact List.mem_cons_self
  | brackets _ ih =>
    intro column member
    exact List.mem_cons_of_mem _ (List.mem_append_left _ (ih column member))
  | simple _ ih | negation _ ih | conjunction _ ih => exact ih
  | not _ ih =>
    intro column member
    exact List.mem_cons_of_mem _ (ih column member)
  | and _ _ left right | or _ _ left right =>
    intro column member
    rcases List.mem_append.mp member with inLeft | inRight
    · exact List.mem_append_left _ (left column inLeft)
    · exact List.mem_append_right _ (List.mem_cons_of_mem _ (right column inRight))

/-- A column on which it depends what a text selects is a name. -/
theorem Selects.isName {V : Type} {cmp : Comparison V} {text column : Text} {holds : Row V → Prop}
    (selects : Selects dialect cmp text holds) {row row' : Row V}
    (agree : ∀ other, other ≠ column → row other = row' other) (yes : holds row)
    (no : ¬ holds row') : IsName dialect column := by
  obtain ⟨⟨a, condition⟩, means⟩ := selects
  have looks : column ∈ a.columns := by
    by_contra elsewhere
    have same : a.eval cmp row = a.eval cmp row' := by
      refine Cond.eval_congr fun other member => agree other ?_
      intro here
      rw [here] at member
      exact elsewhere member
    have true' := (means a condition row).mpr yes
    rw [same] at true'
    exact no ((means a condition row').mp true')
  obtain ⟨ts, lexed, read⟩ := condition
  exact lex_names lexed (read.columns column looks)

/-- Two texts with a comma between them are no condition. -/
theorem not_isCondition_comma {text text' : Text} (lexed : lex dialect text = some ts) :
    ¬ IsCondition dialect (text ++ ',' :: text') a := by
  intro condition
  obtain ⟨whole, lexed', read⟩ := condition
  rw [lex_comma lexed] at lexed'
  obtain ⟨rest, -, rfl⟩ := Option.map_eq_some_iff.mp lexed'
  apply read.no_comma
  simp

/-- The empty text is no condition. -/
theorem not_isCondition_nil : ¬ IsCondition dialect [] a := by
  intro condition
  obtain ⟨ts, lexed, read⟩ := condition
  cases lexed
  exact read.ne_nil rfl

end Grammar

end Sql
