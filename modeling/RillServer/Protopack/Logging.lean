import RillServer.Lib.Trees
import RillServer.Protopack.ProtoFiles
import RillServer.Store.Statements

/-!
# Log lines

`lualib/log.lua`, whose functions put their first argument through `string.format`, and `dump` of
`lualib/tool.lua`. A line that was made before and is logged by itself is a format then: a percent
sign in it has to be doubled, or else `string.format` looks for an argument (`Formats`).

The dump of a value is a format if and only if each string in it is (`formats_dump`).
-/

namespace RillServer.Protopack

/-- `string.format(format)`, without further arguments. -/
def format : Text → Except String Text
  | [] => .ok []
  | '%' :: '%' :: s => (format s).map ('%' :: ·)
  | '%' :: _ => .error "bad argument #2 to 'format' (no value)"
  | c :: s => (format s).map (c :: ·)

/-- The text can stand by itself as a format. -/
def Formats (s : Text) : Prop := ∃ text, format s = .ok text

/-! ## The logger -/

/-- `logger._level` and `logger._name`. -/
structure Logger where
  level : Nat
  name : Option Text

/-- `logmsg`: the text for `skynet.error`, from what `string.format` makes. -/
def Logger.logmsg (logger : Logger) (formatted : Except String Text) : Except String Text :=
  let n := match logger.name with
    | some name => "[".toList ++ name ++ ":] ".toList
    | none => []
  formatted.map (n ++ ·)

/-- `logger.info` with what `string.format` makes of its arguments: the text, if one is logged. -/
def Logger.info (logger : Logger) (formatted : Except String Text) :
    Except String (Option Text) :=
  if logger.level ≤ 2 then (logger.logmsg formatted).map some else .ok none

/-- `logger.error`. -/
def Logger.error (logger : Logger) (formatted : Except String Text) :
    Except String (Option Text) :=
  if logger.level ≤ 4 then (logger.logmsg formatted).map some else .ok none

/-! ## `tool.dump` -/

/-- A key of a table. -/
inductive Key where
  | string (s : Text)
  | integer (n : Int)
  | boolean (b : Bool)
  deriving DecidableEq

/-- A value that is no table: `F` are the floats. -/
inductive Scalar (F : Type) where
  | string (s : Text)
  | integer (n : Int)
  | float (x : F)
  | boolean (b : Bool)

/-- `lua_Number2str`, which writes digits, signs, dots and letters. -/
structure FloatText (F : Type) where
  text : F → Text
  plain : ∀ x, '%' ∉ text x

/-- `tostring` of a boolean. -/
def booleanText (b : Bool) : Text := if b then "true".toList else "false".toList

/-- `getIndent`. -/
def getIndent (level : Nat) : Text := List.replicate level '\t'

/-- A character in a quoted string. -/
def escapeQuote (c : Char) : Text := if c = '"' then ['\\', '"'] else [c]

/-- `quoteStr`. -/
def quoteStr (str : Text) : Text := '"' :: str.flatMap escapeQuote ++ ['"']

/-- `wrapKey`. -/
def wrapKey : Key → Text
  | .integer n => '[' :: Mysqldb.integerText n ++ [']']
  | .string s => '[' :: quoteStr s ++ [']']
  | .boolean b => '[' :: booleanText b ++ [']']

section Dump

variable {F : Type} (floats : FloatText F)

/-- `wrapVal` of a value that is no table. -/
def wrapScalar : Scalar F → Text
  | .string s => quoteStr s
  | .integer n => Mysqldb.integerText n
  | .float x => floats.text x
  | .boolean b => booleanText b

mutual

/-- `wrapVal`, with `dumpObj` of tables. -/
def wrapVal : TableTree Key (Scalar F) → Nat → Text
  | .leaf s, _ => wrapScalar floats s
  | .table entries, level =>
    let level := level + 1
    ['\n'].intercalate
      (['{'] :: dumpEntries entries level ++ [getIndent (level - 1) ++ ['}']])

/-- The loop of `dumpObj`. -/
def dumpEntries : TableEntries Key (Scalar F) → Nat → List Text
  | .nil, _ => []
  | .cons k v rest, level =>
    (getIndent level ++ wrapKey k ++ " = ".toList ++ wrapVal v level ++ [',']) ::
      dumpEntries rest level

end

/-- `tool.dump`. -/
def dump (obj : TableTree Key (Scalar F)) : Text := wrapVal floats obj 0

end Dump

/-! ## Texts that are formats -/

theorem formats_cons {c : Char} (other : c ≠ '%') (s : Text) : Formats (c :: s) ↔ Formats s := by
  have step : format (c :: s) = (format s).map (c :: ·) := by
    rw [format]
    · exact fun _ same => (other same).elim
    · exact other
  rw [Formats, Formats, step]
  cases format s <;> simp [Except.map]

theorem not_formats_percent : ¬ Formats ['%'] := by
  intro formats
  obtain ⟨text, ok⟩ := formats
  cases ok

/-- A percent sign is followed by another one. -/
theorem formats_percent (c : Char) (s : Text) :
    Formats ('%' :: c :: s) ↔ c = '%' ∧ Formats s := by
  by_cases double : c = '%'
  · subst double
    rw [Formats, format]
    cases ok : format s <;> simp [Except.map, Formats, ok]
  · have fails : format ('%' :: c :: s) =
        .error "bad argument #2 to 'format' (no value)" := by
      rw [format]
      exact fun _ same => double (List.cons.inj same).1
    rw [Formats, fails]
    simp [double]

theorem formats_nil : Formats [] := ⟨[], rfl⟩

/-- A character that is no percent sign separates two formats. -/
theorem formats_append {c : Char} (other : c ≠ '%') (t : Text) :
    ∀ s : Text, Formats (s ++ c :: t) ↔ Formats s ∧ Formats t
  | [] => by
    rw [List.nil_append, formats_cons other]
    exact (and_iff_right formats_nil).symm
  | [d] => by
    by_cases percent : d = '%'
    · subst percent
      rw [List.cons_append, List.nil_append, formats_percent]
      simp [other, not_formats_percent]
    · rw [List.cons_append, formats_cons percent, formats_cons percent, formats_append other t []]
  | d :: e :: s => by
    by_cases percent : d = '%'
    · subst percent
      rw [List.cons_append, List.cons_append, formats_percent, formats_percent,
        formats_append other t s, and_assoc]
    · rw [List.cons_append, formats_cons percent, formats_cons percent,
        formats_append other t (e :: s)]

theorem formats_plain_append : ∀ {s : Text}, '%' ∉ s → ∀ t, Formats (s ++ t) ↔ Formats t
  | [], _, t => Iff.rfl
  | c :: s, plain, t => by
    obtain ⟨other, plain'⟩ := not_or.mp (mt List.mem_cons.mpr plain)
    rw [List.cons_append, formats_cons (Ne.symm other), formats_plain_append plain' t]

theorem formats_of_plain {s : Text} (plain : '%' ∉ s) : Formats s := by
  rw [← List.append_nil s, formats_plain_append plain]
  exact formats_nil

theorem formats_intercalate : ∀ lines : List Text,
    Formats (['\n'].intercalate lines) ↔ ∀ line ∈ lines, Formats line
  | [] => by simp [List.intercalate, formats_nil]
  | [line] => by simp [List.intercalate]
  | line :: line' :: lines => by
    have joined : ['\n'].intercalate (line :: line' :: lines) =
        line ++ '\n' :: ['\n'].intercalate (line' :: lines) := by
      simp [List.intercalate]
    rw [joined, formats_append (by decide), formats_intercalate (line' :: lines)]
    simp only [List.forall_mem_cons]

/-- A line is logged without an error if it is a format, or if the level is too high for it. -/
theorem logs_format {logger : Logger} {level : Nat} {s : Text} :
    (∃ line, (if logger.level ≤ level then (logger.logmsg (format s)).map some
      else .ok none) = Except.ok line) ↔ level < logger.level ∨ Formats s := by
  rw [Formats]
  split
  · rename_i logged
    cases format s <;> simp [Logger.logmsg, Except.map, Nat.not_lt.mpr logged]
  · rename_i silent
    simp [Nat.lt_of_not_le silent]

theorem info_format {logger : Logger} {s : Text} :
    (∃ line, logger.info (format s) = .ok line) ↔ 2 < logger.level ∨ Formats s := logs_format

theorem error_format {logger : Logger} {s : Text} :
    (∃ line, logger.error (format s) = .ok line) ↔ 4 < logger.level ∨ Formats s := logs_format

/-! ## Dumps that are formats -/

/-- A character that is no percent sign stays one. -/
theorem formats_escapeQuote {c : Char} (other : c ≠ '%') (t : Text) :
    Formats (escapeQuote c ++ t) ↔ Formats t := by
  refine formats_plain_append ?_ t
  rw [escapeQuote]
  split
  · decide
  · exact fun member => other (List.mem_singleton.mp member).symm

/-- Escaping the quotation marks changes no percent sign. -/
theorem formats_escaped : ∀ s : Text, Formats (s.flatMap escapeQuote) ↔ Formats s
  | [] => Iff.rfl
  | [c] => by
    by_cases percent : c = '%'
    · subst percent
      rfl
    · rw [List.flatMap_cons, formats_escapeQuote percent, formats_cons percent]
      rfl
  | c :: d :: s => by
    by_cases percent : c = '%'
    · subst percent
      have first : ('%' :: d :: s).flatMap escapeQuote =
          '%' :: (escapeQuote d ++ s.flatMap escapeQuote) := rfl
      rw [first, formats_percent]
      by_cases quote : d = '"'
      · subst quote
        have fails : escapeQuote '"' ++ s.flatMap escapeQuote =
            '\\' :: '"' :: s.flatMap escapeQuote := rfl
        rw [fails, formats_percent]
        simp
      · have same : escapeQuote d ++ s.flatMap escapeQuote = d :: s.flatMap escapeQuote := by
          rw [escapeQuote, if_neg quote]
          rfl
        rw [same, formats_percent, formats_escaped s]
    · rw [List.flatMap_cons, formats_escapeQuote percent, formats_cons percent,
        formats_escaped (d :: s)]

/-- A quoted string is a format if the string is. -/
theorem formats_quoteStr (s : Text) : Formats (quoteStr s) ↔ Formats s := by
  rw [quoteStr, List.cons_append, formats_cons (by decide), formats_append (by decide),
    formats_escaped]
  exact and_iff_left formats_nil

/-- A string among the keys is a format. -/
def Key.Formats : Key → Prop
  | .string s => Protopack.Formats s
  | .integer _ | .boolean _ => True

/-- A string among the values is a format. -/
def Scalar.Formats {F : Type} : Scalar F → Prop
  | .string s => Protopack.Formats s
  | .integer _ | .float _ | .boolean _ => True

theorem percent_not_mem_integerText (n : Int) : '%' ∉ Mysqldb.integerText n := by
  intro member
  have all := Mysqldb.integerText_all n
  rw [List.all_eq_true] at all
  cases all '%' member

theorem percent_not_mem_booleanText (b : Bool) : '%' ∉ booleanText b := by
  cases b <;> decide

theorem formats_wrapKey (k : Key) : Formats (wrapKey k) ↔ k.Formats := by
  have closed : ∀ s : Text, Formats ('[' :: s ++ [']']) ↔ Formats s := by
    intro s
    rw [List.cons_append, formats_cons (by decide), formats_append (by decide)]
    exact and_iff_left formats_nil
  cases k with
  | string s => rw [wrapKey, closed, formats_quoteStr, Key.Formats]
  | integer n =>
    rw [wrapKey, closed, Key.Formats]
    exact iff_true_intro (formats_of_plain (percent_not_mem_integerText n))
  | boolean b =>
    rw [wrapKey, closed, Key.Formats]
    exact iff_true_intro (formats_of_plain (percent_not_mem_booleanText b))

section Dump

variable {F : Type} (floats : FloatText F)

theorem formats_wrapScalar (s : Scalar F) : Formats (wrapScalar floats s) ↔ s.Formats := by
  cases s with
  | string s => exact formats_quoteStr s
  | integer n => exact iff_true_intro (formats_of_plain (percent_not_mem_integerText n))
  | float x => exact iff_true_intro (formats_of_plain (floats.plain x))
  | boolean b => exact iff_true_intro (formats_of_plain (percent_not_mem_booleanText b))

theorem percent_not_mem_getIndent (level : Nat) : '%' ∉ getIndent level := by
  intro member
  cases List.eq_of_mem_replicate member

mutual

theorem formats_wrapVal : ∀ (t : TableTree Key (Scalar F)) (level : Nat),
    Formats (wrapVal floats t level) ↔ t.Forall Key.Formats Scalar.Formats
  | .leaf s, level => by
    rw [wrapVal, TableTree.Forall, formats_wrapScalar]
  | .table entries, level => by
    have opening : Formats ['{'] := formats_of_plain (by decide)
    have closing : Formats (getIndent level ++ ['}']) := by
      rw [formats_plain_append (percent_not_mem_getIndent level)]
      exact formats_of_plain (by decide)
    rw [wrapVal, TableTree.Forall, formats_intercalate, ← formats_dumpEntries entries (level + 1)]
    simp [opening, closing, or_imp, forall_and]

theorem formats_dumpEntries : ∀ (entries : TableEntries Key (Scalar F)) (level : Nat),
    (∀ line ∈ dumpEntries floats entries level, Formats line) ↔
      entries.Forall Key.Formats Scalar.Formats
  | .nil, level => by simp [dumpEntries, TableEntries.Forall]
  | .cons k v rest, level => by
    have line : getIndent level ++ wrapKey k ++ " = ".toList ++ wrapVal floats v level ++ [','] =
        getIndent level ++ (wrapKey k ++ ' ' :: ('=' :: ' ' ::
          (wrapVal floats v level ++ ',' :: []))) := by
      simp
    rw [dumpEntries, TableEntries.Forall, List.forall_mem_cons, line,
      formats_plain_append (percent_not_mem_getIndent level), formats_append (by decide),
      formats_wrapKey, formats_cons (by decide), formats_cons (by decide),
      formats_append (by decide), formats_wrapVal v level, formats_dumpEntries rest level,
      and_iff_left formats_nil, and_assoc]

end

/-- **A dump is a format** if and only if each string in the value is. -/
theorem formats_dump (obj : TableTree Key (Scalar F)) :
    Formats (dump floats obj) ↔ obj.Forall Key.Formats Scalar.Formats :=
  formats_wrapVal floats obj 0

end Dump

end RillServer.Protopack
