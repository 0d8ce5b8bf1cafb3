import RillServer.Lib.Patterns
import RillServer.Protopack.Crc32
import Mathlib.Data.List.TakeWhile
import Mathlib.Logic.Function.Basic

/-!
# Codes of messages

`analysis_file` of `lualib/protopack_pb.lua`, which reads the names of the messages from a proto
file and gives each its CRC-32 as its code. It goes over the lines and matches each with the pattern
`^%s*message%s*([%w%.]+).*$`, and with the same one for `package`. Lua strings are lists of
characters, one for each byte, and classes of characters are those of the C locale.

A proto file is no list of lines: between two words there may be any white space and comments, and
several declarations on a line. What is registered is what the lines open with
(`captured_eq_some`), and an underscore is none of `[%w%.]`, so that a name is read up to its first
one only. The messages of a file are registered under their names if and only if each of them is
found at the beginning of a line and nothing else is (`registers_iff`).
-/

namespace RillServer.Protopack

open Pattern

/-- A Lua string. -/
abbrev Text : Type := List Char

/-- The bytes of a Lua string. -/
def bytes (s : Text) : Bytes := s.map fun c => UInt8.ofNat c.toNat

/-- `%s`. -/
def isSpace (c : Char) : Bool := c == ' ' || decide (9 ≤ c.toNat ∧ c.toNat ≤ 13)

/-- `[%w%.]`. -/
def isNameChar (c : Char) : Bool := c.isAlphanum || c == '.'

/-- `%s*keyword%s*([%w%.]+).*$`. -/
def declaration (keyword : Text) : List (Item Char) :=
  .star isSpace :: (literal keyword ++
    [.star isSpace, .opening, .plus isNameChar, .closing, .star fun _ => true, .atEnd])

/-- `%1`, with the captures of a match. -/
def firstCapture (caps : List (Capture Char)) : Text :=
  match caps.getLast? with
  | some (.captured text) => text
  | _ => []

/-- `string.gsub(line, pattern, "%1")` for a pattern with an anchor. -/
def gsub (line : Text) (pattern : List (Item Char)) : Text × Nat :=
  match matchHere pattern [] line with
  | some (caps, rest) => (firstCapture caps ++ rest, 1)
  | none => (line, 0)

/-- `name2code` and `code2name`. -/
structure Tables where
  name2code : Text → Option Nat
  code2name : Nat → Option Text

/-- The tables when the module is loaded. -/
def noTables : Tables := ⟨fun _ => none, fun _ => none⟩

/-- `name2code[name] = code; code2name[code] = name`. -/
def Tables.register (tables : Tables) (name : Text) (code : Nat) : Tables where
  name2code := Function.update tables.name2code name (some code)
  code2name := Function.update tables.code2name code (some name)

/-- `package.."."..s`. -/
def fullName (package s : Text) : Text := package ++ ['.'] ++ s

/-- The loop of `analysis_file` over the lines, with `package`. -/
def analysisLines : Text → Tables → List Text → Tables
  | _, tables, [] => tables
  | package, tables, line :: lines =>
    let (s, c) := gsub line (declaration "package".toList)
    let package := if c > 0 then s else package
    let (s, c) := gsub line (declaration "message".toList)
    let tables :=
      if c > 0 then
        let name := fullName package s
        tables.register name (CRC32.hash (bytes name))
      else tables
    analysisLines package tables lines

/-- `analysis_file`, with the lines of the file. -/
def analysisFile (tables : Tables) (lines : List Text) : Tables := analysisLines [] tables lines

/-! ## Proto files -/

/-- A character of an identifier. -/
def isIdentChar (c : Char) : Bool := c.isAlphanum || c == '_'

/-- White space and comments. -/
inductive Blank : Text → Prop
  | nil : Blank []
  | space {c : Char} {s : Text} : isSpace c = true → Blank s → Blank (c :: s)
  | line {text s : Text} : '\n' ∉ text → Blank s → Blank ("//".toList ++ text ++ '\n' :: s)
  | block {text s : Text} : ¬ "*/".toList <:+: text → Blank s →
    Blank ("/*".toList ++ text ++ "*/".toList ++ s)

/-- An identifier, and what stands between it and the word in front of it. -/
structure Ident where
  gap : Text
  name : Text
  gap_blank : Blank gap
  name_legal : ∀ c ∈ name, isIdentChar c = true
  name_nonempty : name ≠ []

def Ident.text (i : Ident) : Text := i.gap ++ i.name

/-- A dot and an identifier. -/
structure Dotted where
  gap : Text
  ident : Ident
  gap_blank : Blank gap

def Dotted.text (d : Dotted) : Text := d.gap ++ '.' :: d.ident.text

/-- `package name;`, with a name that may have dots. -/
structure PackageDeclaration where
  first : Ident
  more : List Dotted
  behind : Text
  apart : first.gap ≠ []
  behind_blank : Blank behind

def PackageDeclaration.name (p : PackageDeclaration) : Text :=
  p.first.name ++ p.more.flatMap fun d => '.' :: d.ident.name

def PackageDeclaration.text (p : PackageDeclaration) : Text :=
  "package".toList ++ p.first.text ++ p.more.flatMap Dotted.text ++ p.behind ++ [';']

/-- `message Name {`. -/
structure MessageDeclaration where
  ident : Ident
  behind : Text
  apart : ident.gap ≠ []
  behind_blank : Blank behind

def MessageDeclaration.text (m : MessageDeclaration) : Text :=
  "message".toList ++ m.ident.text ++ m.behind ++ ['{']

/-- A part of a proto file: the beginning of a message, or any other text, such as what stands in
the braces of a message and the white space and comments behind it. -/
inductive Part where
  | message (m : MessageDeclaration)
  | other (text : Text)

def Part.text : Part → Text
  | .message m => m.text
  | .other text => text

/-- A proto file. -/
structure ProtoFile where
  before : List Part
  package : PackageDeclaration
  behind : List Part

def ProtoFile.text (file : ProtoFile) : Text :=
  file.before.flatMap Part.text ++ file.package.text ++ file.behind.flatMap Part.text

/-- `file:lines()`. -/
def linesOf : Text → List Text
  | [] => []
  | c :: text =>
    if c = '\n' then [] :: linesOf text
    else
      match linesOf text with
      | [] => [[c]]
      | line :: lines => (c :: line) :: lines

def ProtoFile.lines (file : ProtoFile) : List Text := linesOf file.text

def ProtoFile.messages (file : ProtoFile) : List MessageDeclaration :=
  (file.before ++ file.behind).filterMap fun
    | .message m => some m
    | .other _ => none

/-- The full names of the messages. -/
def ProtoFile.names (file : ProtoFile) : List Text :=
  file.messages.map fun m => fullName file.package.name m.ident.name

/-- The messages are registered under their full names, with their codes, and nothing else is; and
if the codes are distinct, `code2name` is the inverse. -/
def Registers (file : ProtoFile) (tables : Tables) : Prop :=
  (∀ name code, tables.name2code name = some code ↔
    name ∈ file.names ∧ code = CRC32.hash (bytes name)) ∧
  ((∀ a ∈ file.names, ∀ b ∈ file.names,
      CRC32.hash (bytes a) = CRC32.hash (bytes b) → a = b) →
    ∀ name code, tables.code2name code = some name ↔ tables.name2code name = some code)

/-- A line begins with a keyword and a name of letters, digits and dots, with no more than white
space in front of them and between them. -/
def Opens (keyword name line : Text) : Prop :=
  ∃ indent gap rest, line = indent ++ keyword ++ gap ++ name ++ rest ∧
    (∀ c ∈ indent, isSpace c = true) ∧ (∀ c ∈ gap, isSpace c = true) ∧
    (∀ c ∈ name, isNameChar c = true) ∧ name ≠ [] ∧ ∀ c ∈ rest.head?, isNameChar c = false

/-- The last of the lines that begin with a package begins with this one; if there is none, it is
the empty one. -/
def InForce (lines : List Text) (package : Text) : Prop :=
  (∃ before line behind, lines = before ++ line :: behind ∧ Opens "package".toList package line ∧
    ∀ line' ∈ behind, ∀ name, ¬ Opens "package".toList name line') ∨
  (package = [] ∧ ∀ line ∈ lines, ∀ name, ¬ Opens "package".toList name line)

/-- One of the lines begins with a message of this name, with the package in force. -/
def Begins (lines : List Text) (package name : Text) : Prop :=
  ∃ before line behind, lines = before ++ line :: behind ∧ InForce (before ++ [line]) package ∧
    Opens "message".toList name line

/-- Each message has a line that begins with it. -/
def Found (file : ProtoFile) : Prop :=
  ∀ m ∈ file.messages, ∃ package name, Begins file.lines package name ∧
    fullName package name = fullName file.package.name m.ident.name

/-- A line that begins with a message begins with one of the file. -/
def Quiet (file : ProtoFile) : Prop :=
  ∀ package name, Begins file.lines package name → fullName package name ∈ file.names

/-- What a line is read as. -/
def captured (keyword line : Text) : Option Text :=
  let (s, c) := gsub line (declaration keyword)
  if c > 0 then some s else none

def readPackage (line : Text) : Option Text := captured "package".toList line

def readMessage (line : Text) : Option Text := captured "message".toList line

/-! ## Reading a line -/

theorem not_isAlphanum_of_isSpace {c : Char} (space : isSpace c = true) :
    c.isAlphanum = false ∧ c ≠ '.' := by
  have number : c.toNat = 32 ∨ 9 ≤ c.toNat ∧ c.toNat ≤ 13 := by
    rw [isSpace, Bool.or_eq_true, beq_iff_eq, decide_eq_true_eq] at space
    rcases space with rfl | control
    · exact .inl rfl
    · exact .inr control
  have few : ∀ n : Fin 33, n.val = 32 ∨ 9 ≤ n.val ∧ n.val ≤ 13 →
      (Char.ofNat n).isAlphanum = false ∧ Char.ofNat n ≠ '.' := by decide
  have low : c.toNat < 33 := by omega
  have found := few ⟨c.toNat, low⟩ number
  rw [Char.ofNat_toNat] at found
  exact found

theorem not_isNameChar_of_isSpace {c : Char} (space : isSpace c = true) :
    isNameChar c = false := by
  obtain ⟨notAlphanum, notDot⟩ := not_isAlphanum_of_isSpace space
  rw [isNameChar, notAlphanum, beq_eq_false_iff_ne.mpr notDot]
  rfl

/-- What stands behind the keyword of a line. -/
def afterKeyword (keyword line : Text) : Option Text :=
  ((line.dropWhile isSpace).dropPrefix? keyword).map (·.dropWhile isSpace)

/-- The name at the beginning of a text, if there is one. -/
def nameOf (s : Text) : Option Text :=
  if s.takeWhile isNameChar = [] then none else some (s.takeWhile isNameChar)

/-- Behind the keyword the name is taken, and all the rest. -/
theorem matchHere_name (s : Text) :
    matchHere [.opening, .plus isNameChar, .closing, .star fun _ => true, .atEnd] [] s =
      (nameOf s).map fun name => ([.captured name], []) := by
  cases s with
  | nil => rfl
  | cons c s =>
    cases inside : isNameChar c with
    | false =>
      have none' : nameOf (c :: s) = none := by simp [nameOf, inside]
      rw [none', matchHere_capture_plus_none]
      · rfl
      · intro d head
        cases head
        exact inside
    | true =>
      have some' : nameOf (c :: s) = some ((c :: s).takeWhile isNameChar) := by
        simp [nameOf, inside]
      have ends : ∀ t : Text, t.dropWhile (fun _ => true) = [] := by
        intro t
        exact List.dropWhile_eq_nil_iff.mpr fun _ _ => rfl
      have rest : ∀ caps (t : Text),
          matchHere [.star fun _ => true, .atEnd] caps t = some (caps, []) := by
        intro caps t
        rw [matchHere, expand_eq_of_isSome]
        · rw [ends]
          rfl
        · rw [ends]
          rfl
      rw [some', matchHere_capture_plus ⟨c, s, rfl, inside⟩, rest]
      · rfl
      · rw [rest]
        rfl

theorem matchHere_declaration {k : Char} {ks : Text} (keyword : isSpace k = false) (line : Text) :
    matchHere (declaration (k :: ks)) [] line =
      ((afterKeyword (k :: ks) line).bind nameOf).map fun name => ([.captured name], []) := by
  have gap : ∀ s : Text, matchHere [.star isSpace, .opening, .plus isNameChar, .closing,
      .star fun _ => true, .atEnd] [] s =
        (nameOf (s.dropWhile isSpace)).map fun name => ([.captured name], []) := by
    intro s
    rw [matchHere, expand_eq_of_fails, matchHere_name]
    intro c t space
    apply matchHere_capture_plus_none
    intro d head
    cases head
    exact not_isNameChar_of_isSpace space
  rw [declaration, matchHere, expand_eq_of_fails, matchHere_literal, afterKeyword]
  · cases (line.dropWhile isSpace).dropPrefix? (k :: ks) with
    | none => rfl
    | some s => exact gap s
  · intro c t space
    have other : (c == k) = false := by
      rw [beq_eq_false_iff_ne]
      intro same
      rw [same, keyword] at space
      cases space
    rw [matchHere_literal, List.dropPrefix?, other]
    rfl

theorem captured_eq {k : Char} {ks : Text} (keyword : isSpace k = false) (line : Text) :
    captured (k :: ks) line = (afterKeyword (k :: ks) line).bind nameOf := by
  rw [captured, gsub, matchHere_declaration keyword]
  cases (afterKeyword (k :: ks) line).bind nameOf with
  | none => rfl
  | some name => simp [firstCapture]

theorem dropPrefix?_append (text rest : Text) : (text ++ rest).dropPrefix? text = some rest :=
  List.dropPrefix?_eq_some_iff.mpr ⟨text, rfl, beq_self_eq_true text⟩

/-- What is read from a line is the name that it begins with. -/
theorem captured_eq_some {k : Char} {ks : Text} (keyword : isSpace k = false) {name line : Text} :
    captured (k :: ks) line = some name ↔ Opens (k :: ks) name line := by
  rw [captured_eq keyword, afterKeyword]
  constructor
  · intro read
    obtain ⟨s, found, named⟩ := Option.bind_eq_some_iff.mp read
    obtain ⟨t, dropped, rfl⟩ := Option.map_eq_some_iff.mp found
    obtain ⟨pre, split, same⟩ := List.dropPrefix?_eq_some_iff.mp dropped
    obtain rfl := eq_of_beq same
    rw [nameOf] at named
    split at named
    · cases named
    · rename_i nonempty
      cases named
      refine ⟨line.takeWhile isSpace, t.takeWhile isSpace,
        (t.dropWhile isSpace).dropWhile isNameChar, ?_, ?_, ?_, ?_, nonempty, ?_⟩
      · calc line
            = line.takeWhile isSpace ++ ((k :: ks) ++ t) := by
              rw [← split, List.takeWhile_append_dropWhile]
          _ = line.takeWhile isSpace ++ ((k :: ks) ++ (t.takeWhile isSpace ++
                ((t.dropWhile isSpace).takeWhile isNameChar ++
                  (t.dropWhile isSpace).dropWhile isNameChar))) := by
              rw [List.takeWhile_append_dropWhile, List.takeWhile_append_dropWhile]
          _ = _ := by simp only [List.append_assoc]
      · exact fun c member => List.mem_takeWhile_imp member
      · exact fun c member => List.mem_takeWhile_imp member
      · exact fun c member => List.mem_takeWhile_imp member
      · intro c head
        have stops := List.head?_dropWhile_not isNameChar (t.dropWhile isSpace)
        rw [head] at stops
        simpa using stops
  · intro opens
    obtain ⟨indent, gap, rest, rfl, indent_space, gap_space, legal, nonempty, ends⟩ := opens
    have whole : indent ++ (k :: ks) ++ gap ++ name ++ rest =
        indent ++ ((k :: ks) ++ (gap ++ name ++ rest)) := by simp
    have first : (indent ++ (k :: ks) ++ gap ++ name ++ rest).dropWhile isSpace =
        (k :: ks) ++ (gap ++ name ++ rest) := by
      rw [whole, List.dropWhile_append_of_pos indent_space, List.cons_append,
        List.dropWhile_cons_of_neg (by simp [keyword])]
    have second : (gap ++ name ++ rest).dropWhile isSpace = name ++ rest := by
      obtain ⟨c, name', split⟩ := List.exists_cons_of_ne_nil nonempty
      have begins : isSpace c = false := by
        rw [Bool.eq_false_iff]
        intro space
        have legal' := legal c (by rw [split]; exact List.mem_cons_self)
        rw [not_isNameChar_of_isSpace space] at legal'
        cases legal'
      rw [List.append_assoc, List.dropWhile_append_of_pos gap_space, split, List.cons_append,
        List.dropWhile_cons_of_neg (by simp [begins])]
    have third : (name ++ rest).takeWhile isNameChar = name := by
      have stop : rest.takeWhile isNameChar = [] := by
        cases split : rest with
        | nil => rfl
        | cons c rest' =>
          have outside : isNameChar c = false := ends c (by rw [split]; rfl)
          rw [List.takeWhile_cons_of_neg (by simp [outside])]
      rw [List.takeWhile_append_of_pos legal, stop, List.append_nil]
    rw [first, dropPrefix?_append, Option.map_some, second, Option.bind_some, nameOf, third,
      if_neg nonempty]

theorem readPackage_eq_some {name line : Text} :
    readPackage line = some name ↔ Opens "package".toList name line := captured_eq_some rfl

theorem readMessage_eq_some {name line : Text} :
    readMessage line = some name ↔ Opens "message".toList name line := captured_eq_some rfl

theorem readPackage_eq_none {line : Text} :
    readPackage line = none ↔ ∀ name, ¬ Opens "package".toList name line := by
  rw [Option.eq_none_iff_forall_ne_some]
  exact forall_congr' fun name => not_congr readPackage_eq_some

/-! ## Reading a file -/

/-- The names that are registered for lines, with `package`. -/
def namesFrom : Text → List Text → List Text
  | _, [] => []
  | package, line :: lines =>
    let package := (readPackage line).getD package
    ((readMessage line).map (fullName package)).toList ++ namesFrom package lines

/-- The tables have these names, each with its code. -/
structure Holds (tables : Tables) (names : List Text) : Prop where
  name2code : ∀ name code, tables.name2code name = some code ↔
    name ∈ names ∧ code = CRC32.hash (bytes name)
  code2name : ∀ code name, tables.code2name code = some name →
    name ∈ names ∧ code = CRC32.hash (bytes name)
  known : ∀ name ∈ names, ∃ name', tables.code2name (CRC32.hash (bytes name)) = some name'

theorem Holds.none : Holds noTables [] where
  name2code name code := by simp [noTables]
  code2name code name found := by cases found
  known name member := by cases member

theorem Holds.register {tables : Tables} {names : List Text} (holds : Holds tables names)
    (name : Text) : Holds (tables.register name (CRC32.hash (bytes name))) (names ++ [name]) where
  name2code other code := by
    simp only [Tables.register, List.mem_append, List.mem_singleton]
    by_cases same : other = name
    · subst same
      rw [Function.update_self]
      simp [eq_comm]
    · rw [Function.update_of_ne same, holds.name2code]
      simp [same]
  code2name code other found := by
    simp only [Tables.register, Function.update_apply] at found
    split at found
    · rename_i same
      cases found
      exact ⟨List.mem_append_right _ List.mem_cons_self, same⟩
    · obtain ⟨member, code'⟩ := holds.code2name code other found
      exact ⟨List.mem_append_left _ member, code'⟩
  known other member := by
    simp only [Tables.register, Function.update_apply]
    split
    · exact ⟨name, rfl⟩
    · rename_i code
      rcases List.mem_append.mp member with earlier | here
      · exact holds.known other earlier
      · rw [List.mem_singleton.mp here] at code
        exact (code rfl).elim

theorem analysisLines_cons (package : Text) (tables : Tables) (line : Text) (lines : List Text) :
    analysisLines package tables (line :: lines) =
      let package := (readPackage line).getD package
      match readMessage line with
      | some s =>
        let name := fullName package s
        analysisLines package (tables.register name (CRC32.hash (bytes name))) lines
      | none => analysisLines package tables lines := by
  have package' : (if (gsub line (declaration "package".toList)).2 > 0 then
      (gsub line (declaration "package".toList)).1 else package) =
        (readPackage line).getD package := by
    simp only [readPackage, captured]
    split <;> rfl
  rw [analysisLines]
  simp only [package']
  by_cases read : (gsub line (declaration "message".toList)).2 > 0
  · have message : readMessage line =
        some (gsub line (declaration "message".toList)).1 := if_pos read
    rw [message, if_pos read]
  · have message : readMessage line = none := if_neg read
    rw [message, if_neg read]

theorem analysisLines_holds : ∀ {lines : List Text} {package : Text} {tables : Tables}
    {names : List Text}, Holds tables names →
      Holds (analysisLines package tables lines) (names ++ namesFrom package lines)
  | [], _, _, _, holds => by
    rw [namesFrom, List.append_nil]
    exact holds
  | line :: lines, package, tables, names, holds => by
    rw [analysisLines_cons, namesFrom]
    cases readMessage line with
    | none => exact analysisLines_holds holds
    | some s =>
      have registered := holds.register (fullName ((readPackage line).getD package) s)
      have more : Holds _ (_ ++ namesFrom ((readPackage line).getD package) lines) :=
        analysisLines_holds registered
      rw [List.append_assoc] at more
      exact more

/-- The tables of a file are right if its names are those that are registered. -/
theorem registers_iff_names (file : ProtoFile) :
    Registers file (analysisFile noTables file.lines) ↔
      ∀ name, name ∈ namesFrom [] file.lines ↔ name ∈ file.names := by
  have holds : Holds (analysisFile noTables file.lines) (namesFrom [] file.lines) :=
    analysisLines_holds .none
  constructor
  · intro registers name
    have read := holds.name2code name (CRC32.hash (bytes name))
    rw [registers.1 name] at read
    simpa using read.symm
  · intro same
    refine ⟨fun name code => ?_, fun distinct name code => ?_⟩
    · rw [holds.name2code, same]
    · rw [holds.name2code]
      constructor
      · exact holds.code2name code name
      · intro registered
        obtain ⟨member, rfl⟩ := registered
        obtain ⟨other, found⟩ := holds.known name member
        obtain ⟨member', code⟩ := holds.code2name _ other found
        rw [found, distinct name ((same name).mp member) other ((same other).mp member') code]

/-! ## What is registered -/

/-- What is read consists of characters that may be read. -/
theorem isNameChar_of_captured {k : Char} {ks line s : Text} (keyword : isSpace k = false)
    (read : captured (k :: ks) line = some s) : ∀ c ∈ s, isNameChar c = true := by
  rw [captured_eq keyword] at read
  obtain ⟨text, -, named⟩ := Option.bind_eq_some_iff.mp read
  rw [nameOf] at named
  split at named
  · cases named
  · cases named
    intro c member
    exact List.mem_takeWhile_imp member

theorem isNameChar_of_mem_fullName {package s : Text}
    (package_legal : ∀ c ∈ package, isNameChar c = true) (legal : ∀ c ∈ s, isNameChar c = true) :
    ∀ c ∈ fullName package s, isNameChar c = true := by
  intro c member
  rw [fullName, List.mem_append, List.mem_append, List.mem_singleton] at member
  rcases member with (inPackage | rfl) | inName
  · exact package_legal c inPackage
  · rfl
  · exact legal c inName

/-- What is registered consists of such characters. -/
theorem isNameChar_of_namesFrom : ∀ {lines : List Text} {package : Text},
    (∀ c ∈ package, isNameChar c = true) →
      ∀ name ∈ namesFrom package lines, ∀ c ∈ name, isNameChar c = true
  | line :: lines, package, legal, name, member => by
    have legal' : ∀ c ∈ (readPackage line).getD package, isNameChar c = true := by
      cases read : readPackage line with
      | none => exact legal
      | some s => exact isNameChar_of_captured rfl read
    rw [namesFrom] at member
    rcases List.mem_append.mp member with here | later
    · obtain ⟨s, read, rfl⟩ := Option.map_eq_some_iff.mp (Option.mem_toList.mp here)
      exact isNameChar_of_mem_fullName legal' (isNameChar_of_captured rfl read)
    · exact isNameChar_of_namesFrom legal' name later

/-- `package`, behind some lines. -/
def packageAfter (package : Text) (lines : List Text) : Text :=
  lines.foldl (fun package line => (readPackage line).getD package) package

theorem packageAfter_eq {lines : List Text} {package : Text} :
    packageAfter [] lines = package ↔ InForce lines package := by
  induction lines using List.reverseRecOn generalizing package with
  | nil => simp [packageAfter, InForce, eq_comm]
  | append_singleton lines line ih =>
    have last : packageAfter [] (lines ++ [line]) =
        (readPackage line).getD (packageAfter [] lines) := by
      rw [packageAfter, List.foldl_append]
      rfl
    rw [last]
    cases read : readPackage line with
    | some name =>
      have opens := readPackage_eq_some.mp read
      rw [Option.getD_some]
      constructor
      · rintro rfl
        exact .inl ⟨lines, line, [], rfl, opens, fun _ inNil => by cases inNil⟩
      · intro inForce
        rcases inForce with ⟨before, line', behind, split, opens', closed⟩ | ⟨-, closed⟩
        · rcases List.eq_nil_or_concat behind with rfl | ⟨behind, lastLine, rfl⟩
          · obtain ⟨-, same⟩ := List.append_inj' split rfl
            cases same
            have read' := readPackage_eq_some.mpr opens'
            rw [read] at read'
            exact Option.some.inj read'
          · rw [List.concat_eq_append, ← List.cons_append, ← List.append_assoc] at split
            obtain ⟨-, same⟩ := List.append_inj' split rfl
            cases same
            exact (closed line (by simp) name opens).elim
        · exact (closed line (by simp) name opens).elim
    | none =>
      have closed := readPackage_eq_none.mp read
      rw [Option.getD_none, ih]
      constructor
      · intro inForce
        rcases inForce with ⟨before, line', behind, rfl, opens, closed'⟩ | ⟨rfl, closed'⟩
        · refine .inl ⟨before, line', behind ++ [line], by simp, opens, ?_⟩
          rw [List.forall_mem_append]
          exact ⟨closed', List.forall_mem_singleton.mpr closed⟩
        · refine .inr ⟨rfl, ?_⟩
          rw [List.forall_mem_append]
          exact ⟨closed', List.forall_mem_singleton.mpr closed⟩
      · intro inForce
        rcases inForce with ⟨before, line', behind, split, opens, closed'⟩ | ⟨rfl, closed'⟩
        · rcases List.eq_nil_or_concat behind with rfl | ⟨behind, lastLine, rfl⟩
          · obtain ⟨-, same⟩ := List.append_inj' split rfl
            cases same
            exact (closed _ opens).elim
          · rw [List.concat_eq_append, ← List.cons_append, ← List.append_assoc] at split
            obtain ⟨front, -⟩ := List.append_inj' split rfl
            exact .inl ⟨before, line', behind, front, opens,
              fun line'' member => closed' line'' (by simp [member])⟩
        · exact .inr ⟨rfl, fun line' member => closed' line' (List.mem_append_left _ member)⟩

/-- A name is registered for a line that begins with its message. -/
theorem mem_namesFrom {full : Text} : ∀ {lines : List Text} {package : Text},
    full ∈ namesFrom package lines ↔ ∃ before line behind name, lines = before ++ line :: behind ∧
      readMessage line = some name ∧ full = fullName (packageAfter package (before ++ [line])) name
  | [], package => by simp [namesFrom]
  | line :: lines, package => by
    rw [namesFrom, List.mem_append, mem_namesFrom, Option.mem_toList, Option.map_eq_some_iff]
    constructor
    · intro registered
      rcases registered with ⟨name, read, rfl⟩ | ⟨before, line', behind, name, rfl, read, rfl⟩
      · exact ⟨[], line, lines, name, rfl, read, rfl⟩
      · exact ⟨line :: before, line', behind, name, rfl, read, rfl⟩
    · intro registered
      obtain ⟨before, line', behind, name, split, read, rfl⟩ := registered
      cases before with
      | nil =>
        cases split
        exact .inl ⟨name, read, rfl⟩
      | cons first before =>
        cases split
        exact .inr ⟨before, line', behind, name, rfl, read, rfl⟩

theorem mem_namesFrom_nil {full : Text} {lines : List Text} : full ∈ namesFrom [] lines ↔
    ∃ package name, Begins lines package name ∧ full = fullName package name := by
  rw [mem_namesFrom]
  constructor
  · intro registered
    obtain ⟨before, line, behind, name, split, read, rfl⟩ := registered
    exact ⟨packageAfter [] (before ++ [line]), name,
      ⟨before, line, behind, split, packageAfter_eq.mp rfl, readMessage_eq_some.mp read⟩, rfl⟩
  · intro declared
    obtain ⟨package, name, ⟨before, line, behind, split, inForce, opens⟩, rfl⟩ := declared
    refine ⟨before, line, behind, name, split, readMessage_eq_some.mpr opens, ?_⟩
    rw [packageAfter_eq.mpr inForce]

-- the second message of a line is not read
example : namesFrom [] (linesOf "package p;\nmessage A {} message B {}\n".toList) =
    ["p.A".toList] := by decide

theorem Registers.found {file : ProtoFile}
    (registers : Registers file (analysisFile noTables file.lines)) : Found file := by
  intro m member
  have registered :=
    ((registers_iff_names file).mp registers _).mpr (List.mem_map.mpr ⟨m, member, rfl⟩)
  obtain ⟨package, name, begins, full⟩ := mem_namesFrom_nil.mp registered
  exact ⟨package, name, begins, full.symm⟩

/-- **The messages of a file are registered** if and only if each of them is found at the beginning
of a line, and nothing else is. -/
theorem registers_iff (file : ProtoFile) :
    Registers file (analysisFile noTables file.lines) ↔ Found file ∧ Quiet file := by
  constructor
  · intro registers
    refine ⟨registers.found, fun package name begins => ?_⟩
    exact ((registers_iff_names file).mp registers _).mp
      (mem_namesFrom_nil.mpr ⟨package, name, begins, rfl⟩)
  · intro condition
    obtain ⟨found, quiet⟩ := condition
    rw [registers_iff_names]
    intro full
    rw [mem_namesFrom_nil]
    constructor
    · intro registered
      obtain ⟨package, name, begins, rfl⟩ := registered
      exact quiet package name begins
    · intro member
      obtain ⟨m, inFile, rfl⟩ := List.mem_map.mp member
      obtain ⟨package, name, begins, full⟩ := found m inFile
      exact ⟨package, name, begins, full.symm⟩

/-- No name with an underscore is found. -/
theorem Found.no_underscore {file : ProtoFile} (found : Found file) {m : MessageDeclaration}
    (member : m ∈ file.messages) : '_' ∉ file.package.name ∧ '_' ∉ m.ident.name := by
  obtain ⟨package, name, begins, full⟩ := found m member
  have legal := isNameChar_of_namesFrom (fun _ inNil => by cases inNil) _
    (mem_namesFrom_nil.mpr ⟨package, name, begins, full.symm⟩)
  constructor
  · intro underscore
    cases legal '_' (by simp [fullName, underscore])
  · intro underscore
    cases legal '_' (by simp [fullName, underscore])

theorem blank_space : Blank [' '] := .space rfl .nil

/-- `package p;`, and a line below it a message `user_info`. -/
def userInfoProto : ProtoFile where
  before := []
  package :=
    { first := ⟨[' '], ['p'], blank_space, List.all_eq_true.mp rfl, List.cons_ne_nil _ _⟩
      more := []
      behind := []
      apart := List.cons_ne_nil _ _
      behind_blank := .nil }
  behind :=
    [.other ['\n'],
      .message
        { ident := ⟨[' '], "user_info".toList, blank_space, List.all_eq_true.mp rfl, by decide⟩
          behind := [' ']
          apart := List.cons_ne_nil _ _
          behind_blank := blank_space },
      .other ['}']]

/-- The message is registered as `p.user`. -/
theorem underscore_not_registered :
    ¬ ∀ file : ProtoFile, Registers file (analysisFile noTables file.lines) := by
  intro registers
  have found : Found userInfoProto := (registers userInfoProto).found
  exact (found.no_underscore List.mem_cons_self).2 (by decide)

end RillServer.Protopack
