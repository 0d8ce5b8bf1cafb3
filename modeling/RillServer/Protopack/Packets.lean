import RillServer.Lib.Bytes
import RillServer.Protopack.Logging
import Mathlib.Data.Nat.Cast.Basic

/-!
# Packets

`M.pack` and `M.unpack` of `lualib/protopack_pb.lua`: the length as an `i2`, the check as an `i4`,
the code of the message as an `I4` and the message as protobuf encodes it. The first option is a
signed one, so that `string.pack` refuses lengths from `2 ^ 15` on, although the gate reads unsigned
ones.

`pack` logs a line that it has made by `string.format` already, so that the line is used as a format
once more. A packet is read back if and only if its length fits and that line is a format, or is not
logged (`roundTrips_iff`).
-/

namespace RillServer.Protopack

/-! ## `string.pack` and `string.unpack`, in network byte order -/

/-- The option `i` of `string.pack`, for the argument with this number. -/
def packInt (arg size : Nat) (n : Int) : Except String Bytes :=
  let lim : Int := 2 ^ (8 * size - 1)
  if -lim ≤ n ∧ n < lim then .ok (BigEndian.encode size (n % 2 ^ (8 * size)).toNat)
  else .error s!"bad argument #{arg} to 'pack' (integer overflow)"

/-- The option `I`. -/
def packUint (arg size n : Nat) : Except String Bytes :=
  if n < 2 ^ (8 * size) then .ok (BigEndian.encode size n)
  else .error s!"bad argument #{arg} to 'pack' (unsigned overflow)"

/-- The option `c`. -/
def packChars (arg size : Nat) (s : Bytes) : Except String Bytes :=
  if s.length ≤ size then .ok (s ++ List.replicate (size - s.length) 0)
  else .error s!"bad argument #{arg} to 'pack' (string longer than given size)"

/-- The bytes for an option of `string.unpack`, and those behind them. -/
def nextBytes (size : Nat) (data : Bytes) : Except String (Bytes × Bytes) :=
  if data.length < size then .error "bad argument #2 to 'unpack' (data string too short)"
  else .ok (data.take size, data.drop size)

/-- `unpackint` of a signed integer, whose sign is extended. -/
def unpackInt (data : Bytes) : Int :=
  Int.bmod (BigEndian.decode data) (2 ^ (8 * data.length))

/-- `string.pack("> i2 i4 I4 c%d", len, check, code, pbstr)`, with the length of `pbstr`. -/
def packFields (len check : Int) (code : Nat) (pbstr : Bytes) : Except String Bytes := do
  let lenBytes ← packInt 2 2 len
  let checkBytes ← packInt 3 4 check
  let codeBytes ← packUint 4 4 code
  let pbBytes ← packChars 5 pbstr.length pbstr
  return lenBytes ++ checkBytes ++ codeBytes ++ pbBytes

/-- `string.unpack("> i4 I4 c%d", str)`. A text that is too short for the first two options is
refused before the third one is read. -/
def unpackFields (pblen : Nat) (str : Bytes) : Except String (Int × Nat × Bytes) := do
  let (check, str) ← nextBytes 4 str
  let (code, str) ← nextBytes 4 str
  let (pbstr, _) ← nextBytes pblen str
  return (unpackInt check, BigEndian.decode code, pbstr)

/-! ## The module -/

/-- A message, as the table that protobuf makes of it. -/
abbrev Message (F : Type) : Type := TableTree Key (Scalar F)

/-- `pb.encode` and `pb.decode`, which read back what they have written. -/
structure Pb (F : Type) where
  encode : Text → Message F → Except String Bytes
  decode : Text → Bytes → Except String (Message F)
  inverse : ∀ {cmd : Text} {msg : Message F} {pbstr : Bytes}, encode cmd msg = .ok pbstr →
    ∃ msg', decode cmd pbstr = .ok msg' ∧ msg.Same (· = ·) msg'

/-- The tables after `init`, with the lines of the proto files. -/
def init (files : List (List Text)) : Tables := files.foldl analysisFile noTables

/-- A digit of `%X`. -/
def hexDigit (n : Nat) : Char := if n < 10 then Char.ofNat (48 + n) else Char.ofNat (55 + n)

/-- `bin2hex`. -/
def bin2hex (s : Bytes) : Text :=
  s.flatMap fun b => [hexDigit (b.toNat / 16), hexDigit (b.toNat % 16), ' ']

section Module

variable {F : Type} (tables : Tables) (logger : Logger) (floats : FloatText F) (pb : Pb F)

/-- The line that `pack` logs. -/
def sendLine (cmd : Text) (check : Int) (msg : Message F) : Text :=
  "send:cmd(".toList ++ cmd ++ ") check(".toList ++ Mysqldb.integerText check ++
    ") msg->".toList ++ dump floats msg

/-- The line that `unpack` logs. -/
def recvLine (cmd : Text) (check : Int) (msg : Message F) : Text :=
  "recv:cmd(".toList ++ cmd ++ ") check(".toList ++ Mysqldb.integerText check ++
    ") msg->".toList ++ dump floats msg

/-- `M.pack`. -/
def pack (cmd : Option Text) (check : Option Int) (msg : Message F) :
    Except String (Option Bytes) := do
  match cmd, cmd.bind tables.name2code with
  | some cmd, some code =>
    let check := check.getD 0
    let pbstr ← pb.encode cmd msg
    let len := 4 + 4 + pbstr.length
    let str ← packFields len check code pbstr
    -- the line is made by `string.format`, and is the format of the log again
    let _ ← logger.info (format (sendLine floats cmd check msg))
    return some str
  | _, _ =>
    let _ ← logger.error (format ("protopack_pb fail, cmd:".toList ++ cmd.getD "nil".toList))
    return none

/-- `M.unpack`. -/
def unpack (str : Bytes) : Except String (Option (Text × Int × Message F)) := do
  let _ ← logger.info (format ("recv:".toList ++ bin2hex str))
  let (check, code, pbstr) ← unpackFields (str.length - 4 - 4) str
  let _ ← logger.info (format ("recv pbstr:".toList ++ bin2hex pbstr))
  match tables.code2name code with
  | some cmd =>
    let msg ← pb.decode cmd pbstr
    let _ ← logger.info (.ok (recvLine floats cmd check msg))
    return some (cmd, check, msg)
  | none =>
    let _ ← logger.info
      (.ok ("recv:code(".toList ++ Mysqldb.integerText code ++ ") but not regiest".toList))
    return none

/-- The codes of the registered messages are distinct. -/
def Tables.Distinct (tables : Tables) : Prop :=
  ∀ a b code, tables.name2code a = some code → tables.name2code b = some code → a = b

/-- A message is packed behind its length, and is read back from what follows the length. -/
def RoundTrips (cmd : Text) (check : Int) (msg : Message F) : Prop :=
  ∃ (length rest : Bytes) (msg' : Message F),
    pack tables logger floats pb (some cmd) (some check) msg = .ok (some (length ++ rest)) ∧
    length.length = 2 ∧ BigEndian.decode length = rest.length ∧
    unpack tables logger floats pb rest = .ok (some (cmd, check, msg')) ∧ msg.Same (· = ·) msg'

end Module

/-! ## The fields -/

/-- A signed integer is refused if and only if it does not fit. -/
theorem packInt_eq_ok {arg size : Nat} {n : Int} {data : Bytes} :
    packInt arg size n = .ok data ↔ (-(2 : Int) ^ (8 * size - 1) ≤ n ∧ n < 2 ^ (8 * size - 1)) ∧
      data = BigEndian.encode size (n % 2 ^ (8 * size)).toNat := by
  rw [packInt]
  split
  · rename_i fits
    rw [and_iff_right fits, Except.ok.injEq, eq_comm]
  · rename_i long
    simp [long]

/-- The sign comes back. -/
theorem unpackInt_encode {size : Nat} (positive : 0 < size) {n : Int}
    (low : -(2 : Int) ^ (8 * size - 1) ≤ n) (high : n < 2 ^ (8 * size - 1)) :
    unpackInt (BigEndian.encode size (n % 2 ^ (8 * size)).toNat) = n := by
  have whole : 2 ^ (8 * size) = 2 * 2 ^ (8 * size - 1) := by
    rw [← pow_succ', Nat.sub_add_cancel (by omega)]
  have width : 256 ^ size = 2 ^ (8 * size) := (pow_mul 2 8 size).symm
  have half : ((2 ^ (8 * size - 1) : Nat) : Int) = 2 ^ (8 * size - 1) := Nat.cast_pow 2 _
  have modulus : ((2 ^ (8 * size) : Nat) : Int) = 2 ^ (8 * size) := Nat.cast_pow 2 _
  have room : 0 < 2 ^ (8 * size - 1) := Nat.two_pow_pos _
  rw [← half] at low high
  rw [← modulus]
  have nonneg : 0 ≤ n % (2 ^ (8 * size) : Nat) := Int.emod_nonneg n (by omega)
  have small : n % (2 ^ (8 * size) : Nat) < (2 ^ (8 * size) : Nat) :=
    Int.emod_lt_of_pos n (by omega)
  have fits : (n % (2 ^ (8 * size) : Nat)).toNat < 256 ^ size := by omega
  rw [unpackInt, BigEndian.decode_encode fits, BigEndian.length_encode, Int.toNat_of_nonneg nonneg,
    Int.emod_bmod]
  refine Int.bmod_eq_of_le ?_ ?_
  · omega
  · omega

theorem nextBytes_append (data rest : Bytes) :
    nextBytes data.length (data ++ rest) = .ok (data, rest) := by
  have long : ¬ (data ++ rest).length < data.length := by simp
  rw [nextBytes, if_neg long, List.take_left, List.drop_left]

/-- What follows the length. -/
def body (check : Int) (code : Nat) (pbstr : Bytes) : Bytes :=
  BigEndian.encode 4 (check % 2 ^ 32).toNat ++ (BigEndian.encode 4 code ++ pbstr)

theorem length_body (check : Int) (code : Nat) (pbstr : Bytes) :
    (body check code pbstr).length = 8 + pbstr.length := by
  simp only [body, List.length_append, BigEndian.length_encode]
  omega

section Fields

variable {check : Int} {code : Nat}

/-- The fields are refused if and only if the length is too much for an `i2`. -/
theorem packFields_eq_ok (low : -2 ^ 31 ≤ check) (high : check < 2 ^ 31) (small : code < 2 ^ 32)
    {len : Nat} {pbstr str : Bytes} :
    packFields len check code pbstr = .ok str ↔
      len ≤ 32767 ∧ str = BigEndian.encode 2 len ++ body check code pbstr := by
  have second : packInt 3 4 check = .ok (BigEndian.encode 4 (check % 2 ^ 32).toNat) :=
    packInt_eq_ok.mpr ⟨⟨low, high⟩, rfl⟩
  have third : packUint 4 4 code = .ok (BigEndian.encode 4 code) := if_pos small
  have fourth : packChars 5 pbstr.length pbstr = .ok pbstr := by
    rw [packChars, if_pos le_rfl, Nat.sub_self, List.replicate_zero, List.append_nil]
  have first : (∃ data, packInt 2 2 len = .ok data ∧ data ++ body check code pbstr = str) ↔
      len ≤ 32767 ∧ str = BigEndian.encode 2 len ++ body check code pbstr := by
    have fits : (-(2 : Int) ^ 15 ≤ len ∧ (len : Int) < 2 ^ 15) ↔ len ≤ 32767 := by omega
    have whole : len ≤ 32767 → ((len : Int) % 2 ^ 16).toNat = len := by omega
    simp only [packInt_eq_ok]
    constructor
    · intro packed
      obtain ⟨data, ⟨inside, rfl⟩, rfl⟩ := packed
      have short := fits.mp inside
      exact ⟨short, by rw [whole short]⟩
    · intro packed
      obtain ⟨short, rfl⟩ := packed
      exact ⟨_, ⟨fits.mpr short, rfl⟩, by rw [whole short]⟩
  rw [← first, packFields, Readers.bind_eq_ok]
  refine exists_congr fun data => and_congr_right fun _ => ?_
  rw [second, third, fourth]
  simp [bind, Except.bind, pure, Except.pure, body]

theorem unpackFields_body (low : -2 ^ 31 ≤ check) (high : check < 2 ^ 31) (small : code < 2 ^ 32)
    (pbstr : Bytes) :
    unpackFields pbstr.length (body check code pbstr) = .ok (check, code, pbstr) := by
  have first := nextBytes_append (BigEndian.encode 4 (check % 2 ^ 32).toNat)
    (BigEndian.encode 4 code ++ pbstr)
  have second := nextBytes_append (BigEndian.encode 4 code) pbstr
  have third := nextBytes_append pbstr []
  rw [BigEndian.length_encode] at first second
  rw [List.append_nil] at third
  have sign : unpackInt (BigEndian.encode 4 (check % 2 ^ 32).toNat) = check :=
    unpackInt_encode (by decide) low high
  have number : BigEndian.decode (BigEndian.encode 4 code) = code :=
    BigEndian.decode_encode small
  rw [unpackFields, body, first]
  simp only [bind, Except.bind, second, third, sign, number, pure, Except.pure]

end Fields

/-! ## The lines of the log -/

theorem percent_not_mem_bin2hex (s : Bytes) : '%' ∉ bin2hex s := by
  have digit : ∀ n : Fin 16, hexDigit n ≠ '%' := by decide
  intro member
  obtain ⟨b, -, inside⟩ := List.mem_flatMap.mp member
  have byte := b.toNat_lt
  have high : b.toNat / 16 < 16 := by omega
  have low : b.toNat % 16 < 16 := Nat.mod_lt _ (by decide)
  simp only [List.mem_cons, List.not_mem_nil, or_false] at inside
  rcases inside with first | second | third
  · exact digit ⟨_, high⟩ first.symm
  · exact digit ⟨_, low⟩ second.symm
  · cases third

/-- The line of `pack` is a format if and only if the message is. -/
theorem formats_sendLine {F : Type} (floats : FloatText F) {cmd : Text}
    (legal : ∀ c ∈ cmd, isNameChar c = true) (check : Int) (msg : Message F) :
    Formats (sendLine floats cmd check msg) ↔ msg.Forall Key.Formats Scalar.Formats := by
  have noPercent : '%' ∉ cmd := by
    intro member
    cases legal '%' member
  have front : '%' ∉ "send:cmd(".toList ++ cmd ++ ") check(".toList ++
      Mysqldb.integerText check ++ ") msg->".toList := by
    simp only [List.mem_append, not_or]
    exact ⟨⟨⟨⟨by decide, noPercent⟩, by decide⟩, percent_not_mem_integerText check⟩, by decide⟩
  exact (formats_plain_append front _).trans (formats_dump floats msg)

/-! ## The registered messages -/

theorem foldl_analysisFile_holds : ∀ {files : List (List Text)} {tables : Tables}
    {names : List Text}, Holds tables names → (∀ name ∈ names, ∀ c ∈ name, isNameChar c = true) →
      ∃ names', Holds (files.foldl analysisFile tables) names' ∧
        ∀ name ∈ names', ∀ c ∈ name, isNameChar c = true
  | [], _, names, holds, legal => ⟨names, holds, legal⟩
  | lines :: files, tables, names, holds, legal => by
    rw [List.foldl_cons]
    have more : Holds (analysisFile tables lines) (names ++ namesFrom [] lines) :=
      analysisLines_holds holds
    have legal' : ∀ name ∈ names ++ namesFrom [] lines, ∀ c ∈ name, isNameChar c = true := by
      rw [List.forall_mem_append]
      exact ⟨legal, isNameChar_of_namesFrom fun _ inNil => by cases inNil⟩
    exact foldl_analysisFile_holds more legal'

/-- The tables hold names that may be read. -/
theorem init_holds (files : List (List Text)) :
    ∃ names, Holds (init files) names ∧ ∀ name ∈ names, ∀ c ∈ name, isNameChar c = true :=
  foldl_analysisFile_holds .none fun _ inNil => by cases inNil

section Registered

variable {files : List (List Text)} {cmd : Text} {code : Nat}

theorem legal_of_registered (registered : (init files).name2code cmd = some code) :
    code = CRC32.hash (bytes cmd) ∧ ∀ c ∈ cmd, isNameChar c = true := by
  obtain ⟨names, holds, legal⟩ := init_holds files
  obtain ⟨member, isHash⟩ := (holds.name2code cmd code).mp registered
  exact ⟨isHash, legal cmd member⟩

/-- With distinct codes, a code leads back to its message. -/
theorem code2name_of_registered (distinct : (init files).Distinct)
    (registered : (init files).name2code cmd = some code) :
    (init files).code2name code = some cmd := by
  obtain ⟨names, holds, -⟩ := init_holds files
  obtain ⟨member, isHash⟩ := (holds.name2code cmd code).mp registered
  obtain ⟨other, found⟩ := holds.known cmd member
  rw [← isHash] at found
  have other_registered := (holds.name2code other code).mpr (holds.code2name code other found)
  rw [found, distinct other cmd code other_registered registered]

end Registered

/-! ## Round trips -/

section RoundTrips

variable {F : Type} {files : List (List Text)} {logger : Logger} {floats : FloatText F} {pb : Pb F}
  {cmd : Text} {code : Nat} {check : Int} {msg : Message F} {pbstr : Bytes}

/-- A registered message is packed if the fields fit and the line can be logged. -/
theorem pack_eq_ok (registered : (init files).name2code cmd = some code)
    (encoded : pb.encode cmd msg = .ok pbstr) {str : Bytes} :
    pack (init files) logger floats pb (some cmd) (some check) msg = .ok (some str) ↔
      packFields (4 + 4 + pbstr.length : Nat) check code pbstr = .ok str ∧
        (2 < logger.level ∨ msg.Forall Key.Formats Scalar.Formats) := by
  have legal := (legal_of_registered registered).2
  have found : (some cmd).bind (init files).name2code = some code := registered
  rw [← formats_sendLine floats legal check msg, ← info_format]
  simp only [pack, found, encoded, Option.getD_some, Readers.bind_eq_ok]
  constructor
  · intro ends
    obtain ⟨_, same, data, packed, line, logged, same'⟩ := ends
    cases same
    cases same'
    exact ⟨packed, line, logged⟩
  · intro steps
    obtain ⟨packed, line, logged⟩ := steps
    exact ⟨_, rfl, str, packed, line, logged, rfl⟩

/-- What follows the length is read. -/
theorem unpack_body (distinct : (init files).Distinct)
    (registered : (init files).name2code cmd = some code) (low : -2 ^ 31 ≤ check)
    (high : check < 2 ^ 31) {msg' : Message F} (decoded : pb.decode cmd pbstr = .ok msg') :
    unpack (init files) logger floats pb (body check code pbstr) =
      .ok (some (cmd, check, msg')) := by
  have small : code < 2 ^ 32 := by
    rw [(legal_of_registered registered).1]
    exact CRC32.hash_lt _
  have plain : ∀ front data, '%' ∉ front → ∃ line,
      logger.info (format (front ++ bin2hex data)) = .ok line := by
    intro front data noPercent
    refine info_format.mpr (.inr (formats_of_plain ?_))
    rw [List.mem_append, not_or]
    exact ⟨noPercent, percent_not_mem_bin2hex data⟩
  obtain ⟨line, first⟩ := plain "recv:".toList (body check code pbstr) (by decide)
  obtain ⟨line', second⟩ := plain "recv pbstr:".toList pbstr (by decide)
  have third : ∃ line'', logger.info (.ok (recvLine floats cmd check msg')) = .ok line'' := by
    rw [Logger.info]
    split
    · exact ⟨_, rfl⟩
    · exact ⟨_, rfl⟩
  obtain ⟨line'', third⟩ := third
  have length : (body check code pbstr).length - 4 - 4 = pbstr.length := by
    rw [length_body]
    omega
  rw [unpack, first, length, unpackFields_body low high small]
  simp only [bind, Except.bind, second, code2name_of_registered distinct registered, decoded, third]
  rfl

/-- **A packet is read back** if and only if its length fits an `i2`, and its message has no percent
sign that a format cannot have, or the line about it is not logged. -/
theorem roundTrips_iff (distinct : (init files).Distinct)
    (registered : (init files).name2code cmd = some code) (low : -2 ^ 31 ≤ check)
    (high : check < 2 ^ 31) (encoded : pb.encode cmd msg = .ok pbstr) :
    RoundTrips (init files) logger floats pb cmd check msg ↔
      8 + pbstr.length ≤ 32767 ∧
        (2 < logger.level ∨ msg.Forall Key.Formats Scalar.Formats) := by
  have small : code < 2 ^ 32 := by
    rw [(legal_of_registered registered).1]
    exact CRC32.hash_lt _
  constructor
  · intro roundTrips
    obtain ⟨length, rest, msg', packed, -, -, -, -⟩ := roundTrips
    obtain ⟨fields, logs⟩ := (pack_eq_ok registered encoded).mp packed
    exact ⟨((packFields_eq_ok low high small).mp fields).1, logs⟩
  · intro condition
    obtain ⟨short, logs⟩ := condition
    obtain ⟨msg', decoded, same⟩ := pb.inverse encoded
    refine ⟨BigEndian.encode 2 (4 + 4 + pbstr.length), body check code pbstr, msg', ?_,
      BigEndian.length_encode 2 _, ?_, unpack_body distinct registered low high decoded, same⟩
    · exact (pack_eq_ok registered encoded).mpr
        ⟨(packFields_eq_ok low high small).mpr ⟨short, rfl⟩, logs⟩
    · rw [length_body, BigEndian.decode_encode]
      exact Nat.lt_of_le_of_lt short (by decide)

end RoundTrips

/-! ### The message of `proto/example.proto` -/

def exampleProto : List Text :=
  ["syntax = \"proto3\";".toList, "package example ;".toList, [], "message echo \t".toList,
    ['{', ' '], "    string str = 1;".toList, ['}']]

def echo : Text := "example.echo".toList

theorem exampleProto_registered :
    (init [exampleProto]).name2code echo = some (CRC32.hash (bytes echo)) ∧
      (init [exampleProto]).Distinct := by
  have holds : Holds (init [exampleProto]) ([] ++ namesFrom [] exampleProto) :=
    analysisLines_holds .none
  have names : namesFrom [] exampleProto = [echo] := by decide
  rw [List.nil_append, names] at holds
  refine ⟨(holds.name2code echo _).mpr ⟨List.mem_cons_self, rfl⟩, ?_⟩
  intro a b code registered registered'
  have first := ((holds.name2code a code).mp registered).1
  have second := ((holds.name2code b code).mp registered').1
  rw [List.mem_singleton.mp first, List.mem_singleton.mp second]

/-- The message with a string. -/
def echoMessage (str : Text) : Message Empty :=
  .table (.cons (.string "str".toList) (.leaf (.string str)) .nil)

/-- Protobuf, for the message with one string, whose length is written as `varint`. -/
def echoPb (str : Text) (varint : Bytes) : Pb Empty where
  encode
    | cmd, .table (.cons (.string key) (.leaf (.string s)) .nil) =>
      if cmd = echo ∧ key = "str".toList ∧ s = str then .ok (0x0A :: varint ++ bytes str)
      else .error "bad argument"
    | _, _ => .error "bad argument"
  decode cmd pbstr :=
    if cmd = echo ∧ pbstr = 0x0A :: varint ++ bytes str then .ok (echoMessage str)
    else .error "bad argument"
  inverse := by
    intro cmd msg pbstr encoded
    split at encoded
    · split at encoded
      · rename_i same
        obtain ⟨rfl, rfl, rfl⟩ := same
        cases encoded
        refine ⟨_, if_pos ⟨rfl, rfl⟩, TableTree.same_refl (fun _ => rfl) ?_⟩
        simp [TableTree.Distinct, TableEntries.Distinct, TableEntries.keys, TableEntries.toList]
      · cases encoded
    · cases encoded

def noFloats : FloatText Empty := ⟨Empty.elim, fun x => x.elim⟩

theorem echoPb_encode (str : Text) (varint : Bytes) :
    (echoPb str varint).encode echo (echoMessage str) = .ok (0x0A :: varint ++ bytes str) :=
  if_pos ⟨rfl, rfl, rfl⟩

theorem roundTrips_echo :
    RoundTrips (init [exampleProto]) ⟨1, none⟩ noFloats (echoPb "hi".toList [2]) echo 7
      (echoMessage "hi".toList) :=
  (roundTrips_iff exampleProto_registered.2 exampleProto_registered.1 (by decide) (by decide)
    (echoPb_encode _ _)).mpr ⟨by decide, .inr ⟨formats_of_plain (by decide),
      formats_of_plain (by decide), trivial⟩⟩

theorem length_replicated (varint : Bytes) (n : Nat) :
    (0x0A :: varint ++ bytes (List.replicate n 'x')).length = 1 + varint.length + n := by
  rw [List.length_append, bytes, List.length_map, List.length_replicate, List.length_cons,
    Nat.add_comm 1]

/-- A string of 32760 bytes fits the prefix, but `string.pack` refuses its length. -/
theorem long_not_packed :
    ¬ ∀ (files : List (List Text)) (logger : Logger) (floats : FloatText Empty) (pb : Pb Empty)
      (cmd : Text) (code : Nat) (check : Int) (msg : Message Empty) (pbstr : Bytes),
      (init files).Distinct → (init files).name2code cmd = some code → -2 ^ 31 ≤ check →
      check < 2 ^ 31 → pb.encode cmd msg = .ok pbstr → 8 + pbstr.length ≤ 65535 →
        RoundTrips (init files) logger floats pb cmd check msg := by
  intro roundTrips
  let str : Text := List.replicate 32760 'x'
  let varint : Bytes := [0xF8, 0xFF, 0x01]
  have length : (0x0A :: varint ++ bytes str).length = 4 + 32760 := length_replicated varint 32760
  obtain ⟨_, _, _, packed, -⟩ := roundTrips [exampleProto] ⟨1, none⟩ noFloats (echoPb str varint)
    echo _ 0 (echoMessage str) _ exampleProto_registered.2 exampleProto_registered.1 (by decide)
    (by decide) (echoPb_encode str varint) (by rw [length]; decide)
  have fields := ((pack_eq_ok exampleProto_registered.1 (echoPb_encode str varint)).mp packed).1
  have short := ((packFields_eq_ok (by decide) (by decide) (CRC32.hash_lt _)).mp fields).1
  rw [length] at short
  exact absurd short (by decide)

end RillServer.Protopack
