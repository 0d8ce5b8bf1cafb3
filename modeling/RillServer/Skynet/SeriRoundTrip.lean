import RillServer.Lib.Readers
import RillServer.Skynet.Seri

/-!
# Unpacking messages

`unpack_one` reads off what `pack_one` has written, whatever comes after it (`pack_one_reads`), and
`pack_one` raises an error only for a type that cannot be packed or a table that is nested too
deeply (`pack_one_iff`). `Seri.unpack_pack` puts both together, for values of which the whole is
shorter than an `int` counts (`sizeArray`). `Seri.unpack_ends`: `luaseri_unpack`
ends on every buffer.
-/

namespace RillServer.Skynet

namespace Seri

open LittleEndian Readers WriteBlock

/-! ## How long it is packed -/

/-- The number of bytes that `wb_integer` pushes. -/
def integerSize (v : BitVec 64) : Nat :=
  if v = 0 then 1
  else if v ≠ (v.truncate 32).signExtend 64 then 9
  else if v.toInt < 0 then 5
  else if v.toInt < 0x100 then 2
  else if v.toInt < 0x10000 then 3
  else 5

/-- The number of bytes that `wb_string` pushes. -/
def stringSize (len : Nat) : Nat :=
  if len < MAX_COOKIE then 1 + len else if len < 0x10000 then 3 + len else 5 + len

/-- The number of bytes that `wb_table_size` pushes. -/
def tableSize (array_size : Nat) : Nat :=
  if MAX_COOKIE - 1 ≤ array_size then 1 + integerSize (BitVec.ofNat 64 array_size) else 1

mutual

/-- The number of bytes that `pack_one` pushes. -/
def Value.size : Value → Nat
  | .nil | .boolean _ | .other _ => 1
  | .integer v => integerSize v
  | .real _ | .lightuserdata _ => 9
  | .string str => stringSize str.length
  | .table array hash => tableSize array.length + sizeArray array + sizeHash hash + 1

def sizeArray : List Value → Nat
  | [] => 0
  | v :: rest => v.size + sizeArray rest

def sizeHash : List (Value × Value) → Nat
  | [] => 0
  | (key, value) :: rest => key.size + value.size + sizeHash rest

end

/-! ## What is packed is read -/

/-- The type and the cookie of a byte. -/
theorem toNat_combine {t v : Nat} (type : t < 8) (cookie : v < 32) :
    (combine t v).toNat &&& 7 = t ∧ (combine t v).toNat >>> 3 = v := by
  have sum : t ||| v <<< 3 = v * 8 + t := by
    rw [Nat.or_comm, ← Nat.shiftLeft_add_eq_or_of_lt type, Nat.shiftLeft_eq]
  have byte : (combine t v).toNat = v * 8 + t := by
    rw [combine, sum, UInt8.toNat_ofNat']
    omega
  rw [byte, Nat.shiftRight_eq_div_pow]
  exact ⟨(Nat.and_two_pow_sub_one_eq_mod _ 3).trans (by omega), by omega⟩

theorem rb_read_append (line : Nat) {bytes : Bytes} {sz : Nat} (whole : bytes.length = sz)
    (rest : Bytes) : rb_read line sz (bytes ++ rest) = .ok (bytes, rest) := by
  subst whole
  simp [rb_read]

@[simp]
theorem rb_read_encode (line width n : Nat) (rest : Bytes) :
    rb_read line width (encode width n ++ rest) = .ok (encode width n, rest) :=
  rb_read_append line (length_encode width n) rest

@[simp]
theorem rb_read_cons (line : Nat) (byte : UInt8) (rest : Bytes) :
    rb_read line 1 (byte :: rest) = .ok ([byte], rest) := by
  simp [rb_read]

theorem decode_singleton (byte : UInt8) : decode [byte] = byte.toNat := Nat.zero_add _

theorem unpack_one_combine {t v : Nat} (type : t < 8) (cookie : v < 32) (bound : Nat) (rest : Bytes) :
    unpack_one (bound + 1) (combine t v :: rest) = push_value (unpack_one bound) t v rest := by
  obtain ⟨low, high⟩ := toNat_combine type cookie
  rw [unpack_one, rb_read_cons, ok_bind, decode_singleton, low, high]

/-- These bytes are read as this value, whatever comes after them. -/
structure Reads (bytes : Bytes) (v : Value) : Prop where
  nonempty : 0 < bytes.length
  read : ∀ bound rest, bytes.length ≤ bound → unpack_one bound (bytes ++ rest) = .ok (v, rest)

theorem Reads.of_push_value {t cookie : Nat} {data : Bytes} {v : Value} (type : t < 8)
    (small : cookie < 32)
    (read : ∀ bound rest, data.length ≤ bound →
      push_value (unpack_one bound) t cookie (data ++ rest) = .ok (v, rest)) :
    Reads (combine t cookie :: data) v where
  nonempty := Nat.zero_lt_succ _
  read := by
    intro bound rest enough
    cases bound with
    | zero => exact absurd enough (Nat.not_succ_le_zero _)
    | succ bound =>
        rw [List.cons_append, unpack_one_combine type small]
        exact read bound rest (Nat.le_of_succ_le_succ enough)

theorem wb_push_two {b : WriteBlock} {old : Bytes} (holds : b.Holds old) (tag : UInt8) (data : Bytes) :
    ((b.wb_push [tag]).wb_push data).Holds (old ++ tag :: data) := by
  have both := wb_push_holds (wb_push_holds holds [tag]) data
  rwa [List.append_assoc, List.singleton_append] at both

theorem toNat_lt_of_toInt {v : BitVec 64} {n : Nat} (nonneg : ¬ v.toInt < 0) (lt : v.toInt < n) :
    v.toNat < n := by
  rw [BitVec.toInt_eq_toNat_cond] at nonneg lt
  split at lt <;> omega

theorem ofNat_truncate {v : BitVec 64} {w : Nat} (lt : v.toNat < 2 ^ w) :
    BitVec.ofNat 64 (v.truncate w).toNat = v := by
  apply BitVec.eq_of_toNat_eq
  rw [BitVec.toNat_ofNat, BitVec.truncate_eq_setWidth, BitVec.toNat_setWidth, Nat.mod_eq_of_lt lt,
    Nat.mod_eq_of_lt v.isLt]

/-- `get_integer` reads what `wb_integer` writes. -/
theorem wb_integer_reads (v : BitVec 64) :
    ∃ cookie data, cookie < 32 ∧ cookie ≠ TYPE_NUMBER_REAL ∧ data.length + 1 = integerSize v ∧
      (∀ {b : WriteBlock} {old : Bytes}, b.Holds old →
        (wb_integer b v).Holds (old ++ combine TYPE_NUMBER cookie :: data)) ∧
      ∀ rest, get_integer cookie (data ++ rest) = .ok (v, rest) := by
  by_cases zero : v = 0
  · refine ⟨TYPE_NUMBER_ZERO, [], by decide, by decide, ?_, ?_, ?_⟩
    · rw [integerSize, if_pos zero]
      rfl
    · intro b old holds
      rw [wb_integer, if_pos zero]
      exact wb_push_holds holds _
    · intro rest
      rw [zero]
      rfl
  by_cases wide : v ≠ (v.truncate 32).signExtend 64
  · refine ⟨TYPE_NUMBER_QWORD, encode 8 v.toNat, by decide, by decide, ?_, ?_, ?_⟩
    · rw [integerSize, if_neg zero, if_pos wide, length_encode]
    · intro b old holds
      rw [wb_integer, if_neg zero, if_pos wide]
      exact wb_push_two holds _ _
    · intro rest
      have bits := ofNat_decode_encode 8 v (by decide)
      simp [get_integer, TYPE_NUMBER_ZERO, TYPE_NUMBER_BYTE, TYPE_NUMBER_WORD, TYPE_NUMBER_DWORD,
        TYPE_NUMBER_QWORD, bits]
  have dword : ∀ rest, get_integer TYPE_NUMBER_DWORD (encode 4 (v.truncate 32).toNat ++ rest) =
      .ok (v, rest) := by
    intro rest
    have bits := ofNat_decode_encode 4 (v.truncate 32) (by decide)
    have same : (v.truncate 32).signExtend 64 = v := (not_not.mp wide).symm
    simp only [get_integer, TYPE_NUMBER_ZERO, TYPE_NUMBER_BYTE, TYPE_NUMBER_WORD, TYPE_NUMBER_DWORD,
      rb_read_encode, ok_bind, bits, same]
    rfl
  by_cases negative : v.toInt < 0
  · refine ⟨TYPE_NUMBER_DWORD, encode 4 (v.truncate 32).toNat, by decide, by decide, ?_, ?_, dword⟩
    · rw [integerSize, if_neg zero, if_neg wide, if_pos negative, length_encode]
    · intro b old holds
      rw [wb_integer, if_neg zero, if_neg wide, if_pos negative]
      exact wb_push_two holds _ _
  by_cases byte : v.toInt < 0x100
  · refine ⟨TYPE_NUMBER_BYTE, encode 1 (v.truncate 8).toNat, by decide, by decide, ?_, ?_, ?_⟩
    · rw [integerSize, if_neg zero, if_neg wide, if_neg negative, if_pos byte, length_encode]
    · intro b old holds
      rw [wb_integer, if_neg zero, if_neg wide, if_neg negative, if_pos byte]
      exact wb_push_two holds _ _
    · intro rest
      have small : v.toNat < 2 ^ 8 := toNat_lt_of_toInt negative byte
      have bits := decode_encode 1 (v.truncate 8).isLt
      simp only [get_integer, TYPE_NUMBER_ZERO, TYPE_NUMBER_BYTE, rb_read_encode, ok_bind, bits,
        ofNat_truncate small]
      rfl
  by_cases word : v.toInt < 0x10000
  · refine ⟨TYPE_NUMBER_WORD, encode 2 (v.truncate 16).toNat, by decide, by decide, ?_, ?_, ?_⟩
    · rw [integerSize, if_neg zero, if_neg wide, if_neg negative, if_neg byte, if_pos word,
        length_encode]
    · intro b old holds
      rw [wb_integer, if_neg zero, if_neg wide, if_neg negative, if_neg byte, if_pos word]
      exact wb_push_two holds _ _
    · intro rest
      have small : v.toNat < 2 ^ 16 := toNat_lt_of_toInt negative word
      have bits := decode_encode 2 (v.truncate 16).isLt
      simp only [get_integer, TYPE_NUMBER_ZERO, TYPE_NUMBER_BYTE, TYPE_NUMBER_WORD, rb_read_encode,
        ok_bind, bits, ofNat_truncate small]
      rfl
  · refine ⟨TYPE_NUMBER_DWORD, encode 4 (v.truncate 32).toNat, by decide, by decide, ?_, ?_, dword⟩
    · rw [integerSize, if_neg zero, if_neg wide, if_neg negative, if_neg byte, if_neg word,
        length_encode]
    · intro b old holds
      rw [wb_integer, if_neg zero, if_neg wide, if_neg negative, if_neg byte, if_neg word]
      exact wb_push_two holds _ _

theorem get_buffer_append {str : Bytes} (fits : str.length < 2 ^ 31) (rest : Bytes) :
    get_buffer str.length (str ++ rest) = .ok (.string str, rest) := by
  rw [get_buffer, if_neg (Nat.not_le.mpr fits), rb_read_append 427 rfl]
  rfl

/-- `push_value` reads what `wb_string` writes. -/
theorem wb_string_reads {str : Bytes} (fits : str.length < 2 ^ 31) :
    ∃ bytes, bytes.length = stringSize str.length ∧
      (∀ {b : WriteBlock} {old : Bytes}, b.Holds old → (wb_string b str).Holds (old ++ bytes)) ∧
      Reads bytes (.string str) := by
  by_cases short : str.length < MAX_COOKIE
  · refine ⟨combine TYPE_SHORT_STRING str.length :: str, ?_, ?_, ?_⟩
    · rw [stringSize, if_pos short, List.length_cons, Nat.add_comm]
    · intro b old holds
      rw [wb_string, if_pos short]
      by_cases some_byte : 0 < str.length
      · rw [if_pos some_byte]
        exact wb_push_two holds _ _
      · obtain rfl : str = [] := List.length_eq_zero_iff.mp (by omega)
        exact wb_push_holds holds _
    · exact .of_push_value (by decide) short fun bound rest _ => get_buffer_append fits rest
  by_cases word : str.length < 0x10000
  · refine ⟨combine TYPE_LONG_STRING 2 :: (encode 2 str.length ++ str), ?_, ?_, ?_⟩
    · rw [stringSize, if_neg short, if_pos word, List.length_cons, List.length_append, length_encode]
      omega
    · intro b old holds
      rw [wb_string, if_neg short, if_pos word]
      simpa using wb_push_holds (wb_push_two holds _ _) str
    · refine .of_push_value (by decide) (by decide) fun bound rest _ => ?_
      have size := decode_encode 2 (n := str.length) word
      rw [List.append_assoc]
      show (rb_read 493 2 _ >>= fun n => get_buffer (decode n.1) n.2) = _
      rw [rb_read_encode, ok_bind, size, get_buffer_append fits]
  · refine ⟨combine TYPE_LONG_STRING 4 :: (encode 4 str.length ++ str), ?_, ?_, ?_⟩
    · rw [stringSize, if_neg short, if_neg word, List.length_cons, List.length_append, length_encode]
      omega
    · intro b old holds
      rw [wb_string, if_neg short, if_neg word]
      simpa using wb_push_holds (wb_push_two holds _ _) str
    · refine .of_push_value (by decide) (by decide) fun bound rest _ => ?_
      have size := decode_encode 4 (n := str.length) (by omega)
      rw [List.append_assoc]
      show (rb_read 504 4 _ >>= fun n => get_buffer (decode n.1) n.2) = _
      rw [rb_read_encode, ok_bind, size, get_buffer_append fits]

/-- `unpack_table` reads the size that `wb_table_array` writes. -/
theorem wb_table_size_reads {n : Nat} (fits : n < 2 ^ 31) :
    ∃ cookie data, cookie < 32 ∧ data.length + 1 = tableSize n ∧
      (∀ {b : WriteBlock} {old : Bytes}, b.Holds old →
        (wb_table_size b n).Holds (old ++ combine TYPE_TABLE cookie :: data)) ∧
      ∀ rest, array_size cookie (data ++ rest) = .ok (n, rest) := by
  by_cases large : MAX_COOKIE - 1 ≤ n
  · obtain ⟨cookie, data, small, integer, long, written, read⟩ := wb_integer_reads (BitVec.ofNat 64 n)
    refine ⟨MAX_COOKIE - 1, combine TYPE_NUMBER cookie :: data, by decide, ?_, ?_, ?_⟩
    · rw [tableSize, if_pos large, List.length_cons, long, Nat.add_comm]
    · intro b old holds
      rw [wb_table_size, if_pos large]
      simpa using written (wb_push_holds holds [combine TYPE_TABLE (MAX_COOKIE - 1)])
    · intro rest
      obtain ⟨low, high⟩ := toNat_combine (t := TYPE_NUMBER) (by decide) small
      have counted : ((BitVec.ofNat 64 n).truncate 32).toInt.toNat = n := by
        have low : ((BitVec.ofNat 64 n).truncate 32).toNat = n := by
          simp only [BitVec.truncate_eq_setWidth, BitVec.toNat_setWidth, BitVec.toNat_ofNat]
          omega
        rw [BitVec.toInt_eq_toNat_cond, low, if_pos (by omega), Int.toNat_natCast]
      simp only [array_size, if_true, List.cons_append, rb_read_cons, ok_bind, decode_singleton, low,
        high, integer, read, counted, ne_eq, not_true_eq_false, or_self, if_false]
      rfl
  · refine ⟨n, [], by rw [MAX_COOKIE] at large; omega, ?_, ?_, ?_⟩
    · rw [tableSize, if_neg large]
      rfl
    · intro b old holds
      rw [wb_table_size, if_neg large]
      exact wb_push_holds holds _
    · intro rest
      rw [array_size, if_neg (by omega)]
      rfl

mutual

/-- A value as Lua has them: no key is nil or NaN, and an `int` counts strings and arrays. -/
def Value.Fits : Value → Prop
  | .string str => str.length < 2 ^ 31
  | .table array hash => array.length < 2 ^ 31 ∧ FitsArray array ∧ FitsHash hash
  | _ => True

def FitsArray : List Value → Prop
  | [] => True
  | v :: rest => v.Fits ∧ FitsArray rest

def FitsHash : List (Value × Value) → Prop
  | [] => True
  | (key, value) :: rest =>
      (key.isNil = false ∧ key.isNaN = false) ∧ key.Fits ∧ value.Fits ∧ FitsHash rest

end

theorem unpack_one_nil {bound : Nat} (some_bound : 0 < bound) (rest : Bytes) :
    unpack_one bound (combine TYPE_NIL 0 :: rest) = .ok (.nil, rest) := by
  obtain ⟨less, rfl⟩ := Nat.exists_eq_add_one.mpr some_bound
  rw [unpack_one_combine (by decide) (by decide)]
  rfl

-- The induction is on the value: what the loops have packed is read back by the loops of `unpack_table`.
mutual

/-- `unpack_one` reads what `pack_one` has written. -/
theorem pack_one_reads (v : Value) {b b' : WriteBlock} {depth : Nat} {old : Bytes} (fits : v.Fits)
    (holds : b.Holds old) (packed : pack_one v b depth = .ok b') :
    ∃ bytes, bytes.length = v.size ∧ b'.Holds (old ++ bytes) ∧ Reads bytes v := by
  rw [pack_one.eq_def] at packed
  split at packed
  case isTrue => cases packed
  case isFalse shallow =>
    cases v with
    | nil =>
        cases packed
        exact ⟨_, rfl, wb_push_holds holds _, .of_push_value (by decide) (by decide) fun _ _ _ => rfl⟩
    | boolean x =>
        cases packed
        refine ⟨_, rfl, wb_push_holds holds _, .of_push_value (by decide) (by cases x <;> decide) ?_⟩
        intro bound rest _
        cases x <;> rfl
    | integer x =>
        cases packed
        obtain ⟨cookie, data, small, integer, long, written, read⟩ := wb_integer_reads x
        refine ⟨combine TYPE_NUMBER cookie :: data, long, written holds, ?_⟩
        refine .of_push_value (by decide) small fun bound rest _ => ?_
        have pushed : push_value (unpack_one bound) TYPE_NUMBER cookie (data ++ rest) =
            get_integer cookie (data ++ rest) >>= fun n => .ok (.integer n.1, n.2) := if_neg integer
        rw [pushed, read, ok_bind]
    | real n =>
        cases packed
        refine ⟨_, rfl, wb_push_two holds _ _, .of_push_value (by decide) (by decide) ?_⟩
        intro bound rest _
        have bits := ofNat_decode_encode 8 n (by decide)
        show (get_real _ >>= fun n => .ok (Value.real n.1, n.2)) = _
        rw [get_real, rb_read_encode, ok_bind, bits]
        rfl
    | lightuserdata p =>
        cases packed
        refine ⟨_, rfl, wb_push_two holds _ _, .of_push_value (by decide) (by decide) ?_⟩
        intro bound rest _
        have bits := ofNat_decode_encode 8 p (by decide)
        show (get_pointer _ >>= fun p => .ok (Value.lightuserdata p.1, p.2)) = _
        rw [get_pointer, rb_read_encode, ok_bind, bits]
        rfl
    | string str =>
        cases packed
        obtain ⟨bytes, long, written, reads⟩ := wb_string_reads fits
        exact ⟨bytes, long, written holds, reads⟩
    | table array hash =>
        obtain ⟨counted, array_fits, hash_fits⟩ := fits
        obtain ⟨b₁, array_packed, packed⟩ := bind_eq_ok.mp packed
        obtain ⟨b₂, hash_packed, packed⟩ := bind_eq_ok.mp packed
        cases packed
        obtain ⟨cookie, data, small, long, written, sized⟩ := wb_table_size_reads counted
        obtain ⟨array_bytes, array_long, holds₁, read_array⟩ :=
          pack_array_reads array array_fits (written holds) array_packed
        obtain ⟨hash_bytes, hash_long, holds₂, pairs, read_hash⟩ :=
          pack_hash_reads hash hash_fits holds₁ hash_packed
        refine ⟨combine TYPE_TABLE cookie ::
          (data ++ (array_bytes ++ (hash_bytes ++ [combine TYPE_NIL 0]))), ?_, ?_, ?_⟩
        · simp only [List.length_cons, List.length_append, List.length_nil, Value.size, array_long,
            hash_long, ← long]
          omega
        · simpa [wb_nil] using wb_push_holds holds₂ [combine TYPE_NIL 0]
        · refine .of_push_value (by decide) small fun bound rest enough => ?_
          simp only [List.length_append, List.length_singleton] at enough
          show unpack_table _ cookie _ = _
          simp only [unpack_table, List.append_assoc, List.singleton_append, sized, ok_bind]
          rw [read_array bound _ (by omega), ok_bind,
            read_hash bound _ rest (by omega) (by simp only [List.length_append]; omega), ok_bind]
          rfl
    | other typename => cases packed

/-- The first loop of `unpack_table` reads what the loop of `wb_table_array` has written. -/
theorem pack_array_reads (array : List Value) {b b' : WriteBlock} {depth : Nat} {old : Bytes}
    (fits : FitsArray array) (holds : b.Holds old) (packed : pack_array array b depth = .ok b') :
    ∃ bytes, bytes.length = sizeArray array ∧ b'.Holds (old ++ bytes) ∧
      ∀ bound rest, bytes.length ≤ bound →
      unpack_array (unpack_one bound) array.length (bytes ++ rest) = .ok (array, rest) := by
  cases array with
  | nil =>
      cases packed
      exact ⟨[], rfl, by rwa [List.append_nil], fun _ _ _ => rfl⟩
  | cons v array =>
      obtain ⟨b₁, first, later⟩ := bind_eq_ok.mp packed
      obtain ⟨bytes, long, holds₁, reads⟩ := pack_one_reads v fits.1 holds first
      obtain ⟨more, more_long, holds₂, read_more⟩ := pack_array_reads array fits.2 holds₁ later
      refine ⟨bytes ++ more, ?_, by rwa [← List.append_assoc], fun bound rest enough => ?_⟩
      · rw [List.length_append, long, more_long]
        rfl
      rw [List.length_append] at enough
      rw [List.length_cons, unpack_array, List.append_assoc, reads.read bound _ (by omega), ok_bind,
        read_more bound rest (by omega), ok_bind]
      rfl

/-- The second loop of `unpack_table` reads what the loop of `wb_table_hash` has written. -/
theorem pack_hash_reads (hash : List (Value × Value)) {b b' : WriteBlock} {depth : Nat} {old : Bytes}
    (fits : FitsHash hash) (holds : b.Holds old) (packed : pack_hash hash b depth = .ok b') :
    ∃ bytes, bytes.length = sizeHash hash ∧ b'.Holds (old ++ bytes) ∧ hash.length ≤ bytes.length ∧
      ∀ bound limit rest, bytes.length < bound → hash.length < limit →
        unpack_hash (unpack_one bound) limit (bytes ++ combine TYPE_NIL 0 :: rest) =
          .ok (hash, rest) := by
  cases hash with
  | nil =>
      cases packed
      refine ⟨[], rfl, by rwa [List.append_nil], Nat.le_refl _, ?_⟩
      intro bound limit rest enough some_limit
      obtain ⟨less, rfl⟩ := Nat.exists_eq_add_one.mpr some_limit
      rw [List.nil_append, unpack_hash, unpack_one_nil enough, ok_bind]
      rfl
  | cons entry hash =>
      obtain ⟨key, value⟩ := entry
      obtain ⟨⟨not_nil, not_nan⟩, key_fits, value_fits, rest_fits⟩ := fits
      obtain ⟨b₁, first, packed⟩ := bind_eq_ok.mp packed
      obtain ⟨b₂, second, later⟩ := bind_eq_ok.mp packed
      obtain ⟨key_bytes, key_long, holds₁, reads_key⟩ := pack_one_reads key key_fits holds first
      obtain ⟨value_bytes, value_long, holds₂, reads_value⟩ :=
        pack_one_reads value value_fits holds₁ second
      obtain ⟨more, more_long, holds₃, pairs, read_more⟩ := pack_hash_reads hash rest_fits holds₂ later
      have key_byte := reads_key.nonempty
      refine ⟨key_bytes ++ (value_bytes ++ more), ?_, ?_, ?_, ?_⟩
      · rw [List.length_append, List.length_append, key_long, value_long, more_long, ← Nat.add_assoc]
        rfl
      · rwa [← List.append_assoc, ← List.append_assoc]
      · simp only [List.length_append, List.length_cons]
        omega
      · intro bound limit rest enough some_limit
        simp only [List.length_append] at enough
        obtain ⟨less, rfl⟩ := Nat.exists_eq_add_one.mpr (Nat.zero_lt_of_lt some_limit)
        rw [unpack_hash, List.append_assoc, List.append_assoc, reads_key.read bound _ (by omega),
          ok_bind]
        simp only [not_nil, Bool.false_eq_true, if_false]
        rw [reads_value.read bound _ (by omega), ok_bind]
        simp only [not_nan, Bool.false_eq_true, if_false]
        rw [read_more bound less rest (by omega) (Nat.lt_of_succ_lt_succ some_limit), ok_bind]
        rfl

end

/-- The loop of `luaseri_unpack` reads what `pack_from` has written. -/
theorem unpack_from_reads {values : List Value} {b b' : WriteBlock} {depth : Nat} {old : Bytes}
    (fits : FitsArray values) (holds : b.Holds old) (packed : pack_array values b depth = .ok b') :
    ∃ bytes, bytes.length = sizeArray values ∧ b'.Holds (old ++ bytes) ∧
      ∀ bound, bytes.length < bound → unpack_from bound bytes = .ok values := by
  induction values generalizing b old with
  | nil =>
      cases packed
      refine ⟨[], rfl, by rwa [List.append_nil], fun bound enough => ?_⟩
      obtain ⟨less, rfl⟩ := Nat.exists_eq_add_one.mpr enough
      rfl
  | cons v values ih =>
      obtain ⟨b₁, first, later⟩ := bind_eq_ok.mp packed
      obtain ⟨bytes, long, holds₁, reads⟩ := pack_one_reads v fits.1 holds first
      obtain ⟨more, more_long, holds₂, read_more⟩ := ih fits.2 holds₁ later
      refine ⟨bytes ++ more, ?_, by rwa [← List.append_assoc], fun bound enough => ?_⟩
      · rw [List.length_append, long, more_long]
        rfl
      have byte := reads.nonempty
      rw [List.length_append] at enough
      obtain ⟨less, rfl⟩ := Nat.exists_eq_add_one.mpr (Nat.zero_lt_of_lt enough)
      rw [unpack_from, if_neg (by rw [List.length_append]; omega),
        reads.read _ more (by omega), ok_bind, read_more less (by omega), ok_bind]
      rfl

/-- What is copied out of the blocks is unpacked. -/
theorem luaseri_unpack_packed {values : List Value} {b : WriteBlock} (fits : FitsArray values)
    (small : sizeArray values < 2 ^ 31) (packed : pack_array values wb_init 0 = .ok b) :
    ∃ bytes, seri b.chain b.len = .ok bytes ∧ bytes.length = sizeArray values ∧
      luaseri_unpack bytes = .ok values := by
  obtain ⟨bytes, long, holds, read⟩ := unpack_from_reads fits wb_init_holds packed
  rw [List.nil_append] at holds
  refine ⟨bytes, seri_eq holds (by omega), long, ?_⟩
  rw [luaseri_unpack]
  split
  case isTrue none =>
    have nothing := read 1 (by omega)
    obtain rfl : bytes = [] := List.length_eq_zero_iff.mp none
    exact nothing
  case isFalse => exact read _ (Nat.lt_succ_self _)

/-! ## What can be packed -/

mutual

/-- A value that `pack_one` takes at this depth. -/
def Value.Packs (v : Value) (depth : Nat) : Prop :=
  depth ≤ MAX_DEPTH ∧
    match v with
    | .table array hash => PacksArray array (depth + 1) ∧ PacksHash hash (depth + 1)
    | .other _ => False
    | _ => True

def PacksArray : List Value → Nat → Prop
  | [], _ => True
  | v :: rest, depth => v.Packs depth ∧ PacksArray rest depth

def PacksHash : List (Value × Value) → Nat → Prop
  | [], _ => True
  | (key, value) :: rest, depth => key.Packs depth ∧ value.Packs depth ∧ PacksHash rest depth

end

mutual

theorem pack_one_iff (v : Value) (b : WriteBlock) (depth : Nat) :
    (∃ b', pack_one v b depth = .ok b') ↔ v.Packs depth := by
  rw [pack_one.eq_def, Value.Packs.eq_def]
  split
  case isTrue deep =>
    refine ⟨fun packed => ?_, fun packs => absurd packs.1 (Nat.not_le.mpr deep)⟩
    obtain ⟨_, packed⟩ := packed
    cases packed
  case isFalse shallow =>
    rw [and_iff_right (Nat.not_lt.mp shallow)]
    cases v with
    | table array hash =>
        constructor
        · rintro ⟨b', packed⟩
          obtain ⟨b₁, array_packed, packed⟩ := bind_eq_ok.mp packed
          obtain ⟨b₂, hash_packed, packed⟩ := bind_eq_ok.mp packed
          exact ⟨(pack_array_iff array _ _).mp ⟨b₁, array_packed⟩,
            (pack_hash_iff hash _ _).mp ⟨b₂, hash_packed⟩⟩
        · rintro ⟨array_packs, hash_packs⟩
          obtain ⟨b₁, array_packed⟩ :=
            (pack_array_iff array (wb_table_size b array.length) _).mpr array_packs
          obtain ⟨b₂, hash_packed⟩ := (pack_hash_iff hash b₁ _).mpr hash_packs
          exact ⟨wb_nil b₂, bind_eq_ok.mpr ⟨b₁, array_packed, bind_eq_ok.mpr ⟨b₂, hash_packed, rfl⟩⟩⟩
    | other typename =>
        refine ⟨fun packed => ?_, False.elim⟩
        obtain ⟨_, packed⟩ := packed
        cases packed
    | _ => exact ⟨fun _ => trivial, fun _ => ⟨_, rfl⟩⟩

theorem pack_array_iff (array : List Value) (b : WriteBlock) (depth : Nat) :
    (∃ b', pack_array array b depth = .ok b') ↔ PacksArray array depth := by
  cases array with
  | nil => exact ⟨fun _ => trivial, fun _ => ⟨b, rfl⟩⟩
  | cons v array =>
      constructor
      · rintro ⟨b', packed⟩
        obtain ⟨b₁, first, later⟩ := bind_eq_ok.mp packed
        exact ⟨(pack_one_iff v _ _).mp ⟨b₁, first⟩, (pack_array_iff array _ _).mp ⟨b', later⟩⟩
      · rintro ⟨packs, more⟩
        obtain ⟨b₁, first⟩ := (pack_one_iff v b _).mpr packs
        obtain ⟨b', later⟩ := (pack_array_iff array b₁ _).mpr more
        exact ⟨b', bind_eq_ok.mpr ⟨b₁, first, later⟩⟩

theorem pack_hash_iff (hash : List (Value × Value)) (b : WriteBlock) (depth : Nat) :
    (∃ b', pack_hash hash b depth = .ok b') ↔ PacksHash hash depth := by
  cases hash with
  | nil => exact ⟨fun _ => trivial, fun _ => ⟨b, rfl⟩⟩
  | cons entry hash =>
      obtain ⟨key, value⟩ := entry
      constructor
      · rintro ⟨b', packed⟩
        obtain ⟨b₁, first, packed⟩ := bind_eq_ok.mp packed
        obtain ⟨b₂, second, later⟩ := bind_eq_ok.mp packed
        exact ⟨(pack_one_iff key _ _).mp ⟨b₁, first⟩, (pack_one_iff value _ _).mp ⟨b₂, second⟩,
          (pack_hash_iff hash _ _).mp ⟨b', later⟩⟩
      · rintro ⟨key_packs, value_packs, more⟩
        obtain ⟨b₁, first⟩ := (pack_one_iff key b _).mpr key_packs
        obtain ⟨b₂, second⟩ := (pack_one_iff value b₁ _).mpr value_packs
        obtain ⟨b', later⟩ := (pack_hash_iff hash b₂ _).mpr more
        exact ⟨b', bind_eq_ok.mpr ⟨b₁, first, bind_eq_ok.mpr ⟨b₂, second, later⟩⟩⟩

end

/-- As long as the whole fits an `int`, `luaseri_pack` raises no error exactly when each value packs, and
what it has packed is unpacked. -/
theorem unpack_pack {values : List Value} (fits : FitsArray values)
    (small : sizeArray values < 2 ^ 31) :
    ((∃ bytes, luaseri_pack values = .ok bytes) ↔ PacksArray values 0) ∧
      ∀ bytes, luaseri_pack values = .ok bytes →
        bytes.length = sizeArray values ∧ luaseri_unpack bytes = .ok values := by
  constructor
  · constructor
    · rintro ⟨bytes, packed⟩
      obtain ⟨wb, written, -⟩ := bind_eq_ok.mp packed
      exact (pack_array_iff values _ _).mp ⟨wb, written⟩
    · intro packs
      obtain ⟨wb, written⟩ := (pack_array_iff values wb_init _).mpr packs
      obtain ⟨bytes, copied, -⟩ := luaseri_unpack_packed fits small written
      exact ⟨bytes, bind_eq_ok.mpr ⟨wb, written, copied⟩⟩
  · intro bytes packed
    obtain ⟨wb, written, copied⟩ := bind_eq_ok.mp packed
    obtain ⟨bytes', copied', long, read⟩ := luaseri_unpack_packed fits small written
    rw [copied] at copied'
    cases copied'
    exact ⟨long, read⟩

/-- Two values, one of them a table with an array and another entry. -/
def sampleValues : List Value :=
  [.string [104, 105], .table [.integer 7, .nil] [(.boolean true, .real 0)]]

theorem sampleValues_fits : FitsArray sampleValues := by
  simp [sampleValues, FitsArray, FitsHash, Value.Fits, Value.isNil, Value.isNaN]

theorem unpack_pack_sample :
    ∃ bytes, luaseri_pack sampleValues = .ok bytes ∧ bytes.length = 18 ∧
      luaseri_unpack bytes = .ok sampleValues := by
  have whole := unpack_pack sampleValues_fits (by decide)
  have packs : PacksArray sampleValues 0 := by
    simp [sampleValues, PacksArray, PacksHash, Value.Packs, MAX_DEPTH]
  obtain ⟨bytes, packed⟩ := whole.1.mpr packs
  obtain ⟨long, read⟩ := whole.2 bytes packed
  exact ⟨bytes, packed, long.trans (by decide), read⟩

/-! ## `luaseri_unpack` ends -/

theorem consumes_rb_read (line sz : Nat) (rb : Bytes) :
    Consumes .bound sz rb (rb_read line sz rb) := by
  rw [rb_read]
  split
  case isTrue => exact nofun
  case isFalse long =>
    show (rb.drop sz).length + sz ≤ rb.length
    rw [List.length_drop]
    omega

/-- Reads so many bytes, and makes something of them. -/
theorem consumes_made {α : Type} (line sz : Nat) {rb : Bytes} {g : Bytes × Bytes → α × Bytes}
    (same : ∀ p, (g p).2 = p.2) :
    Consumes .bound 0 rb (rb_read line sz rb >>= fun p => pure (g p)) :=
  ((consumes_rb_read line sz rb).map same).mono (Nat.zero_le _)

theorem consumes_get_integer (cookie : Nat) (rb : Bytes) :
    Consumes .bound 0 rb (get_integer cookie rb) := by
  rw [get_integer]
  split
  · exact .ok _ rb
  split
  · exact consumes_made 368 1 fun _ => rfl
  split
  · exact consumes_made 376 2 fun _ => rfl
  split
  · exact consumes_made 384 4 fun _ => rfl
  split
  · exact consumes_made 392 8 fun _ => rfl
  · exact nofun

theorem consumes_get_buffer (len : Nat) (rb : Bytes) :
    Consumes .bound 0 rb (get_buffer len rb) := by
  rw [get_buffer]
  split
  case isTrue => exact nofun
  case isFalse => exact consumes_made 427 len fun _ => rfl

theorem consumes_array_size (cookie : Nat) (rb : Bytes) :
    Consumes .bound 0 rb (array_size cookie rb) := by
  rw [array_size]
  split
  case isTrue =>
    refine ((consumes_rb_read 440 1 rb).bind (j := 0) fun t _ => ?_).mono (Nat.zero_le _)
    dsimp only
    split
    case isTrue => exact nofun
    case isFalse => exact (consumes_get_integer _ t.2).map fun _ => rfl
  case isFalse => exact .ok _ rb

section Tables

variable {one : Bytes → Except Failure (Value × Bytes)} {n : Nat}
  (reads : ∀ rb, rb.length < n → Consumes .bound 1 rb (one rb))

include reads

theorem consumes_unpack_array (size : Nat) {rb : Bytes} (short : rb.length < n) :
    Consumes .bound 0 rb (unpack_array one size rb) := by
  induction size generalizing rb with
  | zero => exact .ok _ rb
  | succ size ih =>
      refine ((reads rb short).bind (j := 0) fun v less => ?_).mono (Nat.zero_le _)
      exact (ih (by omega)).map fun _ => rfl

theorem consumes_unpack_hash {limit : Nat} {rb : Bytes} (short : rb.length < n)
    (enough : rb.length < limit) :
    Consumes .bound 0 rb (unpack_hash one limit rb) := by
  induction limit generalizing rb with
  | zero => exact absurd enough (Nat.not_lt_zero _)
  | succ limit ih =>
      refine ((reads rb short).bind (j := 0) fun key less => ?_).mono (Nat.zero_le _)
      split
      case isTrue => exact .ok _ key.2
      case isFalse =>
        refine ((reads key.2 (by omega)).bind (j := 0) fun value fewer => ?_).mono (Nat.zero_le _)
        split
        case isTrue => exact nofun
        case isFalse => exact (ih (by omega) (by omega)).map fun _ => rfl

theorem consumes_unpack_table (cookie : Nat) {rb : Bytes} (short : rb.length < n) :
    Consumes .bound 0 rb (unpack_table one cookie rb) := by
  refine (consumes_array_size cookie rb).bind (j := 0) fun size less => ?_
  refine (consumes_unpack_array reads size.1 (by omega)).bind (j := 0) fun array fewer => ?_
  exact (consumes_unpack_hash reads (by omega) (Nat.lt_succ_self _)).map fun _ => rfl

/-- `push_value` reads on, and the bound is not reached where it is not reached in the values of a
table. -/
theorem consumes_push_value (type cookie : Nat) {rb : Bytes} (short : rb.length < n) :
    Consumes .bound 0 rb (push_value one type cookie rb) := by
  have sized : ∀ line sz, Consumes .bound 0 rb
      (rb_read line sz rb >>= fun n => get_buffer (decode n.1) n.2) := fun line sz =>
    ((consumes_rb_read line sz rb).bind fun n _ => consumes_get_buffer _ n.2).mono (Nat.zero_le _)
  rw [push_value]
  split
  · exact .ok _ rb
  split
  · exact .ok _ rb
  split
  · split
    · have real : Consumes .bound 0 rb (get_real rb) := consumes_made 407 8 fun _ => rfl
      exact real.map fun _ => rfl
    · exact (consumes_get_integer cookie rb).map fun _ => rfl
  split
  · have pointer : Consumes .bound 0 rb (get_pointer rb) := consumes_made 417 8 fun _ => rfl
    exact pointer.map fun _ => rfl
  split
  · exact consumes_get_buffer cookie rb
  split
  · split
    · exact sized 493 2
    split
    · exact nofun
    · exact sized 504 4
  split
  · exact consumes_unpack_table reads cookie short
  · exact nofun

end Tables

/-- `unpack_one` reads a byte at least, and so never recurs deeper than there are bytes. -/
theorem consumes_unpack_one {bound : Nat} {rb : Bytes} (enough : rb.length < bound) :
    Consumes .bound 1 rb (unpack_one bound rb) := by
  induction bound generalizing rb with
  | zero => exact absurd enough (Nat.not_lt_zero _)
  | succ bound ih =>
      refine (consumes_rb_read 528 1 rb).bind (j := 0) fun t less => ?_
      exact consumes_push_value (fun rb short => ih short) _ _ (by omega)

theorem unpack_from_ends {bound : Nat} {rb : Bytes} (enough : rb.length < bound) :
    unpack_from bound rb ≠ .error .bound := by
  induction bound generalizing rb with
  | zero => exact absurd enough (Nat.not_lt_zero _)
  | succ bound ih =>
      rw [unpack_from]
      split
      case isTrue => exact nofun
      case isFalse =>
        have first := consumes_unpack_one enough
        cases read : unpack_one (bound + 1) rb with
        | error e =>
            rw [read] at first
            intro reached
            exact first (Except.error.inj reached)
        | ok v =>
            rw [read] at first
            have less : v.2.length + 1 ≤ rb.length := first
            have later : unpack_from bound v.2 ≠ .error .bound := ih (by omega)
            rw [ok_bind]
            cases more : unpack_from bound v.2 with
            | error e =>
                rw [more] at later
                exact later
            | ok values => exact nofun

/-- `luaseri_unpack` ends on every buffer, with values or with an error of the code. What the Lua
stack, the C stack and the memory have room for is left out. -/
theorem unpack_ends (buffer : Bytes) : luaseri_unpack buffer ≠ .error .bound := by
  rw [luaseri_unpack]
  split
  case isTrue => exact nofun
  case isFalse => exact unpack_from_ends (Nat.lt_succ_self _)

-- the table ends before its array does
example : luaseri_unpack [combine TYPE_TABLE 1] = .error (.invalid 0 528) := rfl

end Seri

end RillServer.Skynet
