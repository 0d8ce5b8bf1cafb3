import RillServer.Lib.Bytes

/-!
# Packing messages

`lualib-src/lua-seri.c`, with which services pack the Lua values of a message into a buffer and unpack
them. A `WriteBlock` is a chain of blocks; `WriteBlock.Holds` says which bytes were pushed into it
(`wb_push_holds`), and `seri` copies these into one buffer (`seri_eq`). Numbers and pointers are in the
byte order of the host, which is little endian.
-/

namespace RillServer.Skynet

namespace Seri

open LittleEndian

def TYPE_NIL : Nat := 0
def TYPE_BOOLEAN : Nat := 1
def TYPE_NUMBER : Nat := 2
def TYPE_NUMBER_ZERO : Nat := 0
def TYPE_NUMBER_BYTE : Nat := 1
def TYPE_NUMBER_WORD : Nat := 2
def TYPE_NUMBER_DWORD : Nat := 4
def TYPE_NUMBER_QWORD : Nat := 6
def TYPE_NUMBER_REAL : Nat := 8
def TYPE_USERDATA : Nat := 3
def TYPE_SHORT_STRING : Nat := 4
def TYPE_LONG_STRING : Nat := 5
def TYPE_TABLE : Nat := 6
def MAX_COOKIE : Nat := 32
def BLOCK_SIZE : Nat := 128
def MAX_DEPTH : Nat := 32

/-- `COMBINE_TYPE`. -/
def combine (t v : Nat) : UInt8 := UInt8.ofNat (t ||| v <<< 3)

/-- A Lua value. A table is given by what `lua_rawgeti` reads from 1 to `lua_rawlen` and by its other
entries in the order of `lua_next`; a table with `__pairs` by what that gives, all as other entries. A
table that is unpacked is given by what is stored with `lua_rawseti` and with `lua_rawset`. -/
inductive Value : Type where
  | nil
  | boolean (b : Bool)
  | integer (v : BitVec 64)
  /-- the bits of a `double` -/
  | real (n : BitVec 64)
  | lightuserdata (v : BitVec 64)
  | string (str : Bytes)
  | table (array : List Value) (hash : List (Value × Value))
  | other (typename : String)

/-- The errors that are raised. With `aborted` the process ends, as it cannot have so much memory. The
last is no error of the code: the bound on the recursion was too low. -/
inductive Failure : Type where
  | tooDeep
  | unsupported (typename : String)
  | invalid (len line : Nat)
  | tooBig
  | indexNaN
  | aborted (size : Nat)
  | bound

/-- The text of an error. -/
def Failure.message : Failure → String
  | .tooDeep => "serialize can't pack too depth table"
  | .unsupported typename => "Unsupport type " ++ typename ++ " to serialize"
  | .invalid len line =>
      "Invalid serialize stream " ++ toString len ++ " (line:" ++ toString line ++ ")"
  | .tooBig => "memory allocation error: block too big"
  | .indexNaN => "table index is NaN"
  | .aborted size =>
      "xmalloc: Out of memory trying to allocate " ++ toString size ++ " bytes"
  | .bound => ""

/-! ## The blocks that are written -/

/-- `struct write_block`: the blocks before the current one, what is in the current one up to `ptr`, and
`len`, an `int`. -/
structure WriteBlock where
  full : List Bytes
  current : Bytes
  len : Int

namespace WriteBlock

/-- `wb_init`. -/
def wb_init : WriteBlock := ⟨[], [], 0⟩

/-- Goes on to a new block. -/
def blk_alloc (b : WriteBlock) : WriteBlock := { b with full := b.full ++ [b.current], current := [] }

/-- One `memcpy` into the current block. -/
def copy (b : WriteBlock) (buf : Bytes) : WriteBlock :=
  { b with current := b.current ++ buf, len := (b.len + buf.length).bmod (2 ^ 32) }

/-- `wb_push` from the label `_again` on. -/
def again (b : WriteBlock) (buf : Bytes) : WriteBlock :=
  if buf.length ≤ BLOCK_SIZE then b.blk_alloc.copy buf
  else again (b.blk_alloc.copy (buf.take BLOCK_SIZE)) (buf.drop BLOCK_SIZE)
termination_by buf.length
decreasing_by
  rw [List.length_drop, BLOCK_SIZE] at *
  omega

/-- `wb_push`. -/
def wb_push (b : WriteBlock) (buf : Bytes) : WriteBlock :=
  let ptr := b.current.length
  if ptr = BLOCK_SIZE then b.again buf
  else if ptr + buf.length ≤ BLOCK_SIZE then b.copy buf
  else (b.copy (buf.take (BLOCK_SIZE - ptr))).again (buf.drop (BLOCK_SIZE - ptr))

/-- The blocks from `head` on. -/
def chain (b : WriteBlock) : List Bytes := b.full ++ [b.current]

/-- The bytes that were pushed are in the blocks, and every block before the current one is full. -/
structure Holds (b : WriteBlock) (bytes : Bytes) : Prop where
  full : ∀ block ∈ b.full, block.length = BLOCK_SIZE
  fits : b.current.length ≤ BLOCK_SIZE
  pushed : b.full.flatten ++ b.current = bytes
  len : b.len = (bytes.length : Int).bmod (2 ^ 32)

theorem wb_init_holds : wb_init.Holds [] where
  full := by simp [wb_init]
  fits := Nat.zero_le _
  pushed := rfl
  len := rfl

variable {b : WriteBlock} {bytes : Bytes}

theorem Holds.blk_alloc (holds : b.Holds bytes) (whole : b.current.length = BLOCK_SIZE) :
    b.blk_alloc.Holds bytes where
  full := by
    intro block mem
    rcases List.mem_append.mp mem with before | last
    · exact holds.full block before
    · exact List.mem_singleton.mp last ▸ whole
  fits := Nat.zero_le _
  pushed := by simpa [WriteBlock.blk_alloc] using holds.pushed
  len := holds.len

theorem Holds.copy (holds : b.Holds bytes) (buf : Bytes)
    (fits : b.current.length + buf.length ≤ BLOCK_SIZE) : (b.copy buf).Holds (bytes ++ buf) where
  full := holds.full
  fits := by simpa [WriteBlock.copy] using fits
  pushed := by
    rw [← holds.pushed]
    exact (List.append_assoc ..).symm
  len := by
    rw [WriteBlock.copy, holds.len, Int.bmod_add_bmod, List.length_append, Int.natCast_add]

theorem Holds.again (holds : b.Holds bytes) (buf : Bytes)
    (whole : b.current.length = BLOCK_SIZE) :
    (b.again buf).Holds (bytes ++ buf) := by
  fun_induction WriteBlock.again b buf generalizing bytes with
  | case1 b buf short =>
      apply (holds.blk_alloc whole).copy buf
      simpa [WriteBlock.blk_alloc] using short
  | case2 b buf long ih =>
      have taken : (buf.take BLOCK_SIZE).length = BLOCK_SIZE :=
        List.length_take_of_le (by omega)
      have copied := (holds.blk_alloc whole).copy (buf.take BLOCK_SIZE)
        (by simp [WriteBlock.blk_alloc, taken])
      have rest := ih copied (by simpa [WriteBlock.copy, WriteBlock.blk_alloc] using taken)
      rwa [List.append_assoc, List.take_append_drop] at rest

/-- `wb_push` appends to what was pushed. -/
theorem wb_push_holds (holds : b.Holds bytes) (buf : Bytes) :
    (b.wb_push buf).Holds (bytes ++ buf) := by
  rw [wb_push]
  split
  case isTrue whole => exact holds.again buf whole
  case isFalse partly =>
    split
    case isTrue short => exact holds.copy buf short
    case isFalse long =>
      have fits := holds.fits
      have taken : (buf.take (BLOCK_SIZE - b.current.length)).length = BLOCK_SIZE - b.current.length :=
        List.length_take_of_le (by omega)
      have copied := holds.copy (buf.take (BLOCK_SIZE - b.current.length)) (by omega)
      have rest := copied.again (buf.drop (BLOCK_SIZE - b.current.length))
        (by simp only [WriteBlock.copy, List.length_append]; omega)
      rwa [List.append_assoc, List.take_append_drop] at rest

end WriteBlock

open WriteBlock

/-- The loop of `seri`, from the block that it has reached on. -/
def copyOut : List Bytes → Nat → Bytes
  | [], _ => []
  | b :: next, len =>
      if 0 < len then
        if BLOCK_SIZE ≤ len then b.take BLOCK_SIZE ++ copyOut next (len - BLOCK_SIZE) else b.take len
      else []

/-- `seri`. For `skynet_malloc` a negative `len` is a huge `size_t`. -/
def seri (head : List Bytes) (len : Int) : Except Failure Bytes :=
  if len < 0 then .error (.aborted (len % 2 ^ 64).toNat) else .ok (copyOut head len.toNat)

theorem copyOut_chain {full : List Bytes} {current : Bytes}
    (whole : ∀ block ∈ full, block.length = BLOCK_SIZE) (fits : current.length ≤ BLOCK_SIZE) :
    copyOut (full ++ [current]) (full.flatten.length + current.length) = full.flatten ++ current := by
  induction full with
  | nil =>
      simp only [List.nil_append, List.flatten_nil, List.length_nil, Nat.zero_add, copyOut]
      split
      case isTrue =>
        split
        case isTrue long =>
          exact (congrArg (· ++ []) (List.take_of_length_le fits)).trans (List.append_nil _)
        case isFalse => exact List.take_length
      case isFalse none => exact (List.length_eq_zero_iff.mp (by omega)).symm
  | cons block full ih =>
      have here : block.length = BLOCK_SIZE := whole block List.mem_cons_self
      have rest := ih fun block mem => whole block (List.mem_cons_of_mem _ mem)
      have positive : 0 < BLOCK_SIZE := by decide
      have left : BLOCK_SIZE + full.flatten.length + current.length - BLOCK_SIZE =
          full.flatten.length + current.length := by omega
      rw [List.cons_append, copyOut, List.flatten_cons, List.length_append, here, if_pos (by omega),
        if_pos (by omega), List.take_of_length_le (Nat.le_of_eq here), List.append_assoc, left, rest]

/-- As long as `len` does not overflow, `seri` copies what was pushed. -/
theorem seri_eq {b : WriteBlock} {bytes : Bytes} (holds : b.Holds bytes)
    (small : bytes.length < 2 ^ 31) : seri b.chain b.len = .ok bytes := by
  have len : b.len = bytes.length := by
    rw [holds.len]
    exact Int.bmod_eq_of_le (by omega) (by omega)
  rw [seri, if_neg (by omega), len, Int.toNat_natCast, ← holds.pushed, List.length_append]
  exact congrArg Except.ok (copyOut_chain holds.full holds.fits)

/-! ## Packing -/

def wb_nil (b : WriteBlock) : WriteBlock := b.wb_push [combine TYPE_NIL 0]

def wb_boolean (b : WriteBlock) (boolean : Bool) : WriteBlock :=
  b.wb_push [combine TYPE_BOOLEAN (if boolean then 1 else 0)]

def wb_integer (b : WriteBlock) (v : BitVec 64) : WriteBlock :=
  if v = 0 then b.wb_push [combine TYPE_NUMBER TYPE_NUMBER_ZERO]
  else if v ≠ (v.truncate 32).signExtend 64 then
    (b.wb_push [combine TYPE_NUMBER TYPE_NUMBER_QWORD]).wb_push (encode 8 v.toNat)
  else if v.toInt < 0 then
    (b.wb_push [combine TYPE_NUMBER TYPE_NUMBER_DWORD]).wb_push (encode 4 (v.truncate 32).toNat)
  else if v.toInt < 0x100 then
    (b.wb_push [combine TYPE_NUMBER TYPE_NUMBER_BYTE]).wb_push (encode 1 (v.truncate 8).toNat)
  else if v.toInt < 0x10000 then
    (b.wb_push [combine TYPE_NUMBER TYPE_NUMBER_WORD]).wb_push (encode 2 (v.truncate 16).toNat)
  else
    (b.wb_push [combine TYPE_NUMBER TYPE_NUMBER_DWORD]).wb_push (encode 4 (v.truncate 32).toNat)

def wb_real (b : WriteBlock) (v : BitVec 64) : WriteBlock :=
  (b.wb_push [combine TYPE_NUMBER TYPE_NUMBER_REAL]).wb_push (encode 8 v.toNat)

def wb_pointer (b : WriteBlock) (v : BitVec 64) : WriteBlock :=
  (b.wb_push [combine TYPE_USERDATA 0]).wb_push (encode 8 v.toNat)

def wb_string (b : WriteBlock) (str : Bytes) : WriteBlock :=
  let len := str.length
  if len < MAX_COOKIE then
    let b := b.wb_push [combine TYPE_SHORT_STRING len]
    if 0 < len then b.wb_push str else b
  else if len < 0x10000 then
    ((b.wb_push [combine TYPE_LONG_STRING 2]).wb_push (encode 2 len)).wb_push str
  else ((b.wb_push [combine TYPE_LONG_STRING 4]).wb_push (encode 4 len)).wb_push str

/-- `wb_table_array` before its loop, and `wb_table_metapairs` with size 0. -/
def wb_table_size (b : WriteBlock) (array_size : Nat) : WriteBlock :=
  if MAX_COOKIE - 1 ≤ array_size then
    wb_integer (b.wb_push [combine TYPE_TABLE (MAX_COOKIE - 1)]) (BitVec.ofNat 64 array_size)
  else b.wb_push [combine TYPE_TABLE array_size]

mutual

/-- `pack_one`, with `wb_table`. -/
def pack_one (v : Value) (b : WriteBlock) (depth : Nat) : Except Failure WriteBlock :=
  if MAX_DEPTH < depth then .error .tooDeep
  else
    match v with
    | .nil => .ok (wb_nil b)
    | .integer x => .ok (wb_integer b x)
    | .real n => .ok (wb_real b n)
    | .boolean x => .ok (wb_boolean b x)
    | .string str => .ok (wb_string b str)
    | .lightuserdata p => .ok (wb_pointer b p)
    | .table array hash => do
        let b ← pack_array array (wb_table_size b array.length) (depth + 1)
        let b ← pack_hash hash b (depth + 1)
        return wb_nil b
    | .other typename => .error (.unsupported typename)

/-- The loop of `wb_table_array`. -/
def pack_array : List Value → WriteBlock → Nat → Except Failure WriteBlock
  | [], b, _ => .ok b
  | v :: rest, b, depth => do
      let b ← pack_one v b depth
      pack_array rest b depth

/-- The loop of `wb_table_hash`, or of `wb_table_metapairs`. -/
def pack_hash : List (Value × Value) → WriteBlock → Nat → Except Failure WriteBlock
  | [], b, _ => .ok b
  | (key, value) :: rest, b, depth => do
      let b ← pack_one key b depth
      let b ← pack_one value b depth
      pack_hash rest b depth

end

/-- `luaseri_pack`. The loop of `pack_from` is that over an array. -/
def luaseri_pack (values : List Value) : Except Failure Bytes := do
  let wb ← pack_array values wb_init 0
  seri wb.chain wb.len

/-! ## Unpacking -/

/-- `rb_read`, and the error that its caller raises at this line when there are too few bytes. -/
def rb_read (line sz : Nat) (rb : Bytes) : Except Failure (Bytes × Bytes) :=
  if rb.length < sz then .error (.invalid rb.length line) else .ok (rb.take sz, rb.drop sz)

def get_integer (cookie : Nat) (rb : Bytes) : Except Failure ((BitVec 64) × Bytes) :=
  if cookie = TYPE_NUMBER_ZERO then .ok (0, rb)
  else if cookie = TYPE_NUMBER_BYTE then do
    let n ← rb_read 368 1 rb
    return (BitVec.ofNat 64 (decode n.1), n.2)
  else if cookie = TYPE_NUMBER_WORD then do
    let n ← rb_read 376 2 rb
    return (BitVec.ofNat 64 (decode n.1), n.2)
  else if cookie = TYPE_NUMBER_DWORD then do
    let n ← rb_read 384 4 rb
    return ((BitVec.ofNat 32 (decode n.1)).signExtend 64, n.2)
  else if cookie = TYPE_NUMBER_QWORD then do
    let n ← rb_read 392 8 rb
    return (BitVec.ofNat 64 (decode n.1), n.2)
  else .error (.invalid rb.length 397)

def get_real (rb : Bytes) : Except Failure ((BitVec 64) × Bytes) := do
  let n ← rb_read 407 8 rb
  return (BitVec.ofNat 64 (decode n.1), n.2)

def get_pointer (rb : Bytes) : Except Failure ((BitVec 64) × Bytes) := do
  let v ← rb_read 417 8 rb
  return (BitVec.ofNat 64 (decode v.1), v.2)

/-- `get_buffer`. A length that is negative as an `int` passes `rb_read`, and `lua_pushlstring` refuses
it. -/
def get_buffer (len : Nat) (rb : Bytes) : Except Failure (Value × Bytes) :=
  if 2 ^ 31 ≤ len then .error .tooBig
  else do
    let p ← rb_read 427 len rb
    return (.string p.1, p.2)

/-- The size of the array at the head of `unpack_table`, as its loop counts. -/
def array_size (cookie : Nat) (rb : Bytes) : Except Failure (Nat × Bytes) :=
  if cookie = MAX_COOKIE - 1 then do
    let t ← rb_read 440 1 rb
    let type := decode t.1
    if type &&& 7 ≠ TYPE_NUMBER ∨ type >>> 3 = TYPE_NUMBER_REAL then .error (.invalid t.2.length 445)
    else do
      let n ← get_integer (type >>> 3) t.2
      return ((n.1.truncate 32).toInt.toNat, n.2)
  else .ok (cookie, rb)

def Value.isNil : Value → Bool
  | .nil => true
  | _ => false

/-- A `double` that `lua_rawset` refuses as a key. -/
def Value.isNaN : Value → Bool
  | .real n => 0x7FF0000000000000#64 < (n &&& 0x7FFFFFFFFFFFFFFF#64)
  | _ => false

section Tables

-- what reads one value
variable (one : Bytes → Except Failure (Value × Bytes))

/-- The first loop of `unpack_table`. -/
def unpack_array : Nat → Bytes → Except Failure ((List Value) × Bytes)
  | 0, rb => .ok ([], rb)
  | n + 1, rb => do
      let v ← one rb
      let more ← unpack_array n v.2
      return (v.1 :: more.1, more.2)

/-- The second loop of `unpack_table`. -/
def unpack_hash : Nat → Bytes → Except Failure ((List (Value × Value)) × Bytes)
  | 0, _ => .error .bound
  | bound + 1, rb => do
      let key ← one rb
      if key.1.isNil then return ([], key.2)
      else
        let value ← one key.2
        if key.1.isNaN then .error .indexNaN
        else
          let more ← unpack_hash bound value.2
          return ((key.1, value.1) :: more.1, more.2)

/-- `unpack_table`. -/
def unpack_table (cookie : Nat) (rb : Bytes) : Except Failure (Value × Bytes) := do
  let size ← array_size cookie rb
  let array ← unpack_array one size.1 size.2
  let hash ← unpack_hash one (array.2.length + 1) array.2
  return (.table array.1 hash.1, hash.2)

/-- `push_value`. -/
def push_value (type cookie : Nat) (rb : Bytes) : Except Failure (Value × Bytes) :=
  if type = TYPE_NIL then .ok (.nil, rb)
  else if type = TYPE_BOOLEAN then .ok (.boolean (cookie ≠ 0), rb)
  else if type = TYPE_NUMBER then
    if cookie = TYPE_NUMBER_REAL then do
      let n ← get_real rb
      return (.real n.1, n.2)
    else do
      let n ← get_integer cookie rb
      return (.integer n.1, n.2)
  else if type = TYPE_USERDATA then do
    let p ← get_pointer rb
    return (.lightuserdata p.1, p.2)
  else if type = TYPE_SHORT_STRING then get_buffer cookie rb
  else if type = TYPE_LONG_STRING then
    if cookie = 2 then do
      let n ← rb_read 493 2 rb
      get_buffer (decode n.1) n.2
    else if cookie ≠ 4 then .error (.invalid rb.length 500)
    else do
      let n ← rb_read 504 4 rb
      get_buffer (decode n.1) n.2
  else if type = TYPE_TABLE then unpack_table one cookie rb
  else .error (.invalid rb.length 517)

end Tables

/-- `unpack_one`, with a bound on the recursion. -/
def unpack_one : Nat → Bytes → Except Failure (Value × Bytes)
  | 0, _ => .error .bound
  | bound + 1, rb => do
      let t ← rb_read 528 1 rb
      push_value (unpack_one bound) (decode t.1 &&& 7) (decode t.1 >>> 3) t.2

/-- The loop of `luaseri_unpack`, which does as `unpack_one` but ends with the buffer. -/
def unpack_from : Nat → Bytes → Except Failure (List Value)
  | 0, _ => .error .bound
  | bound + 1, rb =>
      if rb.length < 1 then .ok []
      else do
        let v ← unpack_one (bound + 1) rb
        let more ← unpack_from bound v.2
        return v.1 :: more

/-- `luaseri_unpack`. -/
def luaseri_unpack (buffer : Bytes) : Except Failure (List Value) :=
  if buffer.length = 0 then .ok [] else unpack_from (buffer.length + 1) buffer

end Seri

end RillServer.Skynet
