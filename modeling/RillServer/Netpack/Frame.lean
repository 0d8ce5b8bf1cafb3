import RillServer.Lib.Bytes
import Mathlib.Data.Fin.VecNotation

/-!
# Frame headers

`lualib-src/lua-websocketnetpack.c`. `readSize` reads the header of a WebSocket frame. It returns
the length of the payload, or one of three negative numbers: `-1` when there are not enough bytes
yet, `-2` when the two first bytes are to be thrown away, `-3` for a close frame.

`Frame` is the other side of the wire: what a client may send, with the three encodings of the
length. `readSize` reads back the header of every frame that is not too long for a C `int`
(`readSize_header_append`) and waits for more on each beginning of one (`readSize_short`).
-/

namespace RillServer.Netpack

open BigEndian

/-- `WEBSOCKET_MASK_LEN` bytes. -/
abbrev Mask := Fin 4 → UInt8

instance maskLenNeZero : NeZero 4 := ⟨by decide⟩

/-- What `read_size` returns and writes through its pointers. The mask is written together with
`ismask`. -/
structure Head where
  size : Int
  packHeadLength : Nat := 0
  mask : Option Mask := none

/-- On a host with the other byte order: two words are swapped, and so is each of them. -/
def ntoh64 (bytes : Bytes) : Nat := decode (bytes.take 4) * 2 ^ 32 + decode (bytes.drop 4)

/-- The value of a number after it was stored in an `int`. -/
def toInt (n : Nat) : Int := (BitVec.ofNat 32 n).toInt

/-- `read_size` from the mask on. The bytes are those after `offset`. -/
def readMask (isMask : Bool) (packSize : Int) (offset : Nat) (bytes : Bytes) : Head :=
  if isMask then
    match bytes with
    | m₀ :: m₁ :: m₂ :: m₃ :: _ =>
        { size := packSize, packHeadLength := offset + 4, mask := some ![m₀, m₁, m₂, m₃] }
    | _ => { size := -1 }
  else { size := packSize, packHeadLength := offset }

/-- `read_size` from the length on. The bytes are those after the first two. -/
def readLength (isMask : Bool) (length : UInt8) (bytes : Bytes) : Head :=
  if length < 0x7E then readMask isMask length.toNat 2 bytes
  else if length = 0x7E then
    if bytes.length < 2 then { size := -1 }
    else readMask isMask (decode (bytes.take 2)) 4 (bytes.drop 2)
  else if bytes.length < 8 then { size := -1 }
  else readMask isMask (toInt (ntoh64 (bytes.take 8))) 10 (bytes.drop 8)

/-- `read_size`. -/
def readSize : Bytes → Head
  | b₀ :: b₁ :: bytes =>
      let fin := b₀ >>> 7 &&& 0x1
      let rsv1 := b₀ >>> 6 &&& 0x1
      let rsv2 := b₀ >>> 5 &&& 0x1
      let rsv3 := b₀ >>> 4 &&& 0x1
      let opcode := b₀ &&& 0xf
      let isMask := b₁ >>> 7 &&& 0x1
      if rsv1 ≠ 0 ∨ rsv2 ≠ 0 ∨ rsv3 ≠ 0 then { size := -2 }
      else if fin = 0 ∨ opcode = 0 then { size := -2 }
      else if opcode = 8 then { size := -3 }
      else readLength (isMask != 0) (b₁ &&& 0x7f) bytes
  | _ => { size := -1 }

/-! ## Frames on the wire -/

/-- How the length of a payload is written. -/
inductive LengthField where
  | seven
  | sixteen
  | sixtyFour
  deriving DecidableEq

namespace LengthField

/-- The lengths that can be written so. -/
def Fits : LengthField → Nat → Prop
  | seven, n => n < 126
  | sixteen, n => n < 256 ^ 2
  | sixtyFour, n => n < 256 ^ 8

instance (field : LengthField) (n : Nat) : Decidable (field.Fits n) := by
  cases field <;> exact inferInstanceAs (Decidable (_ < _))

/-- The length in the second byte of a frame. -/
def code : LengthField → Nat → Nat
  | seven, n => n
  | sixteen, _ => 126
  | sixtyFour, _ => 127

/-- The length after the second byte. -/
def extended : LengthField → Nat → Bytes
  | seven, _ => []
  | sixteen, n => encode 2 n
  | sixtyFour, n => encode 8 n

theorem code_lt {field : LengthField} {n : Nat} (fits : field.Fits n) : field.code n < 128 := by
  cases field with
  | seven => exact Nat.lt_trans fits (by decide)
  | sixteen => simp [code]
  | sixtyFour => simp [code]

end LengthField

/-- A frame with FIN set and no reserved bit. -/
structure Frame where
  opcode : Fin 16
  lengthField : LengthField
  mask : Option Mask
  payload : Bytes
  fits : lengthField.Fits payload.length

namespace Frame

def firstByte (f : Frame) : UInt8 := UInt8.ofNat (128 + f.opcode)

def secondByte (f : Frame) : UInt8 :=
  UInt8.ofNat ((if f.mask.isSome then 128 else 0) + f.lengthField.code f.payload.length)

def extendedLength (f : Frame) : Bytes := f.lengthField.extended f.payload.length

def maskBytes (f : Frame) : Bytes :=
  match f.mask with
  | none => []
  | some mask => [mask 0, mask 1, mask 2, mask 3]

def header (f : Frame) : Bytes :=
  f.firstByte :: f.secondByte :: (f.extendedLength ++ f.maskBytes)

/-- The payload as it is sent. -/
def body (f : Frame) : Bytes :=
  match f.mask with
  | none => f.payload
  | some mask => xorCyclic mask 0 f.payload

def encode (f : Frame) : Bytes := f.header ++ f.body

@[simp]
theorem length_body (f : Frame) : f.body.length = f.payload.length := by
  unfold body
  cases f.mask with
  | none => rfl
  | some mask => exact length_xorCyclic mask 0 _

theorem two_le_length_header (f : Frame) : 2 ≤ f.header.length := by
  simp [header]

end Frame

/-- A frame that carries data the server takes as it is: not a continuation, not a close frame,
and not longer than `MAX_PACKSIZE`. -/
structure DataFrame extends Frame where
  notContinuation : opcode ≠ 0
  notClose : opcode ≠ 8
  short : payload.length ≤ 10 * 1024

/-! ## Reading a header back -/

theorem firstByte_bits (opcode : Fin 16) :
    let b := UInt8.ofNat (128 + opcode)
    (b >>> 7 &&& 0x1 = 1) ∧ (b >>> 6 &&& 0x1 = 0) ∧ (b >>> 5 &&& 0x1 = 0) ∧
      (b >>> 4 &&& 0x1 = 0) ∧ (b &&& 0xf = UInt8.ofNat opcode) := by
  revert opcode
  decide

theorem secondByte_bits (isMask : Bool) (code : Fin 128) :
    let b := UInt8.ofNat ((if isMask then 128 else 0) + code)
    ((b >>> 7 &&& 0x1 != 0) = isMask) ∧ (b &&& 0x7f = UInt8.ofNat code) := by
  revert isMask code
  decide

theorem readSize_of_data (f : Frame) (notContinuation : f.opcode ≠ 0) (notClose : f.opcode ≠ 8)
    (bytes : Bytes) :
    readSize (f.firstByte :: f.secondByte :: bytes) =
      readLength f.mask.isSome (UInt8.ofNat (f.lengthField.code f.payload.length)) bytes := by
  obtain ⟨fin, rsv1, rsv2, rsv3, opcode⟩ := firstByte_bits f.opcode
  obtain ⟨isMask, length⟩ :=
    secondByte_bits f.mask.isSome ⟨_, LengthField.code_lt f.fits⟩
  have data : ∀ opcode : Fin 16, opcode ≠ 0 → opcode ≠ 8 →
      UInt8.ofNat opcode ≠ 0 ∧ UInt8.ofNat opcode ≠ 8 := by decide
  obtain ⟨notZero, notEight⟩ := data f.opcode notContinuation notClose
  simp only at fin rsv1 rsv2 rsv3 opcode isMask length
  simp only [readSize, Frame.firstByte, Frame.secondByte, fin, rsv1, rsv2, rsv3, opcode, isMask,
    length, notZero, notEight]
  simp

theorem readSize_of_close (f : Frame) (close : f.opcode = 8) (b : UInt8) (bytes : Bytes) :
    readSize (f.firstByte :: b :: bytes) = { size := -3 } := by
  have first : f.firstByte = 0x88 := by
    unfold Frame.firstByte
    rw [close]
    decide
  have bits : ((0x88 : UInt8) >>> 6 &&& 0x1 = 0) ∧ ((0x88 : UInt8) >>> 5 &&& 0x1 = 0) ∧
      ((0x88 : UInt8) >>> 4 &&& 0x1 = 0) ∧ ((0x88 : UInt8) >>> 7 &&& 0x1 = 1) ∧
      ((0x88 : UInt8) &&& 0xf = 8) := by decide
  obtain ⟨rsv1, rsv2, rsv3, fin, opcode⟩ := bits
  simp only [readSize, first, rsv1, rsv2, rsv3, fin, opcode]
  simp

theorem toInt_of_lt {n : Nat} (small : n < 2 ^ 31) : toInt n = n := by
  unfold toInt
  rw [BitVec.toInt_eq_toNat_of_lt] <;> simp <;> omega

theorem ntoh64_encode {n : Nat} (fits : n < 256 ^ 8) : ntoh64 (encode 8 n) = n := by
  have halves : encode 8 n = (encode 8 n).take 4 ++ (encode 8 n).drop 4 :=
    (List.take_append_drop 4 _).symm
  have whole := decode_encode fits
  rw [halves, decode_append] at whole
  simpa [ntoh64] using whole

/-- What `read_size` makes of a length: the 64 bits of the long form go into an `int`. -/
def LengthField.received : LengthField → Nat → Int
  | seven, n => n
  | sixteen, n => n
  | sixtyFour, n => toInt n

theorem LengthField.received_of_lt (field : LengthField) {n : Nat} (small : n < 2 ^ 31) :
    field.received n = n := by
  cases field with
  | seven => rfl
  | sixteen => rfl
  | sixtyFour => exact toInt_of_lt small

/-- The length of a frame is read, whatever follows it. -/
theorem readLength_received (f : Frame) (bytes : Bytes) :
    readLength f.mask.isSome (UInt8.ofNat (f.lengthField.code f.payload.length))
        (f.extendedLength ++ bytes) =
      readMask f.mask.isSome (f.lengthField.received f.payload.length)
        (2 + f.extendedLength.length) bytes := by
  have fits := f.fits
  unfold Frame.extendedLength
  cases field : f.lengthField with
  | seven =>
      rw [field] at fits
      have less : f.payload.length < 126 := fits
      have byte : (UInt8.ofNat f.payload.length).toNat = f.payload.length := by
        simp only [UInt8.toNat_ofNat']
        omega
      have below : UInt8.ofNat f.payload.length < 0x7E := by
        rw [UInt8.lt_iff_toNat_lt, byte]
        exact less
      simp only [LengthField.code, LengthField.extended, LengthField.received, readLength,
        if_pos below, byte, List.nil_append, List.length_nil, Nat.add_zero]
  | sixteen =>
      rw [field] at fits
      have long : ¬ UInt8.ofNat 126 < 0x7E := by decide
      have short : UInt8.ofNat 126 = 0x7E := rfl
      have enough : ¬ (encode 2 f.payload.length ++ bytes).length < 2 := by
        rw [List.length_append, length_encode]
        omega
      have number : (encode 2 f.payload.length ++ bytes).take 2 = encode 2 f.payload.length :=
        List.take_left' (length_encode 2 _)
      have rest : (encode 2 f.payload.length ++ bytes).drop 2 = bytes :=
        List.drop_left' (length_encode 2 _)
      simp only [LengthField.code, LengthField.extended, LengthField.received, readLength,
        if_neg long, if_pos short, if_neg enough, number, rest, decode_encode fits, length_encode]
  | sixtyFour =>
      rw [field] at fits
      have long : ¬ UInt8.ofNat 127 < 0x7E := by decide
      have longer : ¬ UInt8.ofNat 127 = 0x7E := by decide
      have enough : ¬ (encode 8 f.payload.length ++ bytes).length < 8 := by
        rw [List.length_append, length_encode]
        omega
      have number : (encode 8 f.payload.length ++ bytes).take 8 = encode 8 f.payload.length :=
        List.take_left' (length_encode 8 _)
      have rest : (encode 8 f.payload.length ++ bytes).drop 8 = bytes :=
        List.drop_left' (length_encode 8 _)
      simp only [LengthField.code, LengthField.extended, LengthField.received, readLength,
        if_neg long, if_neg longer, if_neg enough, number, rest, ntoh64_encode fits, length_encode]

theorem readLength_append (f : Frame) (small : f.payload.length < 2 ^ 31) (bytes : Bytes) :
    readLength f.mask.isSome (UInt8.ofNat (f.lengthField.code f.payload.length))
        (f.extendedLength ++ bytes) =
      readMask f.mask.isSome f.payload.length (2 + f.extendedLength.length) bytes := by
  rw [readLength_received, LengthField.received_of_lt _ small]

theorem readMask_append (f : Frame) (packSize : Int) (offset : Nat) (bytes : Bytes) :
    readMask f.mask.isSome packSize offset (f.maskBytes ++ bytes) =
      { size := packSize, packHeadLength := offset + f.maskBytes.length, mask := f.mask } := by
  unfold Frame.maskBytes
  cases f.mask with
  | none => simp [readMask]
  | some mask =>
      have same : ![mask 0, mask 1, mask 2, mask 3] = mask := by
        funext i
        match i with
        | 0 | 1 | 2 | 3 => rfl
      simp [readMask, same]

/-- The header of a frame that is neither a continuation nor a close frame is read, whatever follows
it. -/
theorem readSize_header_received (f : Frame) (notContinuation : f.opcode ≠ 0)
    (notClose : f.opcode ≠ 8) (bytes : Bytes) :
    readSize (f.header ++ bytes) =
      { size := f.lengthField.received f.payload.length
        packHeadLength := f.header.length
        mask := f.mask } := by
  have length : 2 + f.extendedLength.length + f.maskBytes.length = f.header.length := by
    simp only [Frame.header, List.length_cons, List.length_append]
    omega
  rw [← length, Frame.header, List.cons_append, List.cons_append,
    readSize_of_data _ notContinuation notClose, List.append_assoc, readLength_received,
    readMask_append]

/-- The header of a data frame is read back, whatever follows it. -/
theorem readSize_header_append (f : DataFrame) (bytes : Bytes) :
    readSize (f.header ++ bytes) =
      { size := f.payload.length, packHeadLength := f.header.length, mask := f.mask } := by
  have small : f.payload.length < 2 ^ 31 := Nat.lt_of_le_of_lt f.short (by decide)
  rw [readSize_header_received _ f.notContinuation f.notClose, LengthField.received_of_lt _ small]

theorem readLength_short (f : Frame) {bytes : Bytes}
    (short : bytes.length < f.extendedLength.length) :
    (readLength f.mask.isSome (UInt8.ofNat (f.lengthField.code f.payload.length)) bytes).size =
      -1 := by
  unfold Frame.extendedLength at short
  cases field : f.lengthField with
  | seven =>
      rw [field] at short
      exact absurd short (by simp [LengthField.extended])
  | sixteen =>
      rw [field] at short
      have less : bytes.length < 2 := by simpa [LengthField.extended] using short
      simp [LengthField.code, readLength, less]
  | sixtyFour =>
      rw [field] at short
      have less : bytes.length < 8 := by simpa [LengthField.extended] using short
      simp [LengthField.code, readLength, less]

theorem readMask_short (f : Frame) (packSize : Int) (offset : Nat) {bytes : Bytes}
    (short : bytes.length < f.maskBytes.length) :
    (readMask f.mask.isSome packSize offset bytes).size = -1 := by
  unfold Frame.maskBytes at short
  cases present : f.mask with
  | none =>
      rw [present] at short
      exact absurd short (by simp)
  | some mask =>
      rw [present] at short
      have less : bytes.length < 4 := short
      match bytes with
      | [] | [_] | [_, _] | [_, _, _] => rfl
      | _ :: _ :: _ :: _ :: _ =>
          simp only [List.length_cons] at less
          omega

/-- Whatever part of a header has arrived, `read_size` waits for the rest. -/
theorem readSize_short (f : DataFrame) {bytes rest : Bytes} (parts : bytes ++ rest = f.header)
    (more : rest ≠ []) : (readSize bytes).size = -1 := by
  have missing : 0 < rest.length := List.length_pos_iff.mpr more
  match bytes with
  | [] => rfl
  | [_] => rfl
  | b₀ :: b₁ :: bytes =>
      simp only [Frame.header, List.cons_append, List.cons.injEq] at parts
      obtain ⟨rfl, rfl, tails⟩ := parts
      rw [readSize_of_data _ f.notContinuation f.notClose]
      have lengths := congrArg List.length tails
      simp only [List.length_append] at lengths
      by_cases inLength : bytes.length < f.extendedLength.length
      · exact readLength_short _ inLength
      · -- the length is there, so some byte of the mask is not
        have small : f.payload.length < 2 ^ 31 := Nat.lt_of_le_of_lt f.short (by decide)
        have split : bytes = f.extendedLength ++ bytes.drop f.extendedLength.length := by
          have start := congrArg (List.take f.extendedLength.length) tails
          rw [List.take_append_of_le_length (by omega), List.take_left] at start
          calc bytes
              = bytes.take f.extendedLength.length ++ bytes.drop f.extendedLength.length :=
                (List.take_append_drop _ _).symm
            _ = _ := by rw [start]
        rw [split, readLength_append _ small]
        apply readMask_short
        rw [List.length_drop]
        omega

end RillServer.Netpack
