import RillServer.Netpack.FramePaths
import RillServer.Netpack.Lengths

/-!
# The three encoders

`lpack` of `lua-websocketnetpack.c`, `websocket_block_send` of `lua-clientwebsocket.c` and
`wslib:send_frame` of `lualib/libsocket_ws.lua` write unmasked frames. `read_size` reads each of
their headers back. But `websocket_block_send` copies header and payload to a buffer of `CACHE_SIZE`
bytes, for which the longer ones are too long (`encoders_decoded`).

The two of the server differ at one length: `send_frame` writes 65535 in the 64-bit form
(`encoders_agree_iff`).
-/

namespace RillServer.Netpack

open BigEndian

/-- `FRAME_SET_FIN`. -/
def frameSetFin (b : UInt8) : UInt8 := (b &&& 0x01) <<< 7

/-- `FRAME_SET_OPCODE`. -/
def frameSetOpcode (b : UInt8) : UInt8 := b &&& 0x0F

/-- `FRAME_SET_MASK`. -/
def frameSetMask (b : UInt8) : UInt8 := (b &&& 0x01) <<< 7

/-- `FRAME_SET_LENGTH`, of a number in 64 bits. -/
def frameSetLength (x : Int) (idx : Nat) : UInt8 := UInt8.ofInt (x >>> (idx * 8))

/-- `frame_header` of `lpack` and of `websocket_block_send`, up to `pos`. -/
def frameHeader (opcode : UInt8) (len : Int) : Bytes :=
  (frameSetFin 1 ||| frameSetOpcode opcode) ::
    if len < 126 then [frameSetMask 0 ||| frameSetLength len 0]
    else
      (if len < 65536 then [frameSetMask 0 ||| 126]
      else
        [frameSetMask 0 ||| 127, frameSetLength len 7, frameSetLength len 6, frameSetLength len 5,
          frameSetLength len 4, frameSetLength len 3, frameSetLength len 2]) ++
      [frameSetLength len 1, frameSetLength len 0]

/-- The header that `lpack` writes. -/
def lpackHeader (len : Nat) : Bytes := frameHeader 2 len

/-- `lpack`. -/
def lpack (payload : Bytes) : Bytes := lpackHeader payload.length ++ payload

/-- The header that `websocket_block_send` writes. `lsend` passes `sz` on as an `int`. -/
def websocketBlockSendHeader (len : Nat) : Bytes := frameHeader 4 (toInt len)

/-- `CACHE_SIZE`. -/
def cacheSize : Nat := 0x1000

/-- `memcpy` to `cache_buffer`, behind what is there; `none` when it writes beyond the buffer. -/
def copyToCache (cache bytes : Bytes) : Option Bytes :=
  if cache.length + bytes.length ≤ cacheSize then some (cache ++ bytes) else none

/-- What `websocket_block_send` sends, called by `lsend`. -/
def websocketBlockSend (payload : Bytes) : Option Bytes := do
  let cache ← copyToCache [] (websocketBlockSendHeader payload.length)
  copyToCache cache payload

/-- The header that `wslib:send_frame` writes. -/
def sendFrameHeader (opcode : Fin 16) (len : Nat) : Bytes :=
  let finbit := 0x80
  let maskBit := 0
  [UInt8.ofNat (finbit ||| opcode)] ++
    if len < 126 then [UInt8.ofNat (len ||| maskBit)]
    else if len < 0xFFFF then [UInt8.ofNat (126 ||| maskBit)] ++ encode 2 len
    else [UInt8.ofNat (127 ||| maskBit)] ++ encode 8 len

/-- What `wslib:send_frame` writes to the socket. -/
def sendFrame (opcode : Fin 16) (data : Bytes) : Bytes := sendFrameHeader opcode data.length ++ data

/-! ## What they write -/

/-- The shortest form of a length. -/
def LengthField.shortest (n : Nat) : LengthField :=
  if n < 126 then .seven else if n < 65536 then .sixteen else .sixtyFour

theorem LengthField.fits_shortest {n : Nat} (fits : n < 256 ^ 8) :
    (LengthField.shortest n).Fits n := by
  unfold shortest
  split
  · assumption
  · split
    · assumption
    · exact fits

/-- A form that a length fits in is not shorter. -/
theorem LengthField.length_shortest_le {n : Nat} {other : LengthField} (fits : other.Fits n) :
    ((LengthField.shortest n).extended n).length ≤ (other.extended n).length := by
  unfold shortest
  cases other with
  | seven =>
    have less : n < 126 := fits
    rw [if_pos less]
  | sixteen =>
    have less : n < 65536 := fits
    rw [if_pos less]
    split <;> simp [extended]
  | sixtyFour => split_ifs <;> simp [extended]

/-- The header of an unmasked frame. -/
def plainHeader (opcode : Fin 16) (field : LengthField) (len : Nat) : Bytes :=
  UInt8.ofNat (128 + opcode) :: UInt8.ofNat (field.code len) :: field.extended len

theorem frameSetLength_natCast (n idx : Nat) :
    frameSetLength n idx = UInt8.ofNat (n / 256 ^ idx) := by
  have bits : 2 ^ (idx * 8) = 256 ^ idx := by rw [Nat.mul_comm, Nat.pow_mul]
  have shifted : ((n : Int) >>> (idx * 8)) = ((n / 256 ^ idx : Nat) : Int) := by
    rw [← bits, ← Nat.shiftRight_eq_div_pow]
    rfl
  rw [frameSetLength, shifted, UInt8.ofInt]
  apply UInt8.toNat_inj.mp
  rw [UInt8.toNat_ofNat', UInt8.toNat_ofNat']
  omega

theorem encode_two (n : Nat) : encode 2 n = [UInt8.ofNat (n / 256), UInt8.ofNat n] := rfl

theorem encode_eight (n : Nat) :
    encode 8 n = [7, 6, 5, 4, 3, 2, 1, 0].map fun idx => UInt8.ofNat (n / 256 ^ idx) := by
  simp [encode, Nat.div_div_eq_div_mul]

theorem mask_zero_or (b : UInt8) : frameSetMask 0 ||| b = b := by
  have zero : frameSetMask 0 = 0 := by decide
  rw [zero, UInt8.zero_or]

theorem fin_or_opcode (opcode : Fin 16) :
    (frameSetFin 1 ||| frameSetOpcode (UInt8.ofNat opcode)) = UInt8.ofNat (128 + opcode) ∧
      UInt8.ofNat (0x80 ||| opcode) = UInt8.ofNat (128 + opcode) := by
  revert opcode
  decide

/-- The encoders in C write the shortest form. -/
theorem frameHeader_eq (opcode : Fin 16) (len : Nat) :
    frameHeader (UInt8.ofNat opcode) len = plainHeader opcode (.shortest len) len := by
  have lt126 : ((len : Int) < 126) = (len < 126) := by
    rw [show (126 : Int) = ((126 : Nat) : Int) from rfl, Int.ofNat_lt]
  have lt65536 : ((len : Int) < 65536) = (len < 65536) := by
    rw [show (65536 : Int) = ((65536 : Nat) : Int) from rfl, Int.ofNat_lt]
  simp only [frameHeader, plainHeader, LengthField.shortest, lt126, lt65536,
    (fin_or_opcode opcode).1, mask_zero_or, frameSetLength_natCast]
  by_cases seven : len < 126
  · simp [seven, LengthField.code, LengthField.extended]
  · by_cases sixteen : len < 65536
    · simp [seven, sixteen, LengthField.code, LengthField.extended, encode_two]
    · simp [seven, sixteen, LengthField.code, LengthField.extended, encode_eight]

/-- The form in which `send_frame` writes a length. -/
def sendFrameField (n : Nat) : LengthField :=
  if n < 126 then .seven else if n < 0xFFFF then .sixteen else .sixtyFour

theorem fits_sendFrameField {n : Nat} (fits : n < 256 ^ 8) : (sendFrameField n).Fits n := by
  unfold sendFrameField
  split
  · assumption
  · split
    · rename_i less
      exact Nat.lt_trans less (by decide)
    · exact fits

theorem sendFrameHeader_eq (opcode : Fin 16) (len : Nat) :
    sendFrameHeader opcode len = plainHeader opcode (sendFrameField len) len := by
  simp only [sendFrameHeader, plainHeader, sendFrameField, (fin_or_opcode opcode).2]
  by_cases seven : len < 126
  · simp [seven, LengthField.code, LengthField.extended]
  · by_cases sixteen : len < 0xFFFF
    · simp [seven, sixteen, LengthField.code, LengthField.extended]
    · simp [seven, sixteen, LengthField.code, LengthField.extended]

/-! ## Reading them back -/

/-- An opcode of data. -/
structure DataOpcode where
  opcode : Fin 16
  notContinuation : opcode ≠ 0
  notClose : opcode ≠ 8

/-- An encoder, `send_frame` with an opcode of data. -/
inductive Encoder where
  | lpack
  | websocketBlockSend
  | sendFrame (data : DataOpcode)

/-- What an encoder writes before a payload of a length. -/
def Encoder.header : Encoder → Nat → Bytes
  | .lpack, len => lpackHeader len
  | .websocketBlockSend, len => websocketBlockSendHeader len
  | .sendFrame data, len => sendFrameHeader data.opcode len

/-- What an encoder writes for a payload. -/
def Encoder.write : Encoder → Bytes → Option Bytes
  | .lpack, payload => some (Netpack.lpack payload)
  | .websocketBlockSend, payload => Netpack.websocketBlockSend payload
  | .sendFrame data, payload => some (Netpack.sendFrame data.opcode payload)

/-- What an encoder writes is the header of an unmasked frame of data. -/
theorem Encoder.exists_frameHeader (e : Encoder) {len : Nat} (small : len < 2 ^ 31) :
    ∃ h : FrameHeader, e.header len = h.bytes ∧ h.length = len ∧ h.mask = none := by
  have fits : len < 256 ^ 8 := Nat.lt_trans small (by decide)
  have bytes : ∀ (opcode : Fin 16) (field : LengthField), field.Fits len → opcode ≠ 0 →
      opcode ≠ 8 → ∃ h : FrameHeader,
        plainHeader opcode field len = h.bytes ∧ h.length = len ∧ h.mask = none := by
    intro opcode field fits notContinuation notClose
    refine ⟨⟨opcode, field, none, len, fits, notContinuation, notClose⟩, ?_, rfl, rfl⟩
    simp [plainHeader, FrameHeader.bytes, FrameHeader.maskBytes]
  cases e with
  | lpack =>
    have written : lpackHeader len = plainHeader 2 (.shortest len) len := frameHeader_eq 2 len
    rw [Encoder.header, written]
    exact bytes 2 _ (LengthField.fits_shortest fits) (by decide) (by decide)
  | websocketBlockSend =>
    have written : frameHeader 4 len = plainHeader 4 (.shortest len) len := frameHeader_eq 4 len
    rw [Encoder.header, websocketBlockSendHeader, toInt_of_lt small, written]
    exact bytes 4 _ (LengthField.fits_shortest fits) (by decide) (by decide)
  | sendFrame data =>
    rw [Encoder.header, sendFrameHeader_eq]
    exact bytes data.opcode _ (fits_sendFrameField fits) data.notContinuation data.notClose

/-- A header that declares a short payload, and the payload, are delivered as the payload. -/
theorem filterData_header_payload (h : FrameHeader) (plain : h.mask = none) {payload : Bytes}
    (length : h.length = payload.length) (short : payload.length ≤ maxPacksize) {fd : Fd}
    {q : Queue} (idle : q.pending fd = []) :
    ∃ q', filterData false fd q (h.bytes ++ payload) = .ok (q', .data fd payload) ∧
      q'.packs = q.packs := by
  let f : DataFrame :=
    { opcode := h.opcode
      lengthField := h.lengthField
      mask := none
      payload
      fits := length ▸ h.fits
      notContinuation := h.notContinuation
      notClose := h.notClose
      short }
  have header : f.header = h.bytes := by
    simp only [f, Frame.header, Frame.firstByte, Frame.secondByte, Frame.extendedLength,
      Frame.maskBytes, FrameHeader.bytes, FrameHeader.maskBytes, length, plain]
  have encoded : f.encode ++ [] = h.bytes ++ payload := by
    rw [List.append_nil, Frame.encode, header]
    rfl
  rw [filterData_fresh idle, ← encoded, filterFresh_frame]
  exact ⟨_, rfl, rfl⟩

/-- Header and payload are written, and read back. The header is read as its own length and that of
the payload, without a mask, whatever follows; a payload that is not longer than `MAX_PACKSIZE` is
delivered as it is. -/
def Decoded (e : Encoder) (payload : Bytes) : Prop :=
  ∃ header, e.write payload = some (header ++ payload) ∧
    (∀ rest, readSize (header ++ rest) =
      { size := payload.length
        packHeadLength := header.length
        mask := none }) ∧
    (payload.length ≤ maxPacksize → ∀ (fd : Fd) (q : Queue), q.pending fd = [] →
      ∃ q', filterData false fd q (header ++ payload) = .ok (q', .data fd payload) ∧
        q'.packs = q.packs)

/-- The header for a payload that is shorter than the buffer. -/
theorem length_websocketBlockSendHeader {len : Nat} (short : len < 65536) :
    (websocketBlockSendHeader len).length = if len < 126 then 2 else 4 := by
  have small : len < 2 ^ 31 := Nat.lt_trans short (by decide)
  have written : frameHeader 4 len = plainHeader 4 (.shortest len) len := frameHeader_eq 4 len
  rw [websocketBlockSendHeader, toInt_of_lt small, written, plainHeader, LengthField.shortest]
  split
  · rfl
  · rfl

/-- `websocket_block_send` has room for four bytes of header less than the buffer. -/
theorem websocketBlockSend_eq (payload : Bytes) :
    websocketBlockSend payload =
      if payload.length + 4 ≤ cacheSize then
        some (websocketBlockSendHeader payload.length ++ payload)
      else none := by
  have size : cacheSize = 4096 := rfl
  by_cases room : payload.length + 4 ≤ cacheSize
  · have header : (websocketBlockSendHeader payload.length).length =
        if payload.length < 126 then 2 else 4 :=
      length_websocketBlockSendHeader (by omega)
    have first : copyToCache [] (websocketBlockSendHeader payload.length) =
        some (websocketBlockSendHeader payload.length) := by
      rw [copyToCache, if_pos, List.nil_append]
      rw [List.length_nil, header]
      split <;> omega
    have second : copyToCache (websocketBlockSendHeader payload.length) payload =
        some (websocketBlockSendHeader payload.length ++ payload) := by
      rw [copyToCache, if_pos]
      rw [header]
      split <;> omega
    rw [if_pos room, websocketBlockSend, first]
    exact second
  · have full : copyToCache (websocketBlockSendHeader payload.length) payload = none := by
      refine if_neg fun fits => room ?_
      rw [length_websocketBlockSendHeader (by omega)] at fits
      split at fits <;> omega
    rw [if_neg room, websocketBlockSend, copyToCache]
    split
    · exact full
    · rfl

/-- The encoders that write a payload. -/
theorem Encoder.write_eq_some {e : Encoder} {payload bytes : Bytes} :
    e.write payload = some bytes ↔ bytes = e.header payload.length ++ payload ∧
      ∀ _ : e = .websocketBlockSend, payload.length + 4 ≤ cacheSize := by
  cases e with
  | lpack => simp [Encoder.write, Encoder.header, Netpack.lpack, eq_comm]
  | sendFrame data => simp [Encoder.write, Encoder.header, Netpack.sendFrame, eq_comm]
  | websocketBlockSend =>
    rw [Encoder.write, websocketBlockSend_eq, Encoder.header]
    split
    · rename_i room
      simp [room, eq_comm]
    · rename_i full
      simp [full]

/-- **Encoders and decoder are inverse**, for all but the payloads that are too long for the buffer
of `websocket_block_send`. -/
theorem encoders_decoded (e : Encoder) (payload : Bytes) (small : payload.length < 2 ^ 31) :
    Decoded e payload ↔ (e = .websocketBlockSend → payload.length + 4 ≤ cacheSize) := by
  constructor
  · intro decoded
    obtain ⟨header, written, -⟩ := decoded
    exact (Encoder.write_eq_some.mp written).2
  · intro room
    obtain ⟨h, header, length, plain⟩ := e.exists_frameHeader small
    refine ⟨e.header payload.length, Encoder.write_eq_some.mpr ⟨rfl, room⟩, ?_⟩
    rw [header]
    refine ⟨?_, fun short fd q => filterData_header_payload h plain length short⟩
    intro rest
    rw [h.readSize_bytes, length, LengthField.received_of_lt _ small, plain]

/-- A text of two bytes, sent by `send_frame`. -/
theorem encoders_decoded_text : Decoded (.sendFrame ⟨1, by decide, by decide⟩) [104, 105] :=
  (encoders_decoded (.sendFrame ⟨1, by decide, by decide⟩) [104, 105] (by decide)).mpr
    (by intro other; cases other)

/-- `websocket_block_send` writes beyond its buffer for 4093 zeros. -/
theorem cache_overrun :
    ¬ ∀ (e : Encoder) (payload : Bytes), payload.length < 2 ^ 31 → Decoded e payload := by
  intro decoded
  have length : (List.replicate 4093 (0 : UInt8)).length = 4093 := List.length_replicate
  obtain ⟨header, written, -⟩ :=
    decoded .websocketBlockSend (List.replicate 4093 0) (by rw [length]; decide)
  have room := (Encoder.write_eq_some.mp written).2 rfl
  rw [length] at room
  exact absurd room (by decide)

/-! ## The two of the server -/

theorem lpack_eq (data : Bytes) :
    lpack data = plainHeader 2 (.shortest data.length) data.length ++ data := by
  have written : lpackHeader data.length = plainHeader 2 (.shortest data.length) data.length :=
    frameHeader_eq 2 data.length
  rw [lpack, written]

theorem sendFrame_eq (opcode : Fin 16) (data : Bytes) :
    sendFrame opcode data =
      plainHeader opcode (sendFrameField data.length) data.length ++ data := by
  rw [sendFrame, sendFrameHeader_eq]

theorem sendFrameField_eq_shortest {n : Nat} (other : n ≠ 65535) :
    sendFrameField n = .shortest n := by
  unfold LengthField.shortest sendFrameField
  split_ifs <;> first | rfl | omega

/-- The 64-bit form is six bytes longer than the 16-bit one. -/
theorem sendFrame_ne_lpack {data : Bytes} (length : data.length = 65535) :
    sendFrame 2 data ≠ lpack data := by
  intro same
  rw [lpack_eq, sendFrame_eq, length] at same
  have lengths := congrArg List.length same
  have sixteen : LengthField.shortest 65535 = .sixteen := by decide
  have sixtyFour : sendFrameField 65535 = .sixtyFour := by decide
  simp [plainHeader, LengthField.extended, sixteen, sixtyFour] at lengths

/-- The two encoders of the server write the same bytes, with the length in the shortest form there
is, exactly for the payloads that are not of 65535 bytes. -/
theorem encoders_agree_iff (data : Bytes) :
    (sendFrame 2 data = lpack data ∧
      sendFrame 2 data = plainHeader 2 (.shortest data.length) data.length ++ data ∧
      ∀ other : LengthField, other.Fits data.length →
        ((LengthField.shortest data.length).extended data.length).length ≤
          (other.extended data.length).length) ↔
    data.length ≠ 65535 := by
  constructor
  · intro agree length
    exact sendFrame_ne_lpack length agree.1
  · intro other
    have written := sendFrame_eq 2 data
    rw [sendFrameField_eq_shortest other] at written
    exact ⟨written.trans (lpack_eq data).symm, written,
      fun form => LengthField.length_shortest_le⟩

/-- 65535 zeros are written in two ways. -/
theorem encoders_differ : ∃ data : Bytes, sendFrame 2 data ≠ lpack data :=
  ⟨List.replicate 65535 0, sendFrame_ne_lpack List.length_replicate⟩

end RillServer.Netpack
