import RillServer.Netpack.Filter

/-!
# Declared lengths

What `read_size` makes of the length in a frame header, and `MAX_PACKSIZE` after it. The length of
the long form has 64 bits and is stored in an `int`. It is read as it was declared exactly when its
low 32 bits are not a negative `int` and, should they not be all of it, exceed `MAX_PACKSIZE` anyhow
(`declared_length_iff`).
-/

namespace RillServer.Netpack

/-- The header of a frame with FIN set and no reserved bit that declares a length. The payload need
not be there. -/
structure FrameHeader where
  opcode : Fin 16
  lengthField : LengthField
  mask : Option Mask
  length : Nat
  fits : lengthField.Fits length
  notContinuation : opcode ≠ 0
  notClose : opcode ≠ 8

namespace FrameHeader

def maskBytes (h : FrameHeader) : Bytes :=
  match h.mask with
  | none => []
  | some mask => [mask 0, mask 1, mask 2, mask 3]

/-- The 2, 4 or 10 bytes of the header, and those of the mask. -/
def bytes (h : FrameHeader) : Bytes :=
  UInt8.ofNat (128 + h.opcode) ::
    UInt8.ofNat ((if h.mask.isSome then 128 else 0) + h.lengthField.code h.length) ::
    (h.lengthField.extended h.length ++ h.maskBytes)

/-- A frame with the header. -/
def frame (h : FrameHeader) : Frame where
  opcode := h.opcode
  lengthField := h.lengthField
  mask := h.mask
  payload := List.replicate h.length 0
  fits := by
    rw [List.length_replicate]
    exact h.fits

theorem header_frame (h : FrameHeader) : h.frame.header = h.bytes := by
  simp only [Frame.header, Frame.firstByte, Frame.secondByte, Frame.extendedLength, frame, bytes,
    List.length_replicate]
  rfl

/-- The header is read with the length as an `int`, whatever follows it. -/
theorem readSize_bytes (h : FrameHeader) (rest : Bytes) :
    readSize (h.bytes ++ rest) =
      { size := h.lengthField.received h.length
        packHeadLength := h.bytes.length
        mask := h.mask } := by
  have read := readSize_header_received h.frame h.notContinuation h.notClose rest
  rw [header_frame] at read
  have length : h.frame.payload.length = h.length := List.length_replicate
  rw [read, length]
  rfl

end FrameHeader

/-- A number stored in an `int` is the number of its low 32 bits, or negative. -/
theorem toInt_eq (n : Nat) :
    toInt n =
      if n % 2 ^ 32 < 2 ^ 31 then ((n % 2 ^ 32 : Nat) : Int)
      else (n % 2 ^ 32 : Nat) - 2 ^ 32 := by
  unfold toInt
  rw [BitVec.toInt_eq_toNat_cond, BitVec.toNat_ofNat]
  by_cases low : n % 2 ^ 32 < 2 ^ 31
  · rw [if_pos low, if_pos (by omega)]
  · rw [if_neg low, if_neg (by omega)]
    rfl

theorem received_of_fits {field : LengthField} {n : Nat} (fits : field.Fits n)
    (short : field ≠ .sixtyFour) : field.received n = n ∧ n < 2 ^ 31 := by
  cases field with
  | seven => exact ⟨rfl, Nat.lt_trans fits (by decide)⟩
  | sixteen => exact ⟨rfl, Nat.lt_trans fits (by decide)⟩
  | sixtyFour => exact absurd rfl short

theorem size_clamp (head : Head) : head.clamp.size = min head.size maxPacksize := by
  by_cases large : head.size > maxPacksize
  · rw [Head.clamp, if_pos large]
    exact (min_eq_right (Int.le_of_lt large)).symm
  · rw [Head.clamp, if_neg large]
    exact (min_eq_left (Int.not_lt.mp large)).symm

/-- The lengths that come through an `int` and the cap unharmed. -/
def SurvivesInt (n : Nat) : Prop :=
  n % 2 ^ 32 < 2 ^ 31 ∧ (n < 2 ^ 32 ∨ maxPacksize ≤ n % 2 ^ 32)

instance (n : Nat) : Decidable (SurvivesInt n) := inferInstanceAs (Decidable (_ ∧ _))

/-- A length comes out of an `int` as one that is not negative, and the same after the cap, exactly
when it survives. -/
theorem toInt_iff (n : Nat) :
    (toInt n ≠ -1 ∧ toInt n ≠ -2 ∧ toInt n ≠ -3 ∧
      min (toInt n) maxPacksize = min (n : Int) maxPacksize) ↔ SurvivesInt n := by
  have packsize : maxPacksize = 10240 := rfl
  rw [toInt_eq, SurvivesInt, packsize]
  split <;> omega

/-- Declared lengths are read exactly when they survive: `read_size` sets the length of the header,
returns none of the sentinels, and the length after the cap is the declared one or
`MAX_PACKSIZE`. -/
theorem declared_length_iff (h : FrameHeader) (rest : Bytes) :
    ((readSize (h.bytes ++ rest)).packHeadLength = h.bytes.length ∧
      (readSize (h.bytes ++ rest)).size ≠ -1 ∧ (readSize (h.bytes ++ rest)).size ≠ -2 ∧
      (readSize (h.bytes ++ rest)).size ≠ -3 ∧
      (readSize (h.bytes ++ rest)).clamp.size = min (h.length : Int) maxPacksize) ↔
    SurvivesInt h.length := by
  rw [size_clamp, h.readSize_bytes]
  by_cases long : h.lengthField = .sixtyFour
  · have received : h.lengthField.received h.length = toInt h.length := by rw [long]; rfl
    simp only [received, true_and]
    exact toInt_iff h.length
  · obtain ⟨same, small⟩ := received_of_fits h.fits long
    have survives : SurvivesInt h.length := ⟨by omega, .inl (by omega)⟩
    simp only [same, survives, iff_true, true_and, and_true]
    omega

/-- A binary frame that declares 2 ^ 32 bytes is read as an empty one. -/
theorem declared_length_wrapped :
    ∃ h : FrameHeader, h.bytes = [0x82, 0x7F, 0, 0, 0, 1, 0, 0, 0, 0] ∧
      (readSize h.bytes).clamp.size ≠ min (h.length : Int) maxPacksize :=
  ⟨⟨2, .sixtyFour, none, 2 ^ 32, by decide, by decide, by decide⟩, by decide, by decide⟩

end RillServer.Netpack
