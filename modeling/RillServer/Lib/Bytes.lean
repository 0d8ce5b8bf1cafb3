import Mathlib.Data.List.Induction
import Mathlib.Tactic.Ring

/-!
# Bytes on a wire

Numbers in network byte order (`BigEndian`) and with the least significant byte first
(`LittleEndian`), and masking with a key that is repeated over the bytes (`xorCyclic`). A masked text
that arrives in pieces is unmasked piece by piece, each with the offset at which it starts
(`drop_xorCyclic`, `xorCyclic_xorCyclic`).
-/

/-- Bytes, in the order in which they arrive. -/
abbrev Bytes := List UInt8

namespace BigEndian

/-- The number that the bytes spell, most significant byte first. -/
def decode (bytes : Bytes) : Nat := bytes.foldl (fun n b => n * 256 + b.toNat) 0

/-- The `width` lowest bytes of a number, most significant byte first. -/
def encode : Nat → Nat → Bytes
  | 0, _ => []
  | width + 1, n => encode width (n / 256) ++ [UInt8.ofNat n]

@[simp]
theorem length_encode (width n : Nat) : (encode width n).length = width := by
  induction width generalizing n with
  | zero => rfl
  | succ width ih => simp [encode, ih]

theorem decode_snoc (bytes : Bytes) (b : UInt8) :
    decode (bytes ++ [b]) = decode bytes * 256 + b.toNat := by
  simp [decode]

theorem decode_append (left right : Bytes) :
    decode (left ++ right) = decode left * 256 ^ right.length + decode right := by
  induction right using List.reverseRecOn with
  | nil => simp [decode]
  | append_singleton right b ih =>
      rw [← List.append_assoc, decode_snoc, decode_snoc, ih, List.length_append,
        List.length_singleton, pow_succ]
      ring

/-- A number that fits is read back. -/
theorem decode_encode {width n : Nat} (fits : n < 256 ^ width) : decode (encode width n) = n := by
  induction width generalizing n with
  | zero => simpa [decode, encode, eq_comm] using fits
  | succ width ih =>
      have high : n / 256 < 256 ^ width := by
        rw [pow_succ] at fits
        exact Nat.div_lt_of_lt_mul (by omega)
      have low : (UInt8.ofNat n).toNat = n % 256 := UInt8.toNat_ofNat'
      rw [encode, decode_snoc, ih high, low]
      omega

end BigEndian

namespace LittleEndian

/-- The `width` lowest bytes of a number, least significant byte first. -/
def encode : Nat → Nat → Bytes
  | 0, _ => []
  | width + 1, n => UInt8.ofNat n :: encode width (n / 256)

/-- The number that the bytes spell, least significant byte first. -/
def decode : Bytes → Nat
  | [] => 0
  | b :: bytes => decode bytes * 256 + b.toNat

@[simp]
theorem length_encode (width n : Nat) : (encode width n).length = width := by
  induction width generalizing n with
  | zero => rfl
  | succ width ih => simp [encode, ih]

/-- A number that fits is read back. -/
theorem decode_encode (width : Nat) {n : Nat} (fits : n < 256 ^ width) :
    decode (encode width n) = n := by
  induction width generalizing n with
  | zero => simpa [decode, encode, eq_comm] using fits
  | succ width ih =>
      have high : n / 256 < 256 ^ width := by
        rw [pow_succ] at fits
        exact Nat.div_lt_of_lt_mul (by omega)
      have low : (UInt8.ofNat n).toNat = n % 256 := UInt8.toNat_ofNat'
      rw [encode, decode, ih high, low]
      omega

/-- The bits of a machine word are read back. -/
theorem ofNat_decode_encode (width : Nat) {w : Nat} (x : BitVec w) (whole : 256 ^ width = 2 ^ w) :
    BitVec.ofNat w (decode (encode width x.toNat)) = x := by
  rw [decode_encode width (whole ▸ x.isLt), BitVec.ofNat_toNat, BitVec.setWidth_eq]

end LittleEndian

section XorCyclic

variable {k : Nat} [NeZero k]

/-- Exclusive or of the bytes with a key that is repeated, from offset `i` of the repetition on. -/
def xorCyclic (key : Fin k → UInt8) : Nat → Bytes → Bytes
  | _, [] => []
  | i, b :: bytes => (b ^^^ key (Fin.ofNat k i)) :: xorCyclic key (i + 1) bytes

variable (key : Fin k → UInt8)

@[simp]
theorem length_xorCyclic (i : Nat) (bytes : Bytes) :
    (xorCyclic key i bytes).length = bytes.length := by
  induction bytes generalizing i with
  | nil => rfl
  | cons b bytes ih => simp [xorCyclic, ih]

theorem take_xorCyclic (i n : Nat) (bytes : Bytes) :
    (xorCyclic key i bytes).take n = xorCyclic key i (bytes.take n) := by
  induction bytes generalizing i n with
  | nil => simp [xorCyclic]
  | cons b bytes ih =>
      cases n with
      | zero => rfl
      | succ n => simp [xorCyclic, ih]

theorem drop_xorCyclic (i n : Nat) (bytes : Bytes) :
    (xorCyclic key i bytes).drop n = xorCyclic key (i + n) (bytes.drop n) := by
  induction bytes generalizing i n with
  | nil => simp [xorCyclic]
  | cons b bytes ih =>
      cases n with
      | zero => rfl
      | succ n =>
          have shifted : i + 1 + n = i + (n + 1) := by omega
          simp [xorCyclic, ih, shifted]

theorem xorCyclic_xorCyclic (i : Nat) (bytes : Bytes) :
    xorCyclic key i (xorCyclic key i bytes) = bytes := by
  induction bytes generalizing i with
  | nil => rfl
  | cons b bytes ih =>
    rw [xorCyclic, xorCyclic, ih, UInt8.xor_assoc, UInt8.xor_self, UInt8.xor_zero]

end XorCyclic
