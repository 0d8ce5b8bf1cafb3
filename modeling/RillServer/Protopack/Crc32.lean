import RillServer.Lib.Crc

/-!
# CRC32

`lualib/crc32.lua`. Numbers are below `2 ^ 33` throughout, where doubles are exact, so that they are
natural numbers here; the last lines of `CRC32.hash` are about integers of 64 bits. `xor` compares
and subtracts powers of two, and is the exclusive or of numbers below `2 ^ 33` (`xor_eq`). The table
is the one of the polynomial, and `CRC32.hash` is the CRC-32 (`hash_eq_crc`).
-/

namespace RillServer.CRC32

/-- `tab`, from 0 on. -/
def tab : Array Nat :=
  #[0x00000000, 0x77073096, 0xee0e612c, 0x990951ba, 0x076dc419, 0x706af48f, 0xe963a535, 0x9e6495a3,
    0x0edb8832, 0x79dcb8a4, 0xe0d5e91e, 0x97d2d988, 0x09b64c2b, 0x7eb17cbd, 0xe7b82d07, 0x90bf1d91,
    0x1db71064, 0x6ab020f2, 0xf3b97148, 0x84be41de, 0x1adad47d, 0x6ddde4eb, 0xf4d4b551, 0x83d385c7,
    0x136c9856, 0x646ba8c0, 0xfd62f97a, 0x8a65c9ec, 0x14015c4f, 0x63066cd9, 0xfa0f3d63, 0x8d080df5,
    0x3b6e20c8, 0x4c69105e, 0xd56041e4, 0xa2677172, 0x3c03e4d1, 0x4b04d447, 0xd20d85fd, 0xa50ab56b,
    0x35b5a8fa, 0x42b2986c, 0xdbbbc9d6, 0xacbcf940, 0x32d86ce3, 0x45df5c75, 0xdcd60dcf, 0xabd13d59,
    0x26d930ac, 0x51de003a, 0xc8d75180, 0xbfd06116, 0x21b4f4b5, 0x56b3c423, 0xcfba9599, 0xb8bda50f,
    0x2802b89e, 0x5f058808, 0xc60cd9b2, 0xb10be924, 0x2f6f7c87, 0x58684c11, 0xc1611dab, 0xb6662d3d,
    0x76dc4190, 0x01db7106, 0x98d220bc, 0xefd5102a, 0x71b18589, 0x06b6b51f, 0x9fbfe4a5, 0xe8b8d433,
    0x7807c9a2, 0x0f00f934, 0x9609a88e, 0xe10e9818, 0x7f6a0dbb, 0x086d3d2d, 0x91646c97, 0xe6635c01,
    0x6b6b51f4, 0x1c6c6162, 0x856530d8, 0xf262004e, 0x6c0695ed, 0x1b01a57b, 0x8208f4c1, 0xf50fc457,
    0x65b0d9c6, 0x12b7e950, 0x8bbeb8ea, 0xfcb9887c, 0x62dd1ddf, 0x15da2d49, 0x8cd37cf3, 0xfbd44c65,
    0x4db26158, 0x3ab551ce, 0xa3bc0074, 0xd4bb30e2, 0x4adfa541, 0x3dd895d7, 0xa4d1c46d, 0xd3d6f4fb,
    0x4369e96a, 0x346ed9fc, 0xad678846, 0xda60b8d0, 0x44042d73, 0x33031de5, 0xaa0a4c5f, 0xdd0d7cc9,
    0x5005713c, 0x270241aa, 0xbe0b1010, 0xc90c2086, 0x5768b525, 0x206f85b3, 0xb966d409, 0xce61e49f,
    0x5edef90e, 0x29d9c998, 0xb0d09822, 0xc7d7a8b4, 0x59b33d17, 0x2eb40d81, 0xb7bd5c3b, 0xc0ba6cad,
    0xedb88320, 0x9abfb3b6, 0x03b6e20c, 0x74b1d29a, 0xead54739, 0x9dd277af, 0x04db2615, 0x73dc1683,
    0xe3630b12, 0x94643b84, 0x0d6d6a3e, 0x7a6a5aa8, 0xe40ecf0b, 0x9309ff9d, 0x0a00ae27, 0x7d079eb1,
    0xf00f9344, 0x8708a3d2, 0x1e01f268, 0x6906c2fe, 0xf762575d, 0x806567cb, 0x196c3671, 0x6e6b06e7,
    0xfed41b76, 0x89d32be0, 0x10da7a5a, 0x67dd4acc, 0xf9b9df6f, 0x8ebeeff9, 0x17b7be43, 0x60b08ed5,
    0xd6d6a3e8, 0xa1d1937e, 0x38d8c2c4, 0x4fdff252, 0xd1bb67f1, 0xa6bc5767, 0x3fb506dd, 0x48b2364b,
    0xd80d2bda, 0xaf0a1b4c, 0x36034af6, 0x41047a60, 0xdf60efc3, 0xa867df55, 0x316e8eef, 0x4669be79,
    0xcb61b38c, 0xbc66831a, 0x256fd2a0, 0x5268e236, 0xcc0c7795, 0xbb0b4703, 0x220216b9, 0x5505262f,
    0xc5ba3bbe, 0xb2bd0b28, 0x2bb45a92, 0x5cb36a04, 0xc2d7ffa7, 0xb5d0cf31, 0x2cd99e8b, 0x5bdeae1d,
    0x9b64c2b0, 0xec63f226, 0x756aa39c, 0x026d930a, 0x9c0906a9, 0xeb0e363f, 0x72076785, 0x05005713,
    0x95bf4a82, 0xe2b87a14, 0x7bb12bae, 0x0cb61b38, 0x92d28e9b, 0xe5d5be0d, 0x7cdcefb7, 0x0bdbdf21,
    0x86d3d2d4, 0xf1d4e242, 0x68ddb3f8, 0x1fda836e, 0x81be16cd, 0xf6b9265b, 0x6fb077e1, 0x18b74777,
    0x88085ae6, 0xff0f6a70, 0x66063bca, 0x11010b5c, 0x8f659eff, 0xf862ae69, 0x616bffd3, 0x166ccf45,
    0xa00ae278, 0xd70dd2ee, 0x4e048354, 0x3903b3c2, 0xa7672661, 0xd06016f7, 0x4969474d, 0x3e6e77db,
    0xaed16a4a, 0xd9d65adc, 0x40df0b66, 0x37d83bf0, 0xa9bcae53, 0xdebb9ec5, 0x47b2cf7f, 0x30b5ffe9,
    0xbdbdf21c, 0xcabac28a, 0x53b39330, 0x24b4a3a6, 0xbad03605, 0xcdd70693, 0x54de5729, 0x23d967bf,
    0xb3667a2e, 0xc4614ab8, 0x5d681b02, 0x2a6f2b94, 0xb40bbe37, 0xc30c8ea1, 0x5a05df1b, 0x2d02ef8d]

/-- The loop of `xor`, with so many rounds left and what `calc` is. -/
def xorFrom : Nat → Nat → Nat → Nat → Nat
  | 0, _, _, sum => sum
  | i + 1, a, b, sum =>
    let val := 2 ^ i
    if a = 0 then sum + b
    else if b = 0 then sum + a
    else
      let aa := decide (a ≥ val)
      let bb := decide (b ≥ val)
      xorFrom i (if aa then a - val else a) (if bb then b - val else b)
        (if !(aa && bb) && (aa || bb) then sum + val else sum)

/-- `xor`. -/
def xor (a b : Nat) : Nat := xorFrom 33 a b 0

/-- `lshift`. -/
def lshift (num left : Nat) : Nat := num * 2 ^ left % 2 ^ 32

/-- `rshift`. -/
def rshift (num right : Nat) : Nat := num / 2 ^ right

/-- The loop of `CRC32.hash`, for one byte. -/
def hashByte (crc : Nat) (byte : UInt8) : Nat :=
  let a := rshift crc 8 &&& 0x00FFFFFF
  let b := tab[xor crc byte.toNat &&& 0xFF]!
  xor a b

/-- The end of `CRC32.hash`: the sign is extended to 64 bits and cut off again. -/
def extend (crc : Nat) : Nat :=
  let crc := BitVec.ofNat 64 crc
  let crc := crc ||| -(crc &&& BitVec.ofNat 64 (lshift 1 31))
  (crc &&& 0xFFFFFFFF#64).toNat

/-- `CRC32.hash`. -/
def hash (str : Bytes) : Nat :=
  extend (xor (str.foldl hashByte (xor 0 0xFFFFFFFF)) 0xFFFFFFFF)

/-- The polynomial of CRC-32, reflected. -/
def polynomial : Nat := 0xEDB88320

/-- CRC-32, bit by bit. -/
def crc32 (bytes : Bytes) : Nat := Crc.crc polynomial 0xFFFFFFFF 0xFFFFFFFF bytes

/-- The check of the digits `123456789`. -/
example : crc32 [49, 50, 51, 52, 53, 54, 55, 56, 57] = 0xCBF43926 := by decide +kernel

/-! ## Exclusive or -/

/-- A bit that both numbers have falls out, and one that only one of them has stays. -/
theorem two_pow_xor {i a b : Nat} (lowA : a < 2 ^ i) (lowB : b < 2 ^ i) :
    (2 ^ i + a) ^^^ (2 ^ i + b) = a ^^^ b ∧ (2 ^ i + a) ^^^ b = 2 ^ i + (a ^^^ b) := by
  have bit : ∀ {c : Nat}, c < 2 ^ i → 2 ^ i + c = 2 ^ i ^^^ c := by
    intro c low
    refine Nat.eq_of_testBit_eq fun j => ?_
    have sum : (2 ^ i + c).testBit j = if j < i then c.testBit j else Nat.testBit 1 (j - i) := by
      rw [← Nat.testBit_two_pow_mul_add 1 low j, Nat.mul_one]
    rw [sum, Nat.testBit_xor, Nat.testBit_two_pow]
    rcases Nat.lt_trichotomy j i with below | same | above
    · simp [below, Nat.ne_of_gt below]
    · simp [same, Nat.testBit_lt_two_pow low]
    · have far : c < 2 ^ j := Nat.lt_trans low (Nat.pow_lt_pow_right (by decide) above)
      have one : Nat.testBit 1 (j - i) = false := by
        rw [Bool.eq_false_iff, ne_eq, Nat.testBit_one_eq_true_iff_self_eq_zero]
        omega
      simp [Nat.lt_asymm above, Nat.ne_of_lt above, Nat.testBit_lt_two_pow far, one]
  rw [bit lowA, bit lowB, bit (Nat.xor_lt_two_pow lowA lowB)]
  refine ⟨?_, Nat.xor_assoc _ _ _⟩
  calc 2 ^ i ^^^ a ^^^ (2 ^ i ^^^ b) = 2 ^ i ^^^ 2 ^ i ^^^ (a ^^^ b) := by ac_rfl
    _ = a ^^^ b := by rw [Nat.xor_self, Nat.zero_xor]

/-- What is left of the loop adds the exclusive or of what is left of the numbers. -/
theorem xorFrom_eq : ∀ {i a b : Nat} (sum : Nat), a < 2 ^ i → b < 2 ^ i →
    xorFrom i a b sum = sum + (a ^^^ b)
  | 0, a, b, sum, lowA, lowB => by
    obtain rfl : a = 0 := by omega
    obtain rfl : b = 0 := by omega
    rfl
  | i + 1, a, b, sum, lowA, lowB => by
    rw [pow_succ] at lowA lowB
    rw [xorFrom]
    by_cases zeroA : a = 0
    · rw [if_pos zeroA, zeroA, Nat.zero_xor]
    by_cases zeroB : b = 0
    · rw [if_neg zeroA, if_pos zeroB, zeroB, Nat.xor_zero]
    rw [if_neg zeroA, if_neg zeroB]
    by_cases bitA : 2 ^ i ≤ a <;> by_cases bitB : 2 ^ i ≤ b
    · obtain ⟨a', rfl⟩ := Nat.exists_eq_add_of_le bitA
      obtain ⟨b', rfl⟩ := Nat.exists_eq_add_of_le bitB
      have lowA' : a' < 2 ^ i := by omega
      have lowB' : b' < 2 ^ i := by omega
      simp [xorFrom_eq _ lowA' lowB', (two_pow_xor lowA' lowB').1]
    · obtain ⟨a', rfl⟩ := Nat.exists_eq_add_of_le bitA
      have lowA' : a' < 2 ^ i := by omega
      have lowB' : b < 2 ^ i := by omega
      simp [bitB, xorFrom_eq _ lowA' lowB', (two_pow_xor lowA' lowB').2, Nat.add_assoc]
    · obtain ⟨b', rfl⟩ := Nat.exists_eq_add_of_le bitB
      have lowA' : a < 2 ^ i := by omega
      have lowB' : b' < 2 ^ i := by omega
      simp [bitA, xorFrom_eq _ lowA' lowB', Nat.xor_comm a, (two_pow_xor lowB' lowA').2,
        Nat.add_assoc]
    · simp [bitA, bitB, xorFrom_eq sum (Nat.lt_of_not_le bitA) (Nat.lt_of_not_le bitB)]

/-- `xor` is the exclusive or of numbers below `2 ^ 33`. -/
theorem xor_eq {a b : Nat} (lowA : a < 2 ^ 33) (lowB : b < 2 ^ 33) : xor a b = a ^^^ b := by
  rw [xor, xorFrom_eq 0 lowA lowB, Nat.zero_add]

/-! ## The check -/

/-- `tab` is the table of the polynomial. -/
theorem tab_isTable : Crc.IsTable polynomial fun n => tab[n]! := by
  have all : ∀ n : Fin 256, tab[n.val]! = Crc.shifts polynomial 8 n := by decide +kernel
  exact fun n low => all ⟨n, low⟩

theorem takeIn_lt {crc : Nat} (low : crc < 2 ^ 32) (b : UInt8) :
    Crc.takeIn polynomial crc b < 2 ^ 32 := by
  have byte : b.toNat < 2 ^ 32 := Nat.lt_trans b.toNat_lt (by decide)
  exact Crc.shifts_lt (by decide) (Nat.xor_lt_two_pow low byte) 8

/-- The loop takes in a byte. -/
theorem hashByte_eq {crc : Nat} (low : crc < 2 ^ 32) (b : UInt8) :
    hashByte crc b = Crc.takeIn polynomial crc b := by
  have byte : b.toNat < 2 ^ 33 := Nat.lt_trans b.toNat_lt (by decide)
  have first : xor crc b.toNat = crc ^^^ b.toNat :=
    xor_eq (Nat.lt_trans low (by decide)) byte
  have index : (crc ^^^ b.toNat) &&& 0xFF = (crc ^^^ b.toNat) % 256 :=
    Nat.and_two_pow_sub_one_eq_mod _ 8
  have moved : rshift crc 8 &&& 0x00FFFFFF = crc / 256 := by
    have fits : crc / 2 ^ 8 < 2 ^ 24 := by omega
    rw [rshift, Nat.and_two_pow_sub_one_eq_mod _ 24, Nat.mod_eq_of_lt fits]
    rfl
  have entry : tab[(crc ^^^ b.toNat) % 256]! < 2 ^ 32 := by
    have looked : tab[(crc ^^^ b.toNat) % 256]! = Crc.shifts polynomial 8 _ :=
      tab_isTable _ (Nat.mod_lt _ (by decide))
    have small : (crc ^^^ b.toNat) % 256 < 2 ^ 32 :=
      Nat.lt_trans (Nat.mod_lt _ (by decide)) (by decide)
    rw [looked]
    exact Crc.shifts_lt (by decide) small 8
  have second : xor (crc / 256) tab[(crc ^^^ b.toNat) % 256]! =
      crc / 256 ^^^ tab[(crc ^^^ b.toNat) % 256]! :=
    xor_eq (by omega) (Nat.lt_trans entry (by decide))
  rw [Crc.takeIn_eq tab_isTable, hashByte, first, index, moved, second, Nat.xor_comm]

theorem foldl_hashByte : ∀ (str : Bytes) {crc : Nat}, crc < 2 ^ 32 →
    str.foldl hashByte crc = str.foldl (Crc.takeIn polynomial) crc ∧
      str.foldl (Crc.takeIn polynomial) crc < 2 ^ 32
  | [], _, low => ⟨rfl, low⟩
  | b :: str, _, low => by
    rw [List.foldl_cons, List.foldl_cons, hashByte_eq low]
    exact foldl_hashByte str (takeIn_lt low b)

/-- Extending the sign changes the upper half only. -/
theorem signed_and (x : BitVec 64) :
    (x ||| -(x &&& BitVec.twoPow 64 31)) &&& 0xFFFFFFFF#64 = x &&& 0xFFFFFFFF#64 := by
  rw [BitVec.and_twoPow, BitVec.and_or_distrib_right]
  split
  · rename_i sign
    have lower : -BitVec.twoPow 64 31 &&& 0xFFFFFFFF#64 = BitVec.twoPow 64 31 := by decide
    rw [lower]
    refine BitVec.eq_of_getLsbD_eq fun i _ => ?_
    rw [BitVec.getLsbD_or, BitVec.getLsbD_twoPow]
    by_cases same : 31 = i
    · have inside : (0xFFFFFFFF#64).getLsbD i = true := by
        rw [← same]
        rfl
      rw [BitVec.getLsbD_and, inside, ← same, sign]
      rfl
    · simp [same]
  · simp

/-- The end of `CRC32.hash` changes nothing. -/
theorem extend_eq {crc : Nat} (low : crc < 2 ^ 32) : extend crc = crc := by
  have sign : BitVec.ofNat 64 (lshift 1 31) = BitVec.twoPow 64 31 := by decide
  have wide : crc % 2 ^ 64 = crc := Nat.mod_eq_of_lt (Nat.lt_trans low (by decide))
  simp only [extend, sign, signed_and]
  rw [BitVec.toNat_and, BitVec.toNat_ofNat, wide]
  exact (Nat.and_two_pow_sub_one_eq_mod _ 32).trans (Nat.mod_eq_of_lt low)

/-- A code has 32 bits. -/
theorem hash_lt (str : Bytes) : hash str < 2 ^ 32 := by
  rw [hash, extend, BitVec.toNat_and]
  exact Nat.and_lt_two_pow _ (by decide)

/-- **`CRC32.hash` is CRC-32.** -/
theorem hash_eq_crc (str : Bytes) : hash str = crc32 str := by
  have start : xor 0 0xFFFFFFFF = 0xFFFFFFFF :=
    (xor_eq (by decide) (by decide)).trans (Nat.zero_xor _)
  have first : 0xFFFFFFFF < 2 ^ 32 := by decide
  obtain ⟨loop, low⟩ := foldl_hashByte str first
  have last : xor (str.foldl (Crc.takeIn polynomial) 0xFFFFFFFF) 0xFFFFFFFF = crc32 str :=
    xor_eq (Nat.lt_trans low (by decide)) (by decide)
  have fits : crc32 str < 2 ^ 32 := Nat.xor_lt_two_pow low (by decide)
  rw [hash, start, loop, last, extend_eq fits]

end RillServer.CRC32
