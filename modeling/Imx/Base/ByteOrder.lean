import Imx.Base.Bytes

/-!
# Byte order

Parts of the bytes of a number, shifting bytes into a word of 32 bits, and the word with its bytes
in the other order.
-/

namespace Imx.Base

variable {i j k n a : Nat} {m : Mem} {x : BitVec 32}

/-! ## Parts -/

/-- A byte of a number. -/
lemma getElem?_bytesLe (lt : i < k) : (bytesLe k n)[i]? = some (UInt8.ofNat (n / 256 ^ i)) := by
  induction k generalizing n i with
  | zero => exact absurd lt (Nat.not_lt_zero i)
  | succ k ih =>
    cases i with
    | zero => rw [bytesLe, List.getElem?_cons_zero, Nat.pow_zero, Nat.div_one]
    | succ i =>
      rw [bytesLe, List.getElem?_cons_succ, ih (Nat.lt_of_succ_lt_succ lt), Nat.div_div_eq_div_mul,
        Nat.pow_succ']

@[simp]
lemma bytesLe_zero : bytesLe k 0 = List.replicate k 0 := by
  induction k with
  | zero => rfl
  | succ k ih =>
    rw [bytesLe, Nat.zero_div, ih, List.replicate_succ]
    rfl

@[simp]
lemma bytesBe_zero : bytesBe k 0 = List.replicate k 0 := by
  rw [bytesBe, bytesLe_zero, List.reverse_replicate]

/-- Only the lowest bytes of a number matter. -/
lemma bytesLe_mod (le : k ≤ j) : bytesLe k (n % 256 ^ j) = bytesLe k n := by
  induction k generalizing n j with
  | zero => rfl
  | succ k ih =>
    obtain ⟨j, rfl⟩ : ∃ j', j = j' + 1 := ⟨j - 1, by omega⟩
    have low : UInt8.ofNat (n % 256 ^ (j + 1)) = UInt8.ofNat n := by
      apply UInt8.toNat_inj.1
      rw [UInt8.toNat_ofNat', UInt8.toNat_ofNat', Nat.pow_succ']
      exact Nat.mod_mul_right_mod n 256 (256 ^ j)
    have high : n % 256 ^ (j + 1) / 256 = n / 256 % 256 ^ j := by
      rw [Nat.pow_succ', Nat.mod_mul_right_div_self]
    rw [bytesLe, bytesLe, low, high, ih (Nat.le_of_succ_le_succ le)]

lemma bytesBe_mod (le : k ≤ j) : bytesBe k (n % 256 ^ j) = bytesBe k n := by
  rw [bytesBe, bytesLe_mod le, bytesBe]

/-- The higher bytes of a number. -/
lemma drop_bytesLe : (bytesLe (j + k) n).drop j = bytesLe k (n / 256 ^ j) := by
  induction j generalizing n with
  | zero => rw [Nat.zero_add, List.drop_zero, Nat.pow_zero, Nat.div_one]
  | succ j ih =>
    rw [Nat.succ_add, bytesLe, List.drop_succ_cons, ih, Nat.div_div_eq_div_mul, Nat.pow_succ']

/-- The lower bytes of a number. -/
lemma take_bytesLe : (bytesLe (k + j) n).take k = bytesLe k n := by
  induction k generalizing n with
  | zero => rfl
  | succ k ih => rw [Nat.succ_add, bytesLe, List.take_succ_cons, ih, bytesLe]

lemma drop_bytesBe : (bytesBe (j + k) n).drop j = bytesBe k n := by
  rw [bytesBe, List.drop_reverse, length_bytesLe, Nat.add_sub_cancel_left, Nat.add_comm,
    take_bytesLe, bytesBe]

/-! ## Bytes of a memory -/

/-- The bytes of a number that is loaded. -/
lemma bytesLe_get32 : bytesLe 4 (m.get32 a) = m.read a 4 := by
  have byte : ∀ (c : UInt8) (r : Nat), UInt8.ofNat (c.toNat + 256 * r) = c := by
    intro c r
    apply UInt8.toNat_inj.1
    have lt := c.toNat_lt
    rw [UInt8.toNat_ofNat']
    omega
  have next : ∀ (c : UInt8) (r : Nat), (c.toNat + 256 * r) / 256 = r := by
    intro c r
    have lt := c.toNat_lt
    omega
  have value : m.get32 a = (m a).toNat + 256 * ((m (a + 1)).toNat +
      256 * ((m (a + 2)).toNat + 256 * ((m (a + 3)).toNat + 256 * 0))) := by
    rw [Mem.get32, Mem.get16, Mem.get16, show a + 2 + 1 = a + 3 from rfl]
    omega
  rw [value]
  simp only [bytesLe, byte, next]
  rfl

/-- Shift the bytes of a range into a word, the first one ends highest. -/
def shiftBytes (m : Mem) : Nat → Nat → BitVec 32 → BitVec 32
  | 0, _, data => data
  | n + 1, a, data =>
    shiftBytes m n (a + 1) ((data <<< 8) ||| ((m a).toBitVec.setWidth 32 &&& 0xFF))

/-- One more byte below the others. -/
lemma bytesBe_shift {c : UInt8} (lt : k < 4) :
    bytesBe (k + 1) ((x <<< 8) ||| (c.toBitVec.setWidth 32 &&& 0xFF)).toNat =
      bytesBe k x.toNat ++ [c] := by
  have byte : (c.toBitVec.setWidth 32 &&& 0xFF).toNat = c.toNat := by
    have lt := c.toNat_lt
    rw [BitVec.toNat_and, BitVec.toNat_setWidth, UInt8.toNat_toBitVec,
      show (0xFF : BitVec 32).toNat = 2 ^ 8 - 1 from rfl, Nat.and_two_pow_sub_one_eq_mod]
    omega
  have value : ((x <<< 8) ||| (c.toBitVec.setWidth 32 &&& 0xFF)).toNat =
      x.toNat % 256 ^ 3 * 256 + c.toNat := by
    have fits : c.toNat < 2 ^ 8 := c.toNat_lt
    have shifted : x.toNat <<< 8 % 2 ^ 32 = (x.toNat % 256 ^ 3) <<< 8 := by
      rw [Nat.shiftLeft_eq, Nat.shiftLeft_eq]
      omega
    rw [BitVec.toNat_or, BitVec.toNat_shiftLeft, byte, shifted,
      ← Nat.shiftLeft_add_eq_or_of_lt fits, Nat.shiftLeft_eq]
  have high : (x.toNat % 256 ^ 3 * 256 + c.toNat) / 256 = x.toNat % 256 ^ 3 := by
    have lt := c.toNat_lt
    omega
  have low : UInt8.ofNat (x.toNat % 256 ^ 3 * 256 + c.toNat) = c := by
    apply UInt8.toNat_inj.1
    have lt := c.toNat_lt
    rw [UInt8.toNat_ofNat']
    omega
  rw [value, bytesBe_succ, high, low, bytesBe_mod (Nat.le_of_lt_succ lt)]

/-- The word has the bytes of the range below those it had. -/
lemma bytesBe_shiftBytes (le : k + n ≤ 4) :
    bytesBe (k + n) (shiftBytes m n a x).toNat = bytesBe k x.toNat ++ m.read a n := by
  induction n generalizing k a x with
  | zero => rw [shiftBytes, Nat.add_zero, Mem.read_zero, List.append_nil]
  | succ n ih =>
    have lt : k < 4 := by omega
    rw [shiftBytes, Nat.add_comm n 1, ← Nat.add_assoc, ih (by omega), bytesBe_shift lt,
      Nat.add_comm 1 n, Mem.read_succ, List.append_assoc, List.singleton_append]

lemma bytesBe_shiftBytes_zero (le : n ≤ 4) :
    bytesBe n (shiftBytes m n a 0).toNat = m.read a n := by
  have h := @bytesBe_shiftBytes 0 n a m 0 (by omega)
  rwa [Nat.zero_add] at h

/-! ## The other order -/

/-- C `swab32`. -/
def swab32 (x : BitVec 32) : BitVec 32 :=
  ((x &&& 0x000000ff) <<< 24) ||| ((x &&& 0x0000ff00) <<< 8) |||
    ((x &&& 0x00ff0000) >>> 8) ||| ((x &&& 0xff000000) >>> 24)

/-- A byte of a word, by its bits. -/
lemma ofNat_div_eq : UInt8.ofNat (x.toNat / 256 ^ i) = ⟨x.extractLsb' (8 * i) 8⟩ := by
  apply UInt8.toNat_inj.1
  have bytes : (256 : Nat) ^ i = 2 ^ (8 * i) := by
    rw [Nat.pow_mul]
  rw [UInt8.toNat_ofNat', bytes, ← Nat.shiftRight_eq_div_pow]
  exact BitVec.extractLsb'_toNat .. |>.symm

/-- The bits of a byte of a word. -/
lemma getLsbD_byteMask {p : Nat} (le : p + 8 ≤ 32) :
    (x &&& ((0xff : BitVec 32) <<< p)).getLsbD i =
      (x.getLsbD i && decide (p ≤ i ∧ i < p + 8)) := by
  rw [BitVec.getLsbD_and, BitVec.getLsbD_shiftLeft,
    show (0xff : BitVec 32) = BitVec.ofNat 32 (2 ^ 8 - 1) from rfl, BitVec.getLsbD_ofNat,
    Nat.testBit_two_pow_sub_one]
  by_cases low : p ≤ i
  case neg => simp [low, Nat.lt_of_not_le low]
  case pos =>
    by_cases high : i < p + 8
    case pos => simp [low, high, show i < 32 by omega, show i - p < 32 by omega,
      show i - p < 8 by omega]
    case neg => simp [high, show ¬ i - p < 8 by omega]

/-- One of the bytes is moved to each place. -/
lemma getLsbD_swab32 (lt : i < 32) :
    (swab32 x).getLsbD i = x.getLsbD (24 - 8 * (i / 8) + i % 8) := by
  have masks : swab32 x = ((x &&& ((0xff : BitVec 32) <<< 0)) <<< 24) |||
      ((x &&& ((0xff : BitVec 32) <<< 8)) <<< 8) ||| ((x &&& ((0xff : BitVec 32) <<< 16)) >>> 8) |||
      ((x &&& ((0xff : BitVec 32) <<< 24)) >>> 24) := rfl
  rw [masks]
  rw [BitVec.getLsbD_or, BitVec.getLsbD_or, BitVec.getLsbD_or, BitVec.getLsbD_shiftLeft,
    BitVec.getLsbD_shiftLeft, BitVec.getLsbD_ushiftRight, BitVec.getLsbD_ushiftRight,
    getLsbD_byteMask (by omega), getLsbD_byteMask (by omega), getLsbD_byteMask (by omega),
    getLsbD_byteMask (by omega)]
  obtain h | h | h | h : i / 8 = 0 ∨ i / 8 = 1 ∨ i / 8 = 2 ∨ i / 8 = 3 := by omega
  · rw [show 24 - 8 * (i / 8) + i % 8 = 24 + i by omega]
    simp [show i < 8 by omega, show i < 24 by omega, show ¬ 16 ≤ 8 + i by omega,
      show 24 + i < 32 by omega]
  · rw [show 24 - 8 * (i / 8) + i % 8 = 8 + i by omega]
    simp [show ¬ i < 8 by omega, show i < 24 by omega, show ¬ 8 ≤ i - 8 by omega,
      show 16 ≤ 8 + i by omega, show 8 + i < 24 by omega, show ¬ 24 + i < 32 by omega]
  · rw [show 24 - 8 * (i / 8) + i % 8 = i - 8 by omega]
    simp [lt, show ¬ i < 8 by omega, show i < 24 by omega, show 8 ≤ i - 8 by omega,
      show i - 8 < 16 by omega, show ¬ 8 + i < 24 by omega, show ¬ 24 + i < 32 by omega]
  · rw [show 24 - 8 * (i / 8) + i % 8 = i - 24 by omega]
    simp [lt, show ¬ i < 8 by omega, show ¬ i < 24 by omega, show ¬ i - 8 < 16 by omega,
      show i - 24 < 8 by omega, show ¬ 8 + i < 24 by omega, show ¬ 24 + i < 32 by omega]

/-- The bytes come out in the other order. -/
lemma bytesLe_swab32 : bytesLe 4 (swab32 x).toNat = bytesBe 4 x.toNat := by
  refine List.ext_getElem? fun i => ?_
  by_cases lt : i < 4
  case neg =>
    rw [List.getElem?_eq_none (by rw [length_bytesLe]; omega),
      List.getElem?_eq_none (by rw [length_bytesBe]; omega)]
  case pos =>
    have other : 4 - 1 - i < 4 := by omega
    rw [bytesBe, List.getElem?_reverse (by rwa [length_bytesLe]), length_bytesLe,
      getElem?_bytesLe lt, getElem?_bytesLe other, ofNat_div_eq, ofNat_div_eq]
    congr 2
    refine BitVec.eq_of_getLsbD_eq fun b inside => ?_
    have bit : 8 * i + b < 32 := by omega
    have place : 24 - 8 * ((8 * i + b) / 8) + (8 * i + b) % 8 = 8 * (4 - 1 - i) + b := by omega
    rw [BitVec.getLsbD_extractLsb', BitVec.getLsbD_extractLsb', getLsbD_swab32 bit, place]

lemma bytesBe_swab32 : bytesBe 4 (swab32 x).toNat = bytesLe 4 x.toNat := by
  rw [bytesBe, bytesLe_swab32, bytesBe, List.reverse_reverse]

end Imx.Base
