import Imx.Base.Crc
import Imx.XyzModem.Block

/-!
# Damaged blocks

`cyg_crc16` works a byte at a time from a table. What it computes is the remainder by
`x^16 + x^12 + x^5 + 1`, so a block in which a burst of errors of up to 16 bits fell, in its data or
its CRC, is never taken for a good one: the receiver asks for it again.
-/

namespace Imx.XyzModem
open Imx.Base

/-- The polynomial of the table without its leading term. -/
def poly : BitVec 16 := 0x1021

/-- The bits of a byte, the highest first. -/
def byteBits (b : UInt8) : List Bool := msbBits b.toBitVec

variable {data bytes crc' : List UInt8} {n : Nat} {s : Xyz} {rest : Line}

/-! ## The table -/

/-- The entries of the table are those of the bytes. -/
lemma table_spec (i : Fin 256) :
    (crc16Tab.getD i 0).toBitVec = crc poly 0#16 (msbBits (BitVec.ofNat 8 i)) := by
  revert i
  decide +kernel

/-- A turn of the loop takes one byte. -/
lemma cygCrc16_turn (cksum : UInt16) (b : UInt8) :
    (crc16Tab[((cksum >>> 8) ^^^ b.toUInt16).toNat % 256]! ^^^ (cksum <<< 8)).toBitVec =
      crc poly cksum.toBitVec (byteBits b) := by
  have lt := cksum.toNat_lt
  have blt := b.toNat_lt
  let high := BitVec.ofNat 8 (cksum.toNat / 2 ^ 8)
  let low := BitVec.ofNat 8 (cksum.toNat % 2 ^ 8)
  have whole : cksum.toBitVec = high ++ low := by
    refine BitVec.eq_of_toNat_eq ?_
    have small : low.toNat < 2 ^ 8 := low.isLt
    rw [BitVec.toNat_append, ← Nat.shiftLeft_add_eq_or_of_lt small, Nat.shiftLeft_eq,
      BitVec.toNat_ofNat, BitVec.toNat_ofNat, UInt16.toNat_toBitVec]
    omega
  have index : ((cksum >>> 8) ^^^ b.toUInt16).toNat % 256 = (high ^^^ b.toBitVec).toNat := by
    have shift : (cksum >>> 8).toNat = cksum.toNat >>> 8 := UInt16.toNat_shiftRight ..
    have high_eq : high.toNat = cksum.toNat / 2 ^ 8 := by
      rw [BitVec.toNat_ofNat]
      omega
    rw [UInt16.toNat_xor, UInt8.toNat_toUInt16, shift, Nat.shiftRight_eq_div_pow, ← high_eq,
      BitVec.toNat_xor, UInt8.toNat_toBitVec]
    exact Nat.mod_eq_of_lt (Nat.xor_lt_two_pow (n := 8) high.isLt blt)
  have up : (cksum <<< 8).toBitVec = (high ++ low) <<< 8 := by
    rw [← whole]
    refine BitVec.eq_of_toNat_eq ?_
    have shift : (cksum <<< 8).toNat = cksum.toNat <<< 8 % 2 ^ 16 := UInt16.toNat_shiftLeft ..
    rw [UInt16.toNat_toBitVec, shift, BitVec.toNat_shiftLeft, UInt16.toNat_toBitVec]
  have entry := table_spec ⟨(high ^^^ b.toBitVec).toNat, (high ^^^ b.toBitVec).isLt⟩
  rw [BitVec.ofNat_toNat, BitVec.setWidth_eq] at entry
  -- the bits of the high byte of the remainder are shifted out of it
  have own : crc poly (high ++ low) (msbBits high) = (high ++ low) <<< 8 := by
    have take := crc_take (g := poly) (r := high ++ low) (show 8 ≤ 16 by decide)
    rwa [msbBits_append, List.take_left' length_msbBits] at take
  have split : byteBits b = List.zipWith xor (msbBits high) (msbBits (high ^^^ b.toBitVec)) := by
    rw [zipWith_msbBits, ← BitVec.xor_assoc, BitVec.xor_self, BitVec.zero_xor, byteBits]
  have sum : crc poly (high ++ low ^^^ 0#16)
      (List.zipWith xor (msbBits high) (msbBits (high ^^^ b.toBitVec))) =
        crc poly (high ++ low) (msbBits high) ^^^ crc poly 0#16 (msbBits (high ^^^ b.toBitVec)) :=
    crc_xor (by rw [length_msbBits, length_msbBits])
  rw [BitVec.xor_zero, own, ← entry, BitVec.xor_comm ((high ++ low) <<< 8)] at sum
  rw [index, UInt16.toBitVec_xor, List.getElem!_eq_getElem?_getD, ← List.getD_eq_getElem?_getD, up,
    whole, split]
  exact sum.symm

lemma cygCrc16_eq (data : List UInt8) :
    (cygCrc16 data).toBitVec = crc poly 0#16 (data.flatMap byteBits) := by
  have from_ (r : UInt16) : (data.foldl (fun (cksum : UInt16) b =>
      crc16Tab[((cksum >>> 8) ^^^ b.toUInt16).toNat % 256]! ^^^
        (cksum <<< 8)) r : UInt16).toBitVec = crc poly r.toBitVec (data.flatMap byteBits) := by
    induction data generalizing r with
    | nil => rfl
    | cons b data ih => rw [List.foldl_cons, ih, cygCrc16_turn, List.flatMap_cons, crc_append]
  exact from_ 0

/-- The check of a block is the remainder of all of it. -/
lemma verify_iff (two : crc'.length = 2) : verify true data crc' = true ↔
    crc poly 0#16 ((data ++ crc').flatMap byteBits) = 0#16 := by
  obtain ⟨a, b, rfl⟩ := List.length_eq_two.1 two
  have word : [a, b].flatMap byteBits = msbBits (a.toBitVec ++ b.toBitVec) := by
    rw [msbBits_append]
    simp [byteBits]
  have value : (a.toBitVec ++ b.toBitVec).toNat = 256 * a.toNat + b.toNat := by
    have lt : b.toBitVec.toNat < 2 ^ 8 := b.toNat_lt
    rw [BitVec.toNat_append, ← Nat.shiftLeft_add_eq_or_of_lt lt, Nat.shiftLeft_eq, Nat.mul_comm]
    rfl
  rw [List.flatMap_append, crc_append, ← cygCrc16_eq, word, verify, if_pos rfl, decide_eq_true_iff]
  constructor
  · intro eq
    have same : (cygCrc16 data).toBitVec = a.toBitVec ++ b.toBitVec :=
      BitVec.eq_of_toNat_eq (eq.trans value.symm)
    rw [same, crc_self]
  · intro zero
    have same := crc_inj_left (by decide) (zero.trans (crc_self (g := poly)).symm)
    exact (congrArg BitVec.toNat same).trans value

/-! ## Blocks that are damaged -/

lemma length_bits : (bytes.flatMap byteBits).length = 8 * bytes.length :=
  length_flatMap_eq (fun _ => length_msbBits) bytes

/-- A block with a burst of errors of up to 16 bits in its data or its CRC is refused, and nothing
of what follows it is lost. -/
theorem getHdr_burst (block : IsBlock data) (mode : s.crcMode = true)
    (burst : Burst 16 ((data ++ bytesBe 2 (cygCrc16 data).toNat).flatMap byteBits)
      (bytes.flatMap byteBits)) (line : s.line = arrival n data.length bytes ++ rest) :
    (getHdr s).1 = .cksum ∧ (getHdr s).2.line = rest := by
  have odd : poly.getLsbD 0 = true := by decide
  have good : crc poly 0#16 ((data ++ bytesBe 2 (cygCrc16 data).toNat).flatMap byteBits) = 0#16 :=
    (verify_iff length_bytesBe).1 verify_crc
  have bad := burst.crc_ne (r := 0#16) odd
  have size : bytes.length = data.length + 2 := by
    obtain ⟨-, before, x, y, behind, eq1, eq2, len, -⟩ := burst
    have len1 := congrArg List.length eq1
    have len2 := congrArg List.length eq2
    rw [length_bits] at len1 len2
    simp only [List.length_append, length_bytesBe] at len1 len2
    omega
  obtain ⟨data', crc', rfl, size', two⟩ : ∃ data' crc', bytes = data' ++ crc' ∧
      data'.length = data.length ∧ crc'.length = 2 := by
    refine ⟨bytes.take data.length, bytes.drop data.length, (List.take_append_drop ..).symm, ?_, ?_⟩
    · rw [List.length_take]
      omega
    · rw [List.length_drop]
      omega
  have wrong : verify true data' crc' = false := by
    rw [Bool.eq_false_iff]
    intro right
    exact bad (good.trans ((verify_iff two).1 right).symm)
  have block' : IsBlock data' := by rwa [IsBlock, size']
  rw [← size'] at line
  obtain ⟨stat, got⟩ := getHdr_arrival block' two mode line
  rw [if_neg (Bool.eq_false_iff.1 wrong)] at stat
  exact ⟨stat, got.line⟩

/-- A receiver that asked for blocks with a CRC. -/
def asking (line : Line) : Xyz := ⟨line, [wantCrc], [], 0, 0, 1, 0, .ymodem, true, false, false, 0, 0⟩

/-- A block of zeros whose first byte is a one. -/
theorem getHdr_burst_first :
    let r := getHdr (asking (arrival 1 128 (1 :: List.replicate 129 0) ++ []))
    r.1 = .cksum ∧ r.2.line = [] := by
  have none (k : Nat) : cygCrc16 (List.replicate k 0) = 0 := by
    induction k with
    | zero => rfl
    | succ k ih => exact ih
  have zeros : List.replicate 128 (0 : UInt8) ++
      bytesBe 2 (cygCrc16 (List.replicate 128 0)).toNat = 0 :: List.replicate 129 0 := by
    rw [none]
    decide
  have block : IsBlock (List.replicate 128 0) := .inl List.length_replicate
  refine getHdr_burst block rfl ?_ rfl
  rw [zeros]
  refine ⟨fun same => ?_, [], byteBits 0, byteBits 1, (List.replicate 129 0).flatMap byteBits, ?_,
    ?_, rfl, by decide⟩
  · rw [List.flatMap_cons, List.flatMap_cons] at same
    exact absurd (List.append_inj_left same rfl) (by decide)
  · rw [List.flatMap_cons, List.nil_append]
  · rw [List.flatMap_cons, List.nil_append]

end Imx.XyzModem
