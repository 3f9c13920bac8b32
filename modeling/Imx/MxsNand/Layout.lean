import Mathlib.Algebra.Order.Ring.Nat
import Imx.MxsNand.Strength

/-!
# The layout of the registers

What the BCH unit makes of the registers that are written for a chip. A field holds what was shifted
there when nothing else reaches it; the step reaches further than its field when it is 4096 or more,
and without data in the first chunk the mask for its size takes the lowest bit of its level away.
-/

namespace Imx.MxsNand

/-! ## Fields -/

section Fields

variable {x k start len : Nat}

/-- What was shifted into a field is there. -/
lemma extract_field (room : k + len ≤ 32) :
    (BitVec.ofNat 32 x <<< k).extractLsb' k len = BitVec.ofNat len x := by
  refine BitVec.eq_of_getLsbD_eq fun i lt => ?_
  simp only [BitVec.getLsbD_extractLsb', BitVec.getLsbD_shiftLeft, BitVec.getLsbD_ofNat, lt,
    decide_true, Bool.true_and, Nat.add_sub_cancel_left, show k + i < 32 from by omega,
    show ¬ k + i < k from by omega, decide_false, Bool.not_false, show i < 32 from by omega]

/-- What was shifted further does not reach a field. -/
lemma extract_below (le : start + len ≤ k) :
    (BitVec.ofNat 32 x <<< k).extractLsb' start len = 0 := by
  refine BitVec.eq_of_getLsbD_eq fun i lt => ?_
  simp only [BitVec.getLsbD_extractLsb', BitVec.getLsbD_shiftLeft, lt, decide_true,
    show start + i < k from by omega, Bool.not_true, Bool.and_false, Bool.false_and]
  exact BitVec.getLsbD_zero.symm

/-- What is too small does not reach a field. -/
lemma extract_above {j : Nat} (small : x < 2 ^ j) (le : k + j ≤ start) :
    (BitVec.ofNat 32 x <<< k).extractLsb' start len = 0 := by
  refine BitVec.eq_of_getLsbD_eq fun i lt => ?_
  have none : x.testBit (start + i - k) = false :=
    Nat.testBit_lt_two_pow (Nat.lt_of_lt_of_le small (Nat.pow_le_pow_right Nat.two_pos (by omega)))
  simp only [BitVec.getLsbD_extractLsb', BitVec.getLsbD_shiftLeft, BitVec.getLsbD_ofNat, none,
    Bool.and_false]
  exact BitVec.getLsbD_zero.symm

end Fields

/-! ## The registers of a chip -/

section Regs

variable {s : Statics} {writesize oobsize start len : Nat}

/-- What is put into the registers keeps to 5 and 14 bits. -/
structure Small (s : Statics) : Prop where
  level : s.eccStrength / 2 < 2 ^ 5
  size : s.chunkDataSize / 4 < 2 ^ 14

/-- The flag of the field is one bit. -/
lemma flag_lt : (if s.gf14 = true then 1 else 0) < 2 ^ 1 := by
  split <;> decide

/-- Fields above the size of a chunk. -/
lemma size_above (small : Small s) (le : 14 ≤ start) :
    (BitVec.ofNat 32 (s.chunkDataSize / 4)).extractLsb' start len = 0 := by
  rw [← BitVec.shiftLeft_zero (BitVec.ofNat 32 _)]
  exact extract_above small.size (by omega)

/-- The field of the size of a chunk. -/
lemma size_field : (BitVec.ofNat 32 (s.chunkDataSize / 4)).extractLsb' 0 10 =
    BitVec.ofNat 10 (s.chunkDataSize / 4) := by
  rw [← BitVec.shiftLeft_zero (BitVec.ofNat 32 _)]
  exact extract_field (by decide)

/-- The size of the metadata. -/
lemma metaSize_field (small : Small s) :
    (flashLayout s writesize oobsize).1.extractLsb' 16 8 = 10 := by
  have mask : (~~~0xfff#32).extractLsb' 16 8 = 0xff#8 := by decide
  simp only [flashLayout, apply_ite (BitVec.extractLsb' 16 8), BitVec.extractLsb'_or,
    BitVec.extractLsb'_and, extract_field (show 16 + 8 ≤ 32 from by decide),
    extract_below (show 16 + 8 ≤ 24 from by decide), extract_above small.level (Nat.le_refl 16),
    extract_above flag_lt (show 10 + 1 ≤ 16 from by decide),
    size_above small (show 14 ≤ 16 from by decide), mask]
  split <;> decide

/-- The chunks behind the first. -/
lemma nblocks_field (small : Small s) :
    (flashLayout s writesize oobsize).1.extractLsb' 24 8 =
      BitVec.ofNat 8 (eccChunkCnt s writesize - 1) := by
  have mask : (~~~0xfff#32).extractLsb' 24 8 = BitVec.allOnes 8 := by decide
  have metaSize : metadataSize < 2 ^ 4 := by decide
  simp only [flashLayout, apply_ite (BitVec.extractLsb' 24 8), BitVec.extractLsb'_or,
    BitVec.extractLsb'_and, extract_field (show 24 + 8 ≤ 32 from by decide),
    extract_above metaSize (show 16 + 4 ≤ 24 from by decide),
    extract_above small.level (show 11 + 5 ≤ 24 from by decide),
    extract_above flag_lt (show 10 + 1 ≤ 24 from by decide),
    size_above small (show 14 ≤ 24 from by decide), mask]
  split
  · simp only [BitVec.ofNat_eq_ofNat, BitVec.or_zero, BitVec.and_allOnes]
  · simp only [BitVec.ofNat_eq_ofNat, BitVec.or_zero]

/-- The data of the first chunk. -/
lemma data0_field : (flashLayout s writesize oobsize).1.extractLsb' 0 10 =
    if s.eccForMeta then 0 else BitVec.ofNat 10 (s.chunkDataSize / 4) := by
  have mask : (~~~0xfff#32).extractLsb' 0 10 = 0#10 := by decide
  simp (disch := decide) only [flashLayout, apply_ite (BitVec.extractLsb' 0 10),
    BitVec.extractLsb'_or, BitVec.extractLsb'_and, extract_below, size_field, mask]
  split
  · decide
  · simp only [BitVec.ofNat_eq_ofNat, BitVec.or_zero, BitVec.zero_or]

/-- The data of a later chunk. -/
lemma dataN_field : (flashLayout s writesize oobsize).2.extractLsb' 0 10 =
    BitVec.ofNat 10 (s.chunkDataSize / 4) := by
  simp (disch := decide) only [flashLayout, BitVec.extractLsb'_or, extract_below, size_field,
    BitVec.ofNat_eq_ofNat, BitVec.or_zero, BitVec.zero_or]

/-- Fields above the field of the size of a chunk, when that is large enough. -/
lemma size_above_field (short : s.chunkDataSize / 4 < 2 ^ 10) (le : 10 ≤ start) :
    (BitVec.ofNat 32 (s.chunkDataSize / 4)).extractLsb' start len = 0 := by
  rw [← BitVec.shiftLeft_zero (BitVec.ofNat 32 _)]
  exact extract_above short (by omega)

/-- The level of the first chunk. -/
lemma level0_field (short : s.chunkDataSize / 4 < 2 ^ 10) :
    (flashLayout s writesize oobsize).1.extractLsb' 11 5 =
      if s.eccForMeta then BitVec.ofNat 5 (s.eccStrength / 2) &&& 30
      else BitVec.ofNat 5 (s.eccStrength / 2) := by
  have mask : (~~~0xfff#32).extractLsb' 11 5 = 30#5 := by decide
  simp (disch := decide) only [flashLayout, apply_ite (BitVec.extractLsb' 11 5),
    BitVec.extractLsb'_or, BitVec.extractLsb'_and, extract_field, extract_below,
    extract_above flag_lt (Nat.le_refl 11), size_above_field short (show 10 ≤ 11 from by decide),
    mask]
  split
  · simp only [BitVec.ofNat_eq_ofNat, BitVec.or_zero, BitVec.zero_or]
  · simp only [BitVec.ofNat_eq_ofNat, BitVec.or_zero, BitVec.zero_or]

/-- The level of a later chunk. -/
lemma levelN_field (short : s.chunkDataSize / 4 < 2 ^ 10) :
    (flashLayout s writesize oobsize).2.extractLsb' 11 5 = BitVec.ofNat 5 (s.eccStrength / 2) := by
  simp (disch := decide) only [flashLayout, BitVec.extractLsb'_or, extract_field, extract_below,
    extract_above flag_lt (Nat.le_refl 11), size_above_field short (show 10 ≤ 11 from by decide),
    BitVec.ofNat_eq_ofNat, BitVec.or_zero, BitVec.zero_or]

/-- A bit is a field of one bit. -/
lemma getLsbD_eq_extract {r : BitVec 32} : r.getLsbD 10 = (r.extractLsb' 10 1).getLsbD 0 := by
  rw [BitVec.getLsbD_extractLsb']
  rfl

/-- The flag of the field, for the first chunk. -/
lemma flag0_field (short : s.chunkDataSize / 4 < 2 ^ 10) :
    (flashLayout s writesize oobsize).1.getLsbD 10 = s.gf14 := by
  have mask : (~~~0xfff#32).extractLsb' 10 1 = 0#1 := by decide
  rw [getLsbD_eq_extract]
  simp (disch := decide) only [flashLayout, apply_ite (BitVec.extractLsb' 10 1),
    BitVec.extractLsb'_or, BitVec.extractLsb'_and, extract_field, extract_below,
    size_above_field short (Nat.le_refl 10), mask]
  cases s.eccForMeta <;> cases s.gf14 <;> decide

/-- The flag of the field, for a later chunk. -/
lemma flagN_field (short : s.chunkDataSize / 4 < 2 ^ 10) :
    (flashLayout s writesize oobsize).2.getLsbD 10 = s.gf14 := by
  rw [getLsbD_eq_extract]
  simp (disch := decide) only [flashLayout, BitVec.extractLsb'_or, extract_field, extract_below,
    size_above_field short (Nat.le_refl 10)]
  cases s.gf14 <;> decide

end Regs

/-! ## The layout of a chip -/

section Chip

variable {s : Statics} {g : Geometry}

/-- The level that the registers have for the metadata, when these have their own ECC: the mask for
the size of the data takes a bit away. -/
def metaLevel (ownEcc : Bool) (e : Nat) : Nat := if ownEcc then e / 4 * 4 else 0

/-- The level that the registers have for a chunk. -/
def chunkLevel (e : Nat) : Nat := e / 2 * 2

/-- The chunks of the page and their size can be told to the BCH unit. -/
structure Told (g : Geometry) (ownEcc : Bool) : Prop where
  chunks : g.writesize / g.step + ownEcc.toNat ≤ 256
  step_lt : g.step < 4096
  step_dvd : 4 ∣ g.step

/-- The layout of a chip as it is meant to be, but for its levels. -/
def chipLayout (g : Geometry) (gf e : Nat) (ownEcc : Bool) : Layout where
  metaBits := 80
  data0 := if ownEcc then 0 else g.step * 8
  ecc0 := gf * if ownEcc then metaLevel true e else chunkLevel e
  nblocks := g.writesize / g.step + ownEcc.toNat - 1
  dataN := g.step * 8
  eccN := gf * chunkLevel e

/-- There is at least one chunk. -/
lemma chunks_pos : 0 < g.writesize / g.step :=
  Nat.div_pos (Nat.le_of_dvd g.writesize_pos g.step_dvd)
    (Nat.pos_of_dvd_of_pos g.step_dvd g.writesize_pos)

/-- What the registers hold fits, whatever is told. -/
lemma small_of (step : s.chunkDataSize = g.step) (level : s.eccStrength ≤ 62) : Small s where
  level := by omega
  size := by
    have lt := g.step_lt
    omega

/-- The size of a data chunk in the registers. -/
lemma toNat_size : (BitVec.ofNat 10 (g.step / 4)).toNat = g.step / 4 % 1024 :=
  BitVec.toNat_ofNat _ _

/-- The layout of the registers, when the chunks can be told. -/
lemma ofRegs_eq (told : Told g s.eccForMeta) (step : s.chunkDataSize = g.step)
    (level : s.eccStrength ≤ 62) : Layout.ofRegs (flashLayout s g.writesize g.oobsize) =
      chipLayout g (galoisField s.gf14) s.eccStrength s.eccForMeta := by
  have small : Small s := small_of step level
  have short : s.chunkDataSize / 4 < 2 ^ 10 := by
    have lt := told.step_lt
    omega
  obtain ⟨q, eq⟩ := told.step_dvd
  have size : (BitVec.ofNat 10 (g.step / 4)).toNat = q := by
    rw [toNat_size]
    have lt := told.step_lt
    omega
  have cut : ∀ x < 32, (BitVec.ofNat 5 x &&& 30).toNat = x / 2 * 2 := by decide
  have whole : (BitVec.ofNat 5 (s.eccStrength / 2)).toNat = s.eccStrength / 2 := by
    rw [BitVec.toNat_ofNat]
    omega
  have cnt := told.chunks
  have pos : 0 < g.writesize / g.step := chunks_pos
  rw [Layout.ofRegs, metaSize_field small, nblocks_field small, data0_field, dataN_field,
    level0_field short, levelN_field short, flag0_field short, flagN_field short, step]
  -- the two layouts differ in how the first chunk is said
  cases ownEcc : s.eccForMeta with
  | false =>
    rw [ownEcc, Bool.toNat_false] at cnt
    have eight : (BitVec.ofNat 8 (g.writesize / g.step - 1)).toNat = g.writesize / g.step - 1 := by
      rw [BitVec.toNat_ofNat]
      omega
    have four : 8 * (4 * q) = g.step * 8 := by omega
    have two : 2 * (s.eccStrength / 2) = s.eccStrength / 2 * 2 := Nat.mul_comm _ _
    simp only [eccChunkCnt, ownEcc, step, chipLayout, chunkLevel, size, whole, eight, four, two,
      Bool.toNat_false, Nat.add_zero, Bool.false_eq_true, if_false]
    rfl
  | true =>
    rw [ownEcc, Bool.toNat_true] at cnt
    have eight : (BitVec.ofNat 8 (g.writesize / g.step)).toNat = g.writesize / g.step := by
      rw [BitVec.toNat_ofNat]
      omega
    have four : 8 * (4 * q) = g.step * 8 := by omega
    have two : 2 * (s.eccStrength / 2) = s.eccStrength / 2 * 2 := Nat.mul_comm _ _
    have first : 2 * (s.eccStrength / 2 / 2 * 2) = s.eccStrength / 4 * 4 := by omega
    simp only [eccChunkCnt, ownEcc, step, chipLayout, chunkLevel, metaLevel, size, whole, eight, four,
      two, first, cut _ small.level, Bool.toNat_true, Nat.add_sub_cancel, if_true]
    rfl

/-- The page is its chunks. -/
lemma chunks_mul : g.writesize / g.step * g.step = g.writesize := Nat.div_mul_cancel g.step_dvd

/-- The data of the chunks are the page. -/
lemma chipLayout_dataBits {gf e : Nat} {ownEcc : Bool} :
    (chipLayout g gf e ownEcc).dataBits = g.writesize * 8 := by
  have pos : 0 < g.writesize / g.step := chunks_pos
  have mul : g.writesize / g.step * (g.step * 8) = g.writesize * 8 := by
    rw [← Nat.mul_assoc, chunks_mul]
  cases ownEcc with
  | false =>
    calc g.step * 8 + (g.writesize / g.step + 0 - 1) * (g.step * 8)
        = (g.writesize / g.step - 1 + 1) * (g.step * 8) := by
          rw [Nat.add_zero, Nat.add_mul, Nat.one_mul, Nat.add_comm]
      _ = g.writesize * 8 := by rw [Nat.sub_add_cancel pos, mul]
  | true =>
    calc 0 + (g.writesize / g.step + 1 - 1) * (g.step * 8)
        = g.writesize / g.step * (g.step * 8) := by rw [Nat.zero_add, Nat.add_sub_cancel]
      _ = g.writesize * 8 := mul

/-- A product of smaller factors is smaller. -/
lemma factors_eq {a b n m : Nat} (la : a ≤ n) (lb : b ≤ m) (pos : 0 < n * m) (eq : a * b = n * m) :
    a = n ∧ b = m := by
  have pa : 0 < a := Nat.pos_of_mul_pos_right (eq ▸ pos)
  have pm : 0 < m := Nat.pos_of_mul_pos_left pos
  exact (mul_eq_mul_iff_eq_and_eq_of_pos la lb pa pm).1 eq

/-- The registers have all the data of a page exactly when the chunks can be told. -/
lemma dataBits_iff (step : s.chunkDataSize = g.step) (level : s.eccStrength ≤ 62) :
    (Layout.ofRegs (flashLayout s g.writesize g.oobsize)).dataBits = g.writesize * 8 ↔
      Told g s.eccForMeta := by
  constructor
  · intro eq
    have small : Small s := small_of step level
    have pos : 0 < g.writesize / g.step := chunks_pos
    have whole : 0 < g.writesize / g.step * g.step := by
      rw [chunks_mul]
      exact g.writesize_pos
    simp only [Layout.dataBits, Layout.ofRegs, nblocks_field small, data0_field, dataN_field, step,
      eccChunkCnt, BitVec.toNat_ofNat, Nat.reducePow] at eq
    have sizes : 4 * (g.step / 4 % 1024) = g.step → g.step < 4096 ∧ 4 ∣ g.step := by
      intro eq
      exact ⟨by omega, ⟨_, eq.symm⟩⟩
    cases ownEcc : s.eccForMeta with
    | false =>
      rw [ownEcc] at eq
      simp only [Bool.false_eq_true, if_false, toNat_size] at eq
      have mul : ((g.writesize / g.step - 1) % 256 + 1) * (4 * (g.step / 4 % 1024)) =
          g.writesize / g.step * g.step := by
        have long : (g.writesize / g.step - 1) % 256 * (8 * (4 * (g.step / 4 % 1024))) =
            8 * ((g.writesize / g.step - 1) % 256 * (4 * (g.step / 4 % 1024))) :=
          Nat.mul_left_comm _ _ _
        rw [chunks_mul, Nat.add_mul, Nat.one_mul]
        omega
      obtain ⟨count, size⟩ := factors_eq (by omega) (by omega) whole mul
      exact ⟨by rw [Bool.toNat_false]; omega, (sizes size).1, (sizes size).2⟩
    | true =>
      rw [ownEcc] at eq
      simp only [if_true, Nat.add_sub_cancel] at eq
      have mul : g.writesize / g.step % 256 * (4 * (g.step / 4 % 1024)) =
          g.writesize / g.step * g.step := by
        have long : g.writesize / g.step % 256 * (8 * (4 * (g.step / 4 % 1024))) =
            8 * (g.writesize / g.step % 256 * (4 * (g.step / 4 % 1024))) :=
          Nat.mul_left_comm _ _ _
        have none : (0 : BitVec 10).toNat = 0 := rfl
        rw [chunks_mul]
        omega
      obtain ⟨count, size⟩ := factors_eq (by omega) (by omega) whole mul
      exact ⟨by rw [Bool.toNat_true]; omega, (sizes size).1, (sizes size).2⟩
  · intro told
    rw [ofRegs_eq told step level, chipLayout_dataBits]

end Chip

end Imx.MxsNand
