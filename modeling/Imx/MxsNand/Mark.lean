import Imx.MxsNand.Layout
import Imx.MxsNand.Swap

/-!
# The bad block mark stays in its place

The mark is the first byte behind the data of a page as the factory left it. The driver counts with
the strength it has chosen, the BCH unit with the levels in its registers, and the two agree on the
bit of the data that lies there only under a condition on the chip: the layout fits, the mark is in
data, and the levels are not cut in front of it.
-/

namespace Imx.MxsNand

/-! ## The condition -/

section Condition

variable (g : Geometry) (gf first e : Nat)

/-- The bits of the page from the first chunk up to the mark, with an ECC of the level `first` for
the metadata. -/
def markBits : Nat := g.writesize * 8 - (80 + gf * first)

/-- The chunks in front of the mark, with levels of `e`. -/
def chunksBefore : Nat := markBits g gf first / (g.step * 8 + gf * e)

/-- The bit of its chunk that the mark begins with. -/
def bitInChunk : Nat := markBits g gf first % (g.step * 8 + gf * e)

/-- The level the driver counts for the metadata. -/
def ownLevel (ownEcc : Bool) (e : Nat) : Nat := if ownEcc then e else 0

/-- The mark stays in its place with strength `e`. -/
structure MarkFits (ownEcc : Bool) : Prop where
  /-- The chunks and their size fit the registers. -/
  told : Told g ownEcc
  /-- Everything fits into the page. -/
  fits : 80 + gf * metaLevel ownEcc e +
    g.writesize / g.step * (g.step * 8 + gf * chunkLevel e) ≤ (g.writesize + g.oobsize) * 8
  /-- The mark is behind the metadata. -/
  front : 80 + gf * ownLevel ownEcc e ≤ g.writesize * 8
  /-- The mark is in the data of one chunk. -/
  inData : bitInChunk g gf (metaLevel ownEcc e) (chunkLevel e) + 8 ≤ g.step * 8
  /-- As the driver counts it is so, too. -/
  passes : bitInChunk g gf (ownLevel ownEcc e) e ≤ g.step * 8
  /-- No level in front of the mark is cut, or the cuts make up for each other. -/
  same : ownLevel ownEcc e + chunksBefore g gf (ownLevel ownEcc e) e * e =
    metaLevel ownEcc e +
      chunksBefore g gf (metaLevel ownEcc e) (chunkLevel e) * chunkLevel e

end Condition

/-! ## Where the data are -/

section Place

variable {g : Geometry} {gf e b mark : Nat} {ownEcc : Bool}

/-- A chunk is not empty. -/
lemma step_pos : 0 < g.step * 8 :=
  Nat.mul_pos (Nat.pos_of_dvd_of_pos g.step_dvd g.writesize_pos) (by decide)

/-- The bit of the page that a bit of the data is stored in. -/
lemma position_eq : (chipLayout g gf e ownEcc).position b =
    80 + gf * metaLevel ownEcc e + b / (g.step * 8) * (g.step * 8 + gf * chunkLevel e) +
      b % (g.step * 8) := by
  cases ownEcc with
  | false =>
    rw [Layout.position]
    by_cases first : b < g.step * 8
    · rw [Nat.div_eq_of_lt first, Nat.mod_eq_of_lt first, Nat.zero_mul]
      exact if_pos first
    · have le := Nat.not_lt.1 first
      rw [Nat.div_eq_sub_div step_pos le, Nat.mod_eq_sub_mod le, Nat.add_mul, Nat.one_mul]
      refine (if_neg first).trans ?_
      simp only [chipLayout, metaLevel, Bool.false_eq_true, if_false]
      omega
  | true => rfl

/-- The chunk that a bit of the data is in. -/
lemma chunkOf_eq : (chipLayout g gf e ownEcc).chunkOf b = b / (g.step * 8) + ownEcc.toNat := by
  cases ownEcc with
  | false =>
    rw [Layout.chunkOf]
    by_cases first : b < g.step * 8
    · rw [Nat.div_eq_of_lt first]
      exact if_pos first
    · have le := Nat.not_lt.1 first
      rw [Nat.div_eq_sub_div step_pos le]
      exact (if_neg first).trans (Nat.add_comm _ _)
  | true => exact Nat.add_comm _ _

/-- The size of the whole layout. -/
lemma bits_eq : (chipLayout g gf e ownEcc).bits = 80 + gf * metaLevel ownEcc e +
    g.writesize / g.step * (g.step * 8 + gf * chunkLevel e) := by
  have pos : 0 < g.writesize / g.step := chunks_pos
  cases ownEcc with
  | false =>
    obtain ⟨n, eq⟩ := Nat.exists_eq_add_of_lt pos
    simp only [Layout.bits, chipLayout, metaLevel, eq, Bool.false_eq_true, if_false,
      Bool.toNat_false, Nat.add_zero, Nat.zero_add, Nat.add_sub_cancel, Nat.mul_zero, Nat.add_mul,
      Nat.one_mul]
    omega
  | true => rfl

/-- The eight bits from the mark on are in one chunk and in their place. -/
lemma atMark_iff : AtMark (chipLayout g gf e ownEcc) g.writesize mark ↔
    80 + gf * metaLevel ownEcc e ≤ g.writesize * 8 ∧
    bitInChunk g gf (metaLevel ownEcc e) (chunkLevel e) + 8 ≤ g.step * 8 ∧
    mark = chunksBefore g gf (metaLevel ownEcc e) (chunkLevel e) * (g.step * 8) +
      bitInChunk g gf (metaLevel ownEcc e) (chunkLevel e) := by
  have pos : 0 < g.step * 8 := step_pos
  constructor
  · intro at_mark
    have place := at_mark.place 0 (by decide)
    have chunk := at_mark.chunk 7 (by decide)
    rw [position_eq, Nat.add_zero, Nat.add_zero] at place
    rw [chunkOf_eq, chunkOf_eq, Nat.add_right_cancel_iff] at chunk
    have whole := Nat.div_add_mod mark (g.step * 8)
    have whole' := Nat.div_add_mod (mark + 7) (g.step * 8)
    have lt := Nat.mod_lt (mark + 7) pos
    rw [chunk] at whole'
    have total : markBits g gf (metaLevel ownEcc e) =
        (g.step * 8 + gf * chunkLevel e) * (mark / (g.step * 8)) + mark % (g.step * 8) := by
      rw [markBits, Nat.mul_comm (g.step * 8 + _)]
      omega
    have less : mark % (g.step * 8) < g.step * 8 + gf * chunkLevel e :=
      Nat.lt_of_lt_of_le (Nat.mod_lt _ pos) (Nat.le_add_right _ _)
    have count : chunksBefore g gf (metaLevel ownEcc e) (chunkLevel e) = mark / (g.step * 8) := by
      rw [chunksBefore, total, Nat.mul_add_div (by omega), Nat.div_eq_of_lt less, Nat.add_zero]
    have bit : bitInChunk g gf (metaLevel ownEcc e) (chunkLevel e) = mark % (g.step * 8) := by
      rw [bitInChunk, total, Nat.mul_add_mod, Nat.mod_eq_of_lt less]
    rw [count, bit]
    refine ⟨by omega, by omega, ?_⟩
    rw [Nat.mul_comm]
    exact whole.symm
  · rintro ⟨front, inData, rfl⟩
    have whole : (g.step * 8 + gf * chunkLevel e) *
        chunksBefore g gf (metaLevel ownEcc e) (chunkLevel e) +
          bitInChunk g gf (metaLevel ownEcc e) (chunkLevel e) =
        markBits g gf (metaLevel ownEcc e) := Nat.div_add_mod _ _
    generalize chunksBefore g gf (metaLevel ownEcc e) (chunkLevel e) = k at whole ⊢
    generalize bitInChunk g gf (metaLevel ownEcc e) (chunkLevel e) = j at whole inData ⊢
    rw [markBits, Nat.mul_comm, Nat.mul_add] at whole
    have div : ∀ i < 8, (k * (g.step * 8) + j + i) / (g.step * 8) = k := by
      intro i lt
      rw [Nat.add_assoc, Nat.mul_comm, Nat.mul_add_div pos, Nat.div_eq_of_lt (by omega),
        Nat.add_zero]
    have mod : ∀ i < 8, (k * (g.step * 8) + j + i) % (g.step * 8) = j + i := by
      intro i lt
      rw [Nat.add_assoc, Nat.mul_comm, Nat.mul_add_mod, Nat.mod_eq_of_lt (by omega)]
    refine ⟨?_, fun i lt => ?_, fun i lt => ?_⟩
    · rw [chipLayout_dataBits]
      omega
    · have here := div 0 (by decide)
      rw [Nat.add_zero] at here
      rw [chunkOf_eq, chunkOf_eq, div i lt, here]
    · rw [position_eq, div i lt, mod i lt, Nat.mul_add]
      omega

end Place

/-! ## Counting in two ways -/

section Count

variable {d gf e e' o m k k' j j' total : Nat}

/-- Two ways to cut the same bits into chunks leave the same bits of data in front exactly when they
have the same levels in front. -/
lemma data_eq_iff (pos : 0 < gf) (one : (d + gf * e) * k + j + gf * o = total)
    (two : (d + gf * e') * k' + j' + gf * m = total) :
    k * d + j = k' * d + j' ↔ o + k * e = m + k' * e' := by
  have one' : k * d + j + gf * (o + k * e) = total := by
    rw [← one, Nat.mul_add, Nat.add_mul, Nat.mul_comm k d, Nat.mul_left_comm gf k e,
      Nat.mul_comm k (gf * e)]
    omega
  have two' : k' * d + j' + gf * (m + k' * e') = total := by
    rw [← two, Nat.mul_add, Nat.add_mul, Nat.mul_comm k' d, Nat.mul_left_comm gf k' e',
      Nat.mul_comm k' (gf * e')]
    omega
  constructor
  · intro eq
    have eq' : gf * (o + k * e) = gf * (m + k' * e') := by omega
    exact Nat.eq_of_mul_eq_mul_left pos eq'
  · intro eq
    rw [eq] at one'
    omega

/-- The bit 1 is not the one of the mark. -/
lemma data_ne_one {n : Nat} (two : (d + gf * e') * k' + j' + gf * m = n * 8) (four : 4 ∣ m)
    (large : 8 ≤ d) : k' * d + j' ≠ 1 := by
  intro eq
  cases k' with
  | zero =>
    obtain ⟨t, rfl⟩ := four
    rw [Nat.mul_left_comm] at two
    omega
  | succ k' =>
    have le : d ≤ (k' + 1) * d := Nat.le_mul_of_pos_left d (Nat.succ_pos k')
    omega

/-- When the bits in front of the mark have wrapped, the bit that comes out is not in the page. -/
lemma data_wrapped {c x : Nat} (eq : x = 2 ^ 32 - c) (small : c ≤ 948) (large : 32 ≤ d)
    (ecc : gf * e ≤ 868) : 948 < x / (d + gf * e) * d + x % (d + gf * e) := by
  have whole := Nat.div_add_mod x (d + gf * e)
  rw [Nat.mul_comm] at whole
  have le : 32 * (d + gf * e) ≤ 900 * d := by omega
  have le' := Nat.mul_le_mul_left (x / (d + gf * e)) le
  rw [Nat.mul_left_comm, Nat.mul_left_comm _ 900 d] at le'
  omega

end Count

/-! ## What the driver computes -/

section Offset

variable {g : Geometry} {s : Statics} {gf e : Nat} {ownEcc : Bool}

lemma sub32_of_le {a b : Nat} (le : b ≤ a) (lt : a < 2 ^ 32) : sub32 a b = a - b := by
  rw [sub32]
  omega

lemma sub32_of_lt {a b : Nat} (less : a < b) (lt : b < 2 ^ 32) : sub32 a b = 2 ^ 32 - (b - a) := by
  rw [sub32]
  omega

/-- A page whose chunks can be told is small. -/
lemma writesize_lt_of_told (told : Told g ownEcc) : g.writesize * 8 < 2 ^ 23 := by
  have chunks := told.chunks
  have size := told.step_lt
  have le : g.writesize / g.step * g.step ≤ 256 * 4095 :=
    Nat.mul_le_mul (by omega) (by omega)
  rw [chunks_mul] at le
  omega

/-- The bits that are left of a number of chunks. -/
lemma sub_chunks {x d ecc : Nat} : x - x / (d + ecc) * (d + ecc) = x % (d + ecc) ∧
    x - x / (d + ecc) * ecc = x / (d + ecc) * d + x % (d + ecc) := by
  have whole := Nat.div_add_mod x (d + ecc)
  rw [Nat.mul_comm, Nat.mul_add] at whole
  rw [Nat.mul_add]
  omega

/-- The offset in terms of the bits in front of the mark. -/
lemma getMarkOffset_eq (step : s.chunkDataSize = g.step) :
    getMarkOffset s g.writesize =
      let x := sub32 (g.writesize * 8)
        (80 + galoisField s.gf14 * ownLevel s.eccForMeta s.eccStrength)
      let total := g.step * 8 + galoisField s.gf14 * s.eccStrength
      if g.step * 8 < x % total then 1 else x / total * (g.step * 8) + x % total := by
  have taken : (if s.eccForMeta = true then
        metadataSize * 8 + galoisField s.gf14 * s.eccStrength else metadataSize * 8) =
      80 + galoisField s.gf14 * ownLevel s.eccForMeta s.eccStrength := by
    rw [ownLevel]
    split_ifs <;> rfl
  simp only [getMarkOffset, step, Nat.mul_comm s.eccStrength, taken, sub_chunks]

/-- The levels that are counted for the metadata. -/
lemma levels : metaLevel ownEcc e ≤ ownLevel ownEcc e ∧ 4 ∣ metaLevel ownEcc e ∧
    ownLevel ownEcc e ≤ e := by
  cases ownEcc with
  | false => exact ⟨Nat.le_refl 0, ⟨0, rfl⟩, Nat.zero_le e⟩
  | true => exact ⟨Nat.div_mul_le_self e 4, ⟨e / 4, Nat.mul_comm _ _⟩, Nat.le_refl e⟩

/-- The field is one of two. -/
lemma galoisField_mem {gf14 : Bool} : 0 < galoisField gf14 ∧ galoisField gf14 ≤ 14 := by
  cases gf14 <;> decide

/-- A step that can be told is at least 4. -/
lemma step_ge (told : Told g ownEcc) : 32 ≤ g.step * 8 := by
  have pos : 0 < g.step := Nat.pos_of_dvd_of_pos g.step_dvd g.writesize_pos
  have le : 4 ≤ g.step := Nat.le_of_dvd pos told.step_dvd
  omega

/-- The chunks in front of the mark and the bits of the chunk it begins in are all in front. -/
lemma chunks_add {first : Nat} (le : 80 + gf * first ≤ g.writesize * 8) :
    (g.step * 8 + gf * e) * chunksBefore g gf first e + bitInChunk g gf first e + gf * first =
      (g.writesize - 10) * 8 := by
  have whole : (g.step * 8 + gf * e) * chunksBefore g gf first e + bitInChunk g gf first e =
      markBits g gf first := Nat.div_add_mod _ _
  rw [whole, markBits]
  omega

/-- The offset, when the mark is behind what the driver counts for the metadata. -/
lemma getMarkOffset_front (step : s.chunkDataSize = g.step) (told : Told g s.eccForMeta)
    (front : 80 + galoisField s.gf14 * ownLevel s.eccForMeta s.eccStrength ≤ g.writesize * 8) :
    getMarkOffset s g.writesize =
      if g.step * 8 < bitInChunk g (galoisField s.gf14) (ownLevel s.eccForMeta s.eccStrength)
          s.eccStrength then 1
      else chunksBefore g (galoisField s.gf14) (ownLevel s.eccForMeta s.eccStrength)
          s.eccStrength * (g.step * 8) +
        bitInChunk g (galoisField s.gf14) (ownLevel s.eccForMeta s.eccStrength) s.eccStrength := by
  have small := writesize_lt_of_told told
  rw [getMarkOffset_eq step, sub32_of_le front (by omega)]
  rfl

/-- What comes out is the bit of the data at the mark exactly when the driver counts as the BCH unit
does. -/
lemma mark_iff (step : s.chunkDataSize = g.step) (told : Told g s.eccForMeta)
    (level : s.eccStrength ≤ 62) (gf_eq : galoisField s.gf14 = gf) (e_eq : s.eccStrength = e)
    (own_eq : s.eccForMeta = ownEcc)
    (behind : 80 + gf * metaLevel ownEcc e ≤ g.writesize * 8)
    (inData : bitInChunk g gf (metaLevel ownEcc e) (chunkLevel e) + 8 ≤ g.step * 8) :
    getMarkOffset s g.writesize =
      chunksBefore g gf (metaLevel ownEcc e) (chunkLevel e) * (g.step * 8) +
        bitInChunk g gf (metaLevel ownEcc e) (chunkLevel e) ↔
    80 + gf * ownLevel ownEcc e ≤ g.writesize * 8 ∧
    bitInChunk g gf (ownLevel ownEcc e) e ≤ g.step * 8 ∧
    ownLevel ownEcc e + chunksBefore g gf (ownLevel ownEcc e) e * e =
      metaLevel ownEcc e + chunksBefore g gf (metaLevel ownEcc e) (chunkLevel e) *
        chunkLevel e := by
  subst gf_eq e_eq own_eq
  have small := writesize_lt_of_told told
  have large := step_ge told
  have field := @galoisField_mem s.gf14
  have ⟨meta_le, four, own_le⟩ := @levels s.eccStrength s.eccForMeta
  have two := chunks_add (e := chunkLevel s.eccStrength) behind
  have ne_one := data_ne_one two four (Nat.le_trans (by decide) large)
  by_cases front : 80 + galoisField s.gf14 * ownLevel s.eccForMeta s.eccStrength ≤ g.writesize * 8
  · have one := chunks_add (e := s.eccStrength) front
    rw [getMarkOffset_front step told front]
    by_cases passes : bitInChunk g (galoisField s.gf14) (ownLevel s.eccForMeta s.eccStrength)
        s.eccStrength ≤ g.step * 8
    · rw [and_iff_right front, and_iff_right passes, ← data_eq_iff field.1 one two]
      rw [if_neg (Nat.not_lt.2 passes)]
    · rw [if_pos (Nat.not_le.1 passes)]
      exact iff_of_false (fun eq => ne_one eq.symm) fun all => passes all.2.1
  · refine iff_of_false ?_ fun all => front all.1
    have own_small : galoisField s.gf14 * ownLevel s.eccForMeta s.eccStrength ≤ 14 * 62 :=
      Nat.mul_le_mul field.2 (Nat.le_trans own_le level)
    have ecc_small : galoisField s.gf14 * s.eccStrength ≤ 868 := Nat.mul_le_mul field.2 level
    rw [getMarkOffset_eq step, sub32_of_lt (Nat.lt_of_not_le front) (by omega)]
    simp only
    split_ifs with out
    · exact fun eq => ne_one eq.symm
    · have far := data_wrapped (c := 80 + galoisField s.gf14 *
        ownLevel s.eccForMeta s.eccStrength - g.writesize * 8) rfl (by omega) large ecc_small
      have near : chunksBefore g (galoisField s.gf14) (metaLevel s.eccForMeta s.eccStrength)
          (chunkLevel s.eccStrength) * (g.step * 8) ≤
          (g.step * 8 + galoisField s.gf14 * chunkLevel s.eccStrength) *
            chunksBefore g (galoisField s.gf14) (metaLevel s.eccForMeta s.eccStrength)
              (chunkLevel s.eccStrength) := by
        rw [Nat.mul_comm]
        exact Nat.mul_le_mul_right _ (Nat.le_add_right _ _)
      omega

end Offset

/-! ## The chips whose mark stays -/

section Chip

variable {large : Bool} {g : Geometry} {s s' : Statics}

/-- For a chip that was set up. -/
lemma keepsMark_iff (setUp : SetUp large g s s') (ok : Accepted large g) : KeepsMark g s' ↔
    MarkFits g (galoisField (setGf14 g s)) s'.eccStrength s'.eccForMeta := by
  have level : s'.eccStrength ≤ 62 := setUp.chosen.le ok
  have step := setUp.step
  rw [← setUp.gf14]
  constructor
  · intro keeps
    have told : Told g s'.eccForMeta := (dataBits_iff step level).1 keeps.fits.data
    have place := keeps.place
    have all := keeps.fits.all
    rw [ofRegs_eq told step level] at place all
    rw [bits_eq] at all
    obtain ⟨behind, inData, mark⟩ := atMark_iff.1 place
    obtain ⟨front, passes, same⟩ := (mark_iff step told level rfl rfl rfl behind inData).1 mark
    exact ⟨told, all, front, inData, passes, same⟩
  · intro fits
    have told := fits.told
    have behind : 80 + galoisField s'.gf14 * metaLevel s'.eccForMeta s'.eccStrength ≤
        g.writesize * 8 := by
      have le := Nat.mul_le_mul_left (galoisField s'.gf14)
        (@levels s'.eccStrength s'.eccForMeta).1
      exact Nat.le_trans (Nat.add_le_add_left le 80) fits.front
    have mark := (mark_iff step told level rfl rfl rfl behind fits.inData).2
      ⟨fits.front, fits.passes, fits.same⟩
    refine ⟨⟨(dataBits_iff step level).2 told, ?_⟩, ?_, swaps _⟩
    · rw [ofRegs_eq told step level, bits_eq]
      exact fits.fits
    · rw [ofRegs_eq told step level]
      exact atMark_iff.2 ⟨behind, fits.inData, mark⟩

/-- Whenever a chip is set up, after whatever chips before it, its mark stays in its place. -/
def MarkStays (large : Bool) (g : Geometry) (s : Statics) : Prop :=
  ∀ s', getEccStrength large g s = some s' → KeepsMark g s'

/-- The mark of a chip stays in its place exactly when the chip is refused or the strength chosen
for it is one that the layout, the mark and the registers fit. -/
theorem markStays_iff (large : Bool) (g : Geometry) (s : Statics) : MarkStays large g s ↔
    (Accepted large g → ∀ e ownEcc, Chosen large g s e ownEcc →
      MarkFits g (galoisField (setGf14 g s)) e ownEcc) := by
  constructor
  · intro stays ok e ownEcc chosen
    obtain ⟨s', done⟩ := exists_setUp s ok
    obtain ⟨-, setUp⟩ := getEccStrength_setUp done
    obtain ⟨rfl, rfl⟩ := chosen.unique setUp.chosen
    exact (keepsMark_iff setUp ok).1 (stays s' done)
  · intro fits s' done
    obtain ⟨ok, setUp⟩ := getEccStrength_setUp done
    exact (keepsMark_iff setUp ok).2 (fits ok _ _ setUp.chosen)

/-- A page of 2048 and 640 bytes that asks for one bit in 512. -/
def oddChip : Geometry where
  writesize := 2048
  oobsize := 640
  strength := 1
  step := 512
  writesize_pos := by decide
  writesize_lt := by decide
  oobsize_lt := by decide
  strength_lt := by decide
  step_lt := by decide
  step_dvd := by decide

/-- With a large out-of-band area an odd strength stays odd, and the registers have less. -/
theorem not_markStays : ¬ MarkStays false oddChip Statics.init := by
  intro stays
  have ok : Accepted false oddChip := ⟨by decide, .inl (by decide)⟩
  have chosen : Chosen false oddChip Statics.init 1 false :=
    .inData (k := 0) (by decide) (by decide) (by decide) fun j lt => absurd lt (Nat.not_lt_zero j)
  obtain ⟨s', done⟩ := exists_setUp Statics.init ok
  obtain ⟨-, setUp⟩ := getEccStrength_setUp done
  obtain ⟨level, own⟩ := chosen.unique setUp.chosen
  have fits := (keepsMark_iff setUp ok).1 (stays s' done)
  rw [← level, ← own] at fits
  exact absurd fits.same (by decide)

end Chip

end Imx.MxsNand
