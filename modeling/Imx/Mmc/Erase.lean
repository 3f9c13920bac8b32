import Imx.Sparse.Flash

/-!
# Erasing a partition over fastboot

`fb_mmc_erase` (`common/fb_mmc.c`) with the erase group size that `mmc_startup` computes
(`drivers/mmc/mmc.c`). Block numbers have `w` bits. The start is rounded up and the length down by
masks, which does what is meant exactly when the group size is a power of two.
-/

namespace Imx.Mmc
open Imx.Sparse

/-! ## The group size -/

/-- The registers of a card that decide its erase group size: is it an SD card, does it have an
`ext_csd` (version 4), the bit of `EXT_CSD_ERASE_GROUP_DEF`, the byte
`EXT_CSD_HC_ERASE_GRP_SIZE`, and the third word of the CSD. -/
structure CardRegs where
  isSd : Bool
  version4 : Bool
  eraseGroupDef : Bool
  hcEraseGrpSize : Fin 256
  csd2 : BitVec 32
deriving DecidableEq, Repr

/-- The erase group size in sectors (the lines of `mmc_startup` that set `erase_grp_size`). -/
def CardRegs.eraseGrpSize (r : CardRegs) : Nat :=
  if r.isSd ∨ ¬ r.version4 then 1
  else if r.eraseGroupDef then r.hcEraseGrpSize * 1024
  else
    let eraseGsz := ((r.csd2 &&& 0x00007c00) >>> 10).toNat
    let eraseGmul := ((r.csd2 &&& 0x000003e0) >>> 5).toNat
    (eraseGsz + 1) * (eraseGmul + 1)

/-! ## Erasing -/

/-- The blocks asked for: the first and their number. -/
def eraseRange {w : Nat} (start size grpSize : BitVec w) : BitVec w × BitVec w :=
  let blksStart := (start + grpSize - 1) &&& ~~~(grpSize - 1)
  let blksSize :=
    if grpSize ≤ size then (size - (blksStart - start)) &&& ~~~(grpSize - 1) else 0
  (blksStart, blksSize)

/-- The response, and the ranges `block_erase` was asked for. -/
structure Erased where
  response : Response
  requests : List (Nat × Nat)

/-- Erase a partition (C `fb_mmc_erase`). `mmc` is the card with its group size; `blockErase` tells
how many blocks are erased. -/
def fbMmcErase {D : Type} (w : Nat) (mmc : Option (Mmc D × Nat)) (getenv : Str → Option Str)
    (blockErase : Nat → Nat → Nat) (cmd : Str) : Erased :=
  match mmc with
  | none => ⟨.fail "invalid mmc device", []⟩
  | some (card, grpSize) =>
    match infoByNameOrAlias card getenv cmd with
    | none => ⟨.fail "cannot find partition", []⟩
    | some info =>
      let r := eraseRange (BitVec.ofNat w info.start) (BitVec.ofNat w info.size)
        (BitVec.ofNat w grpSize)
      let blks := blockErase r.1.toNat r.2.toNat
      ⟨if blks ≠ r.2.toNat then .fail "failed erasing from device" else .okay,
        [(r.1.toNat, r.2.toNat)]⟩

/-- A range that begins and ends with a group and lies in `[start, start + size)`, and every group
that lies fully in there is in it. -/
structure WholeGroups (g start size : Nat) (range : Nat × Nat) : Prop where
  first : g ∣ range.1
  last : g ∣ range.1 + range.2
  inside : range.2 = 0 ∨ start ≤ range.1 ∧ range.1 + range.2 ≤ start + size
  all : ∀ k, start ≤ k * g → (k + 1) * g ≤ start + size →
    range.1 ≤ k * g ∧ (k + 1) * g ≤ range.1 + range.2

/-- Whatever partition is erased, one whose blocks can be counted in `w` bits, whole groups are
asked for. -/
def ErasesWhole (w grpSize : Nat) : Prop :=
  ∀ (D : Type) (card : Mmc D) getenv blockErase cmd info,
    infoByNameOrAlias card getenv cmd = some info → info.size < 2 ^ w →
      info.start + info.size ≤ 2 ^ w → ∀ range ∈
          (fbMmcErase w (some (card, grpSize)) getenv blockErase cmd).requests,
        WholeGroups grpSize info.start info.size range

/-! ## Masks -/

section Mask

variable {w k : Nat} {x : BitVec w}

/-- Clearing the low bits rounds down to a multiple. -/
lemma and_not_mask :
    (x &&& ~~~(BitVec.ofNat w (2 ^ k - 1))).toNat = x.toNat / 2 ^ k * 2 ^ k := by
  have shift : x &&& ~~~(BitVec.ofNat w (2 ^ k - 1)) = (x >>> k) <<< k := by
    refine BitVec.eq_of_getLsbD_eq fun i lt => ?_
    simp only [BitVec.getLsbD_and, BitVec.getLsbD_not, BitVec.getLsbD_ofNat,
      BitVec.getLsbD_shiftLeft, BitVec.getLsbD_ushiftRight, Nat.testBit_two_pow_sub_one, lt,
      decide_true, Bool.true_and]
    by_cases low : i < k
    · simp [low]
    · simp [low, Nat.add_sub_cancel' (Nat.not_lt.1 low)]
  rw [shift, BitVec.toNat_shiftLeft, BitVec.toNat_ushiftRight, Nat.shiftRight_eq_div_pow,
    Nat.shiftLeft_eq]
  exact Nat.mod_eq_of_lt (Nat.lt_of_le_of_lt (Nat.div_mul_le_self _ _) x.isLt)

end Mask

/-! ## Powers of two -/

section Range

variable {w k start size g : Nat}

/-- The group size of a card is small. -/
lemma eraseGrpSize_lt (r : CardRegs) : r.eraseGrpSize < 2 ^ 32 := by
  have gsz : ((r.csd2 &&& 0x00007c00) >>> 10).toNat ≤ 31 := by
    have le : (r.csd2 &&& 0x00007c00).toNat ≤ 0x00007c00 := by
      rw [BitVec.toNat_and]
      exact Nat.and_le_right
    rw [BitVec.toNat_ushiftRight, Nat.shiftRight_eq_div_pow]
    omega
  have gmul : ((r.csd2 &&& 0x000003e0) >>> 5).toNat ≤ 31 := by
    have le : (r.csd2 &&& 0x000003e0).toNat ≤ 0x000003e0 := by
      rw [BitVec.toNat_and]
      exact Nat.and_le_right
    rw [BitVec.toNat_ushiftRight, Nat.shiftRight_eq_div_pow]
    omega
  rw [CardRegs.eraseGrpSize]
  split_ifs
  · decide
  · have byte := r.hcEraseGrpSize.isLt
    omega
  · exact Nat.lt_of_le_of_lt (Nat.mul_le_mul (Nat.succ_le_succ gsz) (Nat.succ_le_succ gmul))
      (by decide)

/-- The first block asked for with groups of `2 ^ k` blocks. -/
lemma eraseRange_first (lt : 2 ^ k < 2 ^ w) {x : BitVec w} :
    (eraseRange (BitVec.ofNat w start) x (BitVec.ofNat w (2 ^ k))).1.toNat =
      (start + (2 ^ k - 1)) % 2 ^ w / 2 ^ k * 2 ^ k := by
  have pos : 0 < 2 ^ k := Nat.two_pow_pos k
  have one : 1 < 2 ^ w := Nat.lt_of_le_of_lt pos lt
  have pred : BitVec.ofNat w (2 ^ k) - 1 = BitVec.ofNat w (2 ^ k - 1) :=
    BitVec.ofNat_sub_ofNat_of_le _ 1 one pos
  have up : BitVec.ofNat w start + BitVec.ofNat w (2 ^ k) - 1 =
      BitVec.ofNat w (start + (2 ^ k - 1)) := by
    rw [BitVec.ofNat_add_ofNat, ← Nat.add_sub_assoc pos]
    exact BitVec.ofNat_sub_ofNat_of_le _ 1 one (Nat.le_trans pos (Nat.le_add_left _ _))
  simp only [eraseRange]
  rw [up, pred, and_not_mask, BitVec.toNat_ofNat]

/-- The number of blocks asked for, when there may be a group in the partition. -/
lemma eraseRange_count (lt : 2 ^ k < 2 ^ w) (size_lt : size < 2 ^ w) (le : 2 ^ k ≤ size)
    (fits : start + size ≤ 2 ^ w) :
    (eraseRange (BitVec.ofNat w start) (BitVec.ofNat w size) (BitVec.ofNat w (2 ^ k))).2.toNat =
      (size - ((start + (2 ^ k - 1)) / 2 ^ k * 2 ^ k - start)) / 2 ^ k * 2 ^ k := by
  have pos : 0 < 2 ^ k := Nat.two_pow_pos k
  have one : 1 < 2 ^ w := Nat.lt_of_le_of_lt pos lt
  have first := @eraseRange_first w k start lt (BitVec.ofNat w size)
  rw [Nat.mod_eq_of_lt (by omega)] at first
  have pred : BitVec.ofNat w (2 ^ k) - 1 = BitVec.ofNat w (2 ^ k - 1) :=
    BitVec.ofNat_sub_ofNat_of_le _ 1 one pos
  have low : start ≤ (start + (2 ^ k - 1)) / 2 ^ k * 2 ^ k := by
    have := Nat.div_add_mod (start + (2 ^ k - 1)) (2 ^ k)
    have := Nat.mod_lt (start + (2 ^ k - 1)) pos
    rw [Nat.mul_comm]
    omega
  have high : (start + (2 ^ k - 1)) / 2 ^ k * 2 ^ k ≤ start + (2 ^ k - 1) :=
    Nat.div_mul_le_self _ _
  have le' : BitVec.ofNat w (2 ^ k) ≤ BitVec.ofNat w size := by
    rw [BitVec.le_def, BitVec.toNat_ofNat, BitVec.toNat_ofNat, Nat.mod_eq_of_lt lt,
      Nat.mod_eq_of_lt size_lt]
    exact le
  simp only [eraseRange] at first ⊢
  generalize (BitVec.ofNat w start + BitVec.ofNat w (2 ^ k) - 1) &&&
    ~~~(BitVec.ofNat w (2 ^ k) - 1) = blksStart at first ⊢
  have gap : (blksStart - BitVec.ofNat w start).toNat =
      (start + (2 ^ k - 1)) / 2 ^ k * 2 ^ k - start := by
    rw [BitVec.toNat_sub_of_le, first, BitVec.toNat_ofNat, Nat.mod_eq_of_lt (by omega)]
    rw [BitVec.le_def, first, BitVec.toNat_ofNat, Nat.mod_eq_of_lt (by omega)]
    exact low
  rw [if_pos le', pred, and_not_mask, BitVec.toNat_sub_of_le, gap, BitVec.toNat_ofNat,
    Nat.mod_eq_of_lt size_lt]
  rw [BitVec.le_def, gap, BitVec.toNat_ofNat, Nat.mod_eq_of_lt size_lt]
  omega

/-- With groups of `2 ^ k` blocks whole groups are asked for. -/
lemma wholeGroups_pow (lt : 2 ^ k < 2 ^ w) (size_lt : size < 2 ^ w) (fits : start + size ≤ 2 ^ w) :
    let r := eraseRange (BitVec.ofNat w start) (BitVec.ofNat w size) (BitVec.ofNat w (2 ^ k))
    WholeGroups (2 ^ k) start size (r.1.toNat, r.2.toNat) := by
  have pos : 0 < 2 ^ k := Nat.two_pow_pos k
  intro r
  have first : r.1.toNat = _ := eraseRange_first lt
  by_cases le : 2 ^ k ≤ size
  · have count : r.2.toNat = _ := eraseRange_count lt size_lt le fits
    rw [Nat.mod_eq_of_lt (by omega)] at first
    have up := Nat.div_add_mod (start + (2 ^ k - 1)) (2 ^ k)
    have up_lt := Nat.mod_lt (start + (2 ^ k - 1)) pos
    rw [Nat.mul_comm] at up
    have down : (size - ((start + (2 ^ k - 1)) / 2 ^ k * 2 ^ k - start)) / 2 ^ k * 2 ^ k ≤
      size - ((start + (2 ^ k - 1)) / 2 ^ k * 2 ^ k - start) := Nat.div_mul_le_self _ _
    rw [first, count]
    refine ⟨Nat.dvd_mul_left _ _, (Nat.dvd_add_right (Nat.dvd_mul_left _ _)).2
      (Nat.dvd_mul_left _ _), .inr ⟨by omega, by simp only; omega⟩, fun n low high => ?_⟩
    have beyond : (start + (2 ^ k - 1)) / 2 ^ k ≤ n := by
      refine Nat.le_of_lt_succ ((Nat.div_lt_iff_lt_mul pos).2 ?_)
      rw [Nat.succ_mul]
      omega
    have fits' : n + 1 - (start + (2 ^ k - 1)) / 2 ^ k ≤
        (size - ((start + (2 ^ k - 1)) / 2 ^ k * 2 ^ k - start)) / 2 ^ k := by
      rw [Nat.le_div_iff_mul_le pos, Nat.sub_mul]
      omega
    refine ⟨Nat.mul_le_mul_right _ beyond, ?_⟩
    simp only
    rw [← Nat.add_mul]
    exact Nat.mul_le_mul_right _ (by omega)
  · have count : r.2.toNat = 0 := by
      have no : ¬ BitVec.ofNat w (2 ^ k) ≤ BitVec.ofNat w size := by
        rw [BitVec.le_def, BitVec.toNat_ofNat, BitVec.toNat_ofNat, Nat.mod_eq_of_lt lt,
          Nat.mod_eq_of_lt size_lt]
        exact le
      simp only [r, eraseRange, if_neg no]
      rfl
    rw [first, count]
    refine ⟨Nat.dvd_mul_left _ _, Nat.dvd_mul_left _ _, .inl rfl, fun n low high => ?_⟩
    rw [Nat.succ_mul] at high
    omega

/-- A group that lies at the start of a partition of its size is asked for only when the group size
is a power of two. -/
lemma isPowerOfTwo_of_wholeGroups (pos : 0 < g) (lt : g < 2 ^ w)
    (whole : let r := eraseRange (BitVec.ofNat w 0) (BitVec.ofNat w g) (BitVec.ofNat w g)
      WholeGroups g 0 g (r.1.toNat, r.2.toNat)) :
    g.isPowerOfTwo := by
  have one : 1 < 2 ^ w := Nat.lt_of_le_of_lt pos lt
  have pred : BitVec.ofNat w g - 1 = BitVec.ofNat w (g - 1) :=
    BitVec.ofNat_sub_ofNat_of_le _ 1 one pos
  have first : (eraseRange (BitVec.ofNat w 0) (BitVec.ofNat w g) (BitVec.ofNat w g)).1 = 0 := by
    simp [eraseRange]
  have count : (eraseRange (BitVec.ofNat w 0) (BitVec.ofNat w g) (BitVec.ofNat w g)).2 =
      BitVec.ofNat w g &&& ~~~(BitVec.ofNat w (g - 1)) := by
    simp [eraseRange, ← pred]
  have all := (whole.all 0 (Nat.zero_le _) (by simp)).2
  simp only [first, count] at all
  have le : g ≤ (BitVec.ofNat w g &&& ~~~(BitVec.ofNat w (g - 1))).toNat := by
    simpa using all
  -- what is left of `g` without the bits of `g - 1` is not less than `g`, so it is `g`
  have eq : BitVec.ofNat w g &&& ~~~(BitVec.ofNat w (g - 1)) = BitVec.ofNat w g := by
    refine BitVec.eq_of_toNat_eq (Nat.le_antisymm ?_ ?_)
    · rw [BitVec.toNat_and]
      exact Nat.and_le_left
    · rw [BitVec.toNat_ofNat, Nat.mod_eq_of_lt lt]
      exact le
  have clear : BitVec.ofNat w g &&& BitVec.ofNat w (g - 1) = 0 := by
    rw [← eq, BitVec.and_assoc, BitVec.and_comm (~~~ _), BitVec.and_not_self]
    exact BitVec.and_zero
  refine (Nat.and_sub_one_eq_zero_iff_isPowerOfTwo (Nat.ne_of_gt pos)).1 ?_
  have bits := congrArg BitVec.toNat clear
  rwa [BitVec.toNat_and, BitVec.toNat_ofNat, BitVec.toNat_ofNat, Nat.mod_eq_of_lt lt,
    Nat.mod_eq_of_lt (Nat.lt_of_le_of_lt (Nat.sub_le _ _) lt)] at bits

end Range

/-! ## Which cards -/

section Erase

variable {w g : Nat}

/-- What a partition that is found asks for. -/
lemma requests_eq {D : Type} {card : Mmc D} {getenv blockErase cmd info}
    (found : infoByNameOrAlias card getenv cmd = some info) :
    (fbMmcErase w (some (card, g)) getenv blockErase cmd).requests =
      let r := eraseRange (BitVec.ofNat w info.start) (BitVec.ofNat w info.size) (BitVec.ofNat w g)
      [(r.1.toNat, r.2.toNat)] := by
  simp only [fbMmcErase, found]

/-- A group size that is a power of two does. -/
lemma erasesWhole_of_isPowerOfTwo (lt : g < 2 ^ w) (pow : g.isPowerOfTwo) : ErasesWhole w g := by
  obtain ⟨k, rfl⟩ := pow
  intro D card getenv blockErase cmd info found size_lt fits range mem
  rw [requests_eq found] at mem
  rw [List.mem_singleton.1 mem]
  exact wholeGroups_pow lt size_lt fits

/-- A card with one partition, of `size` blocks from the first. -/
def onePartition (size : Nat) : Mmc Unit where
  table := [⟨"p".toList, ⟨0, size, 512⟩⟩]
  blockWrite dev _ cnt _ := (dev, cnt)
  isValidGptBuf := true
  writeGpt dev := (dev, true)

/-- No other group size does. -/
lemma isPowerOfTwo_of_erasesWhole (pos : 0 < g) (lt : g < 2 ^ w) (whole : ErasesWhole w g) :
    g.isPowerOfTwo := by
  have found : infoByNameOrAlias (onePartition g) (fun _ => none) "p".toList =
      some ⟨0, g, 512⟩ := rfl
  have one := whole Unit (onePartition g) (fun _ => none) (fun _ cnt => cnt) "p".toList _ found lt
    (by simpa using Nat.le_of_lt lt)
  rw [requests_eq found] at one
  exact isPowerOfTwo_of_wholeGroups pos lt (one _ List.mem_cons_self)

/-- Only whole groups inside the partition are erased, and all of them, exactly when the group size
of the card is a power of two. -/
theorem erase_whole_iff (wide : 32 ≤ w) (r : CardRegs) (pos : 0 < r.eraseGrpSize) :
    ErasesWhole w r.eraseGrpSize ↔ r.eraseGrpSize.isPowerOfTwo := by
  have lt : r.eraseGrpSize < 2 ^ w :=
    Nat.lt_of_lt_of_le (eraseGrpSize_lt r) (Nat.pow_le_pow_right (by decide) wide)
  constructor
  · intro whole
    exact isPowerOfTwo_of_erasesWhole pos lt whole
  · intro pow
    exact erasesWhole_of_isPowerOfTwo lt pow

/-- A card with `EXT_CSD_HC_ERASE_GRP_SIZE` 8 has groups of 8192 sectors. -/
theorem erase_whole_hc8 : ErasesWhole 32 (CardRegs.eraseGrpSize ⟨false, true, true, 8, 0⟩) :=
  (erase_whole_iff (by decide) ⟨false, true, true, 8, 0⟩ (by decide)).2 ⟨13, by decide⟩

/-- With `EXT_CSD_HC_ERASE_GRP_SIZE` 3 the group of a partition of 3072 blocks is not erased: 1024
blocks are. -/
theorem not_erase_whole : ¬ ∀ r : CardRegs, 0 < r.eraseGrpSize → ErasesWhole 32 r.eraseGrpSize := by
  intro every
  have pow := isPowerOfTwo_of_erasesWhole (by decide) (by decide)
    (every ⟨false, true, true, 3, 0⟩ (by decide))
  exact absurd pow (by decide)

example : eraseRange (0 : BitVec 32) 3072 3072 = (0, 1024) := by decide

end Erase

end Imx.Mmc
