import Mathlib.Algebra.Order.Ring.Int
import Mathlib.Data.List.Basic
import Mathlib.Tactic.Common
import Mathlib.Tactic.Ring

/-!
# Block bitmaps

Model of the functions of `fs/ext4/ext4_common.c` that look for a clear bit in the bitmap of a block
group and set it. A buffer is a list of its bytes, and `none` is an access outside of it. With
blocks of 1 KiB the first bit of the first bitmap stands for block 1.
-/

namespace Imx.Ext4

/-- The block that the first bit of the first bitmap stands for. -/
def firstBlock (blksz : Nat) : Nat := if blksz = 1024 then 1 else 0

/-- The byte with one bit set. -/
def operand (i : Nat) : BitVec 8 := 1#8 <<< i

/-! ## The code -/

/-- `while (*ptr == 255)`: where the loop ends, with the count there, or `none` in the result if it
has come to the end of the bitmap. -/
def skipLoop (blksz : Nat) : List (BitVec 8) → Nat → Nat → Option (Option (Nat × Nat))
  | [], _, _ => none
  | byte :: ptr, i, count =>
    if byte = 255 then
      if count + 8 = blksz * 8 then some none else skipLoop blksz ptr (i + 1) (count + 8)
    else some (some (i, count))

/-- The first clear bit of a byte. -/
def clearBit (input : BitVec 8) : Option Nat :=
  (List.range 8).find? fun i => input &&& operand i = 0

/-- The loop over the bytes from one on, as often as the count says. -/
def byteLoop (buffer : List (BitVec 8)) : Nat → Nat → Nat → Option (Int × List (BitVec 8))
  | 0, _, _ => some (-1, buffer)
  | n + 1, ptr, count => do
    let input ← buffer[ptr]?
    match clearBit input with
    | some i => some ((count + i : Nat), buffer.set ptr (input ||| operand i))
    | none => byteLoop buffer n (ptr + 1) (count + 8)

/-- Set the first clear bit: its number, or -1 (C `_get_new_blk_no`). -/
def getNewBlkNo (blksz : Nat) (buffer : List (BitVec 8)) : Option (Int × List (BitVec 8)) := do
  match ← skipLoop blksz buffer 0 (firstBlock blksz) with
  | none => some (-1, buffer)
  | some (ptr, count) => byteLoop buffer blksz ptr count

/-- Set a bit of a byte, and -1 if it is set. -/
def setBit (buffer : List (BitVec 8)) (ptr : Int) (bit : Nat) :
    Option (Int × List (BitVec 8)) := do
  let byte ← (if 0 ≤ ptr then buffer[ptr.toNat]? else none)
  if byte &&& operand bit ≠ 0 then some (-1, buffer)
  else some (0, buffer.set ptr.toNat (byte ||| operand bit))

/-- Set the bit of a block in the bitmap of a group, and -1 if it is set (C
`ext4fs_set_block_bmap`). -/
def ext4fsSetBlockBmap (blocksize blockno : Nat) (buffer : List (BitVec 8)) (index : Nat) :
    Option (Int × List (BitVec 8)) :=
  let i : Int := blockno / 8 - index * blocksize
  let remainder := blockno % 8
  if blocksize ≠ 1024 then setBit buffer i remainder
  else if remainder = 0 then setBit buffer (i - 1) 7
  else setBit buffer i (remainder - 1)

/-! ## The bits -/

variable {blksz i j k n : Nat} {byte : BitVec 8} {buffer : List (BitVec 8)}

/-- A bit of a bitmap is set. -/
def used (buffer : List (BitVec 8)) (j : Nat) : Bool :=
  (buffer.getD (j / 8) 255).getLsbD (j % 8)

/-- The bitmap with one more bit set. -/
def mark (buffer : List (BitVec 8)) (j : Nat) : List (BitVec 8) :=
  buffer.set (j / 8) (buffer.getD (j / 8) 255 ||| operand (j % 8))

lemma getLsbD_operand (lt : j < 8) : (operand i).getLsbD j = decide (j = i) := by
  rw [operand, BitVec.getLsbD_shiftLeft]
  simp only [lt, decide_true, Bool.true_and, BitVec.getLsbD_one]
  by_cases eq : j = i
  · simp [eq]
  · simp only [eq, decide_false]
    by_cases less : j < i
    · simp [less]
    · simp [less]
      omega

lemma and_operand (lt : i < 8) : byte &&& operand i = 0 ↔ byte.getLsbD i = false := by
  constructor
  · intro zero
    have bit := congrArg (BitVec.getLsbD · i) zero
    simpa [getLsbD_operand lt] using bit
  · intro clear
    refine BitVec.eq_of_getLsbD_eq fun j lt' => ?_
    rw [BitVec.getLsbD_and, getLsbD_operand lt']
    by_cases eq : j = i
    · simp [eq, clear]
    · simp [eq]

/-- A byte that is not full has a clear bit. -/
lemma clearBit_some (ne : byte ≠ 255) :
    ∃ i, i < 8 ∧ byte.getLsbD i = false ∧ clearBit byte = some i := by
  have found : (clearBit byte).isSome := by
    rw [clearBit, List.find?_isSome]
    by_contra no
    refine ne (BitVec.eq_of_getLsbD_eq fun j lt => ?_)
    have all : (255 : BitVec 8).getLsbD j = true := by
      revert j
      decide
    rw [all]
    by_contra clear
    exact no ⟨j, List.mem_range.mpr lt,
      decide_eq_true ((and_operand lt).mpr (Bool.eq_false_iff.mpr clear))⟩
  obtain ⟨i, eq⟩ := Option.isSome_iff_exists.mp found
  have lt := List.mem_range.mp (List.mem_of_find?_eq_some eq)
  have zero := List.find?_some eq
  exact ⟨i, lt, (and_operand lt).mp (of_decide_eq_true zero), eq⟩

lemma length_mark (buffer : List (BitVec 8)) (j : Nat) : (mark buffer j).length = buffer.length :=
  List.length_set

lemma used_mark (inside : j / 8 < buffer.length) :
    used (mark buffer j) i = (used buffer i || decide (i = j)) := by
  rw [used, used, mark]
  by_cases same : i / 8 = j / 8
  case pos =>
    rw [same, List.getD_eq_getElem?_getD, List.getElem?_set_self inside, Option.getD_some,
      BitVec.getLsbD_or, getLsbD_operand (Nat.mod_lt i (by decide))]
    congr 1
    exact decide_eq_decide.mpr ⟨fun eq => by omega, fun eq => by rw [eq]⟩
  case neg =>
    have ne : i ≠ j := fun eq => same (by rw [eq])
    rw [List.getD_eq_getElem?_getD, List.getElem?_set_ne (Ne.symm same),
      List.getD_eq_getElem?_getD]
    simp [ne]

lemma used_zero (lt : j < 8 * n) : used (List.replicate n 0) j = false := by
  rw [used, List.getD_eq_getElem?_getD, List.getElem?_replicate_of_lt (by omega)]
  simp

/-! ## Setting a bit -/

/-- A bit inside of a bitmap is set, or the bitmap is left as it is. -/
lemma setBit_inside (inside : j / 8 < buffer.length) :
    setBit buffer (j / 8 : Nat) (j % 8) =
      some (if used buffer j then (-1, buffer) else (0, mark buffer j)) := by
  have byte : buffer.getD (j / 8) 255 = buffer[j / 8] := by
    rw [List.getD_eq_getElem?_getD, List.getElem?_eq_getElem inside, Option.getD_some]
  rw [setBit, if_pos (Int.natCast_nonneg _), Int.toNat_natCast, List.getElem?_eq_getElem inside]
  simp only [Option.bind_eq_bind, Option.bind_some, ne_eq, and_operand (Nat.mod_lt j (by decide)),
    Bool.not_eq_false, used, mark, byte]
  split
  · rfl
  · rfl

/-- The bit of a block in the bitmap of its group, where each group has the bits of a whole bitmap
or it is the first one. -/
lemma ext4fsSetBlockBmap_eq {index : Nat} (inside : j / 8 < buffer.length) :
    ext4fsSetBlockBmap blksz (firstBlock blksz + index * (8 * blksz) + j) buffer index =
      some (if used buffer j then (-1, buffer) else (0, mark buffer j)) := by
  rw [ext4fsSetBlockBmap, firstBlock, ← setBit_inside inside]
  by_cases small : blksz = 1024
  case neg =>
    have first : ((0 + index * (8 * blksz) + j : Nat) / 8 : Int) - index * blksz =
        (j / 8 : Nat) := by
      have group : index * (8 * blksz) = 8 * (index * blksz) := by ring
      have cast : (index : Int) * blksz = (index * blksz : Nat) := by push_cast; ring
      rw [group, cast]
      omega
    have rest : (0 + index * (8 * blksz) + j) % 8 = j % 8 := by
      have group : index * (8 * blksz) = 8 * (index * blksz) := by ring
      rw [group]
      omega
    simp only [small, ne_eq, not_false_eq_true, if_true, if_false]
    rw [rest]
    exact congrArg (setBit buffer · _) (by exact_mod_cast first)
  case pos =>
    subst small
    simp only [ne_eq, not_true_eq_false, if_false, if_true]
    split
    case isTrue last =>
      have bit : j % 8 = 7 := by omega
      rw [bit]
      exact congrArg (setBit buffer · _) (by omega)
    case isFalse inner =>
      have bit : (1 + index * (8 * 1024) + j) % 8 - 1 = j % 8 := by omega
      rw [bit]
      exact congrArg (setBit buffer · _) (by omega)

/-! ## Looking for a bit -/

/-- The loop ends in front of the first byte that is not full. -/
lemma skipLoop_eq {rest : List (BitVec 8)} {count : Nat} (ne : byte ≠ 255)
    (short : count % 8 ≠ 0 ∨ count + 8 * k < blksz * 8) :
    skipLoop blksz (List.replicate k 255 ++ byte :: rest) i count =
      some (some (i + k, count + 8 * k)) := by
  induction k generalizing i count with
  | zero =>
    rw [List.replicate_zero, List.nil_append, skipLoop, if_neg ne]
    rfl
  | succ k ih =>
    have more : ¬count + 8 = blksz * 8 := by omega
    rw [List.replicate_succ, List.cons_append, skipLoop, if_pos rfl, if_neg more, ih (by omega)]
    simp only [Option.some.injEq, Prod.mk.injEq]
    omega

/-- A bitmap with a clear bit has a first byte that is not full. -/
lemma full_front (clear : used buffer j = false) : ∃ k byte rest,
    buffer = List.replicate k 255 ++ byte :: rest ∧ byte ≠ 255 := by
  induction buffer generalizing j with
  | nil =>
    rw [used, List.getD_nil] at clear
    have all : ∀ i < 8, (255 : BitVec 8).getLsbD i = true := by decide
    rw [all _ (Nat.mod_lt j (by decide))] at clear
    cases clear
  | cons first buffer ih =>
    by_cases full : first = 255
    case neg => exact ⟨0, first, buffer, rfl, full⟩
    case pos =>
      have behind : used buffer (j - 8) = false := by
        by_cases near : j < 8
        case pos =>
          rw [used, full, Nat.div_eq_of_lt near] at clear
          have all : ∀ i < 8, (255 : BitVec 8).getLsbD i = true := by decide
          rw [List.getD_cons_zero, all _ (Nat.mod_lt j (by decide))] at clear
          cases clear
        case neg =>
          have next : j / 8 = (j - 8) / 8 + 1 := by omega
          have same : j % 8 = (j - 8) % 8 := by omega
          rw [used, next, List.getD_cons_succ, same] at clear
          exact clear
      obtain ⟨k, byte, rest, eq, ne⟩ := ih behind
      exact ⟨k + 1, byte, rest, by rw [full, eq]; rfl, ne⟩

/-- A clear bit of a bitmap is found and set. -/
lemma getNewBlkNo_clear (length : buffer.length = blksz) (clear : used buffer j = false) :
    ∃ i < 8 * blksz, used buffer i = false ∧
      getNewBlkNo blksz buffer = some (((firstBlock blksz + i : Nat) : Int), mark buffer i) := by
  obtain ⟨k, byte, rest, eq, ne⟩ := full_front clear
  have inside : k < blksz := by
    rw [← length, eq, List.length_append, List.length_replicate, List.length_cons]
    omega
  have there : buffer[k]? = some byte := by
    rw [eq, List.getElem?_append_right (by rw [List.length_replicate]), List.length_replicate,
      Nat.sub_self, List.getElem?_cons_zero]
  have bit : ∀ i < 8, used buffer (8 * k + i) = byte.getLsbD i := fun i lt => by
    have row : (8 * k + i) / 8 = k := by omega
    have col : (8 * k + i) % 8 = i := by omega
    rw [used, row, col, List.getD_eq_getElem?_getD, there, Option.getD_some]
  obtain ⟨i, lt, zero, first⟩ := clearBit_some ne
  have skipped : skipLoop blksz buffer 0 (firstBlock blksz) =
      some (some (0 + k, firstBlock blksz + 8 * k)) := by
    rw [eq]
    refine skipLoop_eq ne ?_
    rw [firstBlock]
    split
    · exact .inl (by decide)
    · exact .inr (by omega)
  refine ⟨8 * k + i, by omega, (bit i lt).trans zero, ?_⟩
  obtain ⟨n, rfl⟩ : ∃ n, blksz = n + 1 := ⟨blksz - 1, by omega⟩
  unfold getNewBlkNo
  rw [skipped]
  simp only [Option.bind_eq_bind, Option.bind_some, Nat.zero_add, byteLoop, there, first]
  have row : (8 * k + i) / 8 = k := by omega
  have col : (8 * k + i) % 8 = i := by omega
  rw [mark, row, col, List.getD_eq_getElem?_getD, there, Option.getD_some, Nat.add_assoc]

/-- The first bit of an empty bitmap is set. -/
lemma getNewBlkNo_zero :
    getNewBlkNo (n + 1) (List.replicate (n + 1) 0) =
      some ((firstBlock (n + 1) : Int), mark (List.replicate (n + 1) 0) 0) := by
  have none_ : ¬(0 : BitVec 8) = 255 := by decide
  have first : clearBit 0 = some 0 := by decide
  unfold getNewBlkNo
  rw [List.replicate_succ, skipLoop, if_neg none_]
  simp only [Option.bind_eq_bind, Option.bind_some, byteLoop, List.getElem?_cons_zero, first]
  rfl

end Imx.Ext4
