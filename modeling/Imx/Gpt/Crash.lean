import Mathlib.Data.List.GetD
import Imx.Gpt.Write

/-!
# Rewriting a table that may be cut

`gpt_restore` writes the primary header, the primary array, the backup array and the backup header,
in this order, and the reader falls back to the backup. On a device with room for both tables the
disk holds the old table or the new one wherever the writes are cut (`crash_consistent`): as long as
the primary array is neither the new one nor has its checksum the backup is still the old table, and
from then on the primary table is the new one. On a smaller device a layout whose end wraps around
is accepted and the backup is written over the primary table (`crash_loses_table`).
-/

namespace Imx.Gpt
open Imx.Base

variable {w : Nat} {typeGuids : Bool} {crc : List UInt8 → BitVec 32}

/-! ## Writes that are cut -/

section Writes

variable {d : BlockDev w} {start : BitVec w} {bs : List UInt8} {ws : List (BitVec w × List UInt8)}
  {k : Nat}

/-- A write inside of the device that may be cut. -/
lemma cutWrites_cons (within : start.toNat + bs.length / 512 ≤ d.lba.toNat) :
    d.cutWrites ((start, bs) :: ws) k =
      if k < bs.length / 512 then
        { d with disk := d.disk.write (512 * start.toNat) (bs.take (512 * k)) }
      else BlockDev.cutWrites { d with disk := d.disk.write (512 * start.toNat) bs } ws
        (k - bs.length / 512) := by
  rw [BlockDev.cutWrites, BlockDev.blockWrite, if_pos within]

end Writes

section Pieces

variable {d : BlockDev w} {p b e mbr ph pa ba bh : List UInt8} (hw : w = 32 ∨ w = 64)
  (lm : mbr.length = 512) (lp : p.length = 512) (lb : b.length = 512) (le : e.length = 16384)

section Blocks

variable (blocks : 34 ≤ d.lba.toNat)
include hw lm lp lb le blocks

/-- All but the last write reach the disk. -/
lemma cutWrites_last :
    d.cutWrites [(0, mbr), (1, p), (2, e), (d.lba - 34 + 1, e), (d.lba - 1, b)] 66 =
      { d with disk := fourWrites d.disk d.lba.toNat mbr p e } := by
  obtain ⟨one, two, last, -, array, -⟩ := places hw blocks
  have zero : (0 : BitVec w).toNat = 0 := rfl
  rw [cutWrites_cons (by rw [zero, lm]; omega), lm, zero, if_neg (by decide),
    cutWrites_cons (by simp only; omega), lp, one, if_neg (by decide),
    cutWrites_cons (by simp only; omega), le, two, if_neg (by decide),
    cutWrites_cons (by simp only; omega), le, array, if_neg (by decide),
    cutWrites_cons (by simp only; omega), lb, last, if_pos (by decide)]
  simp only [fourWrites, Nat.mul_zero, Nat.reduceMul, Nat.reduceDiv, Nat.reduceSub, List.take_zero,
    Mem.write_nil]

end Blocks

variable (room : 67 ≤ d.lba.toNat) (t : Tables d.disk d.lba.toNat ph pa ba bh)
include hw lm lp lb le room t

/-- Wherever the writes are cut, the disk has both old copies, the old backup under a new primary
header, or the new primary copy. -/
lemma cutWrites_tables (lph : ph.length = 512) (lpa : pa.length = 16384) (k : Nat) :
    ∃ m, d.cutWrites [(0, mbr), (1, p), (2, e), (d.lba - 34 + 1, e), (d.lba - 1, b)] k =
        { d with disk := m } ∧
      (Tables m d.lba.toNat ph pa ba bh ∨
        (∃ j < 32, Tables m d.lba.toNat p (overlay (e.take (512 * j)) pa) ba bh) ∨
        ∃ ba' bh', Tables m d.lba.toNat p e ba' bh') := by
  have blocks : 34 ≤ d.lba.toNat := by omega
  obtain ⟨one, two, last, -, array, -⟩ := places hw blocks
  have zero : (0 : BitVec w).toNat = 0 := rfl
  have t₁ := t.writeMbr room (Nat.le_of_eq lm)
  have t₂ := t₁.writeHeader room (Nat.le_of_eq lp)
  have t₃ := t₂.writeArray room (Nat.le_of_eq le)
  rw [overlay_whole (lph.trans lp.symm)] at t₂ t₃
  rw [overlay_whole (lpa.trans le.symm)] at t₃
  have t₄ := t₃.writeBackupArray room (Nat.le_of_eq le)
  rw [cutWrites_cons (by rw [zero, lm]; omega), lm, zero]
  split_ifs with cut
  · -- before the MBR
    have none : k = 0 := by omega
    subst none
    exact ⟨_, rfl, .inl (t.writeMbr room (by simp))⟩
  rw [cutWrites_cons (by simp only; omega), lp, one]
  split_ifs with cut
  · -- before the header
    have none : k - 512 / 512 = 0 := by omega
    rw [none]
    exact ⟨_, rfl, .inl (t₁.writeHeader room (by simp))⟩
  rw [cutWrites_cons (by simp only; omega), le, two]
  split_ifs with cut
  · -- inside of the array
    refine ⟨_, rfl, .inr (.inl ⟨_, cut, t₂.writeArray room ?_⟩)⟩
    rw [List.length_take]
    omega
  rw [cutWrites_cons (by simp only; omega), le, array]
  split_ifs with cut
  · -- inside of the backup array
    refine ⟨_, rfl, .inr (.inr ⟨_, _, t₃.writeBackupArray room ?_⟩)⟩
    rw [List.length_take]
    omega
  rw [cutWrites_cons (by simp only; omega), lb, last]
  split_ifs with cut
  · -- before the backup header
    refine ⟨_, rfl, .inr (.inr ⟨_, _, t₄.writeBackupHeader room ?_⟩)⟩
    rw [List.length_take]
    omega
  · -- behind it
    exact ⟨_, rfl, .inr (.inr ⟨_, _, t₄.writeBackupHeader room (Nat.le_of_eq lb)⟩)⟩

end Pieces

/-! ## What is read -/

/-- The checksum tells a new array from the old one and from all that are written in between. -/
def TellsApart (crc : List UInt8 → BitVec 32) (old new : List UInt8) : Prop :=
  ∀ j < 32, crc (overlay (new.take (512 * j)) old) = crc new → overlay (new.take (512 * j)) old = new

/-- What is told of a partition depends on the array alone. -/
lemma getPartitionInfoEfi_eq {h h' : GptHeader} {d d' : BlockDev w} {e : List UInt8}
    (read : readGpt crc d = some (h, e)) (read' : readGpt crc d' = some (h', e))
    (number : h.numPartitionEntries = h'.numPartitionEntries) (part : Nat) :
    getPartitionInfoEfi typeGuids crc d part = getPartitionInfoEfi typeGuids crc d' part := by
  simp only [getPartitionInfoEfi, read, read', Option.bind_some, partitionInfo, number]

/-- On a device with room for both tables, wherever the writes of a new table are cut the old table
or the new one is read, for all partitions. -/
theorem crash_consistent (hw : w = 32 ∨ w = 64) (d₀ d : BlockDev w) (room : 67 ≤ d₀.lba.toNat)
    (guid₀ : CStr) (h₀ : GptHeader) (fill : gptFillHeader typeGuids d₀ guid₀ = some h₀)
    (e₀ : List UInt8) (length : e₀.length = 16384) (old : writeGptTable crc d₀ h₀ e₀ = (d, 0))
    (guid : CStr) (parts : List (DiskPartition w))
    (apart : ∀ e ∈ restoreArray typeGuids d guid parts, TellsApart crc e₀ e) (n : Nat) :
    let d' := gptRestoreCut typeGuids crc d guid parts n
    (readGpt crc d').isSome ∧
      ((∀ part, getPartitionInfoEfi typeGuids crc d' part =
          getPartitionInfoEfi typeGuids crc d part) ∨
        ∀ part, getPartitionInfoEfi typeGuids crc d' part =
          getPartitionInfoEfi typeGuids crc (gptRestore typeGuids crc d guid parts).1 part) := by
  have blocks : 34 ≤ d₀.lba.toNat := by omega
  -- the old table
  obtain ⟨p₀, b₀, pair₀, eq₀⟩ := tableWrites_eq crc hw blocks fill length
  obtain ⟨m, done, t⟩ := blockWrites_tables hw (length_mbr (d := d₀)) (length_block (h := p₀))
    (length_block (h := b₀)) length room ⟨rfl, rfl, rfl, rfl⟩ Mem.length_read Mem.length_read
    Mem.length_read Mem.length_read
  rw [writeGptTable, eq₀, done, Prod.mk.injEq] at old
  obtain ⟨rfl, -⟩ := old
  have read₀ := readGpt_primary (d := { d₀ with disk := m }) hw blocks pair₀ t
  intro d'
  cases array : restoreArray typeGuids { d₀ with disk := m } guid parts with
  | none =>
    have eq := restoreWrites_none crc array
    have same : d' = { d₀ with disk := m } := by
      simp only [d', gptRestoreCut, eq]
    rw [same, read₀]
    exact ⟨rfl, .inl fun _ => rfl⟩
  | some e =>
    -- the new one, cut and complete
    obtain ⟨p, b, pair, eq⟩ := restoreWrites_some (d := { d₀ with disk := m }) crc hw blocks array
    have tell := apart e array
    obtain ⟨m', cut, t'⟩ := cutWrites_tables (d := { d₀ with disk := m }) hw length_mbr
      (length_block (h := p)) (length_block (h := b)) pair.length room t length_block length n
    obtain ⟨m₁, done₁, t₁⟩ := blockWrites_tables (d := { d₀ with disk := m }) hw length_mbr
      (length_block (h := p)) (length_block (h := b)) pair.length room t length_block length length
      length_block
    have whole : gptRestore typeGuids crc { d₀ with disk := m } guid parts =
        ({ d₀ with disk := m₁ }, 0) := by
      rw [gptRestore, eq]
      exact done₁
    have read₁ := readGpt_primary (d := { d₀ with disk := m₁ }) hw blocks pair t₁
    have here : d' = { d₀ with disk := m' } := by
      simp only [d', gptRestoreCut, eq]
      exact cut
    rw [here, whole]
    have new (read : readGpt crc { d₀ with disk := m' } = some (p, e)) :
        (readGpt crc { d₀ with disk := m' }).isSome ∧ ∀ part,
          getPartitionInfoEfi typeGuids crc { d₀ with disk := m' } part =
            getPartitionInfoEfi typeGuids crc { d₀ with disk := m₁ } part :=
      ⟨by rw [read]; rfl, getPartitionInfoEfi_eq read read₁ rfl⟩
    rcases t' with t' | ⟨j, lt, t'⟩ | ⟨ba', bh', t'⟩
    · have read := readGpt_primary (d := { d₀ with disk := m' }) hw blocks pair₀ t'
      exact ⟨by rw [read]; rfl, .inl (getPartitionInfoEfi_eq read read₀ rfl)⟩
    · by_cases same : crc (overlay (e.take (512 * j)) e₀) = crc e
      · rw [tell j lt same] at t'
        have answer := new (readGpt_primary (d := { d₀ with disk := m' }) hw blocks pair t')
        exact ⟨answer.1, .inr answer.2⟩
      · have read := readGpt_backup (d := { d₀ with disk := m' }) hw blocks pair₀ pair t' same
        have number : b₀.numPartitionEntries = p₀.numPartitionEntries :=
          pair₀.backup.number.trans pair₀.primary.number.symm
        exact ⟨by rw [read]; rfl, .inl (getPartitionInfoEfi_eq read read₀ number)⟩
    · have answer := new (readGpt_primary (d := { d₀ with disk := m' }) hw blocks pair t')
      exact ⟨answer.1, .inr answer.2⟩

/-! ## Devices with and without room -/

/-- A checksum that looks at two bytes: the first one, and the one of the primary array that the
backup array begins at on a device of 50 blocks. -/
def twoByteSum (bs : List UInt8) : BitVec 32 :=
  BitVec.ofNat 32 ((bs.getD 0 0).toNat + 256 * (bs.getD 7680 0).toNat)

/-- The array of no partitions. -/
lemma array_none : entryArray [] = List.replicate 16384 0 := by
  rw [entryArray, List.flatMap_nil, List.nil_append, List.take_replicate, Nat.min_self]

/-- The array of one entry. -/
lemma entryArray_one (entry : GptEntry) :
    entryArray [entry] = entry.toBytes ++ List.replicate 16256 0 := by
  have count : min (16384 - 128) 16384 = 16256 := by decide
  rw [entryArray, List.flatMap_singleton, List.take_append, length_entry, List.take_replicate, count,
    List.take_of_length_le (by rw [length_entry]; decide)]

/-- The array of one partition: its entry and zeros. -/
lemma array_one {d : BlockDev 32} {size : BitVec 32} {e : List UInt8}
    (h : restoreArray false d zeroUuid [samplePartition size zeroUuid] = some e) :
    ∃ bs : List UInt8, bs.length = 128 ∧ e = bs ++ List.replicate 16256 0 ∧ bs.head? = some 0xA2 := by
  have valid : uuidStrValid zeroUuid := by decide
  rw [restoreArray, gptFillHeader, uuidStrToBin_valid false valid] at h
  simp only [Option.map_some, Option.bind_eq_bind, Option.bind_some, Option.bind_eq_some_iff,
    Option.some.injEq] at h
  obtain ⟨es, pte, rfl⟩ := h
  obtain ⟨-, -, typeGuid, uniqueGuid, es', type, -, none, rfl⟩ := gptFillPte_cons pte
  obtain rfl : partitionBasicDataGuid = typeGuid := Option.some.inj type
  obtain rfl : [] = es' := Option.some.inj none
  exact ⟨_, length_entry, entryArray_one _, rfl⟩

/-- The byte at an index behind some bytes and zeros. -/
lemma getD_zeros {bs : List UInt8} {n i : Nat} (le : bs.length ≤ i) :
    (bs ++ List.replicate n 0).getD i 0 = 0 := by
  rw [List.getD_append_right _ _ _ _ le, List.getD_eq_getElem?_getD,
    List.getElem?_getD_replicate_default_eq]

/-- The checksum of zeros. -/
lemma twoByteSum_zeros {n : Nat} : twoByteSum (List.replicate n 0) = 0 := by
  have zero (i : Nat) : (List.replicate n (0 : UInt8)).getD i 0 = 0 :=
    @getD_zeros [] n i (Nat.zero_le i)
  rw [twoByteSum, zero, zero]
  rfl

/-- The checksum of an entry and zeros. -/
lemma twoByteSum_entry {bs : List UInt8} {n : Nat} (length : bs.length = 128)
    (head : bs.head? = some 0xA2) : twoByteSum (bs ++ List.replicate n 0) = 0xA2 := by
  have behind : bs.length ≤ 7680 := by
    rw [length]
    decide
  rw [twoByteSum, getD_zeros behind]
  obtain ⟨rest, rfl⟩ := List.head?_eq_some_iff.1 head
  rfl

/-- The checksum tells the array of one partition from the empty one. -/
lemma twoByteSum_apart {d : BlockDev 32} {size : BitVec 32} :
    ∀ e ∈ restoreArray false d zeroUuid [samplePartition size zeroUuid],
      TellsApart twoByteSum (entryArray []) e := by
  intro e array j lt same
  obtain ⟨bs, length, rfl, head⟩ := array_one array
  cases j with
  | zero =>
    rw [Nat.mul_zero, List.take_zero, overlay_nil, array_none, twoByteSum_zeros,
      twoByteSum_entry length head] at same
    exact absurd same (by decide)
  | succ j =>
    have size : ((bs ++ List.replicate 16256 0).take (512 * (j + 1))).length = 512 * (j + 1) := by
      rw [List.length_take, List.length_append, length, List.length_replicate]
      omega
    have tail : (entryArray []).drop (512 * (j + 1)) =
        (bs ++ List.replicate 16256 0).drop (512 * (j + 1)) := by
      have count : 16384 - 512 * (j + 1) = 16256 - (512 * (j + 1) - 128) := by omega
      rw [array_none, drop_skip length (by omega), List.drop_replicate, List.drop_replicate, count]
    rw [overlay, size, tail, List.take_append_drop]

/-- A device of 100 blocks: the empty table is rewritten as one with a partition of ten blocks. -/
theorem crash_consistent_hundred :
    ∃ d, gptRestore false twoByteSum (⟨100, Mem.zero⟩ : BlockDev 32) zeroUuid [] = (d, 0) ∧
      ∀ n, let d' := gptRestoreCut false twoByteSum d zeroUuid [samplePartition 10 zeroUuid] n
        (readGpt twoByteSum d').isSome ∧
          ((∀ part, getPartitionInfoEfi false twoByteSum d' part =
              getPartitionInfoEfi false twoByteSum d part) ∨
            ∀ part, getPartitionInfoEfi false twoByteSum d' part =
              getPartitionInfoEfi false twoByteSum
                (gptRestore false twoByteSum d zeroUuid [samplePartition 10 zeroUuid]).1 part) := by
  have hw : 32 = 32 ∨ 32 = 64 := .inl rfl
  have room : 67 ≤ (⟨100, Mem.zero⟩ : BlockDev 32).lba.toNat := by decide
  have zeros : (entryArray []).length = 16384 := length_entryArray
  obtain ⟨h, fill⟩ := exists_fill ⟨100, Mem.zero⟩
  obtain ⟨p, b, -, eq⟩ := tableWrites_eq twoByteSum hw (by decide) fill zeros
  obtain ⟨m, done, -⟩ := blockWrites_tables hw (length_mbr (d := ⟨100, Mem.zero⟩))
    (length_block (h := p)) (length_block (h := b)) zeros room ⟨rfl, rfl, rfl, rfl⟩ Mem.length_read
    Mem.length_read Mem.length_read Mem.length_read
  have old : writeGptTable twoByteSum ⟨100, Mem.zero⟩ h (entryArray []) =
      ((⟨100, m⟩ : BlockDev 32), 0) := by
    rw [writeGptTable, eq]
    exact done
  refine ⟨⟨100, m⟩, ?_, fun n => ?_⟩
  · rw [← old, gptRestore, restoreWrites, fill]
    rfl
  · exact crash_consistent hw ⟨100, Mem.zero⟩ ⟨100, m⟩ room zeroUuid h fill (entryArray []) zeros old
      zeroUuid [samplePartition 10 zeroUuid] twoByteSum_apart n

/-- A device of 50 blocks. -/
def device50 (disk : Mem) : BlockDev 32 where
  lba := 50
  disk

/-- A list with one partition is accepted there: its end wraps around to 0. -/
lemma restoreArray_wraps (m : Mem) :
    ∃ e, restoreArray false (device50 m) zeroUuid [samplePartition (-34) zeroUuid] = some e := by
  apply sample_accepted (by decide)
  show ¬ ((34 : BitVec 32) + -34 ≥ (((50 : BitVec 32) - 34).setWidth 64).setWidth 32)
  decide

/-- The new backup array lies over the primary one, and the old backup header is behind it. -/
lemma readGpt_overlap {m : Mem} {mbr e : List UInt8} {p₀ b₀ p b : GptHeader}
    (pair₀ : Pair twoByteSum (50 : BitVec 32) p₀ b₀ (entryArray []))
    (pair : Pair twoByteSum (50 : BitVec 32) p b e) (lm : mbr.length = 512)
    (old : m.read (512 * (50 - 1)) 512 = b₀.toBlock) (first : e[0]? = some 0xA2)
    (sum : twoByteSum e = 0xA2) :
    readGpt twoByteSum (device50 (fourWrites m 50 mbr p.toBlock e)) = none := by
  have hw : 32 = 32 ∨ 32 = 64 := .inl rfl
  have blocks (m : Mem) : 34 ≤ (device50 m).lba.toNat := by
    show 34 ≤ (50 : BitVec 32).toNat
    decide
  have le := pair.length
  have lp : p.toBlock.length = 512 := length_block
  generalize written : fourWrites m 50 mbr p.toBlock e = m'
  have t : Tables m' 50 p.toBlock (m'.read 1024 16384) e b₀.toBlock := by
    refine ⟨?_, rfl, ?_, ?_⟩
    · rw [← written, fourWrites, Mem.read_write_disjoint (by omega),
        Mem.read_write_disjoint (by omega), Mem.read_write_self lp]
    · rw [← written, fourWrites, Mem.read_write_self le]
    · rw [← written, fourWrites, Mem.read_write_disjoint (by omega),
        Mem.read_write_disjoint (by omega), Mem.read_write_disjoint (by omega),
        Mem.read_write_disjoint (by omega), old]
  have byte (i : Nat) (lt : i < 16384) : (m'.read 1024 16384).getD i 0 = m' (1024 + i) := by
    rw [List.getD_eq_getElem?_getD, Mem.getElem?_read, if_pos lt, Option.getD_some]
  have pos : 0 < e.length := by omega
  have head : e[0] = 0xA2 := by
    rwa [List.getElem?_eq_getElem pos, Option.some.injEq] at first
  have below : m' 1024 = 0xA2 := by
    rw [← written, fourWrites, Mem.write_below (by omega)]
    exact (Mem.write_at pos).trans head
  have above : m' 8704 = 0xA2 := by
    rw [← written, fourWrites]
    exact (Mem.write_at pos).trans head
  have spoilt : twoByteSum (m'.read 1024 16384) = 0xA2A2 := by
    rw [twoByteSum, byte 0 (by decide), byte 7680 (by decide), below, above]
    rfl
  have primary := primary_valid hw (blocks m') pair.primary pair.primaryEntries t
  have backup := backup_valid hw (blocks m') pair₀.backup pair₀.backupEntries t
  rw [spoilt, pair.primaryCrc, sum, if_neg (by decide)] at primary
  rw [sum, pair₀.backupCrc, array_none, twoByteSum_zeros, if_neg (by decide)] at backup
  rw [readGpt, primary, backup]
  rfl

/-- A device of 50 blocks: the partition of `2 ^ 32 - 34` blocks is accepted, since its end wraps
around to 0, and before the last block is written neither table is valid. -/
theorem crash_loses_table :
    ∃ d, gptRestore false twoByteSum (device50 Mem.zero) zeroUuid [] = (d, 0) ∧
      (∀ e ∈ restoreArray false d zeroUuid [samplePartition (-34) zeroUuid],
        TellsApart twoByteSum (entryArray []) e) ∧
      (gptRestore false twoByteSum d zeroUuid [samplePartition (-34) zeroUuid]).2 = 0 ∧
      readGpt twoByteSum (gptRestoreCut false twoByteSum d zeroUuid [samplePartition (-34) zeroUuid] 66) =
        none := by
  have hw : 32 = 32 ∨ 32 = 64 := .inl rfl
  have blocks (m : Mem) : 34 ≤ (device50 m).lba.toNat := by
    show 34 ≤ (50 : BitVec 32).toNat
    decide
  -- the empty table
  obtain ⟨h₀, fill₀⟩ := exists_fill (device50 Mem.zero)
  have none : restoreArray false (device50 Mem.zero) zeroUuid [] = some (entryArray []) := by
    rw [restoreArray, fill₀]
    rfl
  obtain ⟨p₀, b₀, pair₀, eq₀⟩ := restoreWrites_some twoByteSum hw (blocks _) none
  have done₀ := blockWrites_eq hw (length_mbr (d := device50 Mem.zero)) (length_block (h := p₀))
    (length_block (h := b₀)) pair₀.length (blocks Mem.zero)
  generalize disk₀ : (fourWrites Mem.zero 50 (protectiveMbr (device50 Mem.zero)) p₀.toBlock
    (entryArray [])).write (512 * (50 - 1)) b₀.toBlock = m
  have old : m.read (512 * (50 - 1)) 512 = b₀.toBlock := by
    rw [← disk₀]
    exact Mem.read_write_self length_block
  -- the new one
  obtain ⟨e, array⟩ := restoreArray_wraps m
  obtain ⟨p, b, pair, eq⟩ := restoreWrites_some twoByteSum hw (blocks m) array
  obtain ⟨bs, length, bytes, head⟩ := array_one array
  have sum : twoByteSum e = 0xA2 := by
    rw [bytes, twoByteSum_entry length head]
  have done := blockWrites_eq hw (length_mbr (d := device50 m)) (length_block (h := p))
    (length_block (h := b)) pair.length (blocks m)
  have cut := cutWrites_last hw (length_mbr (d := device50 m)) (length_block (h := p))
    (length_block (h := b)) pair.length (blocks m)
  refine ⟨device50 m, ?_, twoByteSum_apart, ?_, ?_⟩
  · rw [gptRestore, eq₀, ← disk₀]
    exact done₀
  · rw [gptRestore, eq]
    exact congrArg Prod.snd done
  · rw [gptRestoreCut, eq]
    simp only
    rw [cut]
    have first : e[0]? = some 0xA2 := by
      rw [bytes, List.getElem?_append_left (by omega), ← List.head?_eq_getElem?, head]
    exact readGpt_overlap pair₀ pair length_mbr old first sum

end Imx.Gpt
