import Imx.Gpt.Table

/-!
# Writing a table

The writes of `gpt_restore` as five pieces. On a device of at least 67 blocks they leave the new
table in both places (`blockWrites_tables`), and the reader uses the primary one when its array has
the right checksum and else the backup (`readGpt_primary`, `readGpt_backup`).
-/

namespace Imx.Gpt
open Imx.Base

variable {w : Nat} {typeGuids : Bool} {crc : List UInt8 → BitVec 32}

/-! ## The device -/

section Writes

variable {d : BlockDev w} {start : BitVec w} {bs : List UInt8} {ws : List (BitVec w × List UInt8)}

/-- A write inside of the device. -/
lemma blockWrites_cons (within : start.toNat + bs.length / 512 ≤ d.lba.toNat) :
    d.blockWrites ((start, bs) :: ws) =
      BlockDev.blockWrites { d with disk := d.disk.write (512 * start.toNat) bs } ws := by
  rw [BlockDev.blockWrites, BlockDev.blockWrite, if_pos within]

end Writes

section Pieces

variable {d : BlockDev w} {p b e mbr ph pa ba bh : List UInt8} (hw : w = 32 ∨ w = 64)
  (lm : mbr.length = 512) (lp : p.length = 512) (lb : b.length = 512) (le : e.length = 16384)

/-- The disk when all but the last write are done. -/
def fourWrites (m : Mem) (n : Nat) (mbr p e : List UInt8) : Mem :=
  (((m.write 0 mbr).write 512 p).write 1024 e).write (512 * (n - 33)) e

section Blocks

variable (blocks : 34 ≤ d.lba.toNat)
include hw lm lp lb le blocks

/-- All writes reach the disk. -/
lemma blockWrites_eq :
    d.blockWrites [(0, mbr), (1, p), (2, e), (d.lba - 34 + 1, e), (d.lba - 1, b)] =
      ({ d with
        disk := (fourWrites d.disk d.lba.toNat mbr p e).write (512 * (d.lba.toNat - 1)) b }, 0) := by
  obtain ⟨one, two, last, -, array, -⟩ := places hw blocks
  have zero : (0 : BitVec w).toNat = 0 := rfl
  rw [blockWrites_cons (by rw [zero, lm]; omega), blockWrites_cons (by simp only; omega),
    blockWrites_cons (by simp only; omega), blockWrites_cons (by simp only; omega),
    blockWrites_cons (by simp only; omega), BlockDev.blockWrites]
  simp only [fourWrites, zero, one, two, last, array]

end Blocks

variable (room : 67 ≤ d.lba.toNat) (t : Tables d.disk d.lba.toNat ph pa ba bh)
include hw lm lp lb le room t

/-- All writes reach the disk, and the tables are the new ones. -/
lemma blockWrites_tables (lph : ph.length = 512) (lpa : pa.length = 16384)
    (lba : ba.length = 16384) (lbh : bh.length = 512) :
    ∃ m, d.blockWrites [(0, mbr), (1, p), (2, e), (d.lba - 34 + 1, e), (d.lba - 1, b)] =
        ({ d with disk := m }, 0) ∧
      Tables m d.lba.toNat p e e b := by
  have blocks : 34 ≤ d.lba.toNat := by omega
  have t₁ := t.writeMbr room (Nat.le_of_eq lm)
  have t₂ := t₁.writeHeader room (Nat.le_of_eq lp)
  have t₃ := t₂.writeArray room (Nat.le_of_eq le)
  have t₄ := t₃.writeBackupArray room (Nat.le_of_eq le)
  have t₅ := t₄.writeBackupHeader room (Nat.le_of_eq lb)
  rw [overlay_whole (lph.trans lp.symm), overlay_whole (lpa.trans le.symm),
    overlay_whole (lba.trans le.symm), overlay_whole (lbh.trans lb.symm)] at t₅
  exact ⟨_, blockWrites_eq hw lm lp lb le blocks, t₅⟩

end Pieces

/-! ## A new table -/

/-- The array of entries that `gpt_restore` writes. -/
def restoreArray (typeGuids : Bool) (d : BlockDev w) (strDiskGuid : CStr)
    (partitions : List (DiskPartition w)) : Option (List UInt8) := do
  let gptH ← gptFillHeader typeGuids d strDiskGuid
  let es ← gptFillPte typeGuids gptH (gptH.firstUsableLba.setWidth w) partitions
  some (entryArray es)

section Restore

variable {d : BlockDev w} {p b : GptHeader} {e pa ba bh : List UInt8} {guid : CStr}
  {parts : List (DiskPartition w)}

variable (crc) in
/-- A new table is written as five pieces. -/
lemma restoreWrites_some (hw : w = 32 ∨ w = 64) (blocks : 34 ≤ d.lba.toNat)
    (h : restoreArray typeGuids d guid parts = some e) :
    ∃ p b, Pair crc d.lba p b e ∧ restoreWrites typeGuids crc d guid parts =
      some [(0, protectiveMbr d), (1, p.toBlock), (2, e), (d.lba - 34 + 1, e),
        (d.lba - 1, b.toBlock)] := by
  rw [restoreArray] at h
  simp only [Option.bind_eq_bind, Option.bind_eq_some_iff, Option.some.injEq] at h
  obtain ⟨gptH, fill, es, pte, rfl⟩ := h
  obtain ⟨p, b, pair, eq⟩ := tableWrites_eq crc hw blocks fill (length_entryArray : (entryArray es).length = 16384)
  refine ⟨p, b, pair, ?_⟩
  rw [restoreWrites, fill]
  simp only [Option.bind_eq_bind, Option.bind_some, pte, eq]

variable (crc) in
/-- Nothing is written when the list is not accepted. -/
lemma restoreWrites_none (h : restoreArray typeGuids d guid parts = none) :
    restoreWrites typeGuids crc d guid parts = none := by
  rw [restoreArray] at h
  rw [restoreWrites]
  cases fill : gptFillHeader typeGuids d guid with
  | none => rfl
  | some gptH =>
    rw [fill] at h
    simp only [Option.bind_eq_bind, Option.bind_some] at h ⊢
    cases pte : gptFillPte typeGuids gptH (gptH.firstUsableLba.setWidth w) parts with
    | none => rfl
    | some es =>
      rw [pte] at h
      cases h

lemma length_mbr : (protectiveMbr d).length = 512 := by
  simp only [protectiveMbr, List.length_append, List.length_replicate, List.length_cons,
    List.length_nil, length_putLe, length_bytesLe]

variable (crc) in
/-- A list that is accepted is written, on a device with room for both tables. -/
lemma gptRestore_tables (hw : w = 32 ∨ w = 64) (room : 67 ≤ d.lba.toNat)
    (array : restoreArray typeGuids d guid parts = some e) :
    ∃ m p b, gptRestore typeGuids crc d guid parts = ({ d with disk := m }, 0) ∧
      Pair crc d.lba p b e ∧ Tables m d.lba.toNat p.toBlock e e b.toBlock := by
  have blocks : 34 ≤ d.lba.toNat := by omega
  obtain ⟨p, b, pair, eq⟩ := restoreWrites_some crc hw blocks array
  obtain ⟨m, done, t⟩ := blockWrites_tables hw (length_mbr (d := d)) (length_block (h := p))
    (length_block (h := b)) pair.length room ⟨rfl, rfl, rfl, rfl⟩ Mem.length_read Mem.length_read
    Mem.length_read Mem.length_read
  refine ⟨m, p, b, ?_, pair, t⟩
  rw [gptRestore, eq]
  exact done

/-! ## The table that is read -/

/-- The primary table is used when it is complete. -/
lemma readGpt_primary (hw : w = 32 ∨ w = 64) (room : 34 ≤ d.lba.toNat)
    (pair : Pair crc d.lba p b e) (t : Tables d.disk d.lba.toNat p.toBlock e ba bh) :
    readGpt crc d = some (p, e) := by
  rw [readGpt, primary_valid hw room pair.primary pair.primaryEntries t, pair.primaryCrc,
    if_pos rfl, Option.some_or]

/-- The backup is used when the primary array has a wrong checksum. -/
lemma readGpt_backup (hw : w = 32 ∨ w = 64) (room : 34 ≤ d.lba.toNat)
    {p' b' : GptHeader} {e' : List UInt8} (pair : Pair crc d.lba p b e)
    (pair' : Pair crc d.lba p' b' e')
    (t : Tables d.disk d.lba.toNat p'.toBlock pa e b.toBlock) (wrong : crc pa ≠ crc e') :
    readGpt crc d = some (b, e) := by
  rw [readGpt, primary_valid hw room pair'.primary pair'.primaryEntries t, pair'.primaryCrc,
    if_neg wrong, Option.none_or, backup_valid hw room pair.backup pair.backupEntries t,
    pair.backupCrc, if_pos rfl]

end Restore

/-! ## A sample -/

/-- A partition with the name `a`. -/
def samplePartition (size : BitVec 32) (uuid : CStr) : DiskPartition 32 where
  start := 0
  size
  name i := if i = 0 then 97 else 0
  bootable := false
  uuid
  typeGuid := []

/-- A header can be filled. -/
lemma exists_fill (d : BlockDev 32) : ∃ h, gptFillHeader false d zeroUuid = some h := by
  have valid : uuidStrValid zeroUuid := by decide
  rw [gptFillHeader, uuidStrToBin_valid false valid]
  exact ⟨_, rfl⟩

/-- A list with one partition is accepted if its end is below the last usable block. -/
lemma sample_accepted {d : BlockDev 32} {size : BitVec 32} {uuid : CStr}
    (valid : uuidStrValid uuid)
    (fits : ¬ (34 + size ≥ ((d.lba - 34).setWidth 64).setWidth 32)) :
    ∃ e, restoreArray false d zeroUuid [samplePartition size uuid] = some e := by
  have zero : uuidStrValid zeroUuid := by decide
  have unique : uuidStrToBin false (samplePartition size uuid).uuid .std = _ :=
    uuidStrToBin_valid false valid .std
  have start : startOf ((34 : BitVec 64).setWidth 32) (samplePartition size uuid) +
      (samplePartition size uuid).size = 34 + size := rfl
  rw [restoreArray, gptFillHeader, uuidStrToBin_valid false zero]
  simp only [Option.map_some, Option.bind_eq_bind, Option.bind_some]
  rw [gptFillPte, if_neg (by simp [samplePartition])]
  simp only [start, if_neg fits]
  rw [fillTypeGuid, if_neg (by simp), unique]
  exact ⟨_, rfl⟩

end Imx.Gpt
