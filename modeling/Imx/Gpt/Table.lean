import Imx.Gpt.Defs

/-!
# Tables on a disk

Records are read back from the bytes they were written as, and a header with its array of entries is
valid exactly if the checksum of the array is the one in the header (`isGptValid_copy`). On a device
of at least 67 blocks the writes of `write_gpt_table` do not overlap.
-/

namespace Imx.Gpt
open Imx.Base

variable {w : Nat} {typeGuids : Bool} {crc : List UInt8 → BitVec 32}

/-! ## Records -/

section Records

variable {bs rest : List UInt8} {off : Nat}

@[simp] lemma length_guid {g : Guid} : g.toBytes.length = 16 := by
  rw [Guid.toBytes, List.length_ofFn]

/-- A GUID is read back where it was put. -/
lemma guid_get {g : Guid} (h : bs.drop off = g.toBytes ++ rest) : Guid.get bs off = g := by
  funext i
  have lt : i.1 < g.toBytes.length := by
    rw [length_guid]
    exact i.2
  rw [Guid.get, List.getD_eq_getElem?_getD, ← List.getElem?_drop, h, List.getElem?_append_left lt,
    Guid.toBytes, List.getElem?_ofFn]
  simp

/-- What lies behind a field. -/
lemma drop_skip {a b : List UInt8} {k n : Nat} (size : a.length = k) (le : k ≤ n) :
    (a ++ b).drop n = b.drop (n - k) := by
  rw [List.drop_append, List.drop_eq_nil_of_le (by omega), List.nil_append, size]

/-- A header is read back. -/
lemma header_get (h : GptHeader) : GptHeader.get (h.toBytes ++ rest) = h := by
  obtain ⟨⟩ := h
  simp only [GptHeader.get, GptHeader.toBytes, List.append_assoc, GptHeader.mk.injEq]
  refine ⟨?_, ?_, ?_, ?_, ?_, ?_, ?_, ?_, ?_, ?_, ?_, ?_, ?_, ?_⟩
  all_goals
    first | apply getLe_of_drop (by decide) | apply guid_get
    repeat rw [drop_skip (by simp only [length_putLe, length_guid]; rfl) (by decide)]
    exact List.drop_zero

/-- A header is read back from its block. -/
lemma header_get_block (h : GptHeader) : GptHeader.get h.toBlock = h := header_get h

/-- An entry is read back where it was put. -/
lemma entry_get {e : GptEntry} (h : bs.drop off = e.toBytes ++ rest) : GptEntry.get bs off = e := by
  have field (k : Nat) : bs.drop (off + k) = (e.toBytes ++ rest).drop k := by
    rw [← List.drop_drop, h]
  have first : bs.drop off = (e.toBytes ++ rest).drop 0 := h
  obtain ⟨type, unique, start, ending, attributes, name⟩ := e
  simp only [GptEntry.toBytes, List.append_assoc] at field first
  simp only [GptEntry.get, GptEntry.mk.injEq]
  refine ⟨guid_get first, ?_, ?_, ?_, ?_, ?_⟩
  · apply guid_get
    rw [field, drop_skip length_guid (by decide)]
    exact List.drop_zero
  · apply getLe_of_drop (by decide)
    rw [field]
    repeat rw [drop_skip (by simp only [length_putLe, length_guid]; rfl) (by decide)]
    exact List.drop_zero
  · apply getLe_of_drop (by decide)
    rw [field]
    repeat rw [drop_skip (by simp only [length_putLe, length_guid]; rfl) (by decide)]
    exact List.drop_zero
  · apply getLe_of_drop (by decide)
    rw [field]
    repeat rw [drop_skip (by simp only [length_putLe, length_guid]; rfl) (by decide)]
    exact List.drop_zero
  · funext i
    apply getLe_of_drop (by decide)
    have size : ∀ x : BitVec 16, (putLe x).length = 2 := fun x => length_putLe
    have index : off + 56 + 2 * i.1 = off + (56 + 2 * i.1) := Nat.add_assoc _ _ _
    have at' : (List.ofFn name).drop i = name i :: (List.ofFn name).drop (i + 1) := by
      rw [List.drop_eq_getElem_cons (by simp), List.getElem_ofFn]
    rw [index, field]
    repeat rw [drop_skip (by simp only [length_putLe, length_guid]; rfl) (by omega)]
    have count : 56 + 2 * i.1 - 16 - 16 - 64 / 8 - 64 / 8 - 64 / 8 = 2 * i.1 := by omega
    have within : 2 * i.1 ≤ ((List.ofFn name).flatMap putLe).length := by
      rw [length_flatMap_eq size, List.length_ofFn]
      omega
    rw [count, List.drop_append_of_le_length within, drop_flatMap size, at', List.flatMap_cons,
      List.append_assoc]

@[simp] lemma length_entry {e : GptEntry} : e.toBytes.length = 128 := by
  simp [GptEntry.toBytes]

@[simp] lemma length_header {h : GptHeader} : h.toBytes.length = 92 := by
  simp [GptHeader.toBytes]

@[simp] lemma length_block {h : GptHeader} : h.toBlock.length = 512 := by
  rw [GptHeader.toBlock, List.length_append, length_header, List.length_replicate]

@[simp] lemma length_entryArray {es : List GptEntry} : (entryArray es).length = 16384 := by
  rw [entryArray, List.length_take, List.length_append, List.length_replicate]
  omega

/-- The entries of a list are read back from its array, as far as they have room. -/
lemma entryArray_get {es : List GptEntry} {i : Nat} (lt : i < es.length) (room : i < 128) :
    GptEntry.get (entryArray es) (128 * i) = es[i] := by
  have size : ∀ e : GptEntry, e.toBytes.length = 128 := fun _ => length_entry
  have within : 128 * i ≤ (es.flatMap GptEntry.toBytes).length := by
    rw [length_flatMap_eq size]
    omega
  have inside : es[i].toBytes.length ≤ 16384 - 128 * i := by
    rw [length_entry]
    omega
  have here : (entryArray es).drop (128 * i) = es[i].toBytes ++
      ((es.drop (i + 1)).flatMap GptEntry.toBytes ++ List.replicate 16384 0).take
        (16384 - 128 * i - 128) := by
    rw [entryArray, List.drop_take, List.drop_append_of_le_length within, drop_flatMap size,
      List.drop_eq_getElem_cons lt, List.flatMap_cons, List.append_assoc, List.take_append,
      List.take_of_length_le inside, length_entry]
  exact entry_get here

end Records

/-! ## The entries of a list -/

/-- What is known of the first partition of a list that is accepted, and of its entry. -/
lemma gptFillPte_cons {gptH : GptHeader} {offset : BitVec w} {p : DiskPartition w}
    {ps : List (DiskPartition w)} {es : List GptEntry}
    (h : gptFillPte typeGuids gptH offset (p :: ps) = some es) :
    (p.start = 0 ∨ offset ≤ p.start) ∧ startOf offset p + p.size < gptH.lastUsableLba.setWidth w ∧
      ∃ typeGuid uniqueGuid es', fillTypeGuid typeGuids p = some typeGuid ∧
        uuidStrToBin typeGuids p.uuid .std = some uniqueGuid ∧
        gptFillPte typeGuids gptH (startOf offset p + p.size) ps = some es' ∧
        es = fillEntry p typeGuid uniqueGuid ((startOf offset p).setWidth 64)
          (if ps = [] ∧ p.size = 0 then gptH.lastUsableLba
            else (startOf offset p + p.size - 1).setWidth 64) :: es' := by
  rw [gptFillPte] at h
  by_cases overlap : p.start ≠ 0 ∧ p.start < offset
  · rw [if_pos overlap] at h
    cases h
  rw [if_neg overlap] at h
  by_cases exceeds : startOf offset p + p.size ≥ gptH.lastUsableLba.setWidth w
  · simp only [if_pos exceeds] at h
    cases h
  simp only [if_neg exceeds, Option.bind_eq_bind, Option.bind_eq_some_iff, Option.some.injEq] at h
  obtain ⟨typeGuid, type, uniqueGuid, unique, es', rest, rfl⟩ := h
  refine ⟨?_, BitVec.not_le.1 exceeds, typeGuid, uniqueGuid, es', type, unique, rest, rfl⟩
  by_cases zero : p.start = 0
  · exact .inl zero
  · exact .inr (BitVec.not_lt.1 fun lt => overlap ⟨zero, lt⟩)

/-! ## Validity -/

/-- A header without its checksum. -/
def GptHeader.unsealed (h : GptHeader) : GptHeader := { h with headerCrc32 := 0 }

/-- The checksum of a header is taken with its own field zero. -/
lemma block_unsealed (h : GptHeader) :
    (h.toBlock.take 16 ++ [0, 0, 0, 0] ++ h.toBlock.drop 20).take 92 = h.unsealed.toBytes := by
  have zero : putLe (0 : BitVec 32) = [0, 0, 0, 0] := rfl
  have low : h.toBlock.take 16 = putLe h.signature ++ (putLe h.revision ++ putLe h.headerSize) := rfl
  have high : h.toBlock.drop 20 = h.toBytes.drop 20 ++ List.replicate 420 0 :=
    List.drop_append_of_le_length (by rw [length_header]; decide)
  have whole : h.unsealed.toBytes =
      putLe h.signature ++ (putLe h.revision ++ putLe h.headerSize) ++ [0, 0, 0, 0] ++
        h.toBytes.drop 20 := by
    rw [← zero]
    rfl
  rw [low, high, ← List.append_assoc, ← whole, List.take_left' length_header]

/-- The bytes of a header without its checksum are those of its block. -/
lemma block_take (h : GptHeader) : h.toBlock.take 92 = h.toBytes := by
  rw [GptHeader.toBlock, List.take_left' length_header]

/-- What a header for a table of 128 entries says when it stands at a block of a device. -/
structure Sealed (crc : List UInt8 → BitVec 32) (lastlba lba : BitVec w) (h : GptHeader) :
    Prop where
  signature : h.signature = 0x5452415020494645
  size : h.headerSize = 92
  crc32 : h.headerCrc32 = crc h.unsealed.toBytes
  my : h.myLba = lba.setWidth 64
  first : h.firstUsableLba ≤ lastlba.setWidth 64
  last : h.lastUsableLba ≤ lastlba.setWidth 64
  number : h.numPartitionEntries = gptEntryNumbers
  entry : h.sizeofPartitionEntry = 128

/-- A header at a block, and an array where the header says it is. -/
structure Copy (crc : List UInt8 → BitVec 32) (d : BlockDev w) (lba : BitVec w) (h : GptHeader)
    (e : List UInt8) : Prop extends Sealed crc d.lba lba h where
  header : d.disk.read (512 * lba.toNat) 512 = h.toBlock
  entries : d.disk.read (512 * (h.partitionEntryLba.setWidth w).toNat) 16384 = e
  within : lba.toNat < d.lba.toNat
  room : (h.partitionEntryLba.setWidth w).toNat + 32 ≤ d.lba.toNat

section Valid

variable {d : BlockDev w} {lba : BitVec w} {h : GptHeader} {e : List UInt8}

/-- The header is valid. -/
lemma Sealed.valid (s : Sealed crc d.lba lba h) : validateGptHeader crc h.toBlock lba d.lba := by
  have size : h.headerSize.toNat = 92 := by rw [s.size]; rfl
  simp only [validateGptHeader, header_get_block, size, block_unsealed]
  simp [s.signature, s.crc32, s.my, s.first, s.last]

/-- The table is valid exactly if the checksum of the array is the one in the header. -/
lemma isGptValid_copy (c : Copy crc d lba h e) (wide : w ≤ 64) :
    isGptValid crc d (lba.setWidth 64) =
      if crc e = h.partitionEntryArrayCrc32 then some (h, e) else none := by
  have back : (lba.setWidth 64).setWidth w = lba := by
    rw [BitVec.setWidth_setWidth_of_le _ wide, BitVec.setWidth_eq]
  have head : d.blockRead lba 1 = some h.toBlock := by
    rw [BlockDev.blockRead, if_pos (Nat.succ_le_of_lt c.within), Nat.mul_one, c.header]
  have count : (h.numPartitionEntries * h.sizeofPartitionEntry).toNat = 16384 := by
    rw [c.number, c.entry]
    rfl
  have pte : allocReadGptEntries d h = some e := by
    have blocks : blockCnt 16384 = 32 := rfl
    rw [allocReadGptEntries, count, if_neg (by decide), BlockDev.blockRead, blocks, if_pos c.room,
      c.entries]
  have length : e.length = 16384 := by
    rw [← c.entries, Mem.length_read]
  rw [isGptValid, back, head]
  simp only [Option.bind_eq_bind, Option.bind_some, if_pos c.valid, header_get_block, pte,
    validateGptEntries, count, List.take_of_length_le (Nat.le_of_eq length), beq_iff_eq]

end Valid

/-! ## The places of the tables -/

/-- The primary header and array, and the backup array and header, on a disk of `n` blocks. -/
structure Tables (m : Mem) (n : Nat) (ph pa ba bh : List UInt8) : Prop where
  ph : m.read 512 512 = ph
  pa : m.read 1024 16384 = pa
  ba : m.read (512 * (n - 33)) 16384 = ba
  bh : m.read (512 * (n - 1)) 512 = bh

/-- Some bytes over the first of others. -/
def overlay (bs old : List UInt8) : List UInt8 := bs ++ old.drop bs.length

lemma overlay_whole {bs old : List UInt8} (h : old.length = bs.length) : overlay bs old = bs := by
  rw [overlay, ← h, List.drop_length, List.append_nil]

lemma overlay_nil {old : List UInt8} : overlay [] old = old := rfl

/-- Reading where the first bytes were written. -/
lemma read_overlay {m : Mem} {a k : Nat} {bs : List UInt8} (le : bs.length ≤ k) :
    (m.write a bs).read a k = overlay bs (m.read a k) := by
  obtain ⟨j, rfl⟩ := Nat.exists_eq_add_of_le le
  rw [overlay, Mem.read_add, Mem.read_write_self rfl, Mem.read_write_disjoint (.inr (Nat.le_refl _)),
    Mem.read_drop, Nat.add_sub_cancel_left]

section Places

variable {m : Mem} {n : Nat} {ph pa ba bh bs : List UInt8}

section Writes

variable (t : Tables m n ph pa ba bh) (room : 67 ≤ n)
include t room

lemma Tables.writeMbr (le : bs.length ≤ 512) : Tables (m.write 0 bs) n ph pa ba bh := by
  refine ⟨?_, ?_, ?_, ?_⟩
  · rw [Mem.read_write_disjoint (by omega), t.ph]
  · rw [Mem.read_write_disjoint (by omega), t.pa]
  · rw [Mem.read_write_disjoint (by omega), t.ba]
  · rw [Mem.read_write_disjoint (by omega), t.bh]

lemma Tables.writeHeader (le : bs.length ≤ 512) :
    Tables (m.write 512 bs) n (overlay bs ph) pa ba bh := by
  refine ⟨?_, ?_, ?_, ?_⟩
  · rw [read_overlay le, t.ph]
  · rw [Mem.read_write_disjoint (by omega), t.pa]
  · rw [Mem.read_write_disjoint (by omega), t.ba]
  · rw [Mem.read_write_disjoint (by omega), t.bh]

lemma Tables.writeArray (le : bs.length ≤ 16384) :
    Tables (m.write 1024 bs) n ph (overlay bs pa) ba bh := by
  refine ⟨?_, ?_, ?_, ?_⟩
  · rw [Mem.read_write_disjoint (by omega), t.ph]
  · rw [read_overlay le, t.pa]
  · rw [Mem.read_write_disjoint (by omega), t.ba]
  · rw [Mem.read_write_disjoint (by omega), t.bh]

lemma Tables.writeBackupArray (le : bs.length ≤ 16384) :
    Tables (m.write (512 * (n - 33)) bs) n ph pa (overlay bs ba) bh := by
  refine ⟨?_, ?_, ?_, ?_⟩
  · rw [Mem.read_write_disjoint (by omega), t.ph]
  · rw [Mem.read_write_disjoint (by omega), t.pa]
  · rw [read_overlay le, t.ba]
  · rw [Mem.read_write_disjoint (by omega), t.bh]

lemma Tables.writeBackupHeader (le : bs.length ≤ 512) :
    Tables (m.write (512 * (n - 1)) bs) n ph pa ba (overlay bs bh) := by
  refine ⟨?_, ?_, ?_, ?_⟩
  · rw [Mem.read_write_disjoint (by omega), t.ph]
  · rw [Mem.read_write_disjoint (by omega), t.pa]
  · rw [Mem.read_write_disjoint (by omega), t.ba]
  · rw [read_overlay le, t.bh]

end Writes

/-- The headers of the two copies of an array, on a device with that many blocks. -/
structure Pair (crc : List UInt8 → BitVec 32) (lastlba : BitVec w) (p b : GptHeader)
    (e : List UInt8) : Prop where
  length : e.length = 16384
  primary : Sealed crc lastlba 1 p
  backup : Sealed crc lastlba (lastlba - 1) b
  primaryCrc : p.partitionEntryArrayCrc32 = crc e
  backupCrc : b.partitionEntryArrayCrc32 = crc e
  primaryEntries : p.partitionEntryLba = 2
  backupEntries : b.partitionEntryLba = (lastlba - 34).setWidth 64 + 1

section Device

variable {d : BlockDev w} {p b : GptHeader} {e : List UInt8} (hw : w = 32 ∨ w = 64)
  (room : 34 ≤ d.lba.toNat)
include hw room

/-- The blocks the tables are at. -/
lemma places :
    (1 : BitVec w).toNat = 1 ∧ (2 : BitVec w).toNat = 2 ∧ (d.lba - 1).toNat = d.lba.toNat - 1 ∧
      ((d.lba - 34).setWidth 64).setWidth w = d.lba - 34 ∧
        (d.lba - 34 + 1).toNat = d.lba.toNat - 33 ∧
          (((d.lba - 34).setWidth 64 + 1).setWidth w).toNat = d.lba.toNat - 33 := by
  obtain ⟨lba, disk⟩ := d
  simp only at room ⊢
  rcases hw with rfl | rfl
  · refine ⟨rfl, rfl, ?_, ?_, ?_, ?_⟩ <;> bv_omega
  · refine ⟨rfl, rfl, ?_, ?_, ?_, ?_⟩ <;> bv_omega

/-- The primary table is valid exactly if its array has the checksum. -/
lemma primary_valid (s : Sealed crc d.lba 1 p) (entries : p.partitionEntryLba = 2)
    (t : Tables d.disk d.lba.toNat p.toBlock pa ba bh) :
    isGptValid crc d 1 = if crc pa = p.partitionEntryArrayCrc32 then some (p, pa) else none := by
  obtain ⟨one, two, -⟩ := places hw room
  have wide : w ≤ 64 := by omega
  have two' : (p.partitionEntryLba.setWidth w).toNat = 2 := by
    rw [entries]
    rcases hw with rfl | rfl <;> rfl
  have one' : (1 : BitVec w).setWidth 64 = 1 := by
    rcases hw with rfl | rfl <;> rfl
  rw [← one']
  apply isGptValid_copy _ wide
  exact
    { toSealed := s
      header := by
        rw [one]
        exact t.ph
      entries := by
        rw [two']
        exact t.pa
      within := by omega
      room := by omega }

/-- The backup table is valid exactly if its array has the checksum. -/
lemma backup_valid (s : Sealed crc d.lba (d.lba - 1) b)
    (entries : b.partitionEntryLba = (d.lba - 34).setWidth 64 + 1)
    (t : Tables d.disk d.lba.toNat ph pa ba b.toBlock) :
    isGptValid crc d ((d.lba - 1).setWidth 64) =
      if crc ba = b.partitionEntryArrayCrc32 then some (b, ba) else none := by
  obtain ⟨-, -, last, -, -, array⟩ := places hw room
  have wide : w ≤ 64 := by omega
  apply isGptValid_copy _ wide
  exact
    { toSealed := s
      header := by
        rw [last]
        exact t.bh
      entries := by
        rw [entries, array]
        exact t.ba
      within := by omega
      room := by
        rw [entries, array]
        omega }

variable (crc) in
/-- The headers `write_gpt_table` makes of a new one, and its writes. -/
lemma tableWrites_eq {strGuid : CStr} {h : GptHeader}
    (fill : gptFillHeader typeGuids d strGuid = some h) (length : e.length = 16384) :
    ∃ p b, Pair crc d.lba p b e ∧ tableWrites crc d h e =
      [(0, protectiveMbr d), (1, p.toBlock), (2, e), (d.lba - 34 + 1, e), (d.lba - 1, b.toBlock)] := by
  obtain ⟨-, -, -, wide, -, -⟩ := places hw room
  have one : (1 : BitVec w).setWidth 64 = 1 := by
    rcases hw with rfl | rfl <;> rfl
  have back : ((d.lba - 1).setWidth 64).setWidth w = d.lba - 1 := by
    rcases hw with rfl | rfl <;> bv_omega
  have first : (34 : BitVec 64) ≤ d.lba.setWidth 64 := by
    rcases hw with rfl | rfl <;> bv_omega
  have last : (d.lba - 34).setWidth 64 ≤ d.lba.setWidth 64 := by
    rcases hw with rfl | rfl <;> bv_omega
  have whole : e.take 16384 = e := List.take_of_length_le (Nat.le_of_eq length)
  have taken : e.take (gptEntryNumbers * 128).toNat = e := by
    have count : (gptEntryNumbers * 128).toNat = 16384 := by decide
    rw [count, whole]
  refine ⟨primaryHeader crc h e, prepareBackupGptHeader crc (primaryHeader crc h e), ?_, ?_⟩
  all_goals
    rw [gptFillHeader, Option.map_eq_some_iff] at fill
    obtain ⟨diskGuid, -, rfl⟩ := fill
  · refine ⟨length, ⟨rfl, rfl, ?_, one.symm, first, last, rfl, rfl⟩,
      ⟨rfl, rfl, ?_, rfl, first, last, rfl, rfl⟩, ?_, ?_, rfl, rfl⟩
    · exact congrArg crc (block_take _)
    · exact congrArg crc (block_take _)
    · exact congrArg crc taken
    · exact congrArg crc taken
  · have blocks : e.take (512 * blockCnt (gptEntryNumbers.toNat * 128)) = e := whole
    simp only [tableWrites, primaryHeader, prepareBackupGptHeader, blocks, wide, back]

end Device

end Places

end Imx.Gpt
