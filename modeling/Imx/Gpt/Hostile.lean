import Imx.Base.Access
import Imx.Gpt.Fill

/-!
# Reading a table that nobody vouches for

Which bytes the readers of `disk/part_efi.c` touch on a disk with any contents. Each `…Accesses`
follows its function and lists the ranges in the order of the source, with the size of the buffer
each is in; `Sound` is what the disk must hold for all of them to be inside. The checksums of a
header and its entries do not help: they are over what the header says.
-/

namespace Imx.Gpt
open Imx.Base

variable {w : Nat} (typeGuids : Bool) (crc : List UInt8 → BitVec 32) (sz : Nat)

/-! ## The accesses -/

/-- The bytes of the entries that a header tells of. -/
def GptHeader.count (h : GptHeader) : Nat := (h.numPartitionEntries * h.sizeofPartitionEntry).toNat

/-- The size of the allocation for some bytes, where a `size_t` has `sz` bits
(C `PAD_TO_BLOCKSIZE`). -/
def padToBlocksize (size : Nat) : Nat := 512 * blockCnt size % 2 ^ sz

/-- The accesses of C `validate_gpt_header`, to the block that was read. -/
def validateGptHeaderAccesses (head : List UInt8) : List Access :=
  let gptH := GptHeader.get head
  ⟨512, 0, 8⟩ ::
    if gptH.signature = 0x5452415020494645 then
      [⟨512, 16, 4⟩, ⟨512, 0, gptH.headerSize.toNat⟩, ⟨512, 0, 92⟩]
    else []

/-- The accesses of C `alloc_read_gpt_entries`. -/
def allocReadGptEntriesAccesses (gptHead : GptHeader) : List Access :=
  if gptHead.count = 0 then [] else [⟨padToBlocksize sz gptHead.count, 0, 512 * blockCnt gptHead.count⟩]

/-- The accesses of C `is_gpt_valid`; the checksum of the entries is over what was read. -/
def isGptValidAccesses (d : BlockDev w) (lba : BitVec 64) : List Access :=
  match d.blockRead (lba.setWidth w) 1 with
  | none => []
  | some head =>
    ⟨512, 0, 512⟩ :: validateGptHeaderAccesses head ++
      if validateGptHeader crc head (lba.setWidth w) d.lba then
        let gptHead := GptHeader.get head
        allocReadGptEntriesAccesses sz gptHead ++
          if (allocReadGptEntries d gptHead).isSome then
            [⟨512 * blockCnt gptHead.count, 0, gptHead.count⟩]
          else []
      else []

/-- The accesses of C `is_pte_valid` to the entry with an index. -/
def isPteValidAccesses (gptHead : GptHeader) (i : Nat) : List Access :=
  [⟨padToBlocksize sz gptHead.count, 128 * i, 16⟩]

/-- The accesses to an entry that is valid: to its fields, and of C `print_efiname`. -/
def pteAccesses (gptHead : GptHeader) (i : Nat) : List Access :=
  [⟨padToBlocksize sz gptHead.count, 128 * i, 128⟩, ⟨37, 0, 37⟩]

/-- The accesses of C `get_partition_info_efi` behind the validation: to the entry, and to the
fields `name`, `type`, `uuid` and `type_guid`. -/
def partitionInfoAccesses (gptHead : GptHeader) (gptPte : List UInt8) (part : Nat) : List Access :=
  let pte := GptEntry.get gptPte (128 * (part - 1))
  if part > gptHead.numPartitionEntries.toNat then []
  else isPteValidAccesses sz gptHead (part - 1) ++
    if isPteValid pte then
      pteAccesses sz gptHead (part - 1) ++
        [⟨32, 0, (printEfiname pte).length + 1⟩, ⟨32, 0, 7⟩, ⟨37, 0, 37⟩] ++
        if typeGuids then [⟨37, 0, 37⟩] else []
    else []

/-- The accesses before a table is used: the backup is looked at when the primary one is not
valid. -/
def readGptAccesses (d : BlockDev w) : List Access :=
  isGptValidAccesses crc sz d 1 ++
    if (isGptValid crc d 1).isSome then []
    else isGptValidAccesses crc sz d ((d.lba - 1).setWidth 64)

/-- The accesses of C `get_partition_info_efi`. -/
def getPartitionInfoEfiAccesses (d : BlockDev w) (part : Nat) : List Access :=
  if part < 1 then []
  else readGptAccesses crc sz d ++
    match readGpt crc d with
    | none => []
    | some t => partitionInfoAccesses typeGuids sz t.1 t.2 part

/-- The name of a type, if it has one (C `uuid_guid_get_str`). -/
def uuidGuidGetStr (guidBin : Guid) : CStr :=
  ((listGuid.find? fun e => e.2.toBytes == guidBin.toBytes).map Prod.fst).getD []

/-- The accesses of the loop of C `print_part_efi`, from entry `i` on with `n` entries left. The
texts of both GUIDs and the name of the type go to `uuid`. -/
def printLoopAccesses (gptHead : GptHeader) (gptPte : List UInt8) : Nat → Nat → List Access
  | _, 0 => []
  | i, n + 1 =>
    let pte := GptEntry.get gptPte (128 * i)
    isPteValidAccesses sz gptHead i ++
      if isPteValid pte then
        pteAccesses sz gptHead i ++ ⟨37, 0, 37⟩ ::
          (if typeGuids then [⟨37, 0, (uuidGuidGetStr pte.partitionTypeGuid).length + 1⟩] else []) ++
          ⟨37, 0, 37⟩ :: printLoopAccesses gptHead gptPte (i + 1) n
      else []

/-- The accesses of C `print_part_efi`. -/
def printPartEfiAccesses (d : BlockDev w) : List Access :=
  readGptAccesses crc sz d ++
    match readGpt crc d with
    | none => []
    | some t => printLoopAccesses typeGuids sz t.1 t.2 0 t.1.numPartitionEntries.toNat

/-! ## What the disk must hold -/

/-- A block with the signature of a header tells of no more bytes than the block has, and if it is
valid, the allocation for its entries does not wrap around. -/
def SoundHead (d : BlockDev w) (lba : BitVec 64) : Prop :=
  ∀ head, d.blockRead (lba.setWidth w) 1 = some head →
    (GptHeader.get head).signature = 0x5452415020494645 →
      (GptHeader.get head).headerSize.toNat ≤ 512 ∧
        (validateGptHeader crc head (lba.setWidth w) d.lba →
          512 * blockCnt (GptHeader.get head).count < 2 ^ sz)

/-- The entries of the table that is used lie in the blocks that are read for it, and those in use
have a name of less than 32 characters. -/
def SoundTable (gptHead : GptHeader) (gptPte : List UInt8) : Prop :=
  128 * gptHead.numPartitionEntries.toNat ≤ 512 * blockCnt gptHead.count ∧
    ∀ i < gptHead.numPartitionEntries.toNat, isPteValid (GptEntry.get gptPte (128 * i)) →
      (printEfiname (GptEntry.get gptPte (128 * i))).length < 32

/-- The disk can be read without an access outside of a buffer. -/
structure Sound (d : BlockDev w) : Prop where
  primary : SoundHead crc sz d 1
  backup : isGptValid crc d 1 = none → SoundHead crc sz d ((d.lba - 1).setWidth 64)
  table : ∀ t, readGpt crc d = some t → SoundTable t.1 t.2

section Reading

variable {typeGuids crc sz} {d : BlockDev w} {lba : BitVec 64} {gptHead : GptHeader}
  {gptPte : List UInt8} {t : GptHeader × List UInt8}

/-! ## Validation -/

lemma padToBlocksize_iff {size : Nat} :
    512 * blockCnt size ≤ padToBlocksize sz size ↔ 512 * blockCnt size < 2 ^ sz := by
  rw [padToBlocksize]
  constructor
  · intro le
    exact Nat.lt_of_le_of_lt le (Nat.mod_lt _ (Nat.two_pow_pos sz))
  · intro lt
    rw [Nat.mod_eq_of_lt lt]

lemma padToBlocksize_of_lt {size : Nat} (lt : 512 * blockCnt size < 2 ^ sz) :
    padToBlocksize sz size = 512 * blockCnt size := Nat.mod_eq_of_lt lt

lemma le_blockCnt (size : Nat) : size ≤ 512 * blockCnt size := by
  rw [blockCnt]
  omega

/-- A valid header has the signature. -/
lemma signature_of_valid {head : List UInt8} {place lastlba : BitVec w}
    (valid : validateGptHeader crc head place lastlba) :
    (GptHeader.get head).signature = 0x5452415020494645 := by
  simp only [validateGptHeader, Bool.and_eq_true, beq_iff_eq] at valid
  exact valid.1.1.1.1

/-- The accesses to a header and to the entries that are read for it. -/
lemma isGptValidAccesses_iff :
    AllInside (isGptValidAccesses crc sz d lba) ↔ SoundHead crc sz d lba := by
  rw [isGptValidAccesses, SoundHead]
  cases d.blockRead (lba.setWidth w) 1 with
  | none => exact iff_of_true allInside_nil fun head none => by cases none
  | some head =>
    have entries (gptHead : GptHeader) : AllInside (allocReadGptEntriesAccesses sz gptHead ++
        if (allocReadGptEntries d gptHead).isSome then
          [⟨512 * blockCnt gptHead.count, 0, gptHead.count⟩] else []) ↔
        512 * blockCnt gptHead.count < 2 ^ sz := by
      rw [allInside_append, allInside_ite, allocReadGptEntriesAccesses, allInside_ite_not]
      simp only [allInside_cons, allInside_nil, inside_mk, Nat.zero_add, and_true,
        padToBlocksize_iff, le_blockCnt, implies_true]
      constructor
      · intro lt
        by_cases zero : gptHead.count = 0
        · rw [zero]
          exact Nat.two_pow_pos sz
        · exact lt zero
      · exact fun lt _ => lt
    simp only [List.cons_append, allInside_cons, allInside_append, inside_mk, Nat.zero_add, Nat.le_refl,
      true_and, validateGptHeaderAccesses, allInside_ite, entries, allInside_nil, and_true,
      Option.some.injEq, forall_eq', Nat.reduceLeDiff, Nat.reduceAdd]
    constructor
    · rintro ⟨size, room⟩ signature
      exact ⟨size signature, room⟩
    · intro sound
      exact ⟨fun signature => (sound signature).1,
        fun valid => (sound (signature_of_valid valid)).2 valid⟩

/-- The table of a header that is sound has the blocks that were read. -/
lemma SoundHead.room (sound : SoundHead crc sz d lba) (valid : isGptValid crc d lba = some t) :
    padToBlocksize sz t.1.count = 512 * blockCnt t.1.count := by
  rw [isGptValid, Option.bind_eq_bind, Option.bind_eq_some_iff] at valid
  obtain ⟨head, read, valid⟩ := valid
  split_ifs at valid with ok
  simp only [Option.bind_eq_some_iff] at valid
  obtain ⟨pte, -, valid⟩ := valid
  split_ifs at valid
  obtain rfl := Option.some.inj valid
  exact padToBlocksize_of_lt ((sound head read (signature_of_valid ok)).2 ok)

/-- Nothing of what comes before a table is used leaves its buffer. -/
lemma readGptAccesses_iff : AllInside (readGptAccesses crc sz d) ↔
    SoundHead crc sz d 1 ∧
      (isGptValid crc d 1 = none → SoundHead crc sz d ((d.lba - 1).setWidth 64)) := by
  rw [readGptAccesses, allInside_append, allInside_ite_not, isGptValidAccesses_iff,
    isGptValidAccesses_iff, Option.not_isSome_iff_eq_none]

/-- The table that is used has the blocks that were read. -/
lemma room_of_read (inside : AllInside (readGptAccesses crc sz d)) (read : readGpt crc d = some t) :
    padToBlocksize sz t.1.count = 512 * blockCnt t.1.count := by
  obtain ⟨primary, backup⟩ := readGptAccesses_iff.1 inside
  rw [readGpt, Option.or_eq_some_iff] at read
  rcases read with valid | ⟨invalid, valid⟩
  · exact primary.room valid
  · exact (backup invalid).room valid

/-! ## Entries -/

/-- The name of a type is short. -/
lemma uuidGuidGetStr_length {g : Guid} : (uuidGuidGetStr g).length + 1 ≤ 37 := by
  have short : ∀ e ∈ listGuid, e.1.length ≤ 6 := by decide
  rw [uuidGuidGetStr]
  cases found : listGuid.find? fun e => e.2.toBytes == g.toBytes with
  | none => decide
  | some e =>
    have length := short e (List.mem_of_find?_eq_some found)
    simp only [Option.map_some, Option.getD_some]
    omega

/-- The accesses to what is told of a partition. -/
lemma partitionInfoAccesses_iff {part : Nat} (pos : 1 ≤ part) (blocks : 128 ∣ padToBlocksize sz gptHead.count) :
    AllInside (partitionInfoAccesses typeGuids sz gptHead gptPte part) ↔
      (part ≤ gptHead.numPartitionEntries.toNat →
        128 * part ≤ padToBlocksize sz gptHead.count ∧
          (isPteValid (GptEntry.get gptPte (128 * (part - 1))) →
            (printEfiname (GptEntry.get gptPte (128 * (part - 1)))).length < 32)) := by
  obtain ⟨k, blocks⟩ := blocks
  rw [partitionInfoAccesses]
  simp only [isPteValidAccesses, pteAccesses, allInside_ite_not, allInside_ite, allInside_append,
    allInside_cons, allInside_nil, inside_mk, Nat.not_lt, gt_iff_lt, and_true]
  refine forall_congr' fun le => ?_
  constructor
  · rintro ⟨test, used⟩
    exact ⟨by omega, fun valid => by have := (used valid).1.2; omega⟩
  · rintro ⟨within, name⟩
    refine ⟨by omega, fun valid => ⟨⟨⟨by omega, by decide⟩, ?_, by decide, by decide⟩, fun _ => by decide⟩⟩
    have short := name valid
    omega

/-- The loop that prints the entries stays inside of a table that is sound. -/
lemma printLoopAccesses_inside (sound : SoundTable gptHead gptPte)
    (room : padToBlocksize sz gptHead.count = 512 * blockCnt gptHead.count) {i n : Nat}
    (all : i + n = gptHead.numPartitionEntries.toNat) :
    AllInside (printLoopAccesses typeGuids sz gptHead gptPte i n) := by
  induction n generalizing i with
  | zero => exact allInside_nil
  | succ n ih =>
    have within := sound.1
    have next := @ih (i + 1) (by omega)
    rw [printLoopAccesses]
    simp only [isPteValidAccesses, pteAccesses, allInside_ite, allInside_append, allInside_cons,
      allInside_nil, inside_mk, room, next, and_true]
    refine ⟨by omega, fun _ => ⟨⟨⟨by omega, by decide⟩, by decide, fun _ => ?_⟩, by decide⟩⟩
    rw [Nat.zero_add]
    exact uuidGuidGetStr_length

/-- Entries that can all be asked for lie in their table, and have short names if they are in use. -/
lemma soundTable_of_inside (room : padToBlocksize sz gptHead.count = 512 * blockCnt gptHead.count)
    (inside : ∀ part < 2 ^ 31, 1 ≤ part →
      AllInside (partitionInfoAccesses typeGuids sz gptHead gptPte part)) :
    SoundTable gptHead gptPte := by
  have blocks : 128 ∣ padToBlocksize sz gptHead.count := room ▸ ⟨4 * blockCnt gptHead.count, by omega⟩
  have count : gptHead.count < 2 ^ 32 := BitVec.isLt _
  have few : blockCnt gptHead.count ≤ 2 ^ 23 := by
    rw [blockCnt]
    omega
  have whole : 128 * gptHead.numPartitionEntries.toNat ≤ 512 * blockCnt gptHead.count := by
    by_contra far
    -- the first entry behind the table
    have told := (partitionInfoAccesses_iff (by omega) blocks).1
      (inside (4 * blockCnt gptHead.count + 1) (by omega) (by omega)) (by omega)
    rw [room] at told
    omega
  refine ⟨whole, fun i lt valid => ?_⟩
  have told := (partitionInfoAccesses_iff (by omega) blocks).1 (inside (i + 1) (by omega) (by omega)) lt
  exact told.2 valid

end Reading

/-- Both readers touch only the bytes of their buffers, whatever partition is asked for, exactly if
the disk is sound. -/
theorem hostile_inside_iff (d : BlockDev w) :
    (∀ part < 2 ^ 31, AllInside (getPartitionInfoEfiAccesses typeGuids crc sz d part)) ∧
        AllInside (printPartEfiAccesses typeGuids crc sz d) ↔
      Sound crc sz d := by
  constructor
  · rintro ⟨told, printed⟩
    rw [printPartEfiAccesses, allInside_append] at printed
    have inside := printed.1
    obtain ⟨primary, backup⟩ := readGptAccesses_iff.1 inside
    refine ⟨primary, backup, fun t read => ?_⟩
    apply soundTable_of_inside (room_of_read inside read)
    intro part lt pos
    have asked := told part lt
    rw [getPartitionInfoEfiAccesses, if_neg (Nat.not_lt.2 pos), read, allInside_append] at asked
    exact asked.2
  · rintro ⟨primary, backup, table⟩
    have inside := readGptAccesses_iff.2 ⟨primary, backup⟩
    cases read : readGpt crc d with
    | none =>
      constructor
      · intro part _
        rw [getPartitionInfoEfiAccesses, allInside_ite_not, read, List.append_nil]
        exact fun _ => inside
      · rw [printPartEfiAccesses, read, List.append_nil]
        exact inside
    | some t =>
      have sound := table t read
      have room := room_of_read inside read
      constructor
      · intro part _
        rw [getPartitionInfoEfiAccesses, allInside_ite_not, read, allInside_append]
        intro pos
        have blocks : 128 ∣ padToBlocksize sz t.1.count := room ▸ ⟨4 * blockCnt t.1.count, by omega⟩
        refine ⟨inside, (partitionInfoAccesses_iff (by omega) blocks).2 fun le => ?_⟩
        have within := sound.1
        exact ⟨by omega, sound.2 (part - 1) (by omega)⟩
      · rw [printPartEfiAccesses, read, allInside_append]
        exact ⟨inside, printLoopAccesses_inside sound room (Nat.zero_add _)⟩

/-- A disk of 100 blocks with a header of 1024 bytes. -/
def longHeader : BlockDev 32 where
  lba := 100
  disk := Mem.zero.write 512 (putLe (0x5452415020494645 : BitVec 64) ++ bytesLe 4 0 ++ bytesLe 4 1024)

/-- The checksum of that header is taken over more than the block that was read. -/
theorem not_hostile_inside_long :
    ¬ AllInside (getPartitionInfoEfiAccesses false (fun _ => 0) 32 longHeader 1) := by
  intro inside
  rw [getPartitionInfoEfiAccesses, if_neg (by decide), allInside_append, readGptAccesses_iff] at inside
  have sound := inside.1.1 (longHeader.disk.read 512 512) (by rfl)
  set_option maxRecDepth 8000 in
  exact absurd (sound (by decide)).1 (by decide)

end Imx.Gpt
