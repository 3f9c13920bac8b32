import Imx.Gpt.Uuid

/-!
# GUID partition tables

Model of `disk/part_efi.c` on devices with blocks of 512 bytes: `gpt_restore`, `write_gpt_table`,
`get_partition_info_efi` and `gpt_verify_partitions`. An `lbaint_t` has `w` bits, 64 with
`CONFIG_SYS_64BIT_LBA`; `typeGuids` is `CONFIG_PARTITION_TYPE_GUID`, and `CONFIG_PARTITION_UUIDS` is
set. The CRC32 is a parameter. Transfers inside of the device succeed, the others fail, and no
allocation fails.
-/

namespace Imx.Gpt
open Imx.Base

variable {w : Nat} (typeGuids : Bool) (crc : List UInt8 → BitVec 32)

/-! ## Records -/

/-- C `gpt_header`. -/
structure GptHeader where
  signature : BitVec 64
  revision : BitVec 32
  headerSize : BitVec 32
  headerCrc32 : BitVec 32
  reserved1 : BitVec 32
  myLba : BitVec 64
  alternateLba : BitVec 64
  firstUsableLba : BitVec 64
  lastUsableLba : BitVec 64
  diskGuid : Guid
  partitionEntryLba : BitVec 64
  numPartitionEntries : BitVec 32
  sizeofPartitionEntry : BitVec 32
  partitionEntryArrayCrc32 : BitVec 32

/-- The 92 bytes of a header. -/
def GptHeader.toBytes (h : GptHeader) : List UInt8 :=
  putLe h.signature ++ (putLe h.revision ++ (putLe h.headerSize ++ (putLe h.headerCrc32 ++
    (putLe h.reserved1 ++ (putLe h.myLba ++ (putLe h.alternateLba ++ (putLe h.firstUsableLba ++
      (putLe h.lastUsableLba ++ (h.diskGuid.toBytes ++ (putLe h.partitionEntryLba ++
        (putLe h.numPartitionEntries ++ (putLe h.sizeofPartitionEntry ++
          putLe h.partitionEntryArrayCrc32))))))))))))

/-- A header in a buffer of one block. -/
def GptHeader.toBlock (h : GptHeader) : List UInt8 := h.toBytes ++ List.replicate 420 0

/-- The header some bytes begin with. -/
def GptHeader.get (bs : List UInt8) : GptHeader where
  signature := getLe 64 bs 0
  revision := getLe 32 bs 8
  headerSize := getLe 32 bs 12
  headerCrc32 := getLe 32 bs 16
  reserved1 := getLe 32 bs 20
  myLba := getLe 64 bs 24
  alternateLba := getLe 64 bs 32
  firstUsableLba := getLe 64 bs 40
  lastUsableLba := getLe 64 bs 48
  diskGuid := Guid.get bs 56
  partitionEntryLba := getLe 64 bs 72
  numPartitionEntries := getLe 32 bs 80
  sizeofPartitionEntry := getLe 32 bs 84
  partitionEntryArrayCrc32 := getLe 32 bs 88

/-- C `gpt_entry`; the name has `PARTNAME_SZ` characters. -/
structure GptEntry where
  partitionTypeGuid : Guid
  uniquePartitionGuid : Guid
  startingLba : BitVec 64
  endingLba : BitVec 64
  attributes : BitVec 64
  partitionName : Fin 36 → BitVec 16

/-- The 128 bytes of an entry. -/
def GptEntry.toBytes (e : GptEntry) : List UInt8 :=
  e.partitionTypeGuid.toBytes ++ (e.uniquePartitionGuid.toBytes ++ (putLe e.startingLba ++
    (putLe e.endingLba ++ (putLe e.attributes ++ (List.ofFn e.partitionName).flatMap putLe))))

/-- The entry at an offset. -/
def GptEntry.get (bs : List UInt8) (off : Nat) : GptEntry where
  partitionTypeGuid := Guid.get bs off
  uniquePartitionGuid := Guid.get bs (off + 16)
  startingLba := getLe 64 bs (off + 32)
  endingLba := getLe 64 bs (off + 40)
  attributes := getLe 64 bs (off + 48)
  partitionName i := getLe 16 bs (off + 56 + 2 * i)

/-- C `GPT_ENTRY_NUMBERS`. -/
def gptEntryNumbers : BitVec 32 := 128

/-- The number of blocks for some bytes (C `BLOCK_CNT`). -/
def blockCnt (size : Nat) : Nat := (size + 511) / 512

/-! ## The device -/

/-- A block device: its number of blocks and the bytes of its disk. -/
structure BlockDev (w : Nat) where
  lba : BitVec w
  disk : Mem

/-- Read some blocks. -/
def BlockDev.blockRead (d : BlockDev w) (start : BitVec w) (cnt : Nat) : Option (List UInt8) :=
  if start.toNat + cnt ≤ d.lba.toNat then some (d.disk.read (512 * start.toNat) (512 * cnt))
  else none

/-- Write some blocks. -/
def BlockDev.blockWrite (d : BlockDev w) (start : BitVec w) (bs : List UInt8) :
    Option (BlockDev w) :=
  if start.toNat + bs.length / 512 ≤ d.lba.toNat then
    some { d with disk := d.disk.write (512 * start.toNat) bs }
  else none

/-- Some writes one after the other; one that fails is the last. -/
def BlockDev.blockWrites : BlockDev w → List (BitVec w × List UInt8) → BlockDev w × Int
  | d, [] => (d, 0)
  | d, (start, bs) :: ws =>
    match d.blockWrite start bs with
    | none => (d, -1)
    | some d => d.blockWrites ws

/-- The same writes, but only the first `n` blocks of them reach the disk. -/
def BlockDev.cutWrites : BlockDev w → List (BitVec w × List UInt8) → Nat → BlockDev w
  | d, [], _ => d
  | d, (start, bs) :: ws, n =>
    match d.blockWrite start bs with
    | none => d
    | some d' =>
      if n < bs.length / 512 then
        { d with disk := d.disk.write (512 * start.toNat) (bs.take (512 * n)) }
      else d'.cutWrites ws (n - bs.length / 512)

/-! ## Validation -/

/-- Is this the header of a table at a block? (C `validate_gpt_header`) -/
def validateGptHeader (head : List UInt8) (lba lastlba : BitVec w) : Bool :=
  let gptH := GptHeader.get head
  let calcCrc32 := crc ((head.take 16 ++ [0, 0, 0, 0] ++ head.drop 20).take gptH.headerSize.toNat)
  gptH.signature == 0x5452415020494645 && calcCrc32 == gptH.headerCrc32 &&
    gptH.myLba == lba.setWidth 64 && gptH.firstUsableLba ≤ lastlba.setWidth 64 &&
    gptH.lastUsableLba ≤ lastlba.setWidth 64

/-- Are these the entries of a header? (C `validate_gpt_entries`) -/
def validateGptEntries (gptH : GptHeader) (gptE : List UInt8) : Bool :=
  crc (gptE.take (gptH.numPartitionEntries * gptH.sizeofPartitionEntry).toNat) ==
    gptH.partitionEntryArrayCrc32

/-- The entries of a header (C `alloc_read_gpt_entries`). -/
def allocReadGptEntries (d : BlockDev w) (gptHead : GptHeader) : Option (List UInt8) :=
  let count := (gptHead.numPartitionEntries * gptHead.sizeofPartitionEntry).toNat
  if count = 0 then none
  else d.blockRead (gptHead.partitionEntryLba.setWidth w) (blockCnt count)

/-- The table whose header is at a block, if it is valid (C `is_gpt_valid`). -/
def isGptValid (d : BlockDev w) (lba : BitVec 64) : Option (GptHeader × List UInt8) := do
  let head ← d.blockRead (lba.setWidth w) 1
  if validateGptHeader crc head (lba.setWidth w) d.lba then
    let gptHead := GptHeader.get head
    let gptPte ← allocReadGptEntries d gptHead
    if validateGptEntries crc gptHead gptPte then some (gptHead, gptPte) else none
  else none

/-- Is an entry in use? (C `is_pte_valid`) -/
def isPteValid (pte : GptEntry) : Bool := pte.partitionTypeGuid.toBytes != List.replicate 16 0

/-! ## Writing -/

/-- The backup header of a primary one (C `prepare_backup_gpt_header`). -/
def prepareBackupGptHeader (gptH : GptHeader) : GptHeader :=
  let gptH := { gptH with
    myLba := gptH.alternateLba
    alternateLba := gptH.myLba
    partitionEntryLba := gptH.lastUsableLba + 1
    headerCrc32 := 0 }
  { gptH with headerCrc32 := crc (gptH.toBlock.take gptH.headerSize.toNat) }

/-- The protective MBR (C `set_protective_mbr`). -/
def protectiveMbr (d : BlockDev w) : List UInt8 :=
  List.replicate 450 0 ++ (0xEE :: List.replicate 3 0) ++ bytesLe 4 1 ++
    putLe (d.lba.setWidth 32 - 1) ++ List.replicate 48 0 ++ [0x55, 0xAA]

/-- The primary header with its checksums. -/
def primaryHeader (gptH : GptHeader) (gptE : List UInt8) : GptHeader :=
  let calcCrc32 := crc (gptE.take (gptH.numPartitionEntries * gptH.sizeofPartitionEntry).toNat)
  let gptH := { gptH with partitionEntryArrayCrc32 := calcCrc32 }
  { gptH with headerCrc32 := crc (gptH.toBlock.take gptH.headerSize.toNat) }

/-- The writes of `write_gpt_table`. -/
def tableWrites (d : BlockDev w) (gptH : GptHeader) (gptE : List UInt8) :
    List (BitVec w × List UInt8) :=
  let gptE' := gptE.take (512 * blockCnt (gptH.numPartitionEntries.toNat * 128))
  let primary := primaryHeader crc gptH gptE
  let backup := prepareBackupGptHeader crc primary
  [(0, protectiveMbr d), (1, primary.toBlock), (2, gptE'),
    (backup.lastUsableLba.setWidth w + 1, gptE'), (backup.myLba.setWidth w, backup.toBlock)]

/-- Write both tables (C `write_gpt_table`). -/
def writeGptTable (d : BlockDev w) (gptH : GptHeader) (gptE : List UInt8) : BlockDev w × Int :=
  d.blockWrites (tableWrites crc d gptH gptE)

/-- A partition of the list (C `disk_partition_t`). -/
structure DiskPartition (w : Nat) where
  start : BitVec w
  size : BitVec w
  name : Fin 32 → UInt8
  bootable : Bool
  uuid : CStr
  typeGuid : CStr

/-- The type GUID of an entry. -/
def fillTypeGuid (p : DiskPartition w) : Option Guid :=
  if typeGuids ∧ p.typeGuid ≠ [] then uuidStrToBin typeGuids p.typeGuid .guid
  else some partitionBasicDataGuid

/-- The entry of a partition. -/
def fillEntry (p : DiskPartition w) (typeGuid uniqueGuid : Guid) (start ending : BitVec 64) :
    GptEntry where
  partitionTypeGuid := typeGuid
  uniquePartitionGuid := uniqueGuid
  startingLba := start
  endingLba := ending
  attributes := if p.bootable then 4 else 0
  partitionName k := if lt : k < 32 then BitVec.ofNat 16 (p.name ⟨k, lt⟩).toNat else 0

/-- The first block of a partition that may begin at an offset. -/
def startOf (offset : BitVec w) (p : DiskPartition w) : BitVec w :=
  if p.start ≠ 0 then p.start else offset

/-- The entries of the partitions from an offset on, for a header that says which block is the last
usable one (C `gpt_fill_pte`). -/
def gptFillPte (gptH : GptHeader) : BitVec w → List (DiskPartition w) → Option (List GptEntry)
  | _, [] => some []
  | offset, p :: ps => do
    if p.start ≠ 0 ∧ p.start < offset then none
    else
      let start := startOf offset p
      let offset := start + p.size
      if offset ≥ gptH.lastUsableLba.setWidth w then none
      else
        let typeGuid ← fillTypeGuid typeGuids p
        let uniqueGuid ← uuidStrToBin typeGuids p.uuid .std
        let ending :=
          if ps = [] ∧ p.size = 0 then gptH.lastUsableLba else (offset - 1).setWidth 64
        let es ← gptFillPte gptH offset ps
        some (fillEntry p typeGuid uniqueGuid (start.setWidth 64) ending :: es)

/-- The array of `GPT_ENTRY_NUMBERS` entries in memory. What the code writes behind its end, for a
longer list, is not modelled. -/
def entryArray (es : List GptEntry) : List UInt8 :=
  (es.flatMap GptEntry.toBytes ++ List.replicate 16384 0).take 16384

/-- The header of a new table (C `gpt_fill_header`). -/
def gptFillHeader (d : BlockDev w) (strGuid : CStr) : Option GptHeader :=
  (uuidStrToBin typeGuids strGuid .guid).map fun diskGuid =>
    { signature := 0x5452415020494645
      revision := 0x00010000
      headerSize := 92
      headerCrc32 := 0
      reserved1 := 0
      myLba := 1
      alternateLba := (d.lba - 1).setWidth 64
      firstUsableLba := 34
      lastUsableLba := (d.lba - 34).setWidth 64
      diskGuid
      partitionEntryLba := 2
      numPartitionEntries := gptEntryNumbers
      sizeofPartitionEntry := 128
      partitionEntryArrayCrc32 := 0 }

/-- The writes of `gpt_restore`, if the disk GUID and the list are right. -/
def restoreWrites (d : BlockDev w) (strDiskGuid : CStr) (partitions : List (DiskPartition w)) :
    Option (List (BitVec w × List UInt8)) := do
  let gptH ← gptFillHeader typeGuids d strDiskGuid
  let es ← gptFillPte typeGuids gptH (gptH.firstUsableLba.setWidth w) partitions
  some (tableWrites crc d gptH (entryArray es))

/-- Write a table of some partitions (C `gpt_restore`). -/
def gptRestore (d : BlockDev w) (strDiskGuid : CStr) (partitions : List (DiskPartition w)) :
    BlockDev w × Int :=
  match restoreWrites typeGuids crc d strDiskGuid partitions with
  | none => (d, -1)
  | some ws => d.blockWrites ws

/-- What is on the disk when `gpt_restore` is cut after `n` blocks. -/
def gptRestoreCut (d : BlockDev w) (strDiskGuid : CStr) (partitions : List (DiskPartition w))
    (n : Nat) : BlockDev w :=
  match restoreWrites typeGuids crc d strDiskGuid partitions with
  | none => d
  | some ws => d.cutWrites ws n

/-! ## Reading -/

/-- What is told of a partition. -/
structure PartitionInfo (w : Nat) where
  start : BitVec w
  size : BitVec w
  blksz : Nat
  name : CStr
  type : CStr
  bootable : Bool
  uuid : CStr
  typeGuid : Option CStr

/-- The name of an entry, printable (C `print_efiname`). -/
def printEfiname (pte : GptEntry) : CStr :=
  ((List.finRange 36).map fun i =>
    let c := UInt8.ofNat (pte.partitionName i).toNat
    if c ≠ 0 ∧ !isprint c then 46 else c).takeWhile (· != 0)

/-- Is an entry bootable? (C `is_bootable`) -/
def isBootable (p : GptEntry) : Bool :=
  p.attributes.getLsbD 2 || p.partitionTypeGuid.toBytes == partitionSystemGuid.toBytes

/-- The valid table that is used: the primary one, else the backup. -/
def readGpt (d : BlockDev w) : Option (GptHeader × List UInt8) :=
  (isGptValid crc d 1).or (isGptValid crc d ((d.lba - 1).setWidth 64))

/-- What a table tells of a partition. -/
def partitionInfo (gptHead : GptHeader) (gptPte : List UInt8) (part : Nat) :
    Option (PartitionInfo w) :=
  let pte := GptEntry.get gptPte (128 * (part - 1))
  if part > gptHead.numPartitionEntries.toNat ∨ !isPteValid pte then none
  else
    let start := pte.startingLba.setWidth w
    some {
      start
      size := pte.endingLba.setWidth w + 1 - start
      blksz := 512
      name := printEfiname pte
      type := [85, 45, 66, 111, 111, 116]
      bootable := isBootable pte
      uuid := uuidBinToStr pte.uniquePartitionGuid .guid
      typeGuid := if typeGuids then some (uuidBinToStr pte.partitionTypeGuid .guid) else none }

/-- What is told of a partition (C `get_partition_info_efi`). -/
def getPartitionInfoEfi (d : BlockDev w) (part : Nat) : Option (PartitionInfo w) :=
  if part < 1 then none
  else (readGpt crc d).bind fun t => partitionInfo typeGuids t.1 t.2 part

/-! ## Verifying -/

/-- The characters of a name that begins there (C `gpt_convert_efi_name_to_char`). -/
def gptConvertEfiNameToChar (es : List UInt8) (n : Nat) : CStr :=
  ((List.range n).map fun j => es.getD (2 * j) 0).takeWhile (· != 0)

/-- The name of a partition as a C string, of at most 32 bytes. -/
def DiskPartition.nameStr (p : DiskPartition w) : CStr := (List.ofFn p.name).takeWhile (· != 0)

/-- Both tables are valid; the backup is kept (C `gpt_verify_headers`). -/
def gptVerifyHeaders (d : BlockDev w) : Option (GptHeader × List UInt8) := do
  let _ ← isGptValid crc d 1
  isGptValid crc d ((d.lba - 1).setWidth 64)

/-- The loop of `gpt_verify_partitions`, from entry `i` on. -/
def verifyLoop (gptHead : GptHeader) (gptPte : List UInt8) : Nat → List (DiskPartition w) → Int
  | _, [] => 0
  | i, p :: ps =>
    let gptE := GptEntry.get gptPte (128 * i)
    let efiStr := gptConvertEfiNameToChar (gptPte.drop (128 * i + 56)) 37
    if i = gptHead.numPartitionEntries.toNat then -1
    else if efiStr.take 32 ≠ p.nameStr then -1
    else if gptE.endingLba - gptE.startingLba + 1 ≠ p.size.setWidth 64 then -1
    else if p.start = 0 then verifyLoop gptHead gptPte (i + 1) ps
    else if gptE.startingLba ≠ p.start.setWidth 64 then -1
    else verifyLoop gptHead gptPte (i + 1) ps

/-- Does the disk have this table? (C `gpt_verify_partitions`) -/
def gptVerifyPartitions (d : BlockDev w) (partitions : List (DiskPartition w)) : Int :=
  match gptVerifyHeaders crc d with
  | none => -1
  | some t => verifyLoop t.1 t.2 0 partitions

end Imx.Gpt
