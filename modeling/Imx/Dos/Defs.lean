import Imx.Gpt.Uuid

/-!
# DOS partition tables

Model of `disk/part_dos.c`: the table in block 0, and the chain of extended boot records behind it,
walked once to print all partitions and once to find one. A disk is what reading each of its blocks
gives, or that the block cannot be read; an `lbaint_t` has `w` bits and `uuids` is
`CONFIG_PARTITION_UUIDS`. Both walks are recursive and nothing bounds them, so they are run with a
count of the calls they may nest: `none` is a walk that has not come back by then.
-/

namespace Imx.Dos
open Imx.Base Imx.Gpt

variable {w : Nat}

/-! ## Tables -/

/-- An entry of a table (C `dos_partition_t`); its cylinders, heads and sectors are not used. -/
structure DosPartition where
  bootInd : UInt8
  sysInd : UInt8
  start4 : BitVec 32
  size4 : BitVec 32
deriving DecidableEq, Repr

/-- A number with its lowest byte first (C `le32_to_int`). -/
def le32ToInt (m : Mem) (a : Nat) : BitVec 32 := BitVec.ofNat 32 (ofLe (m.read a 4))

/-- An entry of the table in a block. -/
def DosPartition.get (buffer : Mem) (i : Nat) : DosPartition where
  bootInd := buffer (0x1be + 16 * i)
  sysInd := buffer (0x1be + 16 * i + 4)
  start4 := le32ToInt buffer (0x1be + 16 * i + 8)
  size4 := le32ToInt buffer (0x1be + 16 * i + 12)

/-- The four entries of the table in a block. -/
def table (buffer : Mem) : List DosPartition := [0, 1, 2, 3].map (DosPartition.get buffer)

/-- The entry leads to another table (C `is_extended`). -/
def DosPartition.isExtended (p : DosPartition) : Bool :=
  p.sysInd == 0x5 || p.sysInd == 0xf || p.sysInd == 0x85

/-- C `is_bootable`. -/
def DosPartition.isBootable (p : DosPartition) : Bool := p.bootInd == 0x80

/-- The entry is one of a partition with data. -/
def DosPartition.isData (p : DosPartition) : Bool := p.sysInd != 0 && !p.isExtended

/-- The boot flag is one of the two there are. -/
def DosPartition.flagOk (p : DosPartition) : Bool := p.bootInd == 0 || p.bootInd == 0x80

/-- The block has the signature of a table. -/
def signed (buffer : Mem) : Bool := buffer 0x1fe == 0x55 && buffer 0x1ff == 0xaa

/-- What a block is. -/
inductive BlockType where
  | mbr
  | pbr
deriving DecidableEq, Repr

/-- What is a block? Only the first entry is looked at: the pointer is never advanced
(C `test_block_type`). -/
def testBlockType (buffer : Mem) : Option BlockType :=
  if !signed buffer then none
  else if (DosPartition.get buffer 0).flagOk then some .mbr
  else if buffer.read 0x36 3 = [70, 65, 84] ∨ buffer.read 0x52 5 = [70, 65, 84, 51, 50] then some .pbr
  else none

/-! ## Numbers -/

/-- The number of the next entry: every entry of block 0 has one, and elsewhere those with data. -/
def nextNum (extPartSector : BitVec w) (partNum : Nat) (pt : DosPartition) : Nat :=
  if extPartSector = 0 ∨ pt.isData then partNum + 1 else partNum

/-- The entries with their numbers. -/
def numbered (extPartSector : BitVec w) : Nat → List DosPartition → List (Nat × DosPartition)
  | _, [] => []
  | partNum, pt :: pts =>
    (partNum, pt) :: numbered extPartSector (nextNum extPartSector partNum pt) pts

/-- The number behind the entries. -/
def numAfter (extPartSector : BitVec w) (partNum : Nat) (pts : List DosPartition) : Nat :=
  pts.foldl (nextNum extPartSector) partNum

/-- The block an entry leads to. -/
def lbaStart (pt : DosPartition) (relative : BitVec w) : BitVec w := pt.start4.setWidth w + relative

/-- What the links of a block are relative to, where the block itself is one link behind. -/
def relativeOf (extPartSector lba relative : BitVec w) : BitVec w :=
  if extPartSector = 0 then lba else relative

/-! ## Printing -/

/-- A line of the list of partitions (C `print_one_part`). -/
structure Line (w : Nat) where
  partNum : Nat
  lbaStart : BitVec w
  lbaSize : BitVec w
  disksig : BitVec 32
  sysInd : UInt8
  extd : Bool
  boot : Bool
deriving DecidableEq, Repr

/-- The line of an entry. -/
def printOnePart (pt : DosPartition) (extPartSector : BitVec w) (partNum : Nat)
    (disksig : BitVec 32) : Line w where
  partNum
  lbaStart := extPartSector + pt.start4.setWidth w
  lbaSize := pt.size4.setWidth w
  disksig
  sysInd := pt.sysInd
  extd := pt.isExtended
  boot := pt.isBootable

/-- The lines of the entries of one block. -/
def printTable (buffer : Mem) (extPartSector : BitVec w) (partNum : Nat) (disksig : BitVec 32) :
    List (Line w) :=
  ((numbered extPartSector partNum (table buffer)).filter fun x =>
    x.2.sysInd != 0 && (extPartSector == 0 || !x.2.isExtended)).map fun x =>
      printOnePart x.2 extPartSector x.1 disksig

variable (disk : BitVec w → Option Mem)

/-- The lines of a block and of all those its links lead to (C `print_partition_extended`). -/
def printPartitionExtended : Nat → BitVec w → BitVec w → Nat → BitVec 32 → Option (List (Line w))
  | 0, _, _, _, _ => none
  | calls + 1, extPartSector, relative, partNum, disksig =>
    match disk extPartSector with
    | none => some []
    | some buffer =>
      if testBlockType buffer ≠ some .mbr then some []
      else
        let disksig := if extPartSector = 0 then le32ToInt buffer 0x1b8 else disksig
        let lines := printTable buffer extPartSector partNum disksig
        let partNum := numAfter extPartSector partNum (table buffer)
        (((table buffer).filter DosPartition.isExtended).mapM fun pt =>
          let lba := lbaStart pt relative
          printPartitionExtended calls lba (relativeOf extPartSector lba relative) partNum disksig).map
            fun more => lines ++ more.flatten

/-- The list of partitions of a disk (C `print_part_dos`). -/
def printPartDos (calls : Nat) : Option (List (Line w)) := printPartitionExtended disk calls 0 0 1 0

/-! ## Finding -/

/-- The kind of a device (C `if_type`). -/
inductive IfType where
  | ide
  | sata
  | atapi
  | scsi
  | usb
  | doc
  | other
deriving DecidableEq, Repr

/-- The name of a device of a kind: hd, sd, usbd, docd or xx. -/
def IfType.text : IfType → CStr
  | ide | sata | atapi => [104, 100]
  | scsi => [115, 100]
  | usb => [117, 115, 98, 100]
  | doc => [100, 111, 99, 100]
  | other => [120, 120]

/-- A device: its kind, its number and its number of blocks. -/
structure BlockDesc (w : Nat) where
  ifType : IfType
  dev : Nat
  lba : BitVec w

/-- What is told of a partition (C `disk_partition_t`). -/
structure PartInfo (w : Nat) where
  start : BitVec w
  size : BitVec w
  blksz : Nat
  name : CStr
  type : CStr
  bootable : Bool
  uuid : CStr

/-- A number as `printf` prints it, with zeros up to a width. -/
def padded (base width n : Nat) : CStr :=
  let digits := (Nat.toDigits base n).map fun c => UInt8.ofNat c.toNat
  List.replicate (width - digits.length) 48 ++ digits

/-- The text `U-Boot`. -/
def uBoot : CStr := [85, 45, 66, 111, 111, 116]

variable (uuids : Bool) (dev : BlockDesc w)

/-- What is told of an entry. -/
def infoOf (info : PartInfo w) (extPartSector : BitVec w) (partNum : Nat) (pt : DosPartition)
    (disksig : BitVec 32) : PartInfo w where
  start := extPartSector + pt.start4.setWidth w
  size := pt.size4.setWidth w
  blksz := 512
  name := dev.ifType.text ++ [UInt8.ofNat (97 + dev.dev)] ++ padded 10 0 partNum
  type := uBoot
  bootable := pt.isBootable
  uuid := if uuids then padded 16 8 disksig.toNat ++ [45] ++ padded 16 2 partNum else info.uuid

/-- What is told of a device that is one file system. -/
def infoOfPbr (info : PartInfo w) : PartInfo w :=
  { info with
    start := 0
    size := dev.lba
    blksz := 512
    bootable := false
    type := uBoot
    uuid := if uuids then [] else info.uuid }

/-- The entry that is asked for, if it is in a block: with data and a boot flag, and with the
number. -/
def findEntry (buffer : Mem) (extPartSector : BitVec w) (partNum whichPart : Nat) :
    Option (Nat × DosPartition) :=
  (numbered extPartSector partNum (table buffer)).find? fun x =>
    x.2.flagOk && x.2.sysInd != 0 && x.1 == whichPart && !x.2.isExtended

/-- What is told of a partition, from a block on (C `get_partition_info_extended`). Of the links of
a block only the first one is followed. -/
def getPartitionInfoExtended : Nat → BitVec w → BitVec w → Nat → Nat → PartInfo w → BitVec 32 →
    Option (Option (PartInfo w))
  | 0, _, _, _, _, _, _ => none
  | calls + 1, extPartSector, relative, partNum, whichPart, info, disksig =>
    match disk extPartSector with
    | none => some none
    | some buffer =>
      if !signed buffer then some none
      else
        let disksig := if uuids ∧ extPartSector = 0 then le32ToInt buffer 0x1b8 else disksig
        match findEntry buffer extPartSector partNum whichPart with
        | some x => some (some (infoOf uuids dev info extPartSector x.1 x.2 disksig))
        | none =>
          match (table buffer).find? DosPartition.isExtended with
          | some pt =>
            let lba := lbaStart pt relative
            getPartitionInfoExtended calls lba (relativeOf extPartSector lba relative)
              (numAfter extPartSector partNum (table buffer)) whichPart info disksig
          | none =>
            if testBlockType buffer = some .pbr then some (some (infoOfPbr uuids dev info))
            else some none

/-- What is told of a partition (C `get_partition_info_dos`). -/
def getPartitionInfoDos (calls part : Nat) (info : PartInfo w) : Option (Option (PartInfo w)) :=
  getPartitionInfoExtended disk uuids dev calls 0 0 1 part info 0

end Imx.Dos
