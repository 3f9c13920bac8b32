import Imx.Base.Extent

/-!
# FAT volumes

Model of the reading side of `fs/fat/fat.c` on a little-endian CPU and a device whose reads succeed.
`disk` is the bytes of the partition (`cur_part_info`), whose blocks are the sectors of the volume.
A `__u32` is a number, cut to 32 bits where it can leave them. The memory `m` is the one of the
caller, known by its addresses; `block` is the static `get_contents_vfatname_block`.

What is left out: the messages, and what follows on an error of the device.
-/

namespace Imx.Fat
open Imx.Base

def fatbufblocks : Nat := 6

/-- `MAX_CLUSTSIZE`. -/
def maxClustsize : Nat := 65536

structure Fsdata where
  /-- What `fatbuf` points to. -/
  fatbuf : Mem
  fatsize : Nat
  fatlength : Nat
  fatSect : Nat
  rootdirSect : Nat
  sectSize : Nat
  clustSize : Nat
  dataBegin : Int
  /-- -1 is the number 2^32 - 1, as which it is compared. -/
  fatbufnum : Nat

/-- What `get_contents` reads of a directory entry. -/
structure DirEntry where
  starthi : Nat
  start : Nat
  size : Nat

def u32 (x : Int) : Nat := (x % 2 ^ 32).toNat

variable (disk : Mem) (dma : Nat)

/-- `FAT12BUFSIZE`, `FAT16BUFSIZE` and `FAT32BUFSIZE`. -/
def Fsdata.bufsize (d : Fsdata) : Nat :=
  if d.fatsize = 32 then d.sectSize * fatbufblocks / 4
  else if d.fatsize = 16 then d.sectSize * fatbufblocks / 2
  else d.sectSize * fatbufblocks * 2 / 3

/-- Read a new block of FAT entries into the cache. -/
def Fsdata.refill (d : Fsdata) (bufnum : Nat) : Fsdata :=
  if bufnum = d.fatbufnum then
    d
  else
    let startblock := bufnum * fatbufblocks
    let getsize :=
      if d.fatlength < startblock + fatbufblocks then u32 ((d.fatlength : Int) - startblock)
      else fatbufblocks
    { d with
      fatbuf := d.fatbuf.write 0
        (disk.read ((startblock + d.fatSect) * d.sectSize) (getsize * d.sectSize))
      fatbufnum := bufnum }

/-- The 16-bit number `i` of the buffer. -/
def word (buf : Mem) (i : Nat) : Nat := buf.get16 (2 * i)

/-- Get the actual entry from the table. -/
def actualEntry (fatsize : Nat) (buf : Mem) (offset : Nat) : Nat :=
  if fatsize = 32 then
    buf.get16 (4 * offset) + 65536 * buf.get16 (4 * offset + 2)
  else if fatsize = 16 then
    word buf offset
  else
    let off16 := offset * 3 / 4
    match offset % 4 with
    | 0 => word buf off16 &&& 0xfff
    | 1 => ((word buf (off16 + 1) &&& 0x00ff) <<< 4) ||| ((word buf off16 &&& 0xf000) >>> 12)
    | 2 => ((word buf (off16 + 1) &&& 0x000f) <<< 8) ||| ((word buf off16 &&& 0xff00) >>> 8)
    | _ => (word buf off16 &&& 0xfff0) >>> 4

/-- Get the entry at index `entry` of the FAT. -/
def getFatent (d : Fsdata) (entry : Nat) : Nat × Fsdata :=
  if d.fatsize = 32 ∨ d.fatsize = 16 ∨ d.fatsize = 12 then
    let bufnum := entry / d.bufsize
    let offset := entry - bufnum * d.bufsize
    let d := d.refill disk bufnum
    (actualEntry d.fatsize d.fatbuf offset, d)
  else
    -- Unsupported FAT size
    (0, d)

/-- The first number that is no cluster. -/
def badClust (fatsize : Nat) : Nat :=
  if fatsize ≠ 32 then (if fatsize ≠ 16 then 0xff0 else 0xfff0) else 0xffffff0

/-- `CHECK_CLUST`. -/
def checkClust (x fatsize : Nat) : Bool := x ≤ 1 ∨ badClust fatsize ≤ x

/-- The first sector of a cluster. -/
def startsect (d : Fsdata) (clustnum : Nat) : Nat :=
  if 0 < clustnum then u32 (d.dataBegin + clustnum * d.clustSize) else d.rootdirSect

/-- Some sectors are copied one after the other by way of `tmpbuf`, to a misaligned address. -/
def copySectors (sectSize : Nat) : Nat → Nat → Mem → Nat → Mem
  | 0, _, m, _ => m
  | k + 1, sect, m, p =>
    copySectors sectSize k (u32 (sect + 1)) (m.write p (disk.read (sect * sectSize) sectSize))
      (p + sectSize)

/-- `size` bytes of a cluster, and of what lies behind it, are read to an address. -/
def getCluster (d : Fsdata) (clustnum : Nat) (m : Mem) (p size : Nat) : Mem :=
  let idx := size / d.sectSize
  let sect := startsect d clustnum
  let m :=
    if p % dma ≠ 0 then copySectors disk d.sectSize idx sect m p
    else m.write p (disk.read (sect * d.sectSize) (idx * d.sectSize))
  let rest := size - idx * d.sectSize
  if rest ≠ 0 then
    m.write (p + idx * d.sectSize)
      ((disk.read (u32 (sect + idx) * d.sectSize) d.sectSize).take rest)
  else
    m

/-- `START`. -/
def DirEntry.startClust (dent : DirEntry) (fatsize : Nat) : Nat :=
  dent.start + (if fatsize ≠ 32 then 0 else dent.starthi * 65536)

def Fsdata.bytesperclust (d : Fsdata) : Nat := d.clustSize * d.sectSize

/-- What `get_contents` leaves when it returns 0. -/
structure Contents where
  fs : Fsdata
  m : Mem
  gotsize : Nat

/-- How far the loop over the runs of consecutive clusters is. -/
structure Cursor where
  fs : Fsdata
  m : Mem
  curclust : Nat
  endclust : Nat
  actsize : Nat
  filesize : Nat
  buffer : Nat
  gotsize : Nat

/-- `while (actsize <= pos)`, with the cluster it comes to, or without where an entry is invalid. -/
def gotoClust : Nat → Fsdata → Nat → Nat → Nat → Option (Fsdata × Option (Nat × Nat))
  | 0, _, _, _, _ => none
  | k + 1, d, pos, curclust, actsize =>
    if actsize ≤ pos then
      let (curclust, d) := getFatent disk d curclust
      if checkClust curclust d.fatsize then
        some (d, none)
      else
        gotoClust k d pos curclust (actsize + d.bytesperclust)
    else
      some (d, some (curclust, actsize))

/-- The loop over the runs of consecutive clusters, from its `while` on. -/
def clustLoop : Nat → Cursor → Option Contents
  | 0, _ => none
  | k + 1, c =>
    if c.actsize < c.filesize then
      let (newclust, d) := getFatent disk c.fs c.endclust
      if u32 ((newclust : Int) - 1) ≠ c.endclust then
        -- getit
        let m := getCluster disk dma d c.curclust c.m c.buffer c.actsize
        let gotsize := c.gotsize + c.actsize
        let (curclust, d) := getFatent disk d c.endclust
        if checkClust curclust d.fatsize then
          some ⟨d, m, gotsize⟩
        else
          clustLoop k { c with
            fs := d
            m := m
            curclust := curclust
            endclust := curclust
            actsize := d.bytesperclust
            filesize := c.filesize - c.actsize
            buffer := c.buffer + c.actsize
            gotsize := gotsize }
      else if checkClust newclust d.fatsize then
        some ⟨d, c.m, c.gotsize⟩
      else
        clustLoop k { c with
          fs := d
          endclust := newclust
          actsize := c.actsize + d.bytesperclust }
    else
      -- get remaining bytes
      some ⟨c.fs, getCluster disk dma c.fs c.curclust c.m c.buffer c.filesize,
        c.gotsize + c.filesize⟩

/-- What follows when the cluster of `pos` is found. -/
def getRest (k : Nat) (d : Fsdata) (block m : Mem) (pos curclust filesize buffer : Nat) :
    Option Contents :=
  if pos ≠ 0 then
    -- align to beginning of next cluster if any
    let actsize := min filesize d.bytesperclust
    if maxClustsize < actsize then
      none
    else
      let block := getCluster disk dma d curclust block 0 actsize
      let filesize := filesize - actsize
      let actsize := actsize - pos
      let m := m.write buffer (block.read pos actsize)
      if filesize = 0 then
        some ⟨d, m, actsize⟩
      else
        let (curclust, d) := getFatent disk d curclust
        if checkClust curclust d.fatsize then
          some ⟨d, m, actsize⟩
        else
          clustLoop disk dma k ⟨d, m, curclust, curclust, d.bytesperclust, filesize,
            buffer + actsize, actsize⟩
  else
    clustLoop disk dma k ⟨d, m, curclust, curclust, d.bytesperclust, filesize, buffer, 0⟩

/-- `get_contents`, with a count of the turns of its loops. It is `none` where that is used up,
where `pos + maxsize` leaves the range of a `loff_t`, and where the static block is overrun. -/
def getContents (k : Nat) (d : Fsdata) (block m : Mem) (dent : DirEntry) (pos buffer : Nat)
    (maxsize : Int) : Option Contents :=
  if dent.size ≤ pos then
    some ⟨d, m, 0⟩
  else if 0 < maxsize ∧ 2 ^ 63 ≤ pos + maxsize then
    none
  else
    let filesize :=
      if 0 < maxsize ∧ pos + maxsize < dent.size then pos + maxsize.toNat else dent.size
    -- go to cluster at pos
    match gotoClust disk k d pos (dent.startClust d.fatsize) d.bytesperclust with
    | none => none
    | some (d, none) => some ⟨d, m, 0⟩
    | some (d, some (curclust, actsize)) =>
      let actsize := actsize - d.bytesperclust
      getRest disk dma k d block m (pos - actsize) curclust (filesize - actsize) buffer

end Imx.Fat
