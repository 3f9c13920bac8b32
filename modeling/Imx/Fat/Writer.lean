import Imx.Fat.Slots

/-!
# Writing a directory

Model of `fill_dir_slot` of `fs/fat/fat_write.c` and of what it calls, on a device that reads and
writes what it is asked to. The entries of a block are counted from its start.

What is left out: the messages, the clusters of the file itself with their entries in the FAT, and
the parts of `set_cluster` for a misaligned buffer and for a part of a sector, since directories are
written from `get_dentfromdir_block` a cluster at a time.
-/

namespace Imx.Fat
open Imx.Base

/-- What `do_fat_write` works on. -/
structure Writer where
  disk : Mem
  fs : Fsdata
  numOfFats : Nat
  totalSector : Nat
  dirCurclust : Nat
  /-- `get_dentfromdir_block`. -/
  block : Mem
  /-- The entry of the block that is written next. -/
  dentptr : Nat

namespace Writer

/-- `disk_write`. It is `none` where -1 is returned. -/
def diskWrite (w : Writer) (start nrBlocks : Nat) (buf : Mem) : Option Mem :=
  if w.totalSector < start + nrBlocks then
    none
  else
    some (w.disk.write (start * w.fs.sectSize) (buf.read 0 (nrBlocks * w.fs.sectSize)))

/-! ## The FAT -/

/-- Write fat buffer into block device. The first part is `false` where -1 is returned. -/
def flushFatBuffer (w : Writer) : Bool × Writer :=
  let getsize := min fatbufblocks w.fs.fatlength
  let startblock := u32 (w.fs.fatbufnum * fatbufblocks + w.fs.fatSect : Nat)
  match w.diskWrite startblock getsize w.fs.fatbuf with
  | none => (false, w)
  | some disk =>
    let w := { w with disk := disk }
    if w.numOfFats = 2 then
      -- Update corresponding second FAT blocks
      match w.diskWrite (u32 (startblock + w.fs.fatlength : Nat)) getsize w.fs.fatbuf with
      | none => (false, w)
      | some disk => (true, { w with disk := disk })
    else
      (true, w)

/-- Read a new block of FAT entries into the cache, when the old one is written back. The sectors
are at most `limit`. -/
def refill (w : Writer) (bufnum limit : Nat) : Bool × Writer :=
  if bufnum = w.fs.fatbufnum then
    (true, w)
  else
    let getsize := min fatbufblocks limit
    let startblock := u32 (bufnum * fatbufblocks + w.fs.fatSect : Nat)
    match (if w.fs.fatbufnum = 2 ^ 32 - 1 then (true, w) else w.flushFatBuffer) with
    | (false, w) => (false, w)
    | (true, w) =>
      (true, { w with fs := { w.fs with
        fatbuf := w.fs.fatbuf.write 0
          (w.disk.read (startblock * w.fs.sectSize) (getsize * w.fs.sectSize))
        fatbufnum := bufnum } })

/-- Get the entry at index `entry` of the FAT. On failure 0 is returned. -/
def getFatentValue (w : Writer) (entry : Nat) : Nat × Writer :=
  if checkClust entry w.fs.fatsize then
    (0, w)
  else if w.fs.fatsize = 32 ∨ w.fs.fatsize = 16 ∨ w.fs.fatsize = 12 then
    let bufnum := entry / w.fs.bufsize
    let offset := entry - bufnum * w.fs.bufsize
    match w.refill bufnum w.fs.fatlength with
    | (false, w) => (2 ^ 32 - 1, w)
    | (true, w) => (actualEntry w.fs.fatsize w.fs.fatbuf offset, w)
  else
    -- Unsupported FAT size
    (0, w)

/-- Set the actual entry. -/
def setEntry (fatsize : Nat) (buf : Mem) (offset value : Nat) : Mem :=
  if fatsize = 32 then (buf.set16 (4 * offset) value).set16 (4 * offset + 2) (value / 65536)
  else buf.set16 (2 * offset) value

/-- Set the entry at index `entry` of a FAT16 or FAT32. -/
def setFatentValue (w : Writer) (entry value : Nat) : Writer :=
  if w.fs.fatsize = 32 ∨ w.fs.fatsize = 16 then
    let bufnum := entry / w.fs.bufsize
    let offset := entry - bufnum * w.fs.bufsize
    match w.refill bufnum (u32 (w.fs.fatlength * w.fs.sectSize : Nat)) with
    | (false, w) => w
    | (true, w) =>
      { w with fs := { w.fs with fatbuf := setEntry w.fs.fatsize w.fs.fatbuf offset value } }
  else
    -- Unsupported FAT size
    w

/-! ## Free clusters -/

lemma flushFatBuffer_fs (w : Writer) : w.flushFatBuffer.2.fs = w.fs := by
  unfold flushFatBuffer
  dsimp only
  split
  case h_1 => rfl
  case h_2 =>
    split
    case isTrue => split <;> rfl
    case isFalse => rfl

lemma refill_fatsize (w : Writer) (bufnum limit : Nat) :
    (w.refill bufnum limit).2.fs.fatsize = w.fs.fatsize := by
  unfold refill
  split
  case isTrue => rfl
  case isFalse =>
    dsimp only
    have keep : (if w.fs.fatbufnum = 2 ^ 32 - 1 then (true, w) else w.flushFatBuffer).2.fs.fatsize =
        w.fs.fatsize := by
      split
      case isTrue => rfl
      case isFalse => rw [w.flushFatBuffer_fs]
    split
    case h_1 eq =>
      rw [eq] at keep
      exact keep
    case h_2 eq =>
      rw [eq] at keep
      exact keep

lemma getFatentValue_fatsize (w : Writer) (entry : Nat) :
    (w.getFatentValue entry).2.fs.fatsize = w.fs.fatsize := by
  unfold getFatentValue
  split_ifs
  · rfl
  · have keep := w.refill_fatsize (entry / w.fs.bufsize) w.fs.fatlength
    dsimp only
    split
    case h_1 eq =>
      rw [eq] at keep
      exact keep
    case h_2 eq =>
      rw [eq] at keep
      exact keep
  · rfl

/-- Find the first empty cluster from `entry` on. -/
def findFrom (w : Writer) (entry : Nat) : Nat × Writer :=
  if (w.getFatentValue entry).1 = 0 then
    (entry, (w.getFatentValue entry).2)
  else
    (w.getFatentValue entry).2.findFrom (entry + 1)
termination_by badClust w.fs.fatsize - entry
decreasing_by
  rename_i some
  rw [getFatentValue_fatsize]
  have valid : ¬ checkClust entry w.fs.fatsize := fun bad => some (by rw [getFatentValue, if_pos bad])
  rw [checkClust, decide_eq_true_eq] at valid
  omega

def findEmptyCluster (w : Writer) : Nat × Writer := w.findFrom 3

/-! ## The directory -/

/-- Write `size` bytes of `get_dentfromdir_block` into the specified cluster. -/
def setCluster (w : Writer) (clustnum size : Nat) : Bool × Writer :=
  if w.fs.sectSize ≤ size then
    match w.diskWrite (startsect w.fs clustnum) (size / w.fs.sectSize) w.block with
    | none => (false, w)
    | some disk => (true, { w with disk := disk })
  else
    (true, w)

/-- The entry of the new cluster. -/
def endOfChain (w : Writer) (clust : Nat) : Writer :=
  if w.fs.fatsize = 32 then w.setFatentValue clust 0xffffff8
  else if w.fs.fatsize = 16 then w.setFatentValue clust 0xfff8
  else w

/-- Write directory entries in `get_dentfromdir_block` to block device. -/
def flushDirTable (w : Writer) : Writer :=
  match w.setCluster w.dirCurclust w.fs.bytesperclust with
  | (false, w) => w
  | (true, w) =>
    let (dirNewclust, w) := w.findEmptyCluster
    let w := (w.setFatentValue w.dirCurclust dirNewclust).endOfChain dirNewclust
    let w := { w with dirCurclust := dirNewclust }
    match w.flushFatBuffer with
    | (false, w) => w
    | (true, w) =>
      { w with
        block := w.block.write 0 (List.replicate w.fs.bytesperclust 0)
        dentptr := 0 }

/-- A new cluster is allocated for the directory table when `is_next_clust`. -/
def nextClust (w : Writer) : Writer :=
  if w.fs.bytesperclust ≤ 32 * w.dentptr then w.flushDirTable else w

/-- A slot or an entry is stored. -/
def put (w : Writer) (bytes : List UInt8) : Writer :=
  { w with block := w.block.write (32 * w.dentptr) bytes, dentptr := w.dentptr + 1 }

/-- Calculate short name checksum. -/
def mkcksum (name ext : List UInt8) : UInt8 :=
  (name ++ ext).foldl (fun ret c => (((ret &&& 1) <<< 7) ||| ((ret &&& 0xfe) >>> 1)) + c) 0

/-- Fill slots with appropriate name, id, and attr. -/
def fillDirSlot (w : Writer) (name : List UInt8) : Writer :=
  let dent := 32 * w.dentptr
  let checksum := mkcksum (w.block.read dent 8) (w.block.read (dent + 8) 3)
  let slots := slotsFrom checksum 0 name
  (slots.reverse.foldl (fun w s => w.nextClust.put s.bytes) w).nextClust

/-- What `do_fat_write` does with the directory for a new name: the slots, the entry behind them, and
the directory table that is written to the device. -/
def addEntry (w : Writer) (name entry : List UInt8) : Writer :=
  let w := (w.fillDirSlot name).put entry
  (w.setCluster w.dirCurclust w.fs.bytesperclust).2

end Writer

end Imx.Fat
