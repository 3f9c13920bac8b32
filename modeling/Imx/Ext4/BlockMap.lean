import Imx.Base.Fuel
import Imx.Ext4.Dev

/-!
# The block map of an ext4 file

Model of `ext4fs_get_extent_block` and `read_allocated_block` of `fs/ext4/ext4_common.c`, on a
device whose reads succeed and with memory to be had. A `fileblock` is a number that an `int` holds.
An access that is not inside of its buffer is `none`, and so is a search that has not ended within
its count of blocks.

C → Lean naming: `ext4fs_indir1_block`, `ext4fs_indir1_size` and `ext4fs_indir1_blkno` are the
fields of `Caches.indir1`, which is `none` while the first is `NULL`.
-/

namespace Imx.Ext4
open Imx.Base

/-- A file system on its device. -/
structure Volume where
  dev : Device
  /-- `LOG2_BLOCK_SIZE`. -/
  log2 : Nat
  /-- The bits of a `long`. -/
  bits : Nat
  min : 10 ≤ log2
  max : log2 ≤ 16
  sectors : dev.log2blksz ≤ log2
  small : dev.size < 2 ^ 31
  long : 32 ≤ bits

variable (v : Volume)

/-- `EXT2_BLOCK_SIZE`. -/
def Volume.blksz : Nat := 2 ^ v.log2

/-- `log2_blksz`. -/
def Volume.log2blksz : Nat := v.log2 - v.dev.log2blksz

/-- The sector of a block, as an `lbaint_t`. -/
def Volume.sector (block : Nat) : Nat := v.dev.lba (v.dev.lba block * 2 ^ v.log2blksz)

/-- The sector of a block, as a 32-bit number. -/
def Volume.blkno (block : Nat) : Nat := block * 2 ^ v.log2blksz % 2 ^ 32

/-- The value a `long` has after a number was stored in it. -/
def Volume.toLong (x : Nat) : Int := (x : Int).bmod (2 ^ v.bits)

/-- A block is read into a buffer. -/
def Volume.readBlock (block : Nat) (buf : Mem) : Option Mem :=
  ext4fsDevread v.dev (v.sector block) 0 v.blksz buf 0

/-! ## Extents -/

/-- A node of an extent tree, which is a block or lies in the inode (`struct ext4_extent_header`,
with its entries behind it). -/
structure Node where
  mem : Mem
  room : Nat

/-- `struct ext4_extent`. -/
structure Ext4Extent where
  block : Nat
  len : Nat
  start : Nat

variable (n : Node)

def Node.magic : Nat := n.mem.get16 0

def Node.entries : Nat := n.mem.get16 2

def Node.depth : Nat := n.mem.get16 6

/-- The first block of an entry (`ei_block` or `ee_block`). -/
def Node.key (i : Nat) : Nat := n.mem.get32 (12 * i + 12)

/-- The block of an entry (`ei_leaf_hi`, `ei_leaf_lo`). -/
def Node.leaf (i : Nat) : Nat := n.mem.get16 (12 * i + 20) * 2 ^ 32 + n.mem.get32 (12 * i + 16)

def Node.extent (i : Nat) : Ext4Extent where
  block := n.key i
  len := n.mem.get16 (12 * i + 16)
  start := n.mem.get16 (12 * i + 18) * 2 ^ 32 + n.mem.get32 (12 * i + 20)

/-- The first of `k` entries from entry `i` on that begins behind a file block. -/
def Node.search (fileblock : Nat) : Nat → Nat → Option Nat
  | 0, i => some i
  | k + 1, i =>
    if n.room < 12 * i + 24 then
      none
    else if n.key i ≤ fileblock then
      Node.search fileblock k (i + 1)
    else
      some i

/-- `ext4fs_get_extent_block`, for a count of nodes. The inner `none` is `NULL`. -/
def ext4fsGetExtentBlock (fileblock : Nat) : Nat → Mem → Node → Option (Option Node)
  | 0, _, _ => none
  | k + 1, buf, n =>
    if n.magic ≠ 0xf30a then
      some none
    else if n.depth = 0 then
      some (some n)
    else
      (n.search fileblock n.entries 0).bind fun
        | 0 => some none
        | i + 1 =>
          match v.readBlock (n.leaf i) buf with
          | none => some none
          | some buf => ext4fsGetExtentBlock fileblock k buf ⟨buf, v.blksz⟩

/-- The block of a file block in a leaf. -/
def extentBlock (fileblock : Nat) : Option Node → Option Int
  | none => some (-22)
  | some n =>
    (n.search fileblock n.entries 0).map fun
      -- Extent Error
      | 0 => -1
      | i + 1 =>
        let extent := n.extent i
        let fileblock := fileblock - extent.block
        if extent.len ≤ fileblock then 0 else v.toLong (fileblock + extent.start)

/-! ## Indirect blocks -/

/-- An indirect block that is kept. -/
structure Cached where
  block : Mem
  size : Nat
  blkno : Nat

structure Caches where
  indir1 : Option Cached
  indir2 : Option Cached
  indir3 : Option Cached

/-- A buffer with no block in it. -/
def Cached.fresh : Cached where
  block := Mem.zero
  size := v.blksz
  blkno := 2 ^ 32 - 1

/-- The buffer, which is made where there is none of the size. -/
def Cached.prepare : Option Cached → Cached
  | none => Cached.fresh v
  | some c => if v.blksz ≠ c.size then Cached.fresh v else c

/-- A block is read if it is not the one that is kept; `kept` is the block that is looked for. -/
def Cached.fetch (c : Cached) (kept block : Nat) : Option Cached :=
  if v.blkno kept ≠ c.blkno then
    (v.readBlock block c.block).map fun buf => ⟨buf, c.size, v.blkno block⟩
  else
    some c

/-- An entry of the block. -/
def Cached.entry (c : Cached) (i : Nat) : Option Nat :=
  if c.size < 4 * i + 4 then none else some (c.block.get32 (4 * i))

structure Inode where
  flags : Nat
  /-- The union `b`, of 60 bytes. -/
  b : Mem

variable (inode : Inode)

/-- `dir_blocks`, with `indir_block`, `double_indir_block` and `triple_indir_block` behind them. -/
def Inode.blocks (i : Nat) : Nat := inode.b.get32 (4 * i)

/-- The entries of an indirect block. -/
def Volume.perblock : Nat := v.blksz / 4

def readIndirect (i : Nat) (cs : Caches) : Option (Int × Caches) :=
  let one := Cached.prepare v cs.indir1
  match one.fetch v (inode.blocks 12) (inode.blocks 12) with
  | none => some (0, { cs with indir1 := some one })
  | some one => (one.entry i).map fun blknr => (v.toLong blknr, { cs with indir1 := some one })

def readDouble (rblock : Nat) (cs : Caches) : Option (Int × Caches) :=
  let one := Cached.prepare v cs.indir1
  match one.fetch v (inode.blocks 13) (inode.blocks 13) with
  | none => some (-1, { cs with indir1 := some one })
  | some one =>
    let two := Cached.prepare v cs.indir2
    (one.entry (rblock / v.perblock)).bind fun b =>
      match two.fetch v b b with
      | none => some (-1, { cs with indir1 := some one, indir2 := some two })
      | some two =>
        (two.entry (rblock % v.perblock)).map fun blknr =>
          (v.toLong blknr, { cs with indir1 := some one, indir2 := some two })

def readTriple (rblock : Nat) (cs : Caches) : Option (Int × Caches) :=
  let perblockChild := v.blksz / 4
  let perblockParent := v.blksz / 4 * (v.blksz / 4)
  let one := Cached.prepare v cs.indir1
  match one.fetch v (inode.blocks 14) (inode.blocks 14) with
  | none => some (-1, { cs with indir1 := some one })
  | some one =>
    let two := Cached.prepare v cs.indir2
    (one.entry (rblock / perblockParent)).bind fun b =>
      match two.fetch v b b with
      | none => some (-1, { cs with indir1 := some one, indir2 := some two })
      | some two =>
        let three := Cached.prepare v cs.indir3
        -- The block that is looked for has an index without a remainder.
        (two.entry (rblock / perblockChild)).bind fun kept =>
          (two.entry (rblock / perblockChild % (v.blksz / 4))).bind fun b =>
            match three.fetch v kept b with
            | none => some (-1, ⟨some one, some two, some three⟩)
            | some three =>
              (three.entry (rblock % perblockChild)).map fun blknr =>
                (v.toLong blknr, ⟨some one, some two, some three⟩)

/-- `read_allocated_block`, for a count of nodes of an extent tree. -/
def readAllocatedBlock (fileblock : Nat) (cs : Caches) (k : Nat) : Option (Int × Caches) :=
  if inode.flags &&& 0x80000 ≠ 0 then
    ((ext4fsGetExtentBlock v fileblock k Mem.zero ⟨inode.b, 60⟩).bind
      (extentBlock v fileblock)).map fun blknr => (blknr, cs)
  else if fileblock < 12 then
    some (v.toLong (inode.blocks fileblock), cs)
  else if fileblock < 12 + v.blksz / 4 then
    readIndirect v inode (fileblock - 12) cs
  else if fileblock < 12 + v.blksz / 4 * (v.blksz / 4 + 1) then
    readDouble v inode (fileblock - (12 + v.blksz / 4)) cs
  else
    readTriple v inode
      (fileblock - (12 + v.blksz / 4 + v.blksz / 4 * v.blksz / 4)) cs

end Imx.Ext4
