import Imx.Ext4.Bitmap

/-!
# The block allocator

Model of `ext4fs_get_new_blk_no` of `fs/ext4/ext4_common.c`. A group is its descriptor and the
buffer of its bitmap; a `long` has 64 bits, so block numbers do not overflow. Each call is given
whether its buffers are allocated, and whether the bitmap is written to the journal.

The first call looks for a clear bit from the first group on, later ones go on from block to block.
`allocates` is what follows for a run in which each bitmap that is looked at stands for the blocks
the code takes it for: it is the one of group 0 or groups have as many blocks as a bitmap has bits,
and it is not one that has never been written, unless all blocks from there on are free.
-/

namespace Imx.Ext4.Alloc
open Imx.Ext4

/-! ## The code -/

/-- A block group. -/
structure Group where
  /-- C `free_blocks`. -/
  freeBlocks : Nat
  /-- C `EXT4_BG_BLOCK_UNINIT`, a flag of `bg_flags`. -/
  uninit : Bool
  /-- The buffer of its bitmap (`blk_bmaps`). -/
  bmap : List (BitVec 8)

/-- The state of the allocator (C `struct ext_filesystem`). -/
structure Filesystem where
  blksz : Nat
  blocksPerGroup : Nat
  groups : List Group
  currBlkno : Int
  firstPassBbmap : Nat
  /-- C `sb->free_blocks`. -/
  sbFreeBlocks : BitVec 32
  /-- The static variable of the function. -/
  prevBgBitmapIndex : Int

/-- What the environment does in a call. -/
structure Env where
  /-- The two buffers are allocated. -/
  alloc : Bool
  /-- The bitmap is read from the device and logged. -/
  backup : Bool

/-- A bitmap that has never been written is cleared. -/
def initialise (blksz : Nat) (bg : Group) : Group :=
  if bg.uninit then { bg with uninit := false, bmap := List.replicate blksz 0 } else bg

/-- A block of a group is taken. -/
def Filesystem.take (fs : Filesystem) (i : Nat) (bg : Group) : Filesystem :=
  { fs with
    groups := fs.groups.set i { bg with freeBlocks := bg.freeBlocks - 1 }
    sbFreeBlocks := fs.sbFreeBlocks - 1 }

/-- The loop of the first call over the groups, as many as are left; `i` is a `short`. -/
def firstLoop (backup : Bool) : Nat → Nat → Filesystem → Option (Int × Filesystem)
  | 0, _, fs => some (-1, fs)
  | n + 1, i, fs =>
    if i = 2 ^ 15 then some (-1, fs)
    else do
      let bg ← fs.groups[i]?
      if bg.freeBlocks = 0 then firstLoop backup n (i + 1) fs
      else do
        let bg := initialise fs.blksz bg
        let (currBlkno, bmap) ← getNewBlkNo fs.blksz bg.bmap
        let bg := { bg with bmap := bmap }
        let fs := { fs with currBlkno := currBlkno, groups := fs.groups.set i bg }
        if currBlkno = -1 then firstLoop backup n (i + 1) fs
        else
          let fs := { fs with
            currBlkno := currBlkno + (i * fs.blksz * 8 : Nat)
            firstPassBbmap := fs.firstPassBbmap + 1 }.take i bg
          if backup then some (fs.currBlkno, fs) else some (-1, fs)

/-- The block bitmap index respective to a block. -/
def Filesystem.bgIdx (fs : Filesystem) (blkno : Nat) : Nat :=
  if fs.blksz = 1024 ∧ blkno % fs.blocksPerGroup = 0 then blkno / fs.blocksPerGroup - 1
  else blkno / fs.blocksPerGroup

/-- `restart` of the later calls, from a block on, with the number of times it may come there. -/
def nextLoop (backup : Bool) : Nat → Nat → Filesystem → Option (Int × Filesystem)
  | 0, _, _ => none
  | n + 1, blkno, fs =>
    let bgIdx := fs.bgIdx blkno
    let fs := { fs with currBlkno := blkno }
    if fs.groups.length ≤ bgIdx then some (-1, fs)
    else do
      let bg ← fs.groups[bgIdx]?
      if bg.freeBlocks = 0 then nextLoop backup n (blkno + fs.blocksPerGroup) fs
      else do
        let bg := initialise fs.blksz bg
        let (status, bmap) ← ext4fsSetBlockBmap fs.blksz blkno bg.bmap bgIdx
        let bg := { bg with bmap := bmap }
        let fs := { fs with groups := fs.groups.set bgIdx bg }
        if status ≠ 0 then nextLoop backup n (blkno + 1) fs
        else if fs.prevBgBitmapIndex ≠ bgIdx ∧ backup = false then some (-1, fs)
        else some (blkno, { fs with prevBgBitmapIndex := bgIdx }.take bgIdx bg)

/-- The number of a block that is taken, or -1 (C `ext4fs_get_new_blk_no`). -/
def ext4fsGetNewBlkNo (env : Env) (fs : Filesystem) : Option (Int × Filesystem) :=
  if env.alloc = false then some (-1, fs)
  else if fs.firstPassBbmap = 0 then firstLoop env.backup fs.groups.length 0 fs
  else nextLoop env.backup (fs.groups.length * fs.blocksPerGroup + 2)
    (fs.currBlkno + 1).toNat fs

/-! ## Volumes -/

/-- A volume: the number of its blocks and those that are in use. -/
structure Volume where
  total : Nat
  inUse : Nat → Bool

/-- A block of the volume is free. -/
def Volume.free (vol : Volume) (b : Nat) : Bool := decide (b < vol.total) && !vol.inUse b

/-- The first block of a group. -/
def Filesystem.start (fs : Filesystem) (g : Nat) : Nat :=
  firstBlock fs.blksz + g * fs.blocksPerGroup

/-- The geometry of a volume. -/
structure Shape (fs : Filesystem) : Prop where
  blksz : fs.blksz = 1024 ∨ fs.blksz = 2048 ∨ fs.blksz = 4096
  pos : 0 < fs.blocksPerGroup
  inside : fs.blocksPerGroup ≤ 8 * fs.blksz
  length : ∀ bg ∈ fs.groups, bg.bmap.length = fs.blksz

/-- What `ext4fs_init` has read from a volume: the bitmaps hold the blocks in use, with the bits
that stand for no block set, and the counts are right. -/
structure Consistent (vol : Volume) (fs : Filesystem) : Prop where
  shape : Shape fs
  dvd : 8 ∣ fs.blocksPerGroup
  /-- The last group has a block, and there are no more blocks. -/
  groups : ∀ g < fs.groups.length, fs.start g < vol.total
  last : vol.total ≤ fs.start fs.groups.length
  count : ∀ g bg, fs.groups[g]? = some bg →
    bg.freeBlocks = (List.range fs.blocksPerGroup).countP fun j => vol.free (fs.start g + j)
  bits : ∀ g bg, fs.groups[g]? = some bg → bg.uninit = false → ∀ j < 8 * fs.blksz,
    used bg.bmap j = !(decide (j < fs.blocksPerGroup) && vol.free (fs.start g + j))
  fresh : fs.firstPassBbmap = 0

/-! ## Runs -/

/-- The first block that the next call looks at. -/
def position (fs : Filesystem) : Int := if fs.firstPassBbmap = 0 then 0 else fs.currBlkno + 1

/-- A call returns -1, or a free block that was not returned before; behind the last one it returns
-1. -/
def Good (vol : Volume) (fs : Filesystem) (given : List Int) (ret : Int) : Prop :=
  (ret = -1 ∨ ∃ b : Nat, ret = b ∧ firstBlock fs.blksz ≤ b ∧ vol.free b ∧ ret ∉ given) ∧
  ((∀ b : Nat, vol.free b → position fs ≤ b → (b : Int) ∈ given) → ret = -1)

/-- All calls of a run are good, and access the bitmaps only inside. -/
def Allocates (vol : Volume) : Filesystem → List Int → List Env → Prop
  | _, _, [] => True
  | fs, given, env :: envs => ∃ ret fs', ext4fsGetNewBlkNo env fs = some (ret, fs') ∧
    Good vol fs given ret ∧ Allocates vol fs' (ret :: given) envs

/-- A bitmap that is looked at from a block on stands for the blocks the code takes it for. -/
structure Looks (vol : Volume) (fs : Filesystem) (g : Nat) (bg : Group) (b : Nat) : Prop where
  whole : g ≠ 0 → fs.blocksPerGroup = 8 * fs.blksz
  empty : bg.uninit → ∀ b', b ≤ b' → b' < fs.start (g + 1) → vol.free b'

/-- From a block on the search comes to another one: a full group is skipped, and so is a block in
use. -/
inductive Comes (fs : Filesystem) : Nat → Nat → Prop
  | here (b : Nat) : Comes fs b b
  | full {b c : Nat} {bg : Group} : fs.groups[fs.bgIdx b]? = some bg → bg.freeBlocks = 0 →
      Comes fs (b + fs.blocksPerGroup) c → Comes fs b c
  | used {b c : Nat} {bg : Group} : fs.groups[fs.bgIdx b]? = some bg → bg.freeBlocks ≠ 0 →
      bg.uninit = false → used bg.bmap (b - fs.start (fs.bgIdx b)) → Comes fs (b + 1) c →
      Comes fs b c

/-- The bitmaps that a call looks at are those of the blocks: that of the first group with free
blocks, and then those the search comes to. -/
def CallMeets (vol : Volume) (fs : Filesystem) : Prop :=
  (fs.firstPassBbmap = 0 → ∀ g bg, fs.groups[g]? = some bg → bg.freeBlocks ≠ 0 → g < 2 ^ 15 →
    (∀ h < g, ∀ bg', fs.groups[h]? = some bg' → bg'.freeBlocks = 0) →
    Looks vol fs g bg (fs.start g)) ∧
  (fs.firstPassBbmap ≠ 0 → ∀ b bg, Comes fs (fs.currBlkno + 1).toNat b →
    fs.groups[fs.bgIdx b]? = some bg → bg.freeBlocks ≠ 0 → Looks vol fs (fs.bgIdx b) bg b)

/-- All calls of a run meet the condition. -/
def AllMeet (vol : Volume) : Filesystem → List Env → Prop
  | _, [] => True
  | fs, env :: envs => (env.alloc = true → CallMeets vol fs) ∧
    ∀ ret fs', ext4fsGetNewBlkNo env fs = some (ret, fs') → AllMeet vol fs' envs

end Imx.Ext4.Alloc
