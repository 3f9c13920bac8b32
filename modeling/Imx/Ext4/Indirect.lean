import Imx.Ext4.ExtentTree

/-!
# Indirect blocks

`Cached.Holds` is what is true of every kept block, whatever was read before: it is one of the
volume, or was never read. A way through indirect blocks (`Volume.path`) is then followed by
`read_allocated_block`, and so is one through an extent tree.
-/

namespace Imx.Ext4
open Imx.Base

variable {v : Volume} {inode : Inode} {cs cs' : Caches} {c c' : Cached} {b i : Nat} {m m' : Mem}

/-! ## Kept blocks -/

/-- The buffer of a kept block has the size of one, and the block is that of its number if it was
read. -/
structure Cached.Holds (v : Volume) (c : Cached) : Prop where
  size : c.size = v.blksz
  buffer : v.Buffer c.block
  kept : c.blkno = 2 ^ 32 - 1 ∨ c.blkno + 2 ^ v.log2blksz ≤ v.dev.size ∧ c.block = v.at c.blkno

structure Caches.Hold (v : Volume) (cs : Caches) : Prop where
  indir1 : ∀ c ∈ cs.indir1, c.Holds v
  indir2 : ∀ c ∈ cs.indir2, c.Holds v
  indir3 : ∀ c ∈ cs.indir3, c.Holds v

lemma Cached.Holds.keep (holds : c.Holds v) : ∀ c' ∈ some c, c'.Holds v := by
  rintro c' ⟨⟩
  exact holds

lemma Cached.Holds.fresh : (Cached.fresh v).Holds v where
  size := rfl
  buffer := Volume.Buffer.zero
  kept := .inl rfl

lemma Cached.Holds.prepare {kept : Option Cached} (hold : ∀ c ∈ kept, c.Holds v) :
    (Cached.prepare v kept).Holds v := by
  cases kept with
  | none => exact .fresh
  | some c =>
    have holds := hold c rfl
    rw [Cached.prepare, if_neg (not_not_intro holds.size.symm)]
    exact holds

/-- The sector that is read is the one that is kept as the number of the block. -/
lemma readBlock_some (buffer : v.Buffer m) (read : v.readBlock b m = some m') :
    v.blkno b + 2 ^ v.log2blksz ≤ v.dev.size ∧ m' = v.at (v.blkno b) := by
  have pos := Nat.two_pow_pos v.log2blksz
  have narrow : 2 ^ v.log2blksz ∣ 2 ^ v.dev.w := by
    refine Nat.pow_dvd_pow 2 (Nat.le_trans (Nat.sub_le _ _) (Nat.le_trans v.max ?_))
    exact Nat.le_trans (by decide) v.dev.wide
  -- a sector of a block is a multiple of their number, so that its last one has a number, too
  have whole : 2 ^ v.log2blksz ∣ v.sector b := by
    rw [Volume.sector, Device.lba, Device.lba, Nat.dvd_mod_iff narrow]
    exact Nat.dvd_mul_left _ _
  have room : v.sector b + 2 ^ v.log2blksz ≤ 2 ^ v.dev.w := by
    obtain ⟨x, eq⟩ := whole
    obtain ⟨y, top⟩ := narrow
    have lt : v.sector b < 2 ^ v.dev.w := Nat.mod_lt _ (Nat.two_pow_pos _)
    rw [eq, top] at lt ⊢
    have less : x < y := Nat.lt_of_mul_lt_mul_left lt
    rw [← Nat.mul_succ]
    exact Nat.mul_le_mul_left _ less
  have inside : v.sector b + 2 ^ v.log2blksz ≤ v.dev.size := by
    by_contra outside
    have le := Volume.le_blksz (v := v)
    have max := Volume.blksz_le (v := v)
    have check : int (((0 : Nat) : Int) + v.blksz - 1) = (v.blksz - 1 : Nat) := by
      rw [show ((0 : Nat) : Int) + v.blksz - 1 = (v.blksz - 1 : Nat) by omega]
      exact int_eq (by omega)
    have last : (v.blksz - 1) / v.dev.blksz = 2 ^ v.log2blksz - 1 := by
      have unit := Device.blksz_pos (d := v.dev)
      obtain ⟨k, eq⟩ := Nat.exists_eq_add_of_le' pos
      rw [Volume.blksz_eq, eq, Nat.succ_mul, Nat.add_sub_assoc unit, Nat.mul_comm,
        Nat.mul_add_div unit, Nat.div_eq_of_lt (Nat.sub_lt unit Nat.one_pos)]
      rfl
    have number : ((v.sector b + ((v.blksz - 1 : Nat) : Int) / v.dev.blksz) % 2 ^ v.dev.w
        : Int).toNat = v.sector b + (2 ^ v.log2blksz - 1) := by
      have cast : (v.sector b + ((v.blksz - 1 : Nat) : Int) / v.dev.blksz : Int) =
          (v.sector b + (2 ^ v.log2blksz - 1) : Nat) := by
        rw [← last]
        push_cast
        rfl
      have pow : (2 ^ v.dev.w : Int) = (2 ^ v.dev.w : Nat) := by push_cast; rfl
      rw [cast, pow, ← Int.natCast_mod, Int.toNat_natCast, Nat.mod_eq_of_lt (by omega)]
    rw [Volume.readBlock, ext4fsDevread, check, number, if_pos (by omega)] at read
    cases read
  have same : v.blkno b = v.sector b := by
    have dvd : 2 ^ 32 ∣ 2 ^ v.dev.w := Nat.pow_dvd_pow 2 v.dev.wide
    have small := v.small
    have cut : v.sector b % 2 ^ 32 = v.blkno b := by
      rw [Volume.sector, Device.lba, Device.lba, Nat.mod_mod_of_dvd _ dvd, Nat.mul_mod,
        Nat.mod_mod_of_dvd _ dvd, ← Nat.mul_mod, Volume.blkno]
    rw [← cut]
    exact Nat.mod_eq_of_lt (by omega)
  rw [same]
  refine ⟨inside, ?_⟩
  rw [Volume.readBlock, Volume.devread_at inside buffer] at read
  exact (Option.some.inj read).symm

lemma Cached.Holds.fetch (holds : c.Holds v) (fetch : c.fetch v b b = some c') : c'.Holds v := by
  rw [Cached.fetch] at fetch
  by_cases same : v.blkno b ≠ c.blkno
  case neg =>
    rw [if_neg same] at fetch
    cases fetch
    exact holds
  rw [if_pos same, Option.map_eq_some_iff] at fetch
  obtain ⟨m, read, rfl⟩ := fetch
  obtain ⟨inside, eq⟩ := readBlock_some holds.buffer read
  exact ⟨holds.size, eq ▸ Volume.Buffer.at, .inr ⟨inside, eq⟩⟩

/-- A block of the volume is there after it was asked for, read or kept. -/
lemma Cached.Holds.fetch_eq (holds : c.Holds v) (inside : v.Inside b) :
    ∃ c', c.fetch v b b = some c' ∧ c'.size = v.blksz ∧ c'.block = v.content b := by
  rw [Cached.fetch]
  by_cases same : v.blkno b ≠ c.blkno
  case pos =>
    rw [if_pos same, Volume.readBlock_eq inside holds.buffer]
    exact ⟨_, rfl, holds.size, rfl⟩
  rw [if_neg same]
  have number : v.blkno b = b * 2 ^ v.log2blksz := by
    have lt := inside.lt
    have small := v.small
    exact Nat.mod_eq_of_lt (by omega)
  rw [not_not, number] at same
  refine ⟨c, rfl, holds.size, ?_⟩
  obtain never | ⟨-, eq⟩ := holds.kept
  · have lt := inside.lt
    have small := v.small
    omega
  · rw [eq, ← same, Volume.content]

lemma Volume.blksz_perblock : v.blksz = 4 * v.perblock := by
  have two : v.blksz = 4 * 2 ^ (v.log2 - 2) := by
    rw [Volume.blksz, show (4 : Nat) = 2 ^ 2 by rfl, ← Nat.pow_add]
    congr 1
    have min := v.min
    omega
  rw [Volume.perblock, two, Nat.mul_div_cancel_left _ (by decide)]

lemma Volume.perblock_pos : 0 < v.perblock := by
  have le := Volume.le_blksz (v := v)
  rw [Volume.blksz_perblock] at le
  omega

lemma Cached.entry_eq (size : c.size = v.blksz) (lt : i < v.perblock) :
    c.entry i = some (c.block.get32 (4 * i)) := by
  rw [Cached.entry, if_neg]
  rw [size, Volume.blksz_perblock]
  omega

lemma Cached.entry_lt {x : Nat} (size : c.size = v.blksz) (entry : c.entry i = some x) :
    i < v.perblock := by
  by_contra ge
  rw [Cached.entry, if_pos] at entry
  · cases entry
  · rw [size, Volume.blksz_perblock]
    omega

/-! ## Calls -/

variable {r : Int} {fileblock rblock k : Nat}

lemma readIndirect_hold (hold : cs.Hold v) (eq : readIndirect v inode i cs = some (r, cs')) :
    cs'.Hold v := by
  have one := Cached.Holds.prepare hold.indir1
  unfold readIndirect at eq
  cases read : (Cached.prepare v cs.indir1).fetch v (inode.blocks 12) (inode.blocks 12) with
  | none =>
    simp only [read] at eq
    cases eq
    exact ⟨one.keep, hold.indir2, hold.indir3⟩
  | some c =>
    simp only [read, Option.map_eq_some_iff] at eq
    obtain ⟨_, -, ⟨⟩⟩ := eq
    exact ⟨(one.fetch read).keep, hold.indir2, hold.indir3⟩

lemma readDouble_hold (hold : cs.Hold v) (eq : readDouble v inode rblock cs = some (r, cs')) :
    cs'.Hold v := by
  have one := Cached.Holds.prepare hold.indir1
  have two := Cached.Holds.prepare hold.indir2
  unfold readDouble at eq
  cases read : (Cached.prepare v cs.indir1).fetch v (inode.blocks 13) (inode.blocks 13) with
  | none =>
    simp only [read] at eq
    cases eq
    exact ⟨one.keep, hold.indir2, hold.indir3⟩
  | some c =>
    simp only [read, Option.bind_eq_some_iff] at eq
    obtain ⟨b, -, eq⟩ := eq
    cases next : (Cached.prepare v cs.indir2).fetch v b b with
    | none =>
      simp only [next] at eq
      cases eq
      exact ⟨(one.fetch read).keep, two.keep, hold.indir3⟩
    | some d =>
      simp only [next, Option.map_eq_some_iff] at eq
      obtain ⟨_, -, ⟨⟩⟩ := eq
      exact ⟨(one.fetch read).keep, (two.fetch next).keep, hold.indir3⟩

lemma readTriple_hold (hold : cs.Hold v) (eq : readTriple v inode rblock cs = some (r, cs')) :
    cs'.Hold v := by
  have one := Cached.Holds.prepare hold.indir1
  have two := Cached.Holds.prepare hold.indir2
  have three := Cached.Holds.prepare hold.indir3
  unfold readTriple at eq
  cases read : (Cached.prepare v cs.indir1).fetch v (inode.blocks 14) (inode.blocks 14) with
  | none =>
    simp only [read] at eq
    cases eq
    exact ⟨one.keep, hold.indir2, hold.indir3⟩
  | some c =>
    simp only [read, Option.bind_eq_some_iff] at eq
    obtain ⟨b, -, eq⟩ := eq
    cases next : (Cached.prepare v cs.indir2).fetch v b b with
    | none =>
      simp only [next] at eq
      cases eq
      exact ⟨(one.fetch read).keep, two.keep, hold.indir3⟩
    | some d =>
      simp only [next, Option.bind_eq_some_iff] at eq
      obtain ⟨x, kept, y, block, eq⟩ := eq
      -- an index that is inside of the block is its own remainder
      have lt := Cached.entry_lt (two.fetch next).size kept
      have same : x = y := by
        rw [Volume.perblock] at lt
        rw [Nat.mod_eq_of_lt lt, kept] at block
        exact Option.some.inj block
      subst same
      cases last : (Cached.prepare v cs.indir3).fetch v x x with
      | none =>
        simp only [last] at eq
        cases eq
        exact ⟨(one.fetch read).keep, (two.fetch next).keep, three.keep⟩
      | some e =>
        simp only [last, Option.map_eq_some_iff] at eq
        obtain ⟨_, -, ⟨⟩⟩ := eq
        exact ⟨(one.fetch read).keep, (two.fetch next).keep, (three.fetch last).keep⟩

lemma readAllocatedBlock_hold (hold : cs.Hold v)
    (eq : readAllocatedBlock v inode fileblock cs k = some (r, cs')) : cs'.Hold v := by
  unfold readAllocatedBlock at eq
  split_ifs at eq
  · rw [Option.map_eq_some_iff] at eq
    obtain ⟨_, -, ⟨⟩⟩ := eq
    exact hold
  · cases eq
    exact hold
  · exact readIndirect_hold hold eq
  · exact readDouble_hold hold eq
  · exact readTriple_hold hold eq

/-- What calls on inodes of the volume leave behind. -/
inductive Caches.Left (v : Volume) : Caches → Prop
  | start : Left v ⟨none, none, none⟩
  | call {cs cs' : Caches} {inode : Inode} {fileblock k : Nat} {r : Int} :
    Left v cs →
    readAllocatedBlock v inode fileblock cs k = some (r, cs') →
    Left v cs'

lemma Caches.Left.hold (left : cs.Left v) : cs.Hold v := by
  induction left with
  | start => exact ⟨fun _ => nofun, fun _ => nofun, fun _ => nofun⟩
  | call _ eq hold => exact readAllocatedBlock_hold hold eq

/-! ## The map -/

/-- The way to a file block: where it starts in the inode, and the index in each indirect block. -/
def Volume.path (v : Volume) (fileblock : Nat) : Nat × List Nat :=
  let p := v.perblock
  if fileblock < 12 then
    (fileblock, [])
  else if fileblock < 12 + p then
    (12, [fileblock - 12])
  else if fileblock < 12 + p + p * p then
    let r := fileblock - (12 + p)
    (13, [r / p, r % p])
  else
    let r := fileblock - (12 + p + p * p)
    (14, [r / (p * p), r / p % p, r % p])

/-- The block at the end of a way. A block 0 is a hole. -/
def Volume.follow (v : Volume) : Nat → List Nat → Nat
  | b, [] => b
  | b, i :: is => if b = 0 then 0 else v.follow ((v.content b).get32 (4 * i)) is

/-- No indirect block of a way is left out, and all are in the file system. -/
def Volume.Known (v : Volume) : Nat → List Nat → Prop
  | _, [] => True
  | b, i :: is => b ≠ 0 ∧ v.Inside b ∧ v.Known ((v.content b).get32 (4 * i)) is

lemma readIndirect_eq (hold : cs.Hold v) (lt : i < v.perblock)
    (known : v.Known (inode.blocks 12) [i]) :
    ∃ cs', readIndirect v inode i cs =
      some (v.toLong (v.follow (inode.blocks 12) [i]), cs') := by
  obtain ⟨pos, inside, -⟩ := known
  obtain ⟨c, read, size, block⟩ := (Cached.Holds.prepare hold.indir1).fetch_eq inside
  refine ⟨{ cs with indir1 := some c }, ?_⟩
  simp only [readIndirect, read, Cached.entry_eq size lt, Option.map_some, block, Volume.follow,
    if_neg pos]

lemma readDouble_eq (hold : cs.Hold v) (lt : rblock < v.perblock * v.perblock)
    (known : v.Known (inode.blocks 13) [rblock / v.perblock, rblock % v.perblock]) :
    ∃ cs', readDouble v inode rblock cs = some (v.toLong
      (v.follow (inode.blocks 13) [rblock / v.perblock, rblock % v.perblock]), cs') := by
  obtain ⟨pos, inside, pos', inside', -⟩ := known
  have first : rblock / v.perblock < v.perblock := Nat.div_lt_of_lt_mul lt
  have second : rblock % v.perblock < v.perblock := Nat.mod_lt _ Volume.perblock_pos
  obtain ⟨c, read, size, block⟩ := (Cached.Holds.prepare hold.indir1).fetch_eq inside
  obtain ⟨d, read', size', block'⟩ := (Cached.Holds.prepare hold.indir2).fetch_eq inside'
  refine ⟨{ cs with indir1 := some c, indir2 := some d }, ?_⟩
  simp only [readDouble, read, Cached.entry_eq size first, Option.bind_some, block, read',
    Cached.entry_eq size' second, Option.map_some, block', Volume.follow, if_neg pos, if_neg pos']

lemma readTriple_eq (hold : cs.Hold v) (lt : rblock < v.perblock * v.perblock)
    (known : v.Known (inode.blocks 14)
      [rblock / (v.perblock * v.perblock), rblock / v.perblock % v.perblock, rblock % v.perblock]) :
    ∃ cs', readTriple v inode rblock cs = some (v.toLong (v.follow (inode.blocks 14)
      [rblock / (v.perblock * v.perblock), rblock / v.perblock % v.perblock,
        rblock % v.perblock]), cs') := by
  have first : rblock / (v.perblock * v.perblock) < v.perblock := by
    rw [Nat.div_eq_of_lt lt]
    exact Volume.perblock_pos
  have second : rblock / v.perblock < v.perblock := Nat.div_lt_of_lt_mul lt
  have third : rblock % v.perblock < v.perblock := Nat.mod_lt _ Volume.perblock_pos
  rw [Nat.mod_eq_of_lt second] at known ⊢
  obtain ⟨pos, inside, pos', inside', pos'', inside'', -⟩ := known
  obtain ⟨c, read, size, block⟩ := (Cached.Holds.prepare hold.indir1).fetch_eq inside
  obtain ⟨d, read', size', block'⟩ := (Cached.Holds.prepare hold.indir2).fetch_eq inside'
  obtain ⟨e, read'', size'', block''⟩ := (Cached.Holds.prepare hold.indir3).fetch_eq inside''
  refine ⟨⟨some c, some d, some e⟩, ?_⟩
  have per : v.blksz / 4 = v.perblock := rfl
  simp only [readTriple, per, Nat.mod_eq_of_lt second, read, Cached.entry_eq size first,
    Option.bind_some, block, read', Cached.entry_eq size' second, block', read'',
    Cached.entry_eq size'' third, Option.map_some, block'', Volume.follow, if_neg pos, if_neg pos',
    if_neg pos'']

/-- A way through indirect blocks is followed. -/
lemma readAllocatedBlock_block (hold : cs.Hold v) (flags : inode.flags &&& 0x80000 = 0)
    (lt : fileblock < 12 + v.perblock + 2 * (v.perblock * v.perblock))
    (known : v.Known (inode.blocks (v.path fileblock).1) (v.path fileblock).2) :
    ∃ cs', ∀ k, readAllocatedBlock v inode fileblock cs k = some (v.toLong
      (v.follow (inode.blocks (v.path fileblock).1) (v.path fileblock).2), cs') := by
  have per : v.blksz / 4 = v.perblock := rfl
  have square : v.perblock * v.blksz / 4 = v.perblock * v.perblock := by
    rw [Volume.blksz_perblock, Nat.mul_left_comm, Nat.mul_div_cancel_left _ (by decide)]
  have body k : readAllocatedBlock v inode fileblock cs k =
      if fileblock < 12 then
        some (v.toLong (inode.blocks fileblock), cs)
      else if fileblock < 12 + v.perblock then
        readIndirect v inode (fileblock - 12) cs
      else if fileblock < 12 + (v.perblock * v.perblock + v.perblock) then
        readDouble v inode (fileblock - (12 + v.perblock)) cs
      else
        readTriple v inode (fileblock - (12 + v.perblock + v.perblock * v.perblock)) cs := by
    rw [readAllocatedBlock, if_neg (not_not_intro flags), per, square, Nat.mul_add, Nat.mul_one]
  by_cases direct : fileblock < 12
  case pos =>
    have way : v.path fileblock = (fileblock, []) := if_pos direct
    rw [way]
    exact ⟨cs, fun k => by rw [body, if_pos direct]; rfl⟩
  by_cases single : fileblock < 12 + v.perblock
  case pos =>
    have way : v.path fileblock = (12, [fileblock - 12]) := by
      simp only [Volume.path, if_neg direct, if_pos single]
    rw [way] at known ⊢
    obtain ⟨cs', eq⟩ := readIndirect_eq hold (by omega) known
    exact ⟨cs', fun k => by rw [body, if_neg direct, if_pos single, eq]⟩
  by_cases double : fileblock < 12 + v.perblock + v.perblock * v.perblock
  case pos =>
    have way : v.path fileblock = (13, [(fileblock - (12 + v.perblock)) / v.perblock,
        (fileblock - (12 + v.perblock)) % v.perblock]) := by
      simp only [Volume.path, if_neg direct, if_neg single, if_pos double]
    rw [way] at known ⊢
    obtain ⟨cs', eq⟩ := readDouble_eq hold (by omega) known
    exact ⟨cs', fun k => by rw [body, if_neg direct, if_neg single, if_pos (by omega), eq]⟩
  have way : v.path fileblock = (14,
      [(fileblock - (12 + v.perblock + v.perblock * v.perblock)) / (v.perblock * v.perblock),
        (fileblock - (12 + v.perblock + v.perblock * v.perblock)) / v.perblock % v.perblock,
        (fileblock - (12 + v.perblock + v.perblock * v.perblock)) % v.perblock]) := by
    simp only [Volume.path, if_neg direct, if_neg single, if_neg double]
  rw [way] at known ⊢
  obtain ⟨cs', eq⟩ := readTriple_eq hold (by omega) known
  exact ⟨cs', fun k => by rw [body, if_neg direct, if_neg single, if_neg (by omega), eq]⟩

/-- A block of an extent is found whatever was read before, and one of an unwritten extent like one
of any other; behind an extent there is a hole, and in front of the first entry of a node there is
an error. A way through indirect blocks is followed where none of them is left out, and below the
first square of `perblock` blocks of those that are three times indirect. -/
theorem readAllocatedBlock_maps (left : cs.Left v) :
    (∀ t : Tree, inode.flags &&& 0x80000 ≠ 0 → t.Stored v ⟨inode.b, 60⟩ → t.Sorted →
      ∃ r, Gives (readAllocatedBlock v inode fileblock cs) (r, cs) ∧
        (t.Front fileblock → r < 0) ∧
        (¬ t.Front fileblock → ∃ e, t.Last fileblock e ∧
          (e.map fileblock < 2 ^ 31 → r = e.map fileblock)) ∧
        ∀ e, t.Has e → e.block ≤ fileblock → fileblock < e.block + e.blocks →
          e.start + (fileblock - e.block) < 2 ^ 31 → r = e.start + (fileblock - e.block)) ∧
    (inode.flags &&& 0x80000 = 0 →
      fileblock < 12 + v.perblock + 2 * (v.perblock * v.perblock) →
      v.Known (inode.blocks (v.path fileblock).1) (v.path fileblock).2 →
      v.follow (inode.blocks (v.path fileblock).1) (v.path fileblock).2 < 2 ^ 31 →
      ∃ cs', Gives (readAllocatedBlock v inode fileblock cs)
        (v.follow (inode.blocks (v.path fileblock).1) (v.path fileblock).2, cs')) := by
  constructor
  case left =>
    intro t flags stored sorted
    obtain ⟨r, come, gives⟩ :=
      getExtentBlock_gives stored sorted (Volume.Buffer.zero (v := v))
    have result : Gives (readAllocatedBlock v inode fileblock cs) (r, cs) := by
      refine (come.map fun blknr => (blknr, cs)).congr fun k => ?_
      rw [readAllocatedBlock, if_pos flags]
    refine ⟨r, result, fun front => ?_, fun behind => ?_, fun e has le lt small => ?_⟩
    · obtain ⟨-, neg⟩ | ⟨behind, -⟩ := gives
      · exact neg
      · exact absurd front behind
    · obtain ⟨front, -⟩ | ⟨-, e, found, eq⟩ := gives
      · exact absurd front behind
      · exact ⟨e, found, fun small => by rw [eq, Volume.toLong_eq small]⟩
    · have last := sorted.last has le lt
      obtain ⟨front, -⟩ | ⟨-, e', found, eq⟩ := gives
      · exact absurd front (sorted.not_front has le lt)
      obtain rfl := sorted.unique found.has has <| Nat.le_antisymm
        (last.last e' found.has found.le) (found.last e has le)
      rw [eq, Ext4Extent.map_eq le lt, Volume.toLong_eq small]
      push_cast
      omega
  case right =>
    intro flags lt known small
    obtain ⟨cs', eq⟩ := readAllocatedBlock_block left.hold flags lt known
    refine ⟨cs', 0, fun k _ => ?_⟩
    rw [eq k, Volume.toLong_eq small]

/-- A volume of a thousand blocks, all zero. -/
def zeroVolume : Volume where
  dev := ⟨32, 9, Mem.zero, 0, 2000, by decide, by decide⟩
  log2 := 10
  bits := 32
  min := by decide
  max := by decide
  sectors := by decide
  small := by decide
  long := by decide

/-- File block 1 is in an unwritten extent of one block, at block 100. -/
def unwrittenInode : Inode where
  flags := 0x80000
  b := Mem.zero.write 0
    [0x0a, 0xf3, 1, 0, 4, 0, 0, 0, 0, 0, 0, 0, 1, 0, 0, 0, 1, 0x80, 0, 0, 100, 0, 0, 0]

def unwrittenTree : Tree := .leaf 1 fun _ => ⟨1, 0x8001, 100⟩

/-- File block 12 is at block 0 of the indirect block 3. -/
def indirectInode : Inode where
  flags := 0
  b := Mem.zero.write 48 [3, 0, 0, 0]

lemma unwrittenTree_stored : unwrittenTree.Stored zeroVolume ⟨unwrittenInode.b, 60⟩ := by
  refine ⟨rfl, rfl, rfl, by decide, fun i lt => ?_⟩
  obtain rfl : i = 0 := by omega
  rfl

lemma unwrittenTree_sorted : unwrittenTree.Sorted := by
  have pos : 0 < (Ext4Extent.mk 1 0x8001 100).blocks := by decide
  exact ⟨fun _ _ => pos, fun i j less lt => by omega⟩

lemma zeroVolume_content : zeroVolume.content b = Mem.zero := by
  funext a
  simp only [Volume.content, Volume.at, Mem.write, Mem.getElem?_read]
  split_ifs <;> rfl

theorem readAllocatedBlock_two :
    (∃ r, Gives (readAllocatedBlock zeroVolume unwrittenInode 1 ⟨none, none, none⟩)
      (r, ⟨none, none, none⟩) ∧ r = 100) ∧
    ∃ cs', Gives (readAllocatedBlock zeroVolume indirectInode 12 ⟨none, none, none⟩) (0, cs') := by
  constructor
  · obtain ⟨r, come, -, -, found⟩ := (@readAllocatedBlock_maps zeroVolume unwrittenInode
      ⟨none, none, none⟩ 1 .start).1 unwrittenTree (by decide) unwrittenTree_stored
      unwrittenTree_sorted
    exact ⟨r, come, found ⟨1, 0x8001, 100⟩ ⟨0, by decide, rfl⟩ (by decide) (by decide) (by decide)⟩
  · have value : zeroVolume.follow 3 [0] = 0 := by
      simp only [Volume.follow, zeroVolume_content]
      rfl
    have found := (@readAllocatedBlock_maps zeroVolume indirectInode ⟨none, none, none⟩ 12
      .start).2 rfl (by decide)
      ⟨show 3 ≠ 0 by decide, show (3 + 1) * 2 ^ 1 ≤ 2000 by decide, trivial⟩
    have way : indirectInode.blocks (zeroVolume.path 12).1 = 3 ∧ (zeroVolume.path 12).2 = [0] :=
      ⟨rfl, rfl⟩
    rw [way.1, way.2, value] at found
    exact found (by decide)

/-- An unwritten extent is not read as a hole. -/
theorem not_readAllocatedBlock_maps :
    ∃ (v : Volume) (inode : Inode) (t : Tree) (e : Ext4Extent) (r : Int),
      inode.flags &&& 0x80000 ≠ 0 ∧ t.Stored v ⟨inode.b, 60⟩ ∧ t.Sorted ∧ t.Has e ∧
        32768 < e.len ∧ e.block ≤ 1 ∧ 1 < e.block + e.blocks ∧
        Gives (readAllocatedBlock v inode 1 ⟨none, none, none⟩) (r, ⟨none, none, none⟩) ∧ r ≠ 0 :=
  ⟨zeroVolume, unwrittenInode, unwrittenTree, ⟨1, 0x8001, 100⟩, 100, by decide,
    unwrittenTree_stored, unwrittenTree_sorted, ⟨0, by decide, rfl⟩, by decide, by decide,
    by decide, gives_of_succ fun _ => rfl, by decide⟩

end Imx.Ext4
