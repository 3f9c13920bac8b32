import Imx.Ext4.Dev

/-!
# Reading an ext4 file

Model of `ext4fs_read_file` of `fs/ext4/ext4fs.c`, on a file whose block map `read_allocated_block`
is right and a device whose reads succeed. `block` is that map, with 0 for a hole. An offset of the
file or of the buffer is a number: the products of `blocksize` and a block number that pass the
range of an `int` are only subtracted from numbers near to them, and the sectors of a file are
inside of its partition.

C → Lean naming: `delayed_start` and the like are the fields of a `Delayed`, which is there while
`previous_block_number` is not -1; `buf` is a memory `buf` and an offset `p`.
-/

namespace Imx.Ext4
open Imx.Base

/-- What the reader knows of a file. -/
structure File where
  /-- `LOG2_BLOCK_SIZE(node->data)`. -/
  log2 : Nat
  size : Nat
  block : Nat → Nat

structure Delayed where
  start : Nat
  extent : Nat
  skipfirst : Nat
  buf : Nat
  next : Nat

structure Reader where
  buf : Mem
  p : Nat
  delayed : Option Delayed

variable (d : Device) (f : File)

def File.blocksize : Nat := 2 ^ f.log2

/-- The sectors of a block. -/
def sectors : Nat := 2 ^ (f.log2 - d.log2blksz)

/-- Read what was put off, if there is something. -/
def Reader.spill (r : Reader) : Option Mem :=
  match r.delayed with
  | none => some r.buf
  | some dl => ext4fsDevread d dl.start dl.skipfirst (int dl.extent) r.buf dl.buf

/-- The turn of the loop for block `i` of `blockcnt`. -/
def turn (pos len blockcnt i : Nat) (r : Reader) : Option Reader :=
  let blknr := d.lba (f.block i * sectors d f)
  let blockend :=
    if i + 1 = blockcnt then
      -- The last portion is exactly blocksize.
      if len + pos - f.blocksize * i = 0 then f.blocksize else len + pos - f.blocksize * i
    else
      f.blocksize
  let skipfirst := if i = pos / f.blocksize then pos - f.blocksize * i else 0
  let blockend := blockend - skipfirst
  let p := r.p + (f.blocksize - skipfirst)
  if blknr ≠ 0 then
    let fresh : Delayed := ⟨blknr, blockend, skipfirst, r.p, blknr + blockend / d.blksz⟩
    match r.delayed with
    | none => some { r with p := p, delayed := some fresh }
    | some dl =>
      if dl.next = blknr then
        some { r with
          p := p
          delayed := some { dl with
            extent := dl.extent + blockend
            next := dl.next + blockend / d.blksz } }
      else
        (r.spill d).map fun buf => ⟨buf, p, some fresh⟩
  else
    (r.spill d).map fun buf =>
      ⟨buf.write r.p (List.replicate (f.blocksize - skipfirst) 0), p, none⟩

/-- The loop over `k` blocks from block `i` on. -/
def loop (pos len blockcnt : Nat) : Nat → Nat → Reader → Option Reader
  | 0, _, r => some r
  | k + 1, i, r => (turn d f pos len blockcnt i r).bind (loop pos len blockcnt k (i + 1))

/-- The buffer and `actread`, or `none` where -1 is returned. -/
def ext4fsReadFile (pos len : Nat) (buf : Mem) : Option (Mem × Nat) :=
  -- Adjust len so it we can't read past the end of the file.
  let len := min len f.size
  let blockcnt := (len + pos + f.blocksize - 1) / f.blocksize
  let first := pos / f.blocksize
  ((loop d f pos len blockcnt (blockcnt - first) first ⟨buf, 0, none⟩).bind (·.spill d)).map
    fun buf => (buf, len)

/-! ## What a file holds -/

/-- A byte of the file. -/
def File.byte (q : Nat) : UInt8 :=
  if f.block (q / f.blocksize) = 0 then
    0
  else
    d.disk (d.start * d.blksz + (f.block (q / f.blocksize) * f.blocksize + q % f.blocksize))

/-- A block that lies in the file. -/
def File.Has (i : Nat) : Prop := i * f.blocksize < f.size

/-- A file of the device: its blocks are inside of the partition, and none of them is in two
places. -/
structure File.On : Prop where
  min : 10 ≤ f.log2
  max : f.log2 ≤ 12
  sectors : d.log2blksz ≤ f.log2
  size : f.size < 2 ^ 32
  inside : ∀ i, f.Has i → f.block i ≠ 0 → (f.block i + 1) * Ext4.sectors d f ≤ d.size
  distinct : ∀ i j, f.Has i → f.Has j → f.block i ≠ 0 → f.block i = f.block j → i = j

/-- No 2^31 bytes in front of `stop`, from a block behind `pos` on, lie behind one another on the
disk. -/
def File.Scattered (pos stop : Nat) : Prop :=
  ∀ a k, pos ≤ a * f.blocksize → f.block a ≠ 0 → (∀ j < k, f.block (a + j) = f.block a + j) →
    min ((a + k) * f.blocksize) stop - a * f.blocksize < 2 ^ 31

variable {d f} {pos len stop a i k : Nat} {r r' : Reader} {buf buf' old : Mem}

namespace File

lemma blocksize_pos : 0 < f.blocksize := Nat.two_pow_pos _

lemma sectors_pos : 0 < Ext4.sectors d f := Nat.two_pow_pos _

/-- A block is so many sectors. -/
lemma On.sectors_mul (on : f.On d) : Ext4.sectors d f * d.blksz = f.blocksize := by
  rw [Ext4.sectors, Device.blksz, blocksize, ← Nat.pow_add, Nat.sub_add_cancel on.sectors]

/-- Some blocks of the file, from block `a` on and in front of block `i`, lie behind one another. -/
structure Run (f : File) (a i : Nat) : Prop where
  lt : a < i
  some : f.block a ≠ 0
  next : ∀ j, a ≤ j → j < i → f.block j = f.block a + (j - a)

lemma Run.one (some : f.block a ≠ 0) : f.Run a (a + 1) where
  lt := Nat.lt_succ_self a
  some := some
  next j le lt := by
    rw [show j = a by omega, Nat.sub_self, Nat.add_zero]

lemma Run.succ (run : f.Run a i) (next : f.block i = f.block a + (i - a)) : f.Run a (i + 1) where
  lt := Nat.lt_succ_of_lt run.lt
  some := run.some
  next j le lt := by
    obtain rfl | less := Nat.lt_succ_iff_lt_or_eq.mp lt |>.symm
    · exact next
    · exact run.next j le less

/-- The bytes of a run lie behind one another. -/
lemma Run.byte {q : Nat} (run : f.Run a i) (ge : a * f.blocksize ≤ q) (lt : q < i * f.blocksize) :
    f.byte d q =
      d.disk (d.start * d.blksz + (f.block a * f.blocksize + (q - a * f.blocksize))) := by
  have low : a ≤ q / f.blocksize := (Nat.le_div_iff_mul_le blocksize_pos).mpr ge
  have high : q / f.blocksize < i := (Nat.div_lt_iff_lt_mul blocksize_pos).mpr lt
  have here := run.next _ low high
  have split := Nat.div_add_mod' q f.blocksize
  have some := run.some
  rw [File.byte, if_neg (by omega), here, Nat.add_mul, Nat.sub_mul]
  congr 2
  have le : a * f.blocksize ≤ q / f.blocksize * f.blocksize := Nat.mul_le_mul_right _ low
  omega

/-- The bytes of a hole. -/
lemma byte_hole {q : Nat} (hole : f.block i = 0) (ge : i * f.blocksize ≤ q)
    (lt : q < (i + 1) * f.blocksize) : f.byte d q = 0 := by
  have low : i ≤ q / f.blocksize := (Nat.le_div_iff_mul_le blocksize_pos).mpr ge
  have high : q / f.blocksize < i + 1 := (Nat.div_lt_iff_lt_mul blocksize_pos).mpr lt
  rw [File.byte, show q / f.blocksize = i by omega, if_pos hole]

/-- A run is inside of the partition. -/
lemma Run.inside (run : f.Run a i) (on : f.On d) (has : f.Has (i - 1)) :
    f.block a * f.blocksize + (i * f.blocksize - a * f.blocksize) ≤ d.size * d.blksz := by
  have lt := run.lt
  have last := run.next (i - 1) (by omega) (by omega)
  have some := run.some
  have le := Nat.mul_le_mul_right d.blksz (on.inside (i - 1) has (by omega))
  rw [Nat.mul_assoc, on.sectors_mul, last,
    show f.block a + (i - 1 - a) + 1 = f.block a + (i - a) by omega, Nat.add_mul, Nat.sub_mul] at le
  exact le

/-- The end of what is stored: a hole is stored as a whole block. -/
def reach (f : File) (stop : Nat) : Nat :=
  if f.block ((stop - 1) / f.blocksize) = 0 then
    ((stop - 1) / f.blocksize + 1) * f.blocksize
  else
    stop

/-- How far the file is read when the loop comes to block `i`. -/
def cut (f : File) (pos stop i : Nat) : Nat := max pos (min (i * f.blocksize) (f.reach stop))

/-- The bytes in front of an offset of the file are stored, and nothing else. -/
def Holds (f : File) (d : Device) (pos : Nat) (old : Mem) (stop : Nat) (buf : Mem) : Prop :=
  ∀ j, buf j = if pos + j < stop then f.byte d (pos + j) else old j

lemma reach_spec (pos : 0 < stop) : (stop - 1) / f.blocksize * f.blocksize < stop ∧
    stop ≤ f.reach stop ∧ f.reach stop ≤ ((stop - 1) / f.blocksize + 1) * f.blocksize := by
  have split := Nat.div_add_mod' (stop - 1) f.blocksize
  have lt := Nat.mod_lt (stop - 1) f.blocksize_pos
  have succ := Nat.succ_mul ((stop - 1) / f.blocksize) f.blocksize
  rw [Nat.succ_eq_add_one] at succ
  unfold reach
  split_ifs <;> omega

/-- A block that holds bytes behind `pos` begins in front of the next one. -/
lemma lt_of_first (from_ : pos / f.blocksize ≤ a) : pos < (a + 1) * f.blocksize := by
  have split := Nat.div_add_mod' pos f.blocksize
  have less := Nat.mod_lt pos f.blocksize_pos
  have mul := Nat.mul_le_mul_right f.blocksize from_
  rw [Nat.succ_mul]
  omega

lemma cut_of_le (ne : 0 < stop) (le : i ≤ (stop - 1) / f.blocksize) :
    f.cut pos stop i = max pos (i * f.blocksize) := by
  obtain ⟨less, reach, -⟩ := f.reach_spec ne
  have mul := Nat.mul_le_mul_right f.blocksize le
  rw [cut, show min (i * f.blocksize) (f.reach stop) = i * f.blocksize from
    Nat.min_eq_left (by omega)]

lemma cut_succ (lt : pos < stop) (le : i ≤ (stop - 1) / f.blocksize)
    (from_ : pos < (i + 1) * f.blocksize) :
    f.cut pos stop (i + 1) = if i = (stop - 1) / f.blocksize then f.reach stop else
      (i + 1) * f.blocksize := by
  obtain ⟨less, reach, top⟩ := f.reach_spec (Nat.zero_lt_of_lt lt)
  split_ifs with eq
  · subst eq
    rw [cut, show min _ (f.reach stop) = f.reach stop from Nat.min_eq_right top]
    exact Nat.max_eq_right (by omega)
  · rw [cut_of_le (Nat.zero_lt_of_lt lt) (by omega)]
    exact Nat.max_eq_right (Nat.le_of_lt from_)

/-- What of a block is in front of `pos`. -/
lemma skip_eq (here : f.cut pos stop i = max pos (i * f.blocksize))
    (from_ : pos / f.blocksize ≤ i) :
    (if i = pos / f.blocksize then pos - f.blocksize * i else 0) =
      f.cut pos stop i - i * f.blocksize := by
  have split := Nat.div_add_mod' pos f.blocksize
  have rest := Nat.mod_lt pos f.blocksize_pos
  rw [here]
  split_ifs with eq
  · subst eq
    rw [Nat.mul_comm]
    omega
  · have mul : (pos / f.blocksize + 1) * f.blocksize ≤ i * f.blocksize :=
      Nat.mul_le_mul_right _ (by omega)
    rw [Nat.succ_mul] at mul
    omega

/-- What is read of a block that is there. -/
lemma blockend_eq (lt : pos < stop) (sum : len + pos = stop) (from_ : pos / f.blocksize ≤ i)
    (le : i ≤ (stop - 1) / f.blocksize) (hole : f.block i ≠ 0) :
    (if i + 1 = (stop - 1) / f.blocksize + 1 then
        if len + pos - f.blocksize * i = 0 then f.blocksize else len + pos - f.blocksize * i
      else f.blocksize) - (f.cut pos stop i - i * f.blocksize) =
      f.cut pos stop (i + 1) - f.cut pos stop i := by
  have ne := Nat.zero_lt_of_lt lt
  have behind : pos < (i + 1) * f.blocksize := lt_of_first from_
  have grow : (i + 1) * f.blocksize = i * f.blocksize + f.blocksize := Nat.succ_mul ..
  rw [cut_succ lt le behind, cut_of_le ne le, sum, Nat.mul_comm f.blocksize i]
  by_cases eq : i = (stop - 1) / f.blocksize
  · have whole : f.reach stop = stop := by rw [reach, ← eq, if_neg hole]
    obtain ⟨low, -⟩ := f.reach_spec ne
    rw [← eq] at low
    rw [if_pos eq, if_pos (congrArg (· + 1) eq), if_neg (by omega), whole]
    clear * - low
    omega
  · rw [if_neg eq, if_neg (by omega)]
    clear * - grow
    omega

end File

/-- What is put off covers the run from block `a` to block `i`. -/
structure Delayed.Covers (dl : Delayed) (d : Device) (f : File) (pos stop a i : Nat) : Prop where
  run : f.Run a i
  whole : a + 1 = i ∨ pos ≤ a * f.blocksize
  start : dl.start = f.block a * sectors d f
  skipfirst : dl.skipfirst = f.cut pos stop a - a * f.blocksize
  buf : dl.buf = f.cut pos stop a - pos
  extent : dl.extent = f.cut pos stop i - f.cut pos stop a
  next : dl.next = f.block a * sectors d f + (f.cut pos stop i - f.cut pos stop a) / d.blksz

/-- The reader when the loop comes to block `i`. -/
structure Reader.At (d : Device) (f : File) (pos stop : Nat) (old : Mem) (i : Nat) (r : Reader) :
    Prop where
  p : r.p = max pos (i * f.blocksize) - pos
  stored : r.delayed = none → f.Holds d pos old (f.cut pos stop i) r.buf
  delayed : ∀ dl, r.delayed = some dl → ∃ a, dl.Covers d f pos stop a i ∧
    pos / f.blocksize ≤ a ∧ f.Holds d pos old (f.cut pos stop a) r.buf

/-- What is asked for: some bytes of a file of the device. -/
structure File.Asked (f : File) (d : Device) (pos stop : Nat) : Prop where
  on : f.On d
  lt : pos < stop
  le : stop ≤ f.size
  scattered : f.Scattered pos stop

/-- Bytes that are written behind what is stored. -/
lemma File.Holds.write {q q' : Nat} {bs : List UInt8} (holds : f.Holds d pos old q buf)
    (ge : pos ≤ q) (len : q + bs.length = q')
    (eq : ∀ j, (h : j < bs.length) → bs[j] = f.byte d (q + j)) :
    f.Holds d pos old q' (buf.write (q - pos) bs) := by
  intro j
  by_cases below : j < q - pos
  case pos =>
    rw [Mem.write_below below, holds j, if_pos (by omega), if_pos (by omega)]
  by_cases inside : j < q - pos + bs.length
  case neg =>
    rw [Mem.write_above (by omega), holds j, if_neg (by omega), if_neg (by omega)]
  obtain ⟨k, rfl⟩ := Nat.exists_eq_add_of_le (Nat.le_of_not_lt below)
  rw [Mem.write_at (by omega), eq k (by omega), if_pos (by omega),
    show pos + (q - pos + k) = q + k by omega]

section Reading

variable (ask : f.Asked d pos stop)
include ask

/-- A block that is read lies in the file. -/
lemma File.Asked.has (le : i ≤ (stop - 1) / f.blocksize) : f.Has i := by
  have mul := Nat.mul_le_mul_right f.blocksize le
  have reach := f.reach_spec (Nat.zero_lt_of_lt ask.lt)
  have size := ask.le
  exact Nat.lt_of_le_of_lt mul (by omega)

/-- What is read of a run ends inside of its last block, and there are not 2^31 bytes of it. -/
lemma File.Asked.run (run : f.Run a i) (le : i ≤ (stop - 1) / f.blocksize + 1)
    (from_ : pos / f.blocksize ≤ a) (whole : a + 1 = i ∨ pos ≤ a * f.blocksize) :
    f.cut pos stop a = max pos (a * f.blocksize) ∧ f.cut pos stop a < f.cut pos stop i ∧
      f.cut pos stop i ≤ i * f.blocksize ∧ f.cut pos stop i - a * f.blocksize < 2 ^ 31 := by
  have lt := run.lt
  have ne := Nat.zero_lt_of_lt ask.lt
  have behind : pos < (a + 1) * f.blocksize := File.lt_of_first from_
  have mul : (a + 1) * f.blocksize ≤ i * f.blocksize := Nat.mul_le_mul_right _ lt
  have grow : a * f.blocksize < (a + 1) * f.blocksize := by
    rw [Nat.succ_mul]
    exact Nat.lt_add_of_pos_right f.blocksize_pos
  obtain ⟨last, reach, -⟩ := f.reach_spec ne
  have low : a * f.blocksize ≤ (stop - 1) / f.blocksize * f.blocksize :=
    Nat.mul_le_mul_right _ (by omega)
  have first : f.cut pos stop a = max pos (a * f.blocksize) := f.cut_of_le ne (by omega)
  have end_ : f.cut pos stop i ≤ i * f.blocksize := by
    unfold File.cut
    omega
  have less : f.cut pos stop a < f.cut pos stop i := by
    have pos' := ask.lt
    rw [first]
    unfold File.cut
    omega
  refine ⟨first, less, end_, ?_⟩
  obtain rfl | ge := whole
  · have small : f.blocksize ≤ 2 ^ 12 := Nat.pow_le_pow_right Nat.two_pos ask.on.max
    rw [Nat.succ_mul] at end_
    omega
  · have here := ask.scattered a (i - a) ge run.some fun j lt => by
      rw [run.next (a + j) (by omega) (by omega), Nat.add_sub_cancel_left]
    rw [Nat.add_sub_cancel' (Nat.le_of_lt lt)] at here
    -- the last block of a run is no hole, so that nothing is stored behind the end
    have cut : f.cut pos stop i ≤ min (i * f.blocksize) stop := by
      refine Nat.le_min.mpr ⟨end_, ?_⟩
      obtain le | eq := Nat.le_or_eq_of_le_succ le
      · have mul := Nat.mul_le_mul_right f.blocksize le
        omega
      · have some := run.next (i - 1) (by omega) (by omega)
        have head := run.some
        have reach : f.reach stop = stop := by
          rw [File.reach, show (stop - 1) / f.blocksize = i - 1 by omega, if_neg (by omega)]
        have pos' := ask.lt
        unfold File.cut
        omega
    omega

/-- What was put off is read. -/
lemma Delayed.Covers.read {dl : Delayed} (covers : dl.Covers d f pos stop a i)
    (le : i ≤ (stop - 1) / f.blocksize + 1) (from_ : pos / f.blocksize ≤ a)
    (holds : f.Holds d pos old (f.cut pos stop a) buf) :
    ∃ buf', ext4fsDevread d dl.start dl.skipfirst (int dl.extent) buf dl.buf = some buf' ∧
      f.Holds d pos old (f.cut pos stop i) buf' := by
  have run := covers.run
  have lt := run.lt
  have ss := ask.on.sectors_mul
  obtain ⟨first, less, end_, small⟩ := ask.run run le from_ covers.whole
  have inside := run.inside ask.on (ask.has (by omega))
  have addr : f.block a * sectors d f * d.blksz = f.block a * f.blocksize := by
    rw [Nat.mul_assoc, ss]
  rw [covers.start, covers.skipfirst, covers.extent, covers.buf, int_eq (by omega),
    devread_eq (by omega) (by omega) (by omega)]
  refine ⟨_, rfl, holds.write (by omega) (by rw [Mem.length_read]; omega) fun j h => ?_⟩
  rw [Mem.length_read] at h
  rw [run.byte (q := f.cut pos stop a + j) (by omega) (by omega)]
  simp only [Mem.read, List.getElem_map, List.getElem_range]
  rw [Nat.add_mul, addr]
  congr 1
  omega

/-- What was put off is read, if there is something. -/
lemma Reader.At.spill (at_ : r.At d f pos stop old i) (le : i ≤ (stop - 1) / f.blocksize + 1) :
    ∃ buf, r.spill d = some buf ∧ f.Holds d pos old (f.cut pos stop i) buf := by
  unfold Reader.spill
  cases eq : r.delayed with
  | none => exact ⟨r.buf, rfl, at_.stored eq⟩
  | some dl =>
    obtain ⟨a, covers, from_, holds⟩ := at_.delayed dl eq
    exact covers.read ask le from_ holds

/-- The block that comes next behind a run on the disk is the next one of the run. -/
lemma Delayed.Covers.merge {dl : Delayed} (covers : dl.Covers d f pos stop a i)
    (le : i ≤ (stop - 1) / f.blocksize) (from_ : pos / f.blocksize ≤ a)
    (next : dl.next = f.block i * sectors d f) :
    pos ≤ a * f.blocksize ∧ f.block i = f.block a + (i - a) ∧
      f.cut pos stop i - f.cut pos stop a = (i - a) * sectors d f * d.blksz := by
  have ne := Nat.zero_lt_of_lt ask.lt
  have lt := covers.run.lt
  have ss := ask.on.sectors_mul
  have behind : pos < (a + 1) * f.blocksize := File.lt_of_first from_
  have mul : (a + 1) * f.blocksize ≤ i * f.blocksize := Nat.mul_le_mul_right _ lt
  have grow : (a + 1) * f.blocksize = a * f.blocksize + f.blocksize := Nat.succ_mul ..
  have start : f.cut pos stop a = max pos (a * f.blocksize) := f.cut_of_le ne (by omega)
  have end_ : f.cut pos stop i = max pos (i * f.blocksize) := f.cut_of_le ne le
  rw [covers.next] at next
  by_cases ge : pos ≤ a * f.blocksize
  case pos =>
    have whole : f.cut pos stop i - f.cut pos stop a = (i - a) * sectors d f * d.blksz := by
      rw [Nat.mul_assoc, ss, Nat.sub_mul]
      omega
    rw [whole, Nat.mul_div_cancel _ Device.blksz_pos, ← Nat.add_mul] at next
    exact ⟨ge, (Nat.eq_of_mul_eq_mul_right f.sectors_pos next).symm, whole⟩
  -- of the first block only a part is read, and so what comes next is the block itself
  have one : a + 1 = i := covers.whole.resolve_right ge
  subst one
  have part : (f.cut pos stop (a + 1) - f.cut pos stop a) / d.blksz < sectors d f := by
    refine (Nat.div_lt_iff_lt_mul Device.blksz_pos).mpr ?_
    rw [ss]
    omega
  have same : f.block a = f.block (a + 1) := by
    have low : f.block a * sectors d f ≤ f.block (a + 1) * sectors d f :=
      next ▸ Nat.le_add_right _ _
    have high : f.block (a + 1) * sectors d f < (f.block a + 1) * sectors d f := by
      rw [← next, Nat.succ_mul]
      exact Nat.add_lt_add_left part _
    have le := Nat.le_of_mul_le_mul_right low f.sectors_pos
    have lt := Nat.lt_of_mul_lt_mul_right high
    omega
  have eq := ask.on.distinct a (a + 1) (ask.has (by omega)) (ask.has le) covers.run.some same
  omega

/-- One turn of the loop. -/
lemma Reader.At.turn {len : Nat} (at_ : r.At d f pos stop old i) (sum : len + pos = stop)
    (from_ : pos / f.blocksize ≤ i) (le : i ≤ (stop - 1) / f.blocksize) :
    ∃ r', turn d f pos len ((stop - 1) / f.blocksize + 1) i r = some r' ∧
      r'.At d f pos stop old (i + 1) := by
  have ne := Nat.zero_lt_of_lt ask.lt
  have here : f.cut pos stop i = max pos (i * f.blocksize) := f.cut_of_le ne le
  have behind : pos < (i + 1) * f.blocksize := File.lt_of_first from_
  have next := f.cut_succ ask.lt le behind
  have grow : (i + 1) * f.blocksize = i * f.blocksize + f.blocksize := Nat.succ_mul ..
  have p := at_.p
  have position : r.p + (f.blocksize - (f.cut pos stop i - i * f.blocksize)) =
      max pos ((i + 1) * f.blocksize) - pos := by
    clear * - p here behind grow
    omega
  unfold Ext4.turn
  dsimp only
  rw [File.skip_eq here from_, position]
  by_cases hole : f.block i = 0
  case pos =>
    have zero : d.lba (f.block i * sectors d f) = 0 := by
      rw [hole, Nat.zero_mul]
      exact Nat.zero_mod _
    obtain ⟨buf, read, holds⟩ := at_.spill ask (Nat.le_succ_of_le le)
    rw [if_neg (not_not_intro zero), read, Option.map_some]
    have end_ : f.cut pos stop (i + 1) = (i + 1) * f.blocksize := by
      rw [next]
      split_ifs with eq
      · rw [File.reach, ← eq, if_pos hole]
      · rfl
    refine ⟨_, rfl, rfl, fun _ => ?_, nofun⟩
    have start : r.p = f.cut pos stop i - pos := by rw [p, here]
    rw [start]
    have ge : pos ≤ f.cut pos stop i := here ▸ Nat.le_max_left ..
    have low : i * f.blocksize ≤ f.cut pos stop i := here ▸ Nat.le_max_right ..
    have high : f.cut pos stop i < (i + 1) * f.blocksize := by
      rw [here]
      exact max_lt behind (grow ▸ Nat.lt_add_of_pos_right f.blocksize_pos)
    have fill : f.cut pos stop i + (f.blocksize - (f.cut pos stop i - i * f.blocksize)) =
        (i + 1) * f.blocksize := by
      clear * - grow low high
      omega
    refine holds.write ge (by rw [List.length_replicate, end_, fill]) fun j h => ?_
    rw [List.length_replicate] at h
    have inside : f.cut pos stop i + j < (i + 1) * f.blocksize := by
      clear * - h fill
      omega
    rw [List.getElem_replicate, File.byte_hole hole (Nat.le_add_right_of_le low) inside]
  have inside : f.block i * sectors d f < 2 ^ d.w := by
    have fits := d.fits
    have le := ask.on.inside i (ask.has le) hole
    have pos' := f.sectors_pos (d := d)
    rw [Nat.succ_mul] at le
    omega
  have number : d.lba (f.block i * sectors d f) = f.block i * sectors d f := Device.lba_eq inside
  have some : f.block i * sectors d f ≠ 0 := Nat.mul_ne_zero hole (Nat.ne_of_gt f.sectors_pos)
  rw [File.blockend_eq ask.lt sum from_ le hole, number, if_pos some]
  -- what is put off when a run begins here
  have fresh : Delayed.Covers ⟨f.block i * sectors d f, f.cut pos stop (i + 1) - f.cut pos stop i,
      f.cut pos stop i - i * f.blocksize, r.p, f.block i * sectors d f +
        (f.cut pos stop (i + 1) - f.cut pos stop i) / d.blksz⟩ d f pos stop i (i + 1) := by
    refine ⟨.one hole, .inl rfl, rfl, rfl, ?_, rfl, rfl⟩
    show r.p = f.cut pos stop i - pos
    rw [p, here]
  cases eq : r.delayed with
  | none =>
    refine ⟨_, rfl, rfl, nofun, ?_⟩
    rintro _ ⟨⟩
    exact ⟨i, fresh, from_, at_.stored eq⟩
  | some dl =>
    obtain ⟨a, covers, first, holds⟩ := at_.delayed dl eq
    dsimp only
    by_cases merge : dl.next = f.block i * sectors d f
    case neg =>
      obtain ⟨buf, read, holds⟩ := at_.spill ask (Nat.le_succ_of_le le)
      rw [if_neg merge, read, Option.map_some]
      refine ⟨_, rfl, rfl, nofun, ?_⟩
      rintro _ ⟨⟩
      exact ⟨i, fresh, from_, holds⟩
    rw [if_pos merge]
    obtain ⟨ge, block, whole⟩ := covers.merge ask le first merge
    have lt := covers.run.lt
    have up : a * f.blocksize ≤ i * f.blocksize := Nat.mul_le_mul_right _ (Nat.le_of_lt lt)
    have start : f.cut pos stop a = max pos (a * f.blocksize) := f.cut_of_le ne (by omega)
    have back : f.cut pos stop a ≤ f.cut pos stop i := by
      rw [start, here]
      exact max_le_max (Nat.le_refl pos) up
    have more : f.cut pos stop i ≤ f.cut pos stop (i + 1) := by
      clear * - grow
      unfold File.cut
      omega
    refine ⟨_, rfl, rfl, nofun, ?_⟩
    rintro _ ⟨⟩
    refine ⟨a, ⟨covers.run.succ block, .inr ge, covers.start, covers.skipfirst, covers.buf, ?_, ?_⟩,
      first, holds⟩
    · have extent := covers.extent
      dsimp only
      clear * - extent back more
      omega
    · have sum : f.cut pos stop (i + 1) - f.cut pos stop a =
          (i - a) * sectors d f * d.blksz + (f.cut pos stop (i + 1) - f.cut pos stop i) := by
        clear * - whole back more
        omega
      dsimp only
      rw [covers.next, whole, sum, Nat.mul_div_cancel _ Device.blksz_pos, Nat.mul_comm _ d.blksz,
        Nat.mul_add_div Device.blksz_pos, Nat.add_assoc]

/-- The loop from block `i` to the end. -/
lemma Reader.At.loop {len : Nat} (sum : len + pos = stop) (from_ : pos / f.blocksize ≤ i)
    (blocks : i + k = (stop - 1) / f.blocksize + 1) (at_ : r.At d f pos stop old i) :
    ∃ r', loop d f pos len ((stop - 1) / f.blocksize + 1) k i r = some r' ∧
      r'.At d f pos stop old ((stop - 1) / f.blocksize + 1) := by
  induction k generalizing i r with
  | zero => exact ⟨r, rfl, blocks ▸ at_⟩
  | succ k ih =>
    obtain ⟨next, turn, there⟩ := at_.turn ask sum from_ (by omega)
    rw [Ext4.loop, turn, Option.bind_some]
    exact ih (by omega) (by omega) there

end Reading

/-- What is read of a file, and how far. -/
theorem read_file (ask : f.Asked d pos stop) {len : Nat} (sum : min len f.size + pos = stop)
    (buf : Mem) :
    ∃ buf', ext4fsReadFile d f pos len buf = some (buf', min len f.size) ∧
      f.Holds d pos buf (f.reach stop) buf' := by
  have ne := Nat.zero_lt_of_lt ask.lt
  have blockcnt : (min len f.size + pos + f.blocksize - 1) / f.blocksize =
      (stop - 1) / f.blocksize + 1 := by
    rw [sum, show stop + f.blocksize - 1 = stop - 1 + f.blocksize by omega,
      Nat.add_div_right _ f.blocksize_pos]
  have le : pos / f.blocksize ≤ (stop - 1) / f.blocksize :=
    Nat.div_le_div_right (by have lt := ask.lt; omega)
  have top := Nat.div_mul_le_self pos f.blocksize
  have start : Reader.At d f pos stop buf (pos / f.blocksize) ⟨buf, 0, none⟩ := by
    refine ⟨?_, fun _ j => ?_, nofun⟩
    · dsimp only
      omega
    · rw [f.cut_of_le ne le, if_neg (by omega)]
  have count : pos / f.blocksize + ((stop - 1) / f.blocksize + 1 - pos / f.blocksize) =
      (stop - 1) / f.blocksize + 1 := Nat.add_sub_cancel' (Nat.le_succ_of_le le)
  obtain ⟨r, loop, at_⟩ := start.loop ask sum (Nat.le_refl _) count
  obtain ⟨buf', spill, holds⟩ := at_.spill ask (Nat.le_refl _)
  rw [f.cut_succ ask.lt (Nat.le_refl _) (File.lt_of_first le), if_pos rfl] at holds
  refine ⟨buf', ?_, holds⟩
  unfold ext4fsReadFile
  dsimp only
  rw [blockcnt, loop, Option.bind_some, spill]
  rfl

variable (f d) in
/-- What is asked for is read, and nothing else is stored. -/
def File.Reads (pos len : Nat) : Prop :=
  ∀ buf, ∃ buf', ext4fsReadFile d f pos len buf = some (buf', min len f.size) ∧
    f.Holds d pos buf (pos + min len f.size) buf'

/-- Where the last block is a hole, it is stored to its end. -/
lemma not_reads (ask : f.Asked d pos stop) {len : Nat} (sum : pos + min len f.size = stop)
    (hole : f.block ((stop - 1) / f.blocksize) = 0) (part : ¬ f.blocksize ∣ stop) :
    ¬ f.Reads d pos len := by
  intro reads
  have lt := ask.lt
  obtain ⟨low, reach, -⟩ := f.reach_spec (Nat.zero_lt_of_lt lt)
  have whole : f.reach stop = ((stop - 1) / f.blocksize + 1) * f.blocksize := if_pos hole
  have more : stop < f.reach stop := by
    refine Nat.lt_of_le_of_ne reach fun eq => part ?_
    exact ⟨_, (eq.trans whole).trans (Nat.mul_comm ..)⟩
  obtain ⟨buf', read, holds⟩ := read_file ask ((Nat.add_comm ..).trans sum) fun _ => 1
  obtain ⟨buf'', read', holds'⟩ := reads fun _ => 1
  cases read.symm.trans read'
  have zero := holds (stop - pos)
  have one := holds' (stop - pos)
  rw [if_neg (by omega)] at one
  rw [if_pos (by omega), File.byte_hole hole (by omega) (by omega), one] at zero
  exact absurd zero (show ¬ (1 : UInt8) = 0 by decide)

/-- Reading a part of a file stores exactly that part if and only if the last block of the part is
not a hole, or is read to its end. -/
theorem reads_iff (on : f.On d) (lt : pos < f.size) {len : Nat} (some : 0 < len)
    (range : pos + len ≤ f.size ∨ pos = 0) (scattered : f.Scattered pos (pos + min len f.size)) :
    f.Reads d pos len ↔ (f.block ((pos + min len f.size - 1) / f.blocksize) = 0 →
      f.blocksize ∣ pos + min len f.size) := by
  have ask : f.Asked d pos (pos + min len f.size) := ⟨on, by omega, by omega, scattered⟩
  constructor
  · intro reads hole
    by_contra part
    exact not_reads ask rfl hole part reads
  · intro whole buf
    have reach : f.reach (pos + min len f.size) = pos + min len f.size := by
      obtain ⟨low, reach, high⟩ := f.reach_spec (Nat.zero_lt_of_lt ask.lt)
      unfold File.reach at reach high ⊢
      split_ifs at reach high ⊢ with hole
      · obtain ⟨k, eq⟩ := whole hole
        rw [Nat.mul_comm] at eq
        have more := Nat.lt_of_mul_lt_mul_right (Nat.lt_of_lt_of_eq low eq)
        have less :=
          Nat.le_of_mul_le_mul_right (Nat.le_trans (Nat.le_of_eq eq.symm) reach) f.blocksize_pos
        have last : (pos + min len f.size - 1) / f.blocksize + 1 = k := by omega
        rw [last, eq]
      · rfl
    exact reach ▸ read_file ask (Nat.add_comm ..) buf

/-- Two blocks and a part of the second one. -/
theorem reads_two :
    File.Reads ⟨32, 9, fun a => UInt8.ofNat a, 8, 100, by decide, by decide⟩
      ⟨10, 1500, fun i => if i < 2 then 5 + i else 0⟩ 100 1400 := by
  have on : File.On ⟨32, 9, fun a => UInt8.ofNat a, 8, 100, by decide, by decide⟩
      ⟨10, 1500, fun i => if i < 2 then 5 + i else 0⟩ := by
    refine ⟨by decide, by decide, by decide, by decide, fun i _ _ => ?_,
      fun i j hi hj some eq => ?_⟩
    · show ((if i < 2 then 5 + i else 0) + 1) * 2 ≤ 100
      split_ifs <;> omega
    · have hi : i * 1024 < 1500 := hi
      have hj : j * 1024 < 1500 := hj
      dsimp only at eq
      rw [if_pos (by omega), if_pos (by omega)] at eq
      omega
  refine (reads_iff on (by decide) (by decide) (.inl (by decide)) ?_).mpr fun hole => ?_
  · intro a k _ _ _
    have le : min ((a + k) * 1024) 1500 - a * 1024 < 2 ^ 31 := by omega
    exact le
  · exact absurd hole (by decide)

/-- The first 100 bytes of a file that is one hole. -/
theorem not_reads_hole :
    ¬ File.Reads ⟨32, 9, fun _ => 0, 8, 100, by decide, by decide⟩ ⟨10, 100, fun _ => 0⟩ 0 100 := by
  have ask : File.Asked ⟨10, 100, fun _ => 0⟩ ⟨32, 9, fun _ => 0, 8, 100, by decide, by decide⟩
      0 100 := by
    refine ⟨⟨by decide, by decide, by decide, by decide, ?_, ?_⟩, by decide, by decide, ?_⟩
    · exact fun _ _ some => absurd rfl some
    · exact fun _ _ _ _ some => absurd rfl some
    · exact fun _ _ _ some => absurd rfl some
  refine not_reads ask rfl rfl ?_
  exact fun dvd => absurd (Nat.le_of_dvd (by decide) dvd) (by decide)

end Imx.Ext4
