import Imx.Fat.Defs

/-!
# The entries of a FAT

`fatEntry` is the entry as it stands on the disk, which for FAT12 is 12 bits, at a byte and a half
for each entry. Whatever window of the table is in the buffer, `getFatent` gives that entry.
-/

namespace Imx.Fat
open Imx.Base

variable {disk buf : Mem} {d d' : Fsdata} {entry x k s : Nat}

/-- A byte of the FAT. -/
def fatByte (disk : Mem) (d : Fsdata) (i : Nat) : Nat := (disk (d.fatSect * d.sectSize + i)).toNat

/-- The entry on the disk. -/
def fatEntry (disk : Mem) (d : Fsdata) (entry : Nat) : Nat :=
  if d.fatsize = 32 then
    fatByte disk d (4 * entry) + 256 * fatByte disk d (4 * entry + 1) +
      65536 * (fatByte disk d (4 * entry + 2) + 256 * fatByte disk d (4 * entry + 3))
  else if d.fatsize = 16 then
    fatByte disk d (2 * entry) + 256 * fatByte disk d (2 * entry + 1)
  else if entry % 2 = 0 then
    fatByte disk d (3 * entry / 2) + 256 * (fatByte disk d (3 * entry / 2 + 1) % 16)
  else
    fatByte disk d (3 * entry / 2) / 16 + 16 * fatByte disk d (3 * entry / 2 + 1)

/-- The end of an entry in the table. -/
def entryEnd (fatsize entry : Nat) : Nat :=
  if fatsize = 32 then 4 * entry + 4
  else if fatsize = 16 then 2 * entry + 2
  else 3 * entry / 2 + 2

/-- The geometry of the table. -/
structure Fsdata.Table (d : Fsdata) : Prop where
  kind : d.fatsize = 32 ∨ d.fatsize = 16 ∨ d.fatsize = 12
  some : 0 < d.sectSize
  even : 2 ∣ d.sectSize
  small : d.fatlength < 2 ^ 32

/-- The bytes of a window of the table. -/
def Fsdata.window (d : Fsdata) : Nat := d.sectSize * fatbufblocks

/-- What is in the buffer is the window it is said to be, as far as the table goes. -/
def Cached (disk : Mem) (d : Fsdata) : Prop :=
  ∀ o < d.window, d.fatbufnum * d.window + o < d.fatlength * d.sectSize →
    d.fatbuf o = disk (d.fatSect * d.sectSize + (d.fatbufnum * d.window + o))

/-- Nothing else than the cache is changed. -/
def Recached (d d' : Fsdata) : Prop :=
  ∃ buf num, d' = { d with fatbuf := buf, fatbufnum := num }

/-- With no window in the buffer, whatever is in it is right. -/
lemma cached_none (tab : d.Table) (none : d.fatbufnum = 2 ^ 32 - 1) : Cached disk d := by
  intro o lt inside
  have small := tab.small
  have le : d.fatlength * d.sectSize ≤ (2 ^ 32 - 1) * d.window := by
    rw [Fsdata.window, fatbufblocks, ← Nat.mul_assoc]
    refine Nat.le_trans (Nat.mul_le_mul_right _ (Nat.le_pred_of_lt small)) ?_
    exact Nat.le_mul_of_pos_right _ (by decide)
  rw [none] at inside
  omega

/-! ## Bits -/

lemma and_low (k : Nat) : x &&& (2 ^ k - 1) = x % 2 ^ k := Nat.and_two_pow_sub_one_eq_mod x k

/-- A field of bits is taken out. -/
lemma and_field (k s : Nat) : (x &&& ((2 ^ k - 1) <<< s)) >>> s = x / 2 ^ s % 2 ^ k := by
  rw [Nat.shiftRight_and_distrib, Nat.shiftLeft_shiftRight, and_low, Nat.shiftRight_eq_div_pow]

lemma or_low {y : Nat} (lt : y < 2 ^ s) : (x <<< s) ||| y = x * 2 ^ s + y := by
  rw [← Nat.shiftLeft_add_eq_or_of_lt lt, Nat.shiftLeft_eq]

/-- The 12 bits of an entry, from the words they lie in. -/
lemma actualEntry_twelve (offset : Nat) : actualEntry 12 buf offset =
    if offset % 2 = 0 then
      (buf (3 * offset / 2)).toNat + 256 * ((buf (3 * offset / 2 + 1)).toNat % 16)
    else
      (buf (3 * offset / 2)).toNat / 16 + 16 * (buf (3 * offset / 2 + 1)).toNat := by
  obtain ⟨q, r, lt, rfl⟩ : ∃ q r, r < 4 ∧ offset = 4 * q + r :=
    ⟨offset / 4, offset % 4, Nat.mod_lt _ (by decide), (Nat.div_add_mod offset 4).symm⟩
  have bytes : ∀ i, (buf i).toNat < 256 := fun i => (buf i).toNat_lt
  have b0 := bytes (6 * q)
  have b1 := bytes (6 * q + 1)
  have b2 := bytes (6 * q + 2)
  have b3 := bytes (6 * q + 3)
  have b4 := bytes (6 * q + 4)
  have b5 := bytes (6 * q + 5)
  have w0 : word buf (3 * q) = (buf (6 * q)).toNat + 256 * (buf (6 * q + 1)).toNat := by
    rw [word, Mem.get16, show 2 * (3 * q) = 6 * q by omega]
  have w1 : word buf (3 * q + 1) = (buf (6 * q + 2)).toNat + 256 * (buf (6 * q + 3)).toNat := by
    rw [word, Mem.get16, show 2 * (3 * q + 1) = 6 * q + 2 by omega]
  have w2 : word buf (3 * q + 2) = (buf (6 * q + 4)).toNat + 256 * (buf (6 * q + 5)).toNat := by
    rw [word, Mem.get16, show 2 * (3 * q + 2) = 6 * q + 4 by omega]
  unfold actualEntry
  rw [if_neg (by decide), if_neg (by decide)]
  dsimp only
  obtain rfl | rfl | rfl | rfl : r = 0 ∨ r = 1 ∨ r = 2 ∨ r = 3 := by omega
  · rw [show (4 * q + 0) % 4 = 0 by omega, if_pos (by omega),
      show (4 * q + 0) * 3 / 4 = 3 * q by omega, show 3 * (4 * q + 0) / 2 = 6 * q by omega]
    show word buf (3 * q) &&& (2 ^ 12 - 1) = _
    rw [and_low, w0]
    omega
  · rw [show (4 * q + 1) % 4 = 1 by omega, if_neg (by omega),
      show (4 * q + 1) * 3 / 4 = 3 * q by omega, show 3 * (4 * q + 1) / 2 = 6 * q + 1 by omega,
      show 6 * q + 1 + 1 = 6 * q + 2 from rfl]
    show ((word buf (3 * q + 1) &&& (2 ^ 8 - 1)) <<< 4) |||
      ((word buf (3 * q) &&& ((2 ^ 4 - 1) <<< 12)) >>> 12) = _
    rw [and_low, and_field, or_low (Nat.mod_lt _ (by decide)), w0, w1]
    omega
  · rw [show (4 * q + 2) % 4 = 2 by omega, if_pos (by omega),
      show (4 * q + 2) * 3 / 4 = 3 * q + 1 by omega, show 3 * (4 * q + 2) / 2 = 6 * q + 3 by omega,
      show 6 * q + 3 + 1 = 6 * q + 4 from rfl]
    show ((word buf (3 * q + 2) &&& (2 ^ 4 - 1)) <<< 8) |||
      ((word buf (3 * q + 1) &&& ((2 ^ 8 - 1) <<< 8)) >>> 8) = _
    rw [and_low, and_field, or_low (Nat.mod_lt _ (by decide)), w1, w2]
    omega
  · rw [show (4 * q + 3) % 4 = 3 by omega, if_neg (by omega),
      show (4 * q + 3) * 3 / 4 = 3 * q + 2 by omega, show 3 * (4 * q + 3) / 2 = 6 * q + 4 by omega,
      show 6 * q + 4 + 1 = 6 * q + 5 from rfl]
    show (word buf (3 * q + 2) &&& ((2 ^ 12 - 1) <<< 4)) >>> 4 = _
    rw [and_field, w2]
    omega

/-! ## The cache -/

lemma Recached.refl : Recached d d := ⟨d.fatbuf, d.fatbufnum, rfl⟩

lemma Recached.trans {d'' : Fsdata} (first : Recached d d') (second : Recached d' d'') :
    Recached d d'' := by
  obtain ⟨buf, num, rfl⟩ := first
  obtain ⟨buf, num, rfl⟩ := second
  exact ⟨buf, num, rfl⟩

lemma Recached.same (re : Recached d d') :
    d'.fatsize = d.fatsize ∧ d'.bytesperclust = d.bytesperclust := by
  obtain ⟨buf, num, rfl⟩ := re
  exact ⟨rfl, rfl⟩

lemma Recached.table (re : Recached d d') (tab : d.Table) : d'.Table := by
  obtain ⟨buf, num, rfl⟩ := re
  exact ⟨tab.kind, tab.some, tab.even, tab.small⟩

lemma Recached.fatEntry (re : Recached d d') : fatEntry disk d' entry = fatEntry disk d entry := by
  obtain ⟨buf, num, rfl⟩ := re
  rfl

/-- The window that an entry of the table lies in is read. -/
lemma refill_spec {bufnum : Nat} (cached : Cached disk d)
    (inside : bufnum * d.window < d.fatlength * d.sectSize) (small : d.fatlength < 2 ^ 32) :
    Cached disk (d.refill disk bufnum) ∧ Recached d (d.refill disk bufnum) ∧
      (d.refill disk bufnum).fatbufnum = bufnum := by
  unfold Fsdata.refill
  split
  case isTrue eq => exact ⟨cached, .refl, eq.symm⟩
  case isFalse =>
    refine ⟨fun o lt below => ?_, ⟨_, _, rfl⟩, rfl⟩
    dsimp only [Fsdata.window] at lt below inside ⊢
    have start : bufnum * fatbufblocks < d.fatlength := by
      rw [Nat.mul_comm d.sectSize, ← Nat.mul_assoc] at inside
      exact Nat.lt_of_mul_lt_mul_right inside
    have window : bufnum * (d.sectSize * fatbufblocks) = bufnum * fatbufblocks * d.sectSize := by
      rw [Nat.mul_comm d.sectSize, Nat.mul_assoc]
    generalize size : (if d.fatlength < bufnum * fatbufblocks + fatbufblocks then
      u32 ((d.fatlength : Int) - (bufnum * fatbufblocks : Nat)) else fatbufblocks) = getsize
    have len : o < getsize * d.sectSize := by
      rw [← size]
      split
      case isTrue =>
        have count : u32 ((d.fatlength : Int) - (bufnum * fatbufblocks : Nat)) =
            d.fatlength - bufnum * fatbufblocks := by
          unfold u32
          omega
        rw [count, Nat.sub_mul]
        omega
      case isFalse =>
        rw [Nat.mul_comm]
        exact lt
    have here : (d.fatbuf.write 0 (disk.read ((bufnum * fatbufblocks + d.fatSect) * d.sectSize)
        (getsize * d.sectSize))) (0 + o) =
        disk ((bufnum * fatbufblocks + d.fatSect) * d.sectSize + o) := copied len
    rw [Nat.zero_add] at here
    rw [here]
    congr 1
    rw [window, Nat.add_mul]
    omega

/-- The table holds a whole number of entries in each window. -/
lemma window_spec (tab : d.Table) : 0 < d.bufsize ∧
    (if d.fatsize = 32 then 4 * d.bufsize = d.window
    else if d.fatsize = 16 then 2 * d.bufsize = d.window
    else 3 * d.bufsize = 2 * d.window ∧ 4 ∣ d.bufsize) := by
  obtain ⟨half, even⟩ := tab.even
  have some := tab.some
  unfold Fsdata.bufsize Fsdata.window fatbufblocks
  obtain eq | eq | eq := tab.kind <;> rw [eq]
  · rw [if_pos rfl, if_pos rfl]
    omega
  · rw [if_neg (by decide), if_pos rfl, if_neg (by decide), if_pos rfl]
    omega
  · rw [if_neg (by decide), if_neg (by decide), if_neg (by decide), if_neg (by decide)]
    omega

/-- Where an entry of the table lies in its window. -/
lemma entry_place (tab : d.Table) (entry : Nat) :
    let num := entry / d.bufsize
    let off := entry - num * d.bufsize
    (d.fatsize = 32 → 4 * entry = num * d.window + 4 * off ∧ 4 * off + 4 ≤ d.window) ∧
    (d.fatsize = 16 → 2 * entry = num * d.window + 2 * off ∧ 2 * off + 2 ≤ d.window) ∧
    (d.fatsize = 12 → 3 * entry / 2 = num * d.window + 3 * off / 2 ∧
      3 * off / 2 + 2 ≤ d.window ∧ entry % 2 = off % 2) := by
  obtain ⟨pos, sizes⟩ := window_spec tab
  have split : entry / d.bufsize * d.bufsize + entry % d.bufsize = entry :=
    Nat.div_add_mod' entry d.bufsize
  have lt : entry % d.bufsize < d.bufsize := Nat.mod_lt _ pos
  have offset : entry - entry / d.bufsize * d.bufsize = entry % d.bufsize := by omega
  dsimp only
  rw [offset]
  generalize entry / d.bufsize = num at split ⊢
  generalize entry % d.bufsize = off at split lt ⊢
  refine ⟨fun eq => ?_, fun eq => ?_, fun eq => ?_⟩
  · rw [if_pos eq] at sizes
    have base : 4 * (num * d.bufsize) = num * d.window := by rw [Nat.mul_left_comm, sizes]
    omega
  · rw [eq, if_neg (by decide), if_pos rfl] at sizes
    have base : 2 * (num * d.bufsize) = num * d.window := by rw [Nat.mul_left_comm, sizes]
    omega
  · rw [eq, if_neg (by decide), if_neg (by decide)] at sizes
    obtain ⟨size, k, four⟩ := sizes
    have base : 3 * (num * d.bufsize) = 2 * (num * d.window) := by
      rw [Nat.mul_left_comm, size, Nat.mul_left_comm]
    have even : num * d.bufsize = 4 * (num * k) := by rw [four, Nat.mul_left_comm]
    omega

/-- The window of an entry of the table begins in the table. -/
lemma entry_window (tab : d.Table) (inside : entryEnd d.fatsize entry ≤ d.fatlength * d.sectSize) :
    entry / d.bufsize * d.window < d.fatlength * d.sectSize := by
  obtain ⟨b32, b16, b12⟩ := entry_place tab entry
  unfold entryEnd at inside
  obtain eq | eq | eq := tab.kind
  · rw [if_pos eq] at inside
    have place := b32 eq
    omega
  · rw [eq, if_neg (by decide), if_pos rfl] at inside
    have place := b16 eq
    omega
  · rw [eq, if_neg (by decide), if_neg (by decide)] at inside
    have place := b12 eq
    omega

/-- An entry of the table is taken from its window. -/
lemma actualEntry_cached (tab : d.Table) (cached : Cached disk d)
    (number : d.fatbufnum = entry / d.bufsize)
    (inside : entryEnd d.fatsize entry ≤ d.fatlength * d.sectSize) :
    actualEntry d.fatsize d.fatbuf (entry - entry / d.bufsize * d.bufsize) =
      fatEntry disk d entry := by
  obtain ⟨b32, b16, b12⟩ := entry_place tab entry
  unfold Cached at cached
  rw [number] at cached
  generalize entry / d.bufsize = num at b32 b16 b12 cached ⊢
  generalize entry - num * d.bufsize = off at b32 b16 b12 ⊢
  have byte : ∀ i < d.window, num * d.window + i < d.fatlength * d.sectSize →
      (d.fatbuf i).toNat = fatByte disk d (num * d.window + i) := fun i less below =>
    congrArg UInt8.toNat (cached i less below)
  unfold entryEnd at inside
  obtain eq | eq | eq := tab.kind
  · rw [if_pos eq] at inside
    obtain ⟨place, room⟩ := b32 eq
    rw [fatEntry, if_pos eq, eq, actualEntry, if_pos rfl, Mem.get16, Mem.get16,
      byte _ (by omega) (by omega), byte _ (by omega) (by omega), byte _ (by omega) (by omega),
      byte _ (by omega) (by omega), place]
    rfl
  · rw [eq, if_neg (by decide), if_pos rfl] at inside
    obtain ⟨place, room⟩ := b16 eq
    rw [fatEntry, eq, if_neg (by decide), if_pos rfl, actualEntry, if_neg (by decide), if_pos rfl,
      word, Mem.get16, byte _ (by omega) (by omega), byte _ (by omega) (by omega), place]
    rfl
  · rw [eq, if_neg (by decide), if_neg (by decide)] at inside
    obtain ⟨place, room, parity⟩ := b12 eq
    rw [fatEntry, eq, if_neg (by decide), if_neg (by decide), actualEntry_twelve,
      byte _ (by omega) (by omega), byte _ (by omega) (by omega), parity, place]
    rfl

/-- An entry of the table is read right. -/
theorem getFatent_spec (tab : d.Table) (cached : Cached disk d)
    (inside : entryEnd d.fatsize entry ≤ d.fatlength * d.sectSize) :
    (getFatent disk d entry).1 = fatEntry disk d entry ∧ Cached disk (getFatent disk d entry).2 ∧
      Recached d (getFatent disk d entry).2 := by
  obtain ⟨cached', recached, number⟩ := refill_spec cached (entry_window tab inside) tab.small
  unfold getFatent
  rw [if_pos tab.kind]
  refine ⟨?_, cached', recached⟩
  dsimp only
  generalize eq : d.refill disk (entry / d.bufsize) = d' at cached' recached number ⊢
  clear eq
  obtain ⟨buf, num, rfl⟩ := recached
  exact actualEntry_cached (d := { d with fatbuf := buf, fatbufnum := num })
    ⟨tab.kind, tab.some, tab.even, tab.small⟩ cached' number inside

end Imx.Fat
