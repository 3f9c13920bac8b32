import Mathlib.Tactic.Ring
import Imx.Base.Fuel
import Imx.Fat.Entry

/-!
# Reading a FAT file

A file is the clusters of its chain in the FAT. Where the chain is long enough, `getContents` reads
the bytes that are asked for, whatever the buffer of the FAT held before, unless the end that is
asked for is no `loff_t` or the part of the first cluster is larger than the block it is read to.
-/

namespace Imx.Fat
open Imx.Base

variable {disk m m' block : Mem} {dma : Nat} {d d' : Fsdata} {dent : DirEntry}
  {pos p stop i j k n size num : Nat} {maxsize : Int}

/-! ## The file -/

/-- The clusters of a chain, as the FAT has them. -/
def chain (disk : Mem) (d : Fsdata) (first : Nat) : Nat → Nat
  | 0 => first
  | i + 1 => fatEntry disk d (chain disk d first i)

/-- Where the data of a cluster begins. -/
def place (d : Fsdata) (clust : Nat) : Nat :=
  (d.dataBegin + clust * d.clustSize).toNat * d.sectSize

/-- A cluster of the file. -/
def DirEntry.clust (dent : DirEntry) (disk : Mem) (d : Fsdata) (i : Nat) : Nat :=
  chain disk d (dent.startClust d.fatsize) i

/-- A byte of the file. -/
def DirEntry.byte (dent : DirEntry) (disk : Mem) (d : Fsdata) (q : Nat) : UInt8 :=
  disk (locate d.bytesperclust (fun i => place d (dent.clust disk d i)) q)

/-- A cluster of the data of the volume. -/
structure Fsdata.IsData (d : Fsdata) (clust : Nat) : Prop where
  valid : checkClust clust d.fatsize = false
  low : 0 ≤ d.dataBegin + clust * d.clustSize
  high : d.dataBegin + (clust + 1) * d.clustSize ≤ 2 ^ 32

/-- The chain of the file is in range and long enough for its size. -/
structure DirEntry.On (dent : DirEntry) (disk : Mem) (d : Fsdata) : Prop where
  table : d.Table
  clust : 0 < d.clustSize
  size : dent.size < 2 ^ 31
  data : ∀ i, i * d.bytesperclust < dent.size → d.IsData (dent.clust disk d i)
  entry : ∀ i, (i + 1) * d.bytesperclust < dent.size →
    entryEnd d.fatsize (dent.clust disk d i) ≤ d.fatlength * d.sectSize

/-! ## Clusters -/

lemma u32_eq {x : Nat} (lt : x < 2 ^ 32) : u32 x = x := by
  unfold u32
  omega

lemma copySectors_eq {sectSize sect : Nat} (fits : sect + k ≤ 2 ^ 32) :
    copySectors disk sectSize k sect m p =
      m.write p (disk.read (sect * sectSize) (k * sectSize)) := by
  induction k generalizing sect m p with
  | zero => rw [copySectors, Nat.zero_mul, Mem.read_zero, Mem.write_nil]
  | succ k ih =>
    have whole : (k + 1) * sectSize = sectSize + k * sectSize := by
      rw [Nat.succ_mul, Nat.add_comm]
    rw [copySectors, whole, Mem.read_add, Mem.write_append, Mem.length_read]
    cases k with
    | zero => rw [copySectors, Nat.zero_mul, Mem.read_zero, Mem.write_nil]
    | succ k =>
      have next : u32 ((sect : Int) + 1) = sect + 1 := by
        unfold u32
        omega
      rw [next, ih (by omega), Nat.succ_mul]

/-- The first sector of a cluster of the data. -/
lemma Fsdata.IsData.startsect (data : d.IsData num) (clust : 0 < d.clustSize) :
    startsect d num = (d.dataBegin + num * d.clustSize).toNat := by
  have valid := data.valid
  have low := data.low
  have high := data.high
  rw [checkClust, decide_eq_false_iff_not] at valid
  rw [Int.add_mul] at high
  rw [Fat.startsect, if_pos (by omega), u32]
  omega

/-- The bytes of a cluster and of those that follow it are read. -/
lemma getCluster_startsect (some : 0 < d.sectSize)
    (fits : startsect d num * d.sectSize + size ≤ 2 ^ 32 * d.sectSize) :
    getCluster disk dma d num m p size =
      m.write p (disk.read (startsect d num * d.sectSize) size) := by
  unfold getCluster
  generalize startsect d num = s at fits ⊢
  have split : size / d.sectSize * d.sectSize + size % d.sectSize = size :=
    Nat.div_add_mod' size d.sectSize
  have rest : size - size / d.sectSize * d.sectSize = size % d.sectSize := by omega
  have less := Nat.mod_lt size some
  have whole : s + size / d.sectSize ≤ 2 ^ 32 := by
    refine Nat.le_of_mul_le_mul_right (c := d.sectSize) ?_ some
    rw [Nat.add_mul]
    omega
  have sectors : (if p % dma ≠ 0 then
        copySectors disk d.sectSize (size / d.sectSize) s m p
      else
        m.write p (disk.read (s * d.sectSize) (size / d.sectSize * d.sectSize))) =
      m.write p (disk.read (s * d.sectSize) (size / d.sectSize * d.sectSize)) := by
    split
    case isTrue => exact copySectors_eq whole
    case isFalse => rfl
  dsimp only
  rw [sectors, rest]
  by_cases none : size % d.sectSize = 0
  · rw [if_neg (not_not_intro none), show size / d.sectSize * d.sectSize = size by omega]
  have part : s + size / d.sectSize < 2 ^ 32 := by
    refine Nat.lt_of_mul_lt_mul_right (a := d.sectSize) ?_
    rw [Nat.add_mul]
    omega
  have next : u32 ((s : Int) + (size / d.sectSize : Nat)) = s + size / d.sectSize := by
    rw [← Nat.cast_add]
    exact u32_eq part
  rw [if_pos none, next, Mem.read_take, Nat.min_eq_left (Nat.le_of_lt less)]
  conv_rhs => rw [← split, Mem.read_add, Mem.write_append, Mem.length_read]
  rw [Nat.add_mul]

lemma getCluster_eq (data : d.IsData num) (clust : 0 < d.clustSize) (some : 0 < d.sectSize)
    (fits : place d num + size ≤ 2 ^ 32 * d.sectSize) :
    getCluster disk dma d num m p size = m.write p (disk.read (place d num) size) := by
  have sect : startsect d num * d.sectSize = place d num := by rw [data.startsect clust, place]
  rw [getCluster_startsect some (by rw [sect]; exact fits), sect]

lemma place_add (data : d.IsData num) : place d (num + k) = place d num + k * d.bytesperclust := by
  have low := data.low
  have sum : d.dataBegin + ((num + k : Nat) : Int) * d.clustSize =
      d.dataBegin + num * d.clustSize + (k * d.clustSize : Nat) := by
    rw [Nat.cast_add, Int.add_mul, Nat.cast_mul, Int.add_assoc]
  rw [place, place, sum, Int.toNat_add_nat low, Nat.add_mul, Fsdata.bytesperclust, Nat.mul_assoc]

/-! ## The loops -/

/-- What has come of the file when everything from `pos` to `stop` is read. -/
structure Contents.Got (disk : Mem) (d : Fsdata) (dent : DirEntry) (pos p stop : Nat) (m : Mem)
    (out : Contents) : Prop where
  cached : Cached disk out.fs
  recached : Recached d out.fs
  gotsize : out.gotsize = stop - pos
  filled : Filled (fun k => dent.byte disk d (pos + k)) p (stop - pos) m out.m

/-- The loop is in a row of consecutive clusters, from cluster `i` of the file to cluster `j`. -/
structure Cursor.At (disk : Mem) (d : Fsdata) (dent : DirEntry) (pos p stop : Nat) (m : Mem)
    (i j : Nat) (c : Cursor) : Prop where
  cached : Cached disk c.fs
  recached : Recached d c.fs
  curclust : c.curclust = dent.clust disk d i
  endclust : c.endclust = dent.clust disk d j
  le : i ≤ j
  row : ∀ t, i ≤ t → t ≤ j → dent.clust disk d t = dent.clust disk d i + (t - i)
  actsize : c.actsize = (j + 1 - i) * d.bytesperclust
  filesize : c.filesize = stop - i * d.bytesperclust
  ge : pos ≤ i * d.bytesperclust
  lt : j * d.bytesperclust < stop
  buffer : c.buffer = p + (i * d.bytesperclust - pos)
  gotsize : c.gotsize = i * d.bytesperclust - pos
  filled : Filled (fun k => dent.byte disk d (pos + k)) p (i * d.bytesperclust - pos) m c.m

section Reading

variable (on : dent.On disk d)
include on

lemma DirEntry.On.bytesperclust_pos : 0 < d.bytesperclust :=
  Nat.mul_pos on.clust on.table.some

/-- The entry of a cluster that another one follows is read. -/
lemma DirEntry.On.next (re : Recached d d') (cached : Cached disk d')
    (more : (i + 1) * d.bytesperclust < dent.size) :
    (getFatent disk d' (dent.clust disk d i)).1 = dent.clust disk d (i + 1) ∧
      Cached disk (getFatent disk d' (dent.clust disk d i)).2 ∧
      Recached d (getFatent disk d' (dent.clust disk d i)).2 := by
  have inside := on.entry i more
  have tab := on.table
  obtain ⟨buf, number, rfl⟩ := re
  obtain ⟨eq, cached', re'⟩ := getFatent_spec (d := { d with fatbuf := buf, fatbufnum := number })
    ⟨tab.kind, tab.some, tab.even, tab.small⟩ cached inside
  exact ⟨eq, cached', .trans ⟨buf, number, rfl⟩ re'⟩

/-- The bytes of a row of consecutive clusters of the file are read. -/
lemma DirEntry.On.read (dma : Nat) (m : Mem) (p : Nat) (re : Recached d d')
    (row : ∀ t, i ≤ t → t ≤ j → dent.clust disk d t = dent.clust disk d i + (t - i))
    (le : i ≤ j) (inside : j * d.bytesperclust < dent.size)
    (fits : i * d.bytesperclust + size ≤ (j + 1) * d.bytesperclust) :
    getCluster disk dma d' (dent.clust disk d i) m p size =
        m.write p (disk.read (place d (dent.clust disk d i)) size) ∧
      ∀ t < size, disk (place d (dent.clust disk d i) + t) =
        dent.byte disk d (i * d.bytesperclust + t) := by
  have first : i * d.bytesperclust < dent.size :=
    Nat.lt_of_le_of_lt (Nat.mul_le_mul_right _ le) inside
  have data := on.data i first
  have ext : Extent d.bytesperclust (fun t => place d (dent.clust disk d t)) i (j + 1) := by
    refine ⟨Nat.lt_succ_of_le le, fun t ge lt => ?_⟩
    rw [row t ge (Nat.le_of_lt_succ lt), place_add data]
  constructor
  · obtain ⟨buf, number, rfl⟩ := re
    refine getCluster_eq (d := { d with fatbuf := buf, fatbufnum := number })
      ⟨data.valid, data.low, data.high⟩ on.clust on.table.some ?_
    -- the row ends where its last cluster does
    have last := (on.data j inside).high
    rw [row j le (Nat.le_refl j)] at last
    have low := data.low
    have sectors : (d.dataBegin + dent.clust disk d i * d.clustSize).toNat +
        (j + 1 - i) * d.clustSize ≤ 2 ^ 32 := by
      have sum : ((dent.clust disk d i + (j - i) : Nat) + 1 : Int) * d.clustSize =
          dent.clust disk d i * d.clustSize + ((j + 1 - i) * d.clustSize : Nat) := by
        rw [show j + 1 - i = j - i + 1 by omega]
        push_cast
        ring
      rw [sum] at last
      omega
    have bytes := Nat.mul_le_mul_right d.sectSize sectors
    rw [Nat.add_mul, Nat.mul_assoc (j + 1 - i)] at bytes
    change _ + (j + 1 - i) * d.bytesperclust ≤ _ at bytes
    rw [Nat.sub_mul] at bytes
    show (d.dataBegin + dent.clust disk d i * d.clustSize).toNat * d.sectSize + size ≤ _
    show _ ≤ 2 ^ 32 * d.sectSize
    omega
  · intro t lt
    rw [DirEntry.byte, ext.locate (Nat.le_add_right ..) (by omega), Nat.add_sub_cancel_left]

/-- The part of the row up to an end is read behind what is there. -/
lemma Cursor.At.read {c : Cursor} (at_ : c.At disk d dent pos p stop m i j) (dma size : Nat)
    (stop_le : stop ≤ dent.size) (re : Recached d d')
    (fits : i * d.bytesperclust + size ≤ (j + 1) * d.bytesperclust) :
    Filled (fun k => dent.byte disk d (pos + k)) p (i * d.bytesperclust - pos + size) m
      (getCluster disk dma d' c.curclust c.m c.buffer size) := by
  have lt := at_.lt
  have ge := at_.ge
  obtain ⟨eq, bytes⟩ := on.read dma c.m c.buffer re at_.row at_.le (by omega) fits
  rw [at_.curclust, eq, at_.buffer]
  refine at_.filled.copy fun t less => ?_
  rw [bytes t less]
  congr 1
  omega

/-- The loop reads the file to the end that is asked for. -/
lemma Cursor.At.loop {c : Cursor} (at_ : c.At disk d dent pos p stop m i j)
    (stop_le : stop ≤ dent.size) (fuel : stop ≤ (j + k) * d.bytesperclust) :
    ∃ out, clustLoop disk dma k c = some out ∧ out.Got disk d dent pos p stop m := by
  have bpc := on.bytesperclust_pos
  induction k generalizing c i j with
  | zero =>
    have lt := at_.lt
    rw [Nat.add_zero] at fuel
    omega
  | succ k ih =>
    have lt := at_.lt
    have ge := at_.ge
    have le := Nat.mul_le_mul_right d.bytesperclust at_.le
    have succ : (j + 1) * d.bytesperclust = j * d.bytesperclust + d.bytesperclust := Nat.succ_mul ..
    have act : c.actsize = (j + 1) * d.bytesperclust - i * d.bytesperclust := by
      rw [at_.actsize, Nat.sub_mul]
    have file := at_.filesize
    unfold clustLoop
    by_cases more : c.actsize < c.filesize
    case neg =>
      rw [if_neg more]
      refine ⟨_, rfl, at_.cached, at_.recached, ?_, ?_⟩
      · dsimp only
        rw [at_.gotsize]
        omega
      · have filled := at_.read on dma c.filesize stop_le at_.recached (by omega)
        rwa [show i * d.bytesperclust - pos + c.filesize = stop - pos by omega] at filled
    have next : (j + 1) * d.bytesperclust < stop := by omega
    have data := on.data (j + 1) (by omega)
    have valid := data.valid
    obtain ⟨entry, cached, re⟩ := on.next at_.recached at_.cached (i := j) (by omega)
    rw [if_pos more, at_.endclust]
    generalize getFatent disk c.fs (dent.clust disk d j) = got at entry cached re ⊢
    obtain ⟨newclust, fs⟩ := got
    dsimp only at entry cached re ⊢
    subst entry
    have small : dent.clust disk d (j + 1) < 2 ^ 32 ∧ 0 < dent.clust disk d (j + 1) := by
      rw [checkClust, decide_eq_false_iff_not, badClust] at valid
      split_ifs at valid <;> omega
    have before : u32 ((dent.clust disk d (j + 1) : Int) - 1) = dent.clust disk d (j + 1) - 1 := by
      unfold u32
      omega
    rw [before]
    have fuel' : stop ≤ (j + 1 + k) * d.bytesperclust := by
      rw [show j + 1 + k = j + (k + 1) by omega]
      exact fuel
    have ij := at_.le
    by_cases row : dent.clust disk d (j + 1) - 1 = dent.clust disk d j
    case pos =>
      rw [if_neg (not_not_intro row), re.same.1, valid, if_neg Bool.false_ne_true]
      refine ih (i := i) (j := j + 1) ?_ fuel'
      refine ⟨cached, re, at_.curclust, rfl, Nat.le_succ_of_le ij, fun t ge' le' => ?_, ?_, file,
        ge, next, at_.buffer, at_.gotsize, at_.filled⟩
      · obtain less | rfl := Nat.lt_or_eq_of_le le'
        · exact at_.row t ge' (Nat.le_of_lt_succ less)
        · have last := at_.row j ij (Nat.le_refl j)
          omega
      · dsimp only
        rw [at_.actsize, re.same.2, ← Nat.succ_mul]
        congr 1
        omega
    -- getit
    rw [if_pos row]
    have filled := at_.read on dma c.actsize stop_le re (by omega)
    obtain ⟨entry, cached', re'⟩ := on.next re cached (i := j) (by omega)
    generalize getFatent disk fs (dent.clust disk d j) = got at entry cached' re' ⊢
    obtain ⟨curclust, fs'⟩ := got
    dsimp only at entry cached' re' ⊢
    subst entry
    rw [re'.same.1, valid, if_neg Bool.false_ne_true]
    refine ih (i := j + 1) (j := j + 1) ?_ fuel'
    refine ⟨cached', re', rfl, rfl, Nat.le_refl _, fun t ge' le' => ?_, ?_, ?_, by omega, next,
      ?_, ?_, ?_⟩
    · obtain rfl : t = j + 1 := by omega
      rw [Nat.sub_self]
      rfl
    · dsimp only
      rw [re'.same.2, Nat.add_sub_cancel_left, Nat.one_mul]
    · dsimp only
      omega
    · dsimp only
      rw [at_.buffer]
      omega
    · dsimp only
      rw [at_.gotsize]
      omega
    · rwa [show i * d.bytesperclust - pos + c.actsize = (j + 1) * d.bytesperclust - pos by omega]
        at filled

/-- The loop comes to the cluster of `pos`. -/
lemma gotoClust_spec (pos_lt : pos < dent.size) (re : Recached d d') (cached : Cached disk d')
    (ge : i * d.bytesperclust ≤ pos) (fuel : pos < (i + k) * d.bytesperclust) :
    ∃ fs j, gotoClust disk k d' pos (dent.clust disk d i) ((i + 1) * d.bytesperclust) =
        some (fs, some (dent.clust disk d j, (j + 1) * d.bytesperclust)) ∧
      Recached d fs ∧ Cached disk fs ∧ j * d.bytesperclust ≤ pos ∧
        pos < (j + 1) * d.bytesperclust := by
  induction k generalizing i d' with
  | zero =>
    rw [Nat.add_zero] at fuel
    omega
  | succ k ih =>
    unfold gotoClust
    by_cases more : (i + 1) * d.bytesperclust ≤ pos
    case neg =>
      rw [if_neg more]
      exact ⟨d', i, rfl, re, cached, ge, by omega⟩
    obtain ⟨entry, cached', re'⟩ := on.next re cached (i := i) (by omega)
    have data := on.data (i + 1) (by omega)
    rw [if_pos more]
    generalize getFatent disk d' (dent.clust disk d i) = got at entry cached' re' ⊢
    obtain ⟨curclust, fs⟩ := got
    dsimp only at entry cached' re' ⊢
    subst entry
    rw [re'.same.1, data.valid, if_neg Bool.false_ne_true, re'.same.2, ← Nat.succ_mul]
    exact ih re' cached' more (by rw [show i + 1 + k = i + (k + 1) by omega]; exact fuel)

end Reading

/-! ## The whole of it -/

/-- How many bytes are asked for. -/
def DirEntry.wanted (dent : DirEntry) (pos : Nat) (maxsize : Int) : Nat :=
  if 0 < maxsize then min maxsize.toNat (dent.size - pos) else dent.size - pos

/-- What is asked for is read, and nothing else is stored. -/
def DirEntry.Reads (dent : DirEntry) (dma : Nat) (disk : Mem) (d : Fsdata) (pos p : Nat)
    (maxsize : Int) : Prop :=
  ∀ block m, ∃ out, Gives (fun k => getContents disk dma k d block m dent pos p maxsize) out ∧
    out.Got disk d dent pos p (pos + dent.wanted pos maxsize) m

/-- From the cluster of `pos` on the file is read if the block holds the part of it. -/
lemma getRest_spec (dma : Nat) (block m : Mem) (p : Nat) (on : dent.On disk d)
    (re : Recached d d') (cached : Cached disk d') (lt : pos < stop)
    (stop_le : stop ≤ dent.size) (ge : i * d.bytesperclust ≤ pos)
    (less : pos < (i + 1) * d.bytesperclust) (fuel : stop ≤ (i + k) * d.bytesperclust)
    (room : pos - i * d.bytesperclust ≠ 0 →
      min (stop - i * d.bytesperclust) d.bytesperclust ≤ maxClustsize) :
    ∃ out, getRest disk dma k d' block m (pos - i * d.bytesperclust) (dent.clust disk d i)
        (stop - i * d.bytesperclust) p = some out ∧ out.Got disk d dent pos p stop m := by
  have succ : (i + 1) * d.bytesperclust = i * d.bytesperclust + d.bytesperclust := Nat.succ_mul ..
  have one : ∀ j t, j ≤ t → t ≤ j → dent.clust disk d t = dent.clust disk d j + (t - j) := by
    intro j t ge le
    obtain rfl : t = j := by omega
    rw [Nat.sub_self]
    rfl
  unfold getRest
  by_cases aligned : pos - i * d.bytesperclust = 0
  case pos =>
    rw [if_neg (not_not_intro aligned)]
    refine Cursor.At.loop on (i := i) (j := i) ?_ stop_le fuel
    have zero : i * d.bytesperclust - pos = 0 := by omega
    refine ⟨cached, re, rfl, rfl, Nat.le_refl i, one i, ?_, rfl, by omega, by omega, ?_, ?_, ?_⟩
    · dsimp only
      rw [re.same.2, Nat.add_sub_cancel_left, Nat.one_mul]
    · dsimp only
      omega
    · dsimp only
      omega
    · rw [zero]
      exact .zero
  rw [if_pos aligned, re.same.2]
  obtain ⟨act, which⟩ : ∃ act, min (stop - i * d.bytesperclust) d.bytesperclust = act := ⟨_, rfl⟩
  rw [which, if_neg (Nat.not_lt_of_le (which ▸ room aligned))]
  obtain ⟨eq, bytes⟩ := on.read dma block 0 re (one i) (Nat.le_refl i)
    (by omega) (show i * d.bytesperclust + act ≤ _ by omega)
  rw [eq]
  -- the part of the first cluster
  have filled : Filled (fun k => dent.byte disk d (pos + k)) p (act - (pos - i * d.bytesperclust)) m
      (m.write p ((block.write 0 (disk.read (place d (dent.clust disk d i)) act)).read
        (pos - i * d.bytesperclust) (act - (pos - i * d.bytesperclust)))) := by
    have copy : Filled (fun k => dent.byte disk d (pos + k)) p
        (0 + (act - (pos - i * d.bytesperclust))) m (m.write (p + 0)
          ((block.write 0 (disk.read (place d (dent.clust disk d i)) act)).read
            (pos - i * d.bytesperclust) (act - (pos - i * d.bytesperclust)))) := by
      refine Filled.zero.copy fun t lt => ?_
      have here : (block.write 0 (disk.read (place d (dent.clust disk d i)) act))
          (0 + (pos - i * d.bytesperclust + t)) =
          disk (place d (dent.clust disk d i) + (pos - i * d.bytesperclust + t)) :=
        copied (by omega)
      rw [Nat.zero_add] at here
      rw [here, bytes _ (by omega), Nat.zero_add]
      congr 1
      omega
    rwa [Nat.zero_add, Nat.add_zero] at copy
  dsimp only
  by_cases done : stop - i * d.bytesperclust - act = 0
  case pos =>
    have whole : act - (pos - i * d.bytesperclust) = stop - pos := by omega
    rw [if_pos done]
    exact ⟨_, rfl, cached, re, whole, whole ▸ filled⟩
  rw [if_neg done]
  obtain ⟨entry, cached', re'⟩ := on.next re cached (i := i) (by omega)
  have data := on.data (i + 1) (by omega)
  have part : act - (pos - i * d.bytesperclust) = (i + 1) * d.bytesperclust - pos := by omega
  generalize getFatent disk d' (dent.clust disk d i) = got at entry cached' re' ⊢
  obtain ⟨curclust, fs⟩ := got
  dsimp only at entry cached' re' ⊢
  subst entry
  rw [re'.same.1, data.valid, if_neg Bool.false_ne_true, re'.same.2]
  have fuel' : stop ≤ (i + 1 + k) * d.bytesperclust :=
    Nat.le_trans fuel (Nat.mul_le_mul_right _ (by omega))
  refine Cursor.At.loop on (i := i + 1) (j := i + 1) ?_ stop_le fuel'
  refine ⟨cached', re', rfl, rfl, Nat.le_refl _, one (i + 1), ?_, ?_, by omega, by omega, ?_, ?_,
    ?_⟩
  · rw [Nat.add_sub_cancel_left, Nat.one_mul]
  · dsimp only
    omega
  · dsimp only
    rw [part]
  · exact part
  · exact part ▸ filled

lemma gotoClust_mono {curclust act : Nat} {r : Fsdata × Option (Nat × Nat)}
    (h : gotoClust disk k d pos curclust act = some r) :
    gotoClust disk (k + 1) d pos curclust act = some r := by
  induction k generalizing d curclust act with
  | zero => cases h
  | succ k ih =>
    rw [gotoClust] at h ⊢
    dsimp only at h ⊢
    split_ifs at h ⊢
    · exact h
    · exact ih h
    · exact h

lemma clustLoop_mono {c : Cursor} {out : Contents} (h : clustLoop disk dma k c = some out) :
    clustLoop disk dma (k + 1) c = some out := by
  induction k generalizing c with
  | zero => cases h
  | succ k ih =>
    rw [clustLoop] at h ⊢
    dsimp only at h ⊢
    split_ifs at h ⊢
    · exact h
    · exact ih h
    · exact h
    · exact ih h
    · exact h

lemma getRest_mono {curclust filesize : Nat} {out : Contents}
    (h : getRest disk dma k d block m pos curclust filesize p = some out) :
    getRest disk dma (k + 1) d block m pos curclust filesize p = some out := by
  unfold getRest at h ⊢
  dsimp only at h ⊢
  split_ifs at h ⊢
  · exact h
  · exact h
  · exact clustLoop_mono h
  · exact clustLoop_mono h

lemma getContents_mono {out : Contents}
    (h : getContents disk dma k d block m dent pos p maxsize = some out) :
    getContents disk dma (k + 1) d block m dent pos p maxsize = some out := by
  unfold getContents at h ⊢
  by_cases past : dent.size ≤ pos
  case pos =>
    rw [if_pos past] at h ⊢
    exact h
  by_cases range : 0 < maxsize ∧ 2 ^ 63 ≤ (pos : Int) + maxsize
  case pos =>
    rw [if_neg past, if_pos range] at h
    cases h
  rw [if_neg past, if_neg range] at h ⊢
  dsimp only at h ⊢
  split at h
  case h_1 => cases h
  case h_2 goto =>
    rw [gotoClust_mono goto]
    exact h
  case h_3 goto =>
    rw [gotoClust_mono goto]
    exact getRest_mono h

/-- The loop in front comes to the cluster of `pos`, whatever the block and the buffer hold. -/
lemma getContents_eq (dma : Nat) (block m : Mem) (p : Nat) (on : dent.On disk d)
    (cached : Cached disk d) (lt : pos < dent.size)
    (range : 0 < maxsize → pos + maxsize < 2 ^ 63) (fuel : dent.size ≤ k) :
    ∃ fs, Recached d fs ∧ Cached disk fs ∧
      getContents disk dma k d block m dent pos p maxsize =
        getRest disk dma k fs block m (pos - pos / d.bytesperclust * d.bytesperclust)
          (dent.clust disk d (pos / d.bytesperclust))
          (pos + dent.wanted pos maxsize - pos / d.bytesperclust * d.bytesperclust) p := by
  have bpc := on.bytesperclust_pos
  have enough : k ≤ k * d.bytesperclust := Nat.le_mul_of_pos_right k bpc
  obtain ⟨fs, j, goto, re, cached', ge, less⟩ := gotoClust_spec (i := 0) (k := k) on lt .refl cached
    (by omega) (by rw [Nat.zero_add]; omega)
  rw [Nat.zero_add, Nat.one_mul] at goto
  have number : pos / d.bytesperclust = j :=
    Nat.div_eq_of_lt_le ge less
  have file : (if 0 < maxsize ∧ (pos : Int) + maxsize < dent.size then pos + maxsize.toNat
      else dent.size) = pos + dent.wanted pos maxsize := by
    unfold DirEntry.wanted
    split_ifs <;> omega
  refine ⟨fs, re, cached', ?_⟩
  unfold getContents
  rw [if_neg (Nat.not_le_of_lt lt), if_neg (fun h => absurd (range h.1) (by omega)), file]
  change gotoClust disk k d pos (dent.startClust d.fatsize) d.bytesperclust = _ at goto
  rw [goto]
  dsimp only
  rw [re.same.2, number, Nat.succ_mul, Nat.add_sub_cancel]

lemma getContents_overflow (lt : pos < dent.size) (some : 0 < maxsize)
    (big : 2 ^ 63 ≤ pos + maxsize) :
    getContents disk dma k d block m dent pos p maxsize = none := by
  rw [getContents, if_neg (Nat.not_le_of_lt lt), if_pos ⟨some, big⟩]

/-- Reading a part of a file gives exactly that part if and only if the end that is asked for is a
`loff_t`, and the block holds the part of a first cluster that does not begin with `pos`. -/
theorem getContents_iff (on : dent.On disk d) (cached : Cached disk d) :
    dent.Reads dma disk d pos p maxsize ↔ (pos < dent.size →
      (0 < maxsize → pos + maxsize < 2 ^ 63) ∧
      (pos % d.bytesperclust ≠ 0 →
        min (pos + dent.wanted pos maxsize - pos / d.bytesperclust * d.bytesperclust)
          d.bytesperclust ≤ maxClustsize)) := by
  have bpc := on.bytesperclust_pos
  have split := Nat.div_add_mod' pos d.bytesperclust
  have less := Nat.mod_lt pos bpc
  have offset : pos - pos / d.bytesperclust * d.bytesperclust = pos % d.bytesperclust := by omega
  constructor
  · intro reads lt
    obtain ⟨out, ⟨k, gives⟩, -⟩ := reads Mem.zero Mem.zero
    have done := gives (max k dent.size) (Nat.le_max_left ..)
    have range : 0 < maxsize → pos + maxsize < 2 ^ 63 := by
      intro some
      by_contra big
      cases (getContents_overflow lt some (by omega)).symm.trans done
    refine ⟨range, fun part => ?_⟩
    by_contra large
    obtain ⟨fs, re, -, eq⟩ := getContents_eq dma Mem.zero Mem.zero p
      on cached lt range (Nat.le_max_right k dent.size)
    dsimp only at done
    rw [eq, getRest, if_pos (offset ▸ part), re.same.2, if_pos (Nat.lt_of_not_le large)] at done
    cases done
  · intro fine block m
    by_cases lt : pos < dent.size
    case neg =>
      have none : dent.wanted pos maxsize = 0 := by
        unfold DirEntry.wanted
        split_ifs <;> omega
      refine ⟨⟨d, m, 0⟩, ⟨0, fun k _ => if_pos (Nat.le_of_not_lt lt)⟩, cached, .refl, ?_, ?_⟩
      · rw [none]
        exact (Nat.sub_self pos).symm
      · rw [none, Nat.add_zero, Nat.sub_self]
        exact .zero
    obtain ⟨range, room⟩ := fine lt
    have wanted : 0 < dent.wanted pos maxsize ∧ pos + dent.wanted pos maxsize ≤ dent.size := by
      unfold DirEntry.wanted
      split_ifs <;> omega
    obtain ⟨fs, re, cached', eq⟩ := getContents_eq dma block m p
      on cached lt range (Nat.le_refl dent.size)
    have enough : dent.size ≤ dent.size * d.bytesperclust := Nat.le_mul_of_pos_right _ bpc
    obtain ⟨out, rest, got⟩ := getRest_spec (k := dent.size)
      dma block m p on re cached' (show pos < pos + dent.wanted pos maxsize by omega) wanted.2
      (show pos / d.bytesperclust * d.bytesperclust ≤ pos by omega)
      (by rw [Nat.succ_mul]; omega) (by rw [Nat.add_mul]; omega) (fun ne => room (offset ▸ ne))
    exact ⟨out, gives_of_mono (fun _ => getContents_mono) (eq.trans rest), got⟩

/-! ## A file of two clusters -/

/-- A disk with the entry 3 of cluster 2 in a FAT of one sector. -/
def twoDisk : Mem := fun a => if a = 515 then 3 else if a < 1024 then 0 else UInt8.ofNat (a / 7)

def twoFs : Fsdata := ⟨Mem.zero, 12, 1, 1, 2, 512, 1, 2, 2 ^ 32 - 1⟩

def twoFile : DirEntry := ⟨0, 2, 600⟩

lemma two_on : twoFile.On twoDisk twoFs := by
  refine ⟨⟨.inr (.inr rfl), by decide, by decide, by decide⟩, by decide, by decide, fun i lt => ?_,
    fun i lt => ?_⟩
  · have lt : i * 512 < 600 := lt
    obtain rfl | rfl : i = 0 ∨ i = 1 := by omega
    · exact ⟨by decide, by decide, by decide⟩
    · exact ⟨by decide, by decide, by decide⟩
  · have lt : (i + 1) * 512 < 600 := lt
    obtain rfl : i = 0 := by omega
    decide

/-- From byte 100 on to the end. -/
theorem getContents_two : twoFile.Reads 64 twoDisk twoFs 100 1000 0 := by
  refine (getContents_iff two_on (cached_none two_on.table rfl)).mpr fun _ =>
    ⟨fun some => ?_, fun _ => ?_⟩
  · exact absurd some (by decide)
  · decide

/-- With a limit that `pos` cannot be added to. -/
theorem not_getContents_limit : twoFile.On twoDisk twoFs ∧ Cached twoDisk twoFs ∧
    ¬ twoFile.Reads 64 twoDisk twoFs 1 1000 (2 ^ 63 - 1) := by
  refine ⟨two_on, cached_none two_on.table rfl, fun reads => ?_⟩
  obtain ⟨out, ⟨k, gives⟩, -⟩ := reads Mem.zero Mem.zero
  have none : getContents twoDisk 64 k twoFs Mem.zero Mem.zero twoFile 1 1000 (2 ^ 63 - 1) = none :=
    getContents_overflow (by decide) (by decide) (by decide)
  cases none.symm.trans (gives k (Nat.le_refl k))

end Imx.Fat
