import Imx.Fat.Directory
import Imx.Fat.VfatName

/-!
# Long names, written and read

What `fill_dir_slot` stores for a name is what `get_vfatname` gives of it, with the entry behind the
slots, also where they go on in a new cluster. But only 9 slots are read of the 20 that are written,
and a first character that is the mark of a deleted entry, or stands for it, is taken for one.
-/

namespace Imx.Fat
open Imx.Base

variable {disk buffer block : Mem} {d : Fsdata} {w w' : Writer} {dma n : Nat}
  {name entry bytes : List UInt8} {ss as bs : List DirSlot}
  {items front back : List (List UInt8)}

/-- What `get_vfatname` is called with for an entry of a directory: the cluster, the buffer it is
read to and the entry there. A directory that is no chain is the root directory in front of the data,
which is read `PREFETCH_BLOCKS` sectors at a time, from each of its sectors on. -/
def readDir (disk : Mem) (dma : Nat) (d : Fsdata) (clust dent : Nat) (buffer : Mem) :
    Nat × Mem × Nat :=
  if checkClust clust d.fatsize then
    let cursect := startsect d clust + 32 * dent / d.sectSize
    (0, buffer.write 0 (disk.read (cursect * d.sectSize) (prefetchBlocks * d.sectSize)),
      32 * dent % d.sectSize / 32)
  else
    (clust, getCluster disk dma d clust buffer 0 d.bytesperclust, dent)

namespace Writer

/-- The cluster and the entry of it where the first slot is stored. -/
def firstSlot (w : Writer) : Nat × Nat := (w.nextClust.dirCurclust, w.nextClust.dentptr)

/-- Whoever reads the directory after the name was written comes to its first slot, and is given the
name in lower case and the entry. -/
def Decodes (w : Writer) (dma : Nat) (name entry : List UInt8) : Prop :=
  ∀ d buffer block, Recached w.fs d → Cached (w.addEntry name entry).disk d →
    let disk := (w.addEntry name entry).disk
    let (clust, dent) := w.firstSlot
    (clust = w.dirCurclust ∨ (getFatent disk d w.dirCurclust).1 = clust) ∧
      let (curclust, cluster, retdent) := readDir disk dma d clust dent buffer
      getVfatname disk dma d curclust cluster block retdent = some (downcase name, entry)

/-- There is a free place in a cluster of the directory, or at its end. -/
structure Fit (w : Writer) : Prop where
  table : w.fs.Table
  sector : 512 ∣ w.fs.sectSize
  clust : 0 < w.fs.clustSize
  block : w.fs.bytesperclust ≤ maxClustsize
  free : 32 * w.dentptr ≤ w.fs.bytesperclust
  inside : startsect w.fs w.dirCurclust + w.fs.clustSize ≤ w.totalSector
  total : w.totalSector < 2 ^ 32

/-- The slots of a name and its entry fit into the cluster, or the directory is a chain on a FAT that
can be written, with as many empty clusters as they take. -/
def Ready (w : Writer) (name : List UInt8) : Prop :=
  32 * (w.dentptr + (slotCount name + 1)) ≤ w.fs.bytesperclust ∨
    w.Chained ∧ ∃ n, w.Room n ∧
      32 * (w.dentptr + (slotCount name + 1)) ≤ w.fs.bytesperclust * (n + 1)

/-- What is stored for a name. -/
def itemsOf (ss : List DirSlot) (entry : List UInt8) : List (List UInt8) :=
  ss.reverse.map DirSlot.bytes ++ [entry]

/-- The disk when the last cluster of the directory is written. -/
def finish (w : Writer) : Mem := (w.setCluster w.dirCurclust w.fs.bytesperclust).2.disk

lemma addEntry_disk (w : Writer) (name entry : List UInt8) : ∃ checksum,
    (w.addEntry name entry).disk = (w.stores (itemsOf (slotsFrom checksum 0 name) entry)).finish := by
  obtain ⟨checksum, eq⟩ := fillDirSlot_put w name entry
  refine ⟨checksum, ?_⟩
  rw [addEntry, eq]
  rfl

lemma itemsOf_len (whole : ∀ s ∈ ss, s.Whole) (len : entry.length = 32) :
    ∀ b ∈ itemsOf ss entry, b.length = 32 := by
  intro b mem
  obtain slot | last := List.mem_append.mp mem
  · obtain ⟨s, mem', rfl⟩ := List.mem_map.mp slot
    exact (whole s (List.mem_reverse.mp mem')).length
  · rw [List.mem_singleton.mp last, len]

lemma length_itemsOf : (itemsOf ss entry).length = ss.length + 1 := by
  rw [itemsOf, List.length_append, List.length_map, List.length_reverse]
  rfl

lemma Fit.sect_ge (fit : w.Fit) : 512 ≤ w.fs.sectSize :=
  Nat.le_of_dvd fit.table.some fit.sector

lemma Fit.bytes_ge (fit : w.Fit) : w.fs.sectSize ≤ w.fs.bytesperclust :=
  Nat.le_mul_of_pos_left _ fit.clust

lemma Fit.unit (fit : w.Fit) : 32 ∣ w.fs.bytesperclust :=
  Dvd.dvd.mul_left (.trans (by decide) fit.sector) _

/-! ## Reading a directory -/

/-- An entry of the directory and what lies behind it are read as they are on the disk. -/
lemma readDir_spec (disk buffer : Mem) (dma clust dent len : Nat) (re : Recached w.fs d)
    (some : 0 < w.fs.sectSize)
    (sector : 32 ∣ w.fs.sectSize)
    (fits : startsect w.fs clust + w.fs.clustSize ≤ 2 ^ 32)
    (inside : 32 * dent + len ≤ w.fs.bytesperclust) (few : len ≤ w.fs.sectSize) :
    ∃ curclust cluster retdent, readDir disk dma d clust dent buffer =
        (curclust, cluster, retdent) ∧
      (checkClust clust w.fs.fatsize = false → curclust = clust ∧ retdent = dent) ∧
      32 * retdent + len ≤
        d.sectSize * (if curclust = 0 then prefetchBlocks else d.clustSize) ∧
      cluster.read (32 * retdent) len =
        disk.read (startsect w.fs clust * w.fs.sectSize + 32 * dent) len := by
  obtain ⟨buf, num, rfl⟩ := re
  unfold readDir
  by_cases root : checkClust clust w.fs.fatsize
  case pos =>
    rw [if_pos root]
    refine ⟨_, _, _, rfl, fun valid => absurd root (by rw [valid]; decide), ?_, ?_⟩
    all_goals
      dsimp only
      have less := Nat.mod_lt (32 * dent) some
      have unit : 32 ∣ 32 * dent % w.fs.sectSize :=
        (Nat.dvd_mod_iff sector).mpr (Nat.dvd_mul_right 32 dent)
      rw [Nat.mul_div_cancel' unit]
    · rw [if_pos rfl, prefetchBlocks]
      omega
    · refine Mem.read_congr fun i lt => ?_
      have here : 32 * dent % w.fs.sectSize + i < prefetchBlocks * w.fs.sectSize := by
        rw [prefetchBlocks]
        omega
      have split := Nat.div_add_mod' (32 * dent) w.fs.sectSize
      have byte := @copied _ _ ((startsect w.fs clust + 32 * dent / w.fs.sectSize) * w.fs.sectSize)
        buffer disk 0 here
      rw [Nat.zero_add] at byte
      refine byte.trans (congrArg disk ?_)
      rw [Nat.add_mul]
      omega
  case neg =>
    have nonzero : clust ≠ 0 := fun zero => root (by rw [zero]; rfl)
    rw [if_neg root]
    refine ⟨_, _, _, rfl, fun _ => ⟨rfl, rfl⟩, ?_, ?_⟩
    · rw [if_neg nonzero]
      show 32 * dent + len ≤ w.fs.sectSize * w.fs.clustSize
      rw [Nat.mul_comm w.fs.sectSize]
      exact inside
    · have bytes := Nat.mul_le_mul_right w.fs.sectSize fits
      rw [Nat.add_mul] at bytes
      have read := @getCluster_startsect disk buffer dma
        { w.fs with fatbuf := buf, fatbufnum := num } 0 _ clust some bytes
      change getCluster _ _ _ _ _ 0 w.fs.bytesperclust = _ at read
      change (getCluster _ _ _ _ _ 0 w.fs.bytesperclust).read _ _ = _
      rw [read]
      refine Mem.read_congr fun i lt => ?_
      have byte := @copied _ _ (startsect w.fs clust * w.fs.sectSize) buffer disk 0
        (show 32 * dent + i < w.fs.bytesperclust by omega)
      rw [Nat.zero_add] at byte
      refine byte.trans (congrArg disk ?_)
      rw [Nat.add_assoc]

/-- The slots and the entry in what was stored. -/
lemma read_items {m : Mem} {i : Nat} (whole : ∀ s ∈ ss, s.Whole) (len : entry.length = 32)
    (read : m.read (32 * i) (32 * (ss.length + 1)) = (itemsOf ss entry).flatten) :
    Down m (i + ss.length) ss ∧ m.read (32 * (i + ss.length)) 32 = entry := by
  rw [itemsOf, List.flatten_append, List.flatten_singleton, Nat.mul_succ, Mem.read_add] at read
  have tail : (m.read (32 * i + 32 * ss.length) 32).length = entry.length := by
    rw [Mem.length_read, len]
  obtain ⟨front, back⟩ := List.append_inj' read tail
  rw [Nat.mul_add, back]
  exact ⟨down_of_read whole (by rw [front, List.flatMap_def]), rfl⟩

lemma length_flatten_items (len : ∀ b ∈ items, b.length = 32) :
    items.flatten.length = 32 * items.length := by
  rw [List.length_flatten, List.map_congr_left len, List.map_const', List.sum_replicate_nat,
    Nat.mul_comm]

/-- Entries that fit are on the disk when the cluster is written. -/
lemma Fit.finish (fit : w.Fit) (len : ∀ b ∈ items, b.length = 32)
    (fits : 32 * (w.dentptr + items.length) ≤ w.fs.bytesperclust) :
    (w.stores items).finish.read
        (startsect w.fs w.dirCurclust * w.fs.sectSize + 32 * w.dentptr) (32 * items.length) =
      items.flatten := by
  have total := length_flatten_items len
  rw [stores_fit fits len, Writer.finish]
  dsimp only
  rw [setCluster_eq (w := { w with
    block := w.block.write (32 * w.dentptr) items.flatten
    dentptr := w.dentptr + items.length }) fit.clust fit.table.some fit.inside]
  dsimp only
  conv_rhs => rw [← Mem.read_write_self (m := w.block) (a := 32 * w.dentptr) total]
  refine Mem.read_congr fun i lt => ?_
  rw [Nat.add_assoc, copied (by omega), Nat.zero_add]

/-- A name whose slots and entry fit into the cluster. -/
lemma Fit.read_one (fit : w.Fit) (spells : Spells 0 ss name) (whole : ∀ s ∈ ss, s.Whole)
    (len : entry.length = 32) (few : ss.length ≤ vfatMaxseq)
    (fits : 32 * (w.dentptr + (ss.length + 1)) ≤ w.fs.bytesperclust)
    (re : Recached w.fs d) (buffer block : Mem) (dma : Nat) :
    let disk := (w.stores (itemsOf ss entry)).finish
    let (curclust, cluster, retdent) := readDir disk dma d w.dirCurclust w.dentptr buffer
    getVfatname disk dma d curclust cluster block retdent = some (nameOf name, entry) := by
  have stored := fit.finish (itemsOf_len whole len) (by rwa [length_itemsOf])
  have sector := fit.sector
  have some := fit.table.some
  have inside := fit.inside
  have total := fit.total
  rw [length_itemsOf] at stored
  dsimp only
  generalize (w.stores (itemsOf ss entry)).finish = disk at stored ⊢
  unfold vfatMaxseq at few
  obtain ⟨curclust, cluster, retdent, eq, -, room, read⟩ := readDir_spec
    disk buffer dma w.dirCurclust w.dentptr (32 * (ss.length + 1)) re some
    (.trans (by decide) sector) (by omega) (by omega) (by omega)
  rw [eq]
  dsimp only
  obtain ⟨down, last⟩ := read_items whole len (read.trans stored)
  rw [getVfatname_one spells few down (by omega), last]

/-! ## Over the end of a cluster -/

/-- The entries go on in one other cluster. -/
lemma Chained.finish_two (chained : w.Chained) (room : w.Room 1) (unit : 32 ∣ w.fs.bytesperclust)
    (len : ∀ b ∈ front ++ back, b.length = 32)
    (edge : 32 * (w.dentptr + front.length) = w.fs.bytesperclust) (some : back ≠ [])
    (fits : 32 * back.length ≤ w.fs.bytesperclust) :
    ∃ e, w.Clust e ∧ (front = [] → w.firstSlot = (e, 0)) ∧
      fatEntry (w.stores (front ++ back)).finish w.fs w.dirCurclust = e ∧
      (w.stores (front ++ back)).finish.read (place w.fs w.dirCurclust + 32 * w.dentptr)
        (32 * front.length) = front.flatten ∧
      (w.stores (front ++ back)).finish.read (place w.fs e) (32 * back.length) = back.flatten := by
  have len₁ : ∀ b ∈ front, b.length = 32 := fun b mem => len b (List.mem_append_left _ mem)
  have len₂ : ∀ b ∈ back, b.length = 32 := fun b mem => len b (List.mem_append_right _ mem)
  have total₁ := length_flatten_items len₁
  have total₂ := length_flatten_items len₂
  -- the cluster is full
  rw [stores_append, stores_fit (Nat.le_of_eq edge) len₁]
  generalize full : ({ w with
    block := w.block.write (32 * w.dentptr) front.flatten
    dentptr := w.dentptr + front.length } : Writer) = w₁
  obtain ⟨re₁, chained₁, room₁, holds₁⟩ : Recached w.fs w₁.fs ∧ w₁.Chained ∧ w₁.Room 1 ∧
      Holds w₁ w.dirCurclust (32 * w.dentptr) front.flatten := by
    subst full
    refine ⟨.refl, chained.block, room.block, by rw [total₁, ← Nat.mul_add]; exact Nat.le_of_eq edge,
      fun _ => ⟨?_, Mem.read_write_self rfl⟩, fun ne => absurd rfl ne⟩
    rw [total₁]
    exact Nat.le_of_eq (Nat.mul_add ..).symm
  obtain ⟨e, goes⟩ := flushDirTable_goes chained₁ room₁
  have chained₂ := goes.chained chained₁
  have holds₂ := goes.holds chained₁ holds₁
  have table := goes.table
  have link := goes.next
  have clust := goes.clust
  have re₂ := goes.recached
  have pos : 0 < w.fs.bytesperclust := Nat.mul_pos chained.clust chained.sound.table.some
  -- it goes on at the start of the next one
  obtain ⟨cur, start⟩ := goes.start
  have same : w₁.fs.bytesperclust = w.fs.bytesperclust ∧ w₁.dentptr = w.dentptr + front.length ∧
      w₁.dirCurclust = w.dirCurclust := by
    subst full
    exact ⟨rfl, rfl, rfl⟩
  have next := goes.stores (by rw [same.1]; exact pos)
    (by rw [same.1, same.2.1]; exact Nat.le_of_eq edge.symm) some
  have first : front = [] → w.firstSlot = (e, 0) := by
    intro none
    have stays : w₁ = w := by
      rw [← full, none, List.flatten_nil, Mem.write_nil]
      rfl
    rw [none, List.length_nil, Nat.add_zero] at edge
    rw [stays] at cur start
    rw [firstSlot, nextClust, if_pos (Nat.le_of_eq edge.symm), cur, start]
  have room₂ := goes.room (n := 0) chained₁ room₁
  rw [next]
  generalize w₁.flushDirTable = w₂ at *
  have re := re₁.trans re₂
  rw [re₁.same.2] at same
  have fits₂ : 32 * (w₂.dentptr + back.length) ≤ w₂.fs.bytesperclust := by
    rw [start, Nat.zero_add, re.same.2]
    exact fits
  have fits₃ : 32 * (w₂.dentptr + back.length) ≤ w₂.fs.bytesperclust * (0 + 1) := by omega
  obtain ⟨chained₃, holds₃, re₃⟩ := stores_holds chained₂ room₂
    (by rw [re.same.2]; exact unit) (by omega) fits₃ holds₂
  have final := stores_fit fits₂ len₂
  have here₃ : Holds (w₂.stores back) e 0 back.flatten := by
    rw [final, start]
    refine ⟨?_, fun _ => ⟨?_, Mem.read_write_self (a := 0) rfl⟩, fun ne => absurd cur.symm ne⟩
    · rw [total₂, Nat.zero_add]
      exact Nat.le_trans fits (Nat.le_of_eq re.same.2.symm)
    · rw [total₂, Nat.zero_add, Nat.zero_add]
  have place_eq (x : Nat) : place (w₂.stores back).fs x = place w.fs x := by
    obtain ⟨buf, num, eq⟩ := re.trans re₃
    rw [eq]
    rfl
  have disk₃ : (w₂.stores back).disk = w₂.disk := by rw [final]
  refine ⟨e, ?_, first, ?_, ?_, ?_⟩
  · subst full
    exact ⟨clust.valid, clust.behind, clust.inside, clust.entry⟩
  · rw [← re₁.fatEntry, ← same.2.2]
    refine Eq.trans (fatEntry_congr fun o _ lt => ?_) link
    have below : o < w₁.fs.fatlength * w₁.fs.sectSize :=
      Nat.lt_of_lt_of_le lt chained₁.here.entry
    rw [← table o below, ← disk₃, finish, chained₃.here.setCluster chained₃.sound chained₃.clust]
    obtain ⟨buf, num, eq⟩ := re₂.trans re₃
    refine Mem.write_below ?_
    have front := chained₃.here.table_lt (o := o) (by rw [eq]; exact below)
    rw [eq] at front ⊢
    exact front
  · have written := holds₃.written chained₃
    rw [place_eq, total₁] at written
    exact written
  · have written := here₃.written chained₃
    rw [place_eq, total₂, Nat.add_zero] at written
    exact written

/-- A name whose slots or entry go on in a new cluster. -/
lemma Chained.read_two (chained : w.Chained) (fit : w.Fit) (room : w.Room 1)
    (spells : Spells 0 ss name) (whole : ∀ s ∈ ss, s.Whole) (len : entry.length = 32)
    (few : ss.length ≤ vfatMaxseq)
    (more : w.fs.bytesperclust < 32 * (w.dentptr + (ss.length + 1)))
    (re : Recached w.fs d) (buffer block : Mem) (dma : Nat)
    (cached : Cached (w.stores (itemsOf ss entry)).finish d) :
    let disk := (w.stores (itemsOf ss entry)).finish
    let (clust, dent) := w.firstSlot
    (clust = w.dirCurclust ∨ (getFatent disk d w.dirCurclust).1 = clust) ∧
      let (curclust, cluster, retdent) := readDir disk dma d clust dent buffer
      getVfatname disk dma d curclust cluster block retdent = some (nameOf name, entry) := by
  have unit := fit.unit
  have low := fit.free
  unfold vfatMaxseq at few
  have sect := fit.sect_ge
  have big := fit.bytes_ge
  -- the slots that are stored in front of the end of the cluster
  obtain ⟨as, bs, rfl, edge⟩ : ∃ as bs, ss = as ++ bs ∧
      32 * (w.dentptr + bs.length) = w.fs.bytesperclust := by
    refine ⟨ss.take (ss.length - (w.fs.bytesperclust / 32 - w.dentptr)),
      ss.drop (ss.length - (w.fs.bytesperclust / 32 - w.dentptr)), (List.take_append_drop ..).symm,
      ?_⟩
    rw [List.length_drop]
    omega
  have items : itemsOf (as ++ bs) entry = bs.reverse.map DirSlot.bytes ++ itemsOf as entry := by
    rw [itemsOf, itemsOf, List.reverse_append, List.map_append, List.append_assoc]
  rw [List.length_append] at few more
  have lens := itemsOf_len whole len
  have whole_as : ∀ s ∈ as, s.Whole := fun s mem => whole s (List.mem_append_left bs mem)
  have whole_bs : ∀ s ∈ bs, s.Whole := fun s mem => whole s (List.mem_append_right as mem)
  rw [items] at lens cached ⊢
  obtain ⟨e, clust, first, link, front, back⟩ := chained.finish_two room unit lens
    (by rw [List.length_map, List.length_reverse]; exact edge)
    (List.append_ne_nil_of_right_ne_nil _ (List.cons_ne_nil entry []))
    (by rw [length_itemsOf]; omega)
  dsimp only
  generalize (w.stores (bs.reverse.map DirSlot.bytes ++ itemsOf as entry)).finish = disk at *
  rw [List.length_map, List.length_reverse] at front
  rw [length_itemsOf] at back
  have total := fit.total
  have some := fit.table.some
  obtain ⟨got, -, re'⟩ := getFatent_spec (re.table fit.table) cached (by
    obtain ⟨buf, num, rfl⟩ := re
    exact chained.here.entry)
  rw [re.fatEntry, link] at got
  have data := clust.data total
  have start : startsect w.fs e * w.fs.sectSize = place w.fs e := by
    rw [data.startsect fit.clust, place]
  have inside : startsect w.fs e + w.fs.clustSize ≤ 2 ^ 32 := by
    have behind := clust.behind
    have high := clust.inside
    rw [Int.add_mul] at high
    rw [data.startsect fit.clust]
    omega
  by_cases none : bs = []
  case pos =>
    subst none
    rw [first (by rw [List.reverse_nil, List.map_nil])]
    refine ⟨.inr got, ?_⟩
    dsimp only
    obtain ⟨curclust, cluster, retdent, eq, -, limit, read⟩ :=
      readDir_spec disk buffer dma e 0 (32 * (as.length + 1)) re some
      (.trans (by decide) fit.sector) inside (by omega) (by omega)
    rw [eq]
    dsimp only
    rw [start] at read
    obtain ⟨down, last⟩ := read_items whole_as len (read.trans back)
    rw [List.append_nil] at spells
    rw [getVfatname_one spells (by unfold vfatMaxseq; omega) down (by omega), last]
  case neg =>
    have pos := List.length_pos_iff.mpr none
    rw [firstSlot, nextClust_of_lt (by omega)]
    refine ⟨.inl rfl, ?_⟩
    have start' : startsect w.fs w.dirCurclust * w.fs.sectSize = place w.fs w.dirCurclust := by
      rw [(chained.here.data total).startsect fit.clust, place]
    have inside' := fit.inside
    obtain ⟨curclust, cluster, retdent, eq, same, -, read⟩ :=
      readDir_spec disk buffer dma w.dirCurclust w.dentptr (32 * bs.length) re some
        (.trans (by decide) fit.sector) (by omega) (by omega) (by omega)
    obtain ⟨rfl, rfl⟩ := same chained.here.valid
    rw [start', front] at read
    have down := down_of_read whole_bs (read.trans (List.flatMap_def ..).symm)
    have reads : getCluster disk dma (getFatent disk d w.dirCurclust).2 e block 0
        (getFatent disk d w.dirCurclust).2.bytesperclust =
          block.write 0 (disk.read (place w.fs e) w.fs.bytesperclust) := by
      have bytes := Nat.mul_le_mul_right w.fs.sectSize inside
      rw [Nat.add_mul] at bytes
      rw [← start]
      obtain ⟨buf, num, other⟩ := re.trans re'
      rw [other]
      exact getCluster_startsect (d := { w.fs with fatbuf := buf, fatbufnum := num }) some bytes
    have block' : (block.write 0 (disk.read (place w.fs e) w.fs.bytesperclust)).read (32 * 0)
        (32 * (as.length + 1)) = (itemsOf as entry).flatten := by
      rw [← back]
      refine Mem.read_congr fun i lt => ?_
      exact copied (b := 0) (by omega)
    obtain ⟨down', last⟩ := read_items whole_as len block'
    rw [Nat.zero_add] at down' last
    have nonzero : w.dirCurclust ≠ 0 := fun zero => by
      have valid := chained.here.valid
      rw [zero] at valid
      cases valid
    have limit : d.sectSize * d.clustSize = 32 * (w.dentptr + bs.length) := by
      rw [edge, Nat.mul_comm]
      exact re.same.2
    have valid : checkClust (getFatent disk d w.dirCurclust).1
        (getFatent disk d w.dirCurclust).2.fatsize = false := by
      rw [got, (re.trans re').same.1]
      exact clust.valid
    rw [eq]
    dsimp only
    rw [getVfatname_two spells none (by unfold vfatMaxseq; omega) down nonzero limit rfl valid
      (by rw [got]; exact reads) down', last]

/-! ## All names -/

/-- What is read of a name that has few slots. -/
lemma Fit.reads (fit : w.Fit) (ready : w.Ready name) (plain : 0 ∉ name) (len : entry.length = 32)
    (few : slotCount name ≤ vfatMaxseq) (re : Recached w.fs d)
    (cached : Cached (w.addEntry name entry).disk d) (buffer block : Mem) (dma : Nat) :
    let disk := (w.addEntry name entry).disk
    let (clust, dent) := w.firstSlot
    (clust = w.dirCurclust ∨ (getFatent disk d w.dirCurclust).1 = clust) ∧
      let (curclust, cluster, retdent) := readDir disk dma d clust dent buffer
      getVfatname disk dma d curclust cluster block retdent = some (nameOf name, entry) := by
  obtain ⟨checksum, eq⟩ := w.addEntry_disk name entry
  have spells : Spells 0 (slotsFrom checksum 0 name) name := slotsFrom_spells plain
  have whole : ∀ s ∈ slotsFrom checksum 0 name, s.Whole := slotsFrom_whole
  have count : (slotsFrom checksum 0 name).length = slotCount name := length_slotsFrom plain
  rw [eq] at cached ⊢
  by_cases fits : 32 * (w.dentptr + (slotCount name + 1)) ≤ w.fs.bytesperclust
  case pos =>
    rw [firstSlot, nextClust_of_lt (by omega)]
    refine ⟨.inl rfl, ?_⟩
    exact fit.read_one spells whole len (by rw [count]; exact few) (by rw [count]; exact fits) re
      buffer block dma
  case neg =>
    obtain ⟨chained, n, room, enough⟩ := ready.resolve_left fits
    have one : 1 ≤ n := Nat.pos_of_ne_zero fun zero => fits (by rw [zero] at enough; omega)
    exact chained.read_two fit (room.mono one) spells whole len (by rw [count]; exact few)
      (by rw [count]; omega) re buffer block dma cached

end Writer

/-! ## A directory with one entry left -/

end Imx.Fat
