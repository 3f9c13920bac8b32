import Imx.Fat.Table

/-!
# A directory that grows

`flushDirTable` writes the cluster of a directory that is full, chains an empty one behind it and
goes on there. Whatever else is stored, the clusters in front keep what they hold.
-/

namespace Imx.Fat
open Imx.Base

variable {m : Mem} {d : Fsdata} {w w' : Writer} {a c e n x y : Nat} {b bs : List UInt8}
  {items front back : List (List UInt8)}

namespace Writer

/-- A cluster for directories. -/
structure Clust (w : Writer) (x : Nat) : Prop where
  valid : checkClust x w.fs.fatsize = false
  behind : (w.fatEnd : Int) ≤ w.fs.dataBegin + x * w.fs.clustSize
  inside : w.fs.dataBegin + (x + 1) * w.fs.clustSize ≤ w.totalSector
  entry : entryEnd w.fs.fatsize x ≤ w.fs.fatlength * w.fs.sectSize

/-- There are empty clusters enough. -/
def Room (w : Writer) (n : Nat) : Prop :=
  ∃ l : List Nat, l.Nodup ∧ n ≤ l.length ∧
    ∀ x ∈ l, 3 ≤ x ∧ w.Clust x ∧ fatEntry w.view w.fs x = 0

/-- The directory is a chain, and the FAT can be written. -/
structure Chained (w : Writer) : Prop where
  sound : w.Sound
  kind : w.fs.fatsize = 32 ∨ w.fs.fatsize = 16
  clust : 0 < w.fs.clustSize
  first : (w.fatEnd : Int) ≤ w.fs.dataBegin + 3 * w.fs.clustSize
  here : w.Clust w.dirCurclust
  used : fatEntry w.view w.fs w.dirCurclust ≠ 0

lemma Clust.data (clust : w.Clust x) (total : w.totalSector < 2 ^ 32) : w.fs.IsData x where
  valid := clust.valid
  low := Int.le_trans (Int.natCast_nonneg _) clust.behind
  high := Int.le_trans clust.inside (by omega)

/-- A cluster lies behind the FATs. -/
lemma Clust.place_ge (clust : w.Clust x) : w.fatEnd * w.fs.sectSize ≤ place w.fs x := by
  have behind := clust.behind
  exact Nat.mul_le_mul_right _ (by omega)

lemma fatEnd_ge : w.fs.fatSect + w.fs.fatlength ≤ w.fatEnd := by
  unfold fatEnd fatbufblocks
  split_ifs <;> omega

/-- A cluster is not in the FAT. -/
lemma Clust.table_lt (clust : w.Clust x) {o : Nat} (lt : o < w.fs.fatlength * w.fs.sectSize) :
    w.fs.fatSect * w.fs.sectSize + o < place w.fs x := by
  have ge := clust.place_ge
  have le := Nat.mul_le_mul_right w.fs.sectSize (fatEnd_ge (w := w))
  rw [Nat.add_mul] at le
  omega

/-- Two clusters are apart. -/
lemma Clust.apart (one : w.Clust x) (two : w.Clust y) (ne : x ≠ y) :
    place w.fs x + w.fs.bytesperclust ≤ place w.fs y ∨
      place w.fs y + w.fs.bytesperclust ≤ place w.fs x := by
  have step {x y : Nat} (clust : w.Clust x) (lt : x < y) :
      place w.fs x + w.fs.bytesperclust ≤ place w.fs y := by
    have low := Int.le_trans (Int.natCast_nonneg _) clust.behind
    rw [place, place, Fsdata.bytesperclust, ← Nat.add_mul]
    refine Nat.mul_le_mul_right _ ?_
    have le : (x + 1) * w.fs.clustSize ≤ y * w.fs.clustSize := Nat.mul_le_mul_right _ lt
    have le' := Int.ofNat_le.mpr le
    rw [Nat.succ_mul] at le'
    push_cast at le'
    omega
  obtain lt | gt := Nat.lt_or_gt_of_ne ne
  · exact .inl (step one lt)
  · exact .inr (step two gt)

/-- The directory table is written to a cluster. -/
lemma setCluster_eq (clust : 0 < w.fs.clustSize) (some : 0 < w.fs.sectSize)
    (inside : startsect w.fs x + w.fs.clustSize ≤ w.totalSector) :
    w.setCluster x w.fs.bytesperclust = (true, { w with
      disk := w.disk.write (startsect w.fs x * w.fs.sectSize)
        (w.block.read 0 w.fs.bytesperclust) }) := by
  unfold setCluster Fsdata.bytesperclust
  rw [if_pos (Nat.le_mul_of_pos_left _ clust), Nat.mul_div_cancel _ some, diskWrite_eq inside]

lemma Clust.setCluster (clust : w.Clust x) (sound : w.Sound) (some : 0 < w.fs.clustSize) :
    w.setCluster x w.fs.bytesperclust = (true, { w with
      disk := w.disk.write (place w.fs x) (w.block.read 0 w.fs.bytesperclust) }) := by
  have sect := (clust.data sound.total).startsect some
  have behind := clust.behind
  have inside := clust.inside
  rw [Int.add_mul] at inside
  rw [setCluster_eq some sound.table.some (by rw [sect]; omega), sect, place]

/-- The table is kept when a cluster is written. -/
lemma Clust.view (clust : w.Clust x) (sound : w.Sound) {o : Nat}
    (lt : o < w.fs.fatlength * w.fs.sectSize) :
    ({ w with disk := w.disk.write (place w.fs x) bs } : Writer).view
        (w.fs.fatSect * w.fs.sectSize + o) =
      w.view (w.fs.fatSect * w.fs.sectSize + o) := by
  have below := clust.table_lt lt
  have sound' : ({ w with disk := w.disk.write (place w.fs x) bs } : Writer).Sound :=
    ⟨sound.table, sound.bytes, sound.fats, sound.total, sound.held⟩
  by_cases none : w.fs.fatbufnum = 2 ^ 32 - 1
  case pos =>
    rw [Writer.view, if_pos none, Writer.view, if_pos none]
    exact Mem.write_below below
  refine (view_eq sound' none lt).trans (.trans ?_ (view_eq sound none lt).symm)
  split
  case isTrue => rfl
  case isFalse => exact Mem.write_below below

/-- The directory goes on in another cluster. -/
structure Goes (w : Writer) (e : Nat) (w' : Writer) : Prop where
  frame : ∃ disk buf num, w' = { w with
    disk := disk
    fs := { w.fs with fatbuf := buf, fatbufnum := num }
    dirCurclust := e
    block := w.block.write 0 (List.replicate w.fs.bytesperclust 0)
    dentptr := 0 }
  sound : w'.Sound
  low : 3 ≤ e
  clust : w.Clust e
  empty : fatEntry w.view w.fs e = 0
  data : ∀ a, w.fatEnd * w.fs.sectSize ≤ a → w'.disk a =
    w.disk.write (place w.fs w.dirCurclust) (w.block.read 0 w.fs.bytesperclust) a
  table : ∀ o < w.fs.fatlength * w.fs.sectSize,
    w'.disk (w.fs.fatSect * w.fs.sectSize + o) = w'.view (w.fs.fatSect * w.fs.sectSize + o)
  next : fatEntry w'.view w.fs w.dirCurclust = e
  last : fatEntry w'.view w.fs e ≠ 0
  kept : ∀ x, entryEnd w.fs.fatsize x ≤ w.fs.fatlength * w.fs.sectSize → x ≠ w.dirCurclust →
    x ≠ e → fatEntry w'.view w.fs x = fatEntry w.view w.fs x

/-- A cluster is a value for an entry. -/
lemma valid_small {fatsize : Nat} (valid : checkClust e fatsize = false) :
    e < 256 ^ entryWidth fatsize := by
  rw [checkClust, decide_eq_false_iff_not, badClust] at valid
  unfold entryWidth
  split_ifs at valid ⊢ <;> omega

/-- An empty cluster is chained behind another one. -/
lemma link_spec (sound : w.Sound) (kind : w.fs.fatsize = 32 ∨ w.fs.fatsize = 16)
    (from_ : entryEnd w.fs.fatsize c ≤ w.fs.fatlength * w.fs.sectSize)
    (valid : checkClust e w.fs.fatsize = false)
    (dest : entryEnd w.fs.fatsize e ≤ w.fs.fatlength * w.fs.sectSize) (ne : e ≠ c) :
    ∃ w', (w.setFatentValue c e).endOfChain e = w' ∧ Step w w' ∧ w'.fs.fatbufnum ≠ 2 ^ 32 - 1 ∧
      fatEntry w'.view w.fs c = e ∧ fatEntry w'.view w.fs e ≠ 0 ∧
      ∀ x, entryEnd w.fs.fatsize x ≤ w.fs.fatlength * w.fs.sectSize → x ≠ c → x ≠ e →
        fatEntry w'.view w.fs x = fatEntry w.view w.fs x := by
  obtain ⟨step, -, set⟩ := setFatentValue_spec sound kind (valid_small valid) from_
  generalize w.setFatentValue c e = w₁ at step set ⊢
  obtain ⟨v, eoc, some, small⟩ : ∃ v, w₁.endOfChain e = w₁.setFatentValue e v ∧ v ≠ 0 ∧
      v < 256 ^ entryWidth w.fs.fatsize := by
    obtain ⟨disk, buf, num, rfl⟩ := step.frame
    obtain fat32 | fat16 := kind
    · exact ⟨0xffffff8, if_pos fat32, by decide, by rw [fat32]; decide⟩
    · refine ⟨0xfff8, ?_, by decide, by rw [fat16]; decide⟩
      rw [endOfChain, if_neg (by rw [fat16]; decide), if_pos fat16]
  have sound₁ := step.sound
  obtain ⟨step', held, set'⟩ : Step w₁ (w₁.setFatentValue e v) ∧
      (w₁.setFatentValue e v).fs.fatbufnum ≠ 2 ^ 32 - 1 ∧
      ∀ x, entryEnd w.fs.fatsize x ≤ w.fs.fatlength * w.fs.sectSize →
        fatEntry (w₁.setFatentValue e v).view w.fs x =
          if x = e then v else fatEntry w₁.view w.fs x := by
    obtain ⟨disk, buf, num, rfl⟩ := step.frame
    exact setFatentValue_spec sound₁ kind small dest
  refine ⟨_, eoc, step.trans step', held, ?_, ?_, fun x inside c_ne e_ne => ?_⟩
  · rw [set' c from_, if_neg ne.symm, set c from_, if_pos rfl]
  · rw [set' e dest, if_pos rfl]
    exact some
  · rw [set' x inside, if_neg e_ne, set x inside, if_neg c_ne]

/-- A new cluster is allocated, if there is an empty one. -/
lemma flushDirTable_goes (chained : w.Chained) (room : w.Room 1) :
    ∃ e, Goes w e w.flushDirTable := by
  obtain ⟨l, -, some, all⟩ := room
  obtain ⟨free, mem⟩ := List.exists_mem_of_length_pos some
  obtain ⟨low, clust, empty⟩ := all free mem
  have sound := chained.sound
  have here := chained.here
  have written := here.setCluster sound chained.clust
  generalize disk₁ : w.disk.write (place w.fs w.dirCurclust)
    (w.block.read 0 w.fs.bytesperclust) = disk at written
  -- the cluster is written
  have sound₁ : ({ w with disk := disk } : Writer).Sound :=
    ⟨sound.table, sound.bytes, sound.fats, sound.total, sound.held⟩
  have view₁ : ∀ x, entryEnd w.fs.fatsize x ≤ w.fs.fatlength * w.fs.sectSize →
      fatEntry ({ w with disk := disk } : Writer).view w.fs x = fatEntry w.view w.fs x := by
    subst disk₁
    exact fun x inside => fatEntry_congr fun o _ lt =>
      here.view sound (Nat.lt_of_lt_of_le lt inside)
  -- an empty one is found
  obtain ⟨e, w₂, found, ge, le, none, keeps⟩ := findFrom_spec (k := 3) sound₁ (by decide) low
    clust.valid clust.entry ((view₁ free clust.entry).trans empty)
  have new : w.Clust e := by
    have valid := clust.valid
    have inside := clust.inside
    have entry := clust.entry
    have first := chained.first
    have low' : (3 : Int) * w.fs.clustSize ≤ e * w.fs.clustSize :=
      Int.mul_le_mul_of_nonneg_right (by omega) (by omega)
    have high : ((e : Int) + 1) * w.fs.clustSize ≤ (free + 1) * w.fs.clustSize :=
      Int.mul_le_mul_of_nonneg_right (by omega) (by omega)
    refine ⟨?_, by omega, by omega, Nat.le_trans ?_ entry⟩
    · rw [checkClust, decide_eq_false_iff_not] at valid ⊢
      omega
    · unfold entryEnd
      split_ifs <;> omega
  replace none : fatEntry w.view w.fs e = 0 := (view₁ e new.entry).symm.trans none
  have ne : e ≠ w.dirCurclust := fun eq => chained.used (eq ▸ none)
  have kept₂ : ∀ x, entryEnd w.fs.fatsize x ≤ w.fs.fatlength * w.fs.sectSize →
      fatEntry w₂.view w.fs x = fatEntry w.view w.fs x := fun x inside =>
    (keeps.same inside).trans (view₁ x inside)
  have sound₂ := keeps.sound
  -- it is chained
  obtain ⟨w₃, linked, step, held, next, last, kept⟩ : ∃ w₃,
      (w₂.setFatentValue w.dirCurclust e).endOfChain e = w₃ ∧ Step w₂ w₃ ∧
      w₃.fs.fatbufnum ≠ 2 ^ 32 - 1 ∧ fatEntry w₃.view w.fs w.dirCurclust = e ∧
      fatEntry w₃.view w.fs e ≠ 0 ∧
      ∀ x, entryEnd w.fs.fatsize x ≤ w.fs.fatlength * w.fs.sectSize → x ≠ w.dirCurclust →
        x ≠ e → fatEntry w₃.view w.fs x = fatEntry w₂.view w.fs x := by
    obtain ⟨disk₂, buf, num, rfl⟩ := keeps.frame
    exact link_spec sound₂ chained.kind here.entry new.valid new.entry ne
  -- the FAT is written back
  have all := keeps.toStep.trans step
  have data := all.data
  have sound₃ := step.sound
  obtain ⟨disk₄, flushed, keeps', table⟩ := flushFatBuffer_view
    (w := { w₃ with dirCurclust := e })
    ⟨sound₃.table, sound₃.bytes, sound₃.fats, sound₃.total, sound₃.held⟩ held
  have final : w.flushDirTable = { w₃ with
      disk := disk₄
      dirCurclust := e
      block := w₃.block.write 0 (List.replicate w₃.fs.bytesperclust 0)
      dentptr := 0 } := by
    rw [flushDirTable, written]
    dsimp only
    have cur : w₂.dirCurclust = w.dirCurclust := by
      obtain ⟨_, _, _, frame⟩ := keeps.frame
      rw [frame]
    rw [findEmptyCluster, found]
    dsimp only
    rw [cur, linked, flushed]
  obtain ⟨disk₃, buf, num, rfl⟩ := all.frame
  have sound₄ := keeps'.sound
  refine ⟨e, ?_⟩
  rw [final]
  refine ⟨⟨_, _, _, rfl⟩, ⟨sound₄.table, sound₄.bytes, sound₄.fats, sound₄.total, sound₄.held⟩, ge,
    new, none, fun a le => ?_, fun o lt => ?_, ?_, ?_, fun x inside c_ne e_ne => ?_⟩
  · rw [disk₁]
    exact (keeps'.data a le).trans (data a le)
  · exact (table o lt).trans (keeps'.table o lt).symm
  · exact (keeps'.same here.entry).trans next
  · exact fun zero => last ((keeps'.same new.entry).symm.trans zero)
  · exact (keeps'.same inside).trans ((kept x inside c_ne e_ne).trans (kept₂ x inside))

/-! ## What is kept -/

lemma Goes.clust_of (goes : Goes w e w') (clust : w.Clust x) : w'.Clust x := by
  obtain ⟨disk, buf, num, rfl⟩ := goes.frame
  exact ⟨clust.valid, clust.behind, clust.inside, clust.entry⟩

lemma Goes.chained (goes : Goes w e w') (chained : w.Chained) : w'.Chained := by
  have new := goes.clust_of goes.clust
  have last := goes.last
  have sound := goes.sound
  obtain ⟨disk, buf, num, rfl⟩ := goes.frame
  exact ⟨sound, chained.kind, chained.clust, chained.first, new, last⟩

/-- There is an empty cluster less. -/
lemma Goes.room (goes : Goes w e w') (chained : w.Chained) (room : w.Room (n + 1)) :
    w'.Room n := by
  obtain ⟨l, nodup, enough, all⟩ := room
  refine ⟨l.erase e, nodup.erase e, ?_, fun x mem => ?_⟩
  · have len := List.length_erase_add_one (a := e) (l := l)
    by_cases mem : e ∈ l
    · have len := len mem
      omega
    · rw [List.erase_of_not_mem mem]
      omega
  · obtain ⟨ne, mem⟩ := nodup.mem_erase_iff.mp mem
    obtain ⟨low, clust, empty⟩ := all x mem
    refine ⟨low, goes.clust_of clust, ?_⟩
    have c_ne : x ≠ w.dirCurclust := fun eq => chained.used (eq ▸ empty)
    have kept := goes.kept x clust.entry c_ne ne
    obtain ⟨disk, buf, num, rfl⟩ := goes.frame
    exact kept.trans empty

/-- Bytes of a cluster of the directory, which may be the one in the block. -/
structure Holds (w : Writer) (x a : Nat) (bs : List UInt8) : Prop where
  room : a + bs.length ≤ w.fs.bytesperclust
  here : x = w.dirCurclust → a + bs.length ≤ 32 * w.dentptr ∧ w.block.read a bs.length = bs
  there : x ≠ w.dirCurclust → w.Clust x ∧ fatEntry w.view w.fs x ≠ 0 ∧
    w.disk.read (place w.fs x + a) bs.length = bs

/-- They are kept when something else is stored. -/
lemma Holds.put (holds : Holds w x a bs) : Holds (w.put b) x a bs where
  room := holds.room
  here eq := by
    obtain ⟨le, read⟩ := holds.here eq
    refine ⟨Nat.le_trans le (Nat.mul_le_mul_left 32 (Nat.le_succ _)), ?_⟩
    rw [Writer.put, Mem.read_write_disjoint (.inl le), read]
  there ne := by
    obtain ⟨clust, there⟩ := holds.there ne
    exact ⟨⟨clust.valid, clust.behind, clust.inside, clust.entry⟩, there⟩

/-- They are kept when the directory goes on. -/
lemma Goes.holds (goes : Goes w e w') (chained : w.Chained) (holds : Holds w x a bs) :
    Holds w' x a bs := by
  have room := holds.room
  have e_ne : e ≠ w.dirCurclust := fun eq => chained.used (eq ▸ goes.empty)
  obtain ⟨clust, used, read⟩ : w.Clust x ∧ fatEntry w.view w.fs x ≠ 0 ∧
      (w.disk.write (place w.fs w.dirCurclust) (w.block.read 0 w.fs.bytesperclust)).read
        (place w.fs x + a) bs.length = bs := by
    by_cases cur : x = w.dirCurclust
    case pos =>
      obtain ⟨-, read⟩ := holds.here cur
      subst cur
      refine ⟨chained.here, chained.used, ?_⟩
      rw [← read, Mem.length_read]
      refine Mem.read_congr fun i lt => ?_
      rw [Nat.add_assoc, copied (by omega), Nat.zero_add]
    case neg =>
      obtain ⟨clust, used, read⟩ := holds.there cur
      refine ⟨clust, used, ?_⟩
      have apart := clust.apart chained.here cur
      rw [Mem.read_write_disjoint (by rw [Mem.length_read]; omega), read]
  have x_ne : x ≠ e := fun eq => used (eq ▸ goes.empty)
  have clust' := goes.clust_of clust
  have ge := clust.place_ge
  have data := goes.data
  have next := goes.next
  have kept := goes.kept x clust.entry
  obtain ⟨disk, buf, num, rfl⟩ := goes.frame
  refine ⟨room, fun eq => absurd eq x_ne, fun _ => ⟨clust', ?_, ?_⟩⟩
  · by_cases cur : x = w.dirCurclust
    case pos =>
      subst cur
      refine fun zero => ?_
      have low := goes.low
      have eq := next.symm.trans zero
      omega
    case neg => exact fun zero => used ((kept cur x_ne).symm.trans zero)
  · refine Eq.trans (Mem.read_congr fun i _ => data _ ?_) read
    show _ ≤ place w.fs x + a + i
    omega

/-! ## Storing entries -/

/-- Entries are stored one after another. -/
def stores (w : Writer) (items : List (List UInt8)) : Writer :=
  items.foldl (fun w b => w.nextClust.put b) w

lemma stores_cons : w.stores (b :: items) = (w.nextClust.put b).stores items := rfl

lemma stores_append : w.stores (front ++ back) = (w.stores front).stores back := List.foldl_append

lemma nextClust_of_lt (lt : 32 * w.dentptr < w.fs.bytesperclust) : w.nextClust = w :=
  if_neg (Nat.not_le_of_lt lt)

/-- The slots and the entry behind them are stored like that. -/
lemma fillDirSlot_put (w : Writer) (name entry : List UInt8) : ∃ checksum,
    (w.fillDirSlot name).put entry =
      w.stores ((slotsFrom checksum 0 name).reverse.map DirSlot.bytes ++ [entry]) := by
  refine ⟨mkcksum (w.block.read (32 * w.dentptr) 8) (w.block.read (32 * w.dentptr + 8) 3), ?_⟩
  rw [stores_append]
  unfold stores
  rw [List.foldl_map]
  rfl

/-- Entries that fit into the block. -/
lemma stores_fit (fits : 32 * (w.dentptr + items.length) ≤ w.fs.bytesperclust)
    (len : ∀ b ∈ items, b.length = 32) :
    w.stores items = { w with
      block := w.block.write (32 * w.dentptr) items.flatten
      dentptr := w.dentptr + items.length } := by
  induction items generalizing w with
  | nil =>
    rw [List.flatten_nil, Mem.write_nil]
    rfl
  | cons b items ih =>
    have first := len b List.mem_cons_self
    rw [List.length_cons] at fits
    have rest := ih (w := w.put b) (by show 32 * (w.dentptr + 1 + _) ≤ w.fs.bytesperclust; omega)
      fun b' mem => len b' (List.mem_cons_of_mem b mem)
    rw [stores_cons, nextClust_of_lt (by omega), rest, List.flatten_cons, Mem.write_append, first,
      List.length_cons, Nat.add_comm items.length, ← Nat.add_assoc]
    rfl

/-- What is stored in the block does not matter. -/
lemma Chained.block (chained : w.Chained) :
    ({ w with block := m, dentptr := a } : Writer).Chained :=
  ⟨⟨chained.sound.table, chained.sound.bytes, chained.sound.fats, chained.sound.total,
    chained.sound.held⟩, chained.kind, chained.clust, chained.first,
    ⟨chained.here.valid, chained.here.behind, chained.here.inside, chained.here.entry⟩,
    chained.used⟩

lemma Room.block (room : w.Room n) : ({ w with block := m, dentptr := a } : Writer).Room n := by
  obtain ⟨l, nodup, enough, all⟩ := room
  refine ⟨l, nodup, enough, fun x mem => ?_⟩
  obtain ⟨low, clust, empty⟩ := all x mem
  exact ⟨low, ⟨clust.valid, clust.behind, clust.inside, clust.entry⟩, empty⟩

lemma Room.mono {k : Nat} (room : w.Room n) (le : k ≤ n) : w.Room k := by
  obtain ⟨l, nodup, enough, all⟩ := room
  exact ⟨l, nodup, Nat.le_trans le enough, all⟩

lemma Goes.recached (goes : Goes w e w') : Recached w.fs w'.fs := by
  obtain ⟨disk, buf, num, rfl⟩ := goes.frame
  exact ⟨buf, num, rfl⟩

lemma Goes.start (goes : Goes w e w') : w'.dirCurclust = e ∧ w'.dentptr = 0 := by
  obtain ⟨disk, buf, num, rfl⟩ := goes.frame
  exact ⟨rfl, rfl⟩

/-- Entries behind the end of a cluster are stored from the start of the new one on. -/
lemma Goes.stores (goes : Goes w e w.flushDirTable) (pos : 0 < w.fs.bytesperclust)
    (full : w.fs.bytesperclust ≤ 32 * w.dentptr) (some : items ≠ []) :
    w.stores items = w.flushDirTable.stores items := by
  cases items with
  | nil => exact absurd rfl some
  | cons b items =>
    rw [stores_cons, stores_cons, nextClust_of_lt (w := w.flushDirTable), nextClust, if_pos full]
    rw [goes.start.2, goes.recached.same.2]
    exact pos

/-- Bytes in a cluster of the directory are kept, however many clusters are allocated. -/
lemma stores_holds (chained : w.Chained) (room : w.Room n) (unit : 32 ∣ w.fs.bytesperclust)
    (le : 32 * w.dentptr ≤ w.fs.bytesperclust)
    (fits : 32 * (w.dentptr + items.length) ≤ w.fs.bytesperclust * (n + 1))
    (holds : Holds w x a bs) :
    (w.stores items).Chained ∧ Holds (w.stores items) x a bs ∧
      Recached w.fs (w.stores items).fs := by
  induction items generalizing w n with
  | nil => exact ⟨chained, holds, .refl⟩
  | cons b items ih =>
    rw [List.length_cons] at fits
    rw [stores_cons]
    by_cases lt : 32 * w.dentptr < w.fs.bytesperclust
    case pos =>
      rw [nextClust_of_lt lt]
      refine ih (w := w.put b) (n := n) chained.block room.block unit ?_ ?_ holds.put
      · show 32 * (w.dentptr + 1) ≤ w.fs.bytesperclust
        omega
      · show 32 * (w.dentptr + 1 + items.length) ≤ w.fs.bytesperclust * (n + 1)
        omega
    case neg =>
      cases n with
      | zero => omega
      | succ n =>
        rw [nextClust, if_pos (Nat.le_of_not_lt lt)]
        obtain ⟨e, goes⟩ := flushDirTable_goes chained (room.mono (by omega))
        have chained' := goes.chained chained
        have room' := goes.room chained room
        have holds' := goes.holds chained holds
        have re := goes.recached
        have pos : 0 < w.fs.bytesperclust :=
          Nat.mul_pos chained.clust chained.sound.table.some
        obtain ⟨disk, buf, num, eq⟩ := goes.frame
        rw [eq] at chained' room' holds' re ⊢
        have rest := ih (w := Writer.put _ b) (n := n) chained'.block room'.block unit
          (show 32 * (0 + 1) ≤ w.fs.bytesperclust by omega)
          (show 32 * (0 + 1 + items.length) ≤ w.fs.bytesperclust * (n + 1) by
            rw [Nat.mul_succ] at fits; omega) holds'.put
        exact ⟨rest.1, rest.2.1, re.trans rest.2.2⟩

/-- They are on the disk when the last cluster is written. -/
lemma Holds.written (holds : Holds w x a bs) (chained : w.Chained) :
    (w.setCluster w.dirCurclust w.fs.bytesperclust).2.disk.read (place w.fs x + a) bs.length =
      bs := by
  have room := holds.room
  rw [chained.here.setCluster chained.sound chained.clust]
  dsimp only
  by_cases cur : x = w.dirCurclust
  case pos =>
    obtain ⟨-, read⟩ := holds.here cur
    subst cur
    conv_rhs => rw [← read]
    refine Mem.read_congr fun i lt => ?_
    rw [Nat.add_assoc, copied (by omega), Nat.zero_add]
  case neg =>
    obtain ⟨clust, -, read⟩ := holds.there cur
    have apart := clust.apart chained.here cur
    rw [Mem.read_write_disjoint (by rw [Mem.length_read]; omega), read]

end Writer

end Imx.Fat
