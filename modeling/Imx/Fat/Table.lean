import Imx.Fat.Contents
import Imx.Fat.Writer

/-!
# The FAT as it is written

Between two calls a part of the FAT stands in the buffer and not on the disk. `view` is the disk as
it is when the buffer has been written back, and every function that is called on the FAT is
described by what it does to the entries of `view`.
-/

namespace Imx.Fat
open Imx.Base

variable {m m' : Mem} {d : Fsdata} {w w' w'' : Writer} {a b bufnum limit entry x k : Nat}

/-- A range that is stored where it was read. -/
lemma write_read_self {n : Nat} : m.write a (m.read a n) = m := by
  funext i
  by_cases below : i < a
  case pos => exact Mem.write_below below
  by_cases here : i < a + n
  case neg => exact Mem.write_above (by rw [Mem.length_read]; omega)
  obtain ⟨j, rfl⟩ := Nat.exists_eq_add_of_le (Nat.le_of_not_lt below)
  exact copied (by omega)

namespace Writer

/-- The disk with what the buffer holds of the FAT. -/
def view (w : Writer) : Mem :=
  if w.fs.fatbufnum = 2 ^ 32 - 1 then
    w.disk
  else
    w.disk.write ((w.fs.fatbufnum * fatbufblocks + w.fs.fatSect) * w.fs.sectSize)
      (w.fs.fatbuf.read 0 (min fatbufblocks w.fs.fatlength * w.fs.sectSize))

/-- The first sector behind what is written with the FATs, a whole buffer each time. -/
def fatEnd (w : Writer) : Nat :=
  w.fs.fatSect + (if w.numOfFats = 2 then w.fs.fatlength else 0) +
    (if w.fs.fatlength ≤ fatbufblocks then w.fs.fatlength
    else (w.fs.fatlength + 5) / fatbufblocks * fatbufblocks)

/-- The FATs can be written. -/
structure Sound (w : Writer) : Prop where
  table : w.fs.Table
  bytes : w.fs.fatlength * w.fs.sectSize < 2 ^ 32
  fats : w.fatEnd ≤ w.totalSector
  total : w.totalSector < 2 ^ 32
  held : w.fs.fatbufnum = 2 ^ 32 - 1 ∨ w.fs.fatbufnum * fatbufblocks < w.fs.fatlength

/-- Nothing is changed but the FATs and their buffer. -/
structure Step (w w' : Writer) : Prop where
  frame : ∃ disk buf num,
    w' = { w with disk := disk, fs := { w.fs with fatbuf := buf, fatbufnum := num } }
  data : ∀ a, w.fatEnd * w.fs.sectSize ≤ a → w'.disk a = w.disk a
  sound : w'.Sound

/-- The entries are kept. -/
structure Keeps (w w' : Writer) : Prop extends Step w w' where
  table : ∀ o < w.fs.fatlength * w.fs.sectSize,
    w'.view (w.fs.fatSect * w.fs.sectSize + o) = w.view (w.fs.fatSect * w.fs.sectSize + o)

lemma Step.refl (sound : w.Sound) : Step w w :=
  ⟨⟨w.disk, w.fs.fatbuf, w.fs.fatbufnum, rfl⟩, fun _ _ => rfl, sound⟩

lemma Step.trans (first : Step w w') (second : Step w' w'') : Step w w'' := by
  obtain ⟨⟨disk, buf, num, rfl⟩, data, -⟩ := first
  obtain ⟨⟨disk', buf', num', rfl⟩, data', sound⟩ := second
  exact ⟨⟨disk', buf', num', rfl⟩, fun a le => (data' a le).trans (data a le), sound⟩

lemma Keeps.refl (sound : w.Sound) : Keeps w w :=
  ⟨.refl sound, fun _ _ => rfl⟩

lemma Keeps.trans (first : Keeps w w') (second : Keeps w' w'') : Keeps w w'' := by
  have table := second.table
  obtain ⟨disk, buf, num, eq⟩ := first.frame
  refine ⟨first.toStep.trans second.toStep, fun o lt => ?_⟩
  rw [eq] at table
  dsimp only at table
  rw [table o lt, ← eq]
  exact first.table o lt

/-! ## The buffer -/

lemma diskWrite_eq {start n : Nat} (inside : start + n ≤ w.totalSector) :
    w.diskWrite start n m =
      some (w.disk.write (start * w.fs.sectSize) (m.read 0 (n * w.fs.sectSize))) :=
  if_neg (Nat.not_lt_of_le inside)

/-- The buffer is written back to both FATs. -/
lemma flushFatBuffer_spec (sound : w.Sound)
    (held : w.fs.fatbufnum * fatbufblocks < w.fs.fatlength) :
    ∃ disk, w.flushFatBuffer = (true, { w with disk := disk }) ∧
      (∀ o < w.fs.fatlength * w.fs.sectSize,
        disk (w.fs.fatSect * w.fs.sectSize + o) = w.view (w.fs.fatSect * w.fs.sectSize + o)) ∧
      ∀ a, w.fatEnd * w.fs.sectSize ≤ a → disk a = w.disk a := by
  have fats := sound.fats
  have total := sound.total
  have small := sound.table.small
  have fresh : w.fs.fatbufnum ≠ 2 ^ 32 - 1 := by
    unfold fatbufblocks at held
    omega
  obtain ⟨getsize, size⟩ : ∃ getsize, min fatbufblocks w.fs.fatlength = getsize := ⟨_, rfl⟩
  obtain ⟨start, place⟩ : ∃ start, w.fs.fatbufnum * fatbufblocks + w.fs.fatSect = start := ⟨_, rfl⟩
  have first : start + getsize ≤ w.fatEnd ∧
      (w.numOfFats = 2 → start + w.fs.fatlength + getsize ≤ w.fatEnd) := by
    unfold fatEnd
    unfold fatbufblocks at *
    split_ifs <;> omega
  have eq : w.view = w.disk.write (start * w.fs.sectSize)
      (w.fs.fatbuf.read 0 (getsize * w.fs.sectSize)) := by
    rw [view, if_neg fresh, size, place]
  have above {m : Mem} {s : Nat} (le : s + getsize ≤ w.fatEnd) (a : Nat)
      (ge : w.fatEnd * w.fs.sectSize ≤ a) :
      m.write (s * w.fs.sectSize) (w.fs.fatbuf.read 0 (getsize * w.fs.sectSize)) a = m a := by
    refine Mem.write_above ?_
    rw [Mem.length_read, ← Nat.add_mul]
    exact Nat.le_trans (Nat.mul_le_mul_right _ le) ge
  unfold flushFatBuffer
  rw [size, place, u32_eq (by omega)]
  dsimp only
  rw [diskWrite_eq (by omega)]
  dsimp only
  by_cases two : w.numOfFats = 2
  case neg =>
    rw [if_neg two]
    exact ⟨_, rfl, fun o _ => (congrFun eq _).symm, above first.1⟩
  have second := first.2 two
  rw [if_pos two, u32_eq (by omega), diskWrite_eq (by dsimp only; omega)]
  dsimp only
  refine ⟨_, rfl, fun o lt => ?_, fun a ge => ?_⟩
  · rw [eq]
    refine Mem.write_below ?_
    rw [Nat.add_mul]
    have low := Nat.mul_le_mul_right w.fs.sectSize (show w.fs.fatSect ≤ start by omega)
    omega
  · rw [above second a ge, above first.1 a ge]

/-- Another window of the FAT is read. -/
lemma refill_spec (sound : w.Sound) (inside : bufnum * fatbufblocks < w.fs.fatlength)
    (enough : min fatbufblocks w.fs.fatlength ≤ limit) :
    ∃ w', w.refill bufnum limit = (true, w') ∧ Keeps w w' ∧ w'.fs.fatbufnum = bufnum := by
  have small := sound.table.small
  have fats := sound.fats
  have total := sound.total
  unfold refill
  by_cases same : bufnum = w.fs.fatbufnum
  case pos =>
    rw [if_pos same]
    exact ⟨w, rfl, .refl sound, same.symm⟩
  rw [if_neg same]
  have start : u32 (bufnum * fatbufblocks + w.fs.fatSect : Nat) =
      bufnum * fatbufblocks + w.fs.fatSect := by
    refine u32_eq ?_
    unfold fatEnd at fats
    unfold fatbufblocks at *
    split_ifs at fats <;> omega
  -- the old window is written back
  obtain ⟨disk, eq, table, data⟩ : ∃ disk,
      (if w.fs.fatbufnum = 2 ^ 32 - 1 then (true, w) else w.flushFatBuffer) =
        (true, { w with disk := disk }) ∧
      (∀ o < w.fs.fatlength * w.fs.sectSize,
        disk (w.fs.fatSect * w.fs.sectSize + o) = w.view (w.fs.fatSect * w.fs.sectSize + o)) ∧
      ∀ a, w.fatEnd * w.fs.sectSize ≤ a → disk a = w.disk a := by
    obtain none | held := sound.held
    · rw [if_pos none]
      exact ⟨w.disk, rfl, fun o _ => by rw [view, if_pos none], fun _ _ => rfl⟩
    · rw [if_neg (by unfold fatbufblocks at held; omega)]
      exact flushFatBuffer_spec sound held
  dsimp only
  rw [eq, start]
  dsimp only
  generalize place : bufnum * fatbufblocks + w.fs.fatSect = s
  refine ⟨_, rfl, ⟨⟨⟨_, _, _, rfl⟩, data, ?_⟩, fun o lt => ?_⟩, rfl⟩
  · exact ⟨⟨sound.table.kind, sound.table.some, sound.table.even, sound.table.small⟩, sound.bytes,
      fats, total, .inr inside⟩
  · rw [← table o lt]
    unfold view
    dsimp only
    rw [if_neg (by unfold fatbufblocks at inside; omega), place]
    -- the window is what has just been read there
    have len : min fatbufblocks w.fs.fatlength * w.fs.sectSize ≤
        min fatbufblocks limit * w.fs.sectSize := by
      refine Nat.mul_le_mul_right _ ?_
      omega
    have read : (w.fs.fatbuf.write 0 (disk.read (s * w.fs.sectSize)
        (min fatbufblocks limit * w.fs.sectSize))).read 0
          (min fatbufblocks w.fs.fatlength * w.fs.sectSize) =
        disk.read (s * w.fs.sectSize) (min fatbufblocks w.fs.fatlength * w.fs.sectSize) :=
      Mem.read_congr fun i less => copied (by omega)
    rw [read, write_read_self]

/-- A byte of the FAT, which may stand in the buffer. -/
lemma view_eq (sound : w.Sound) (held : w.fs.fatbufnum ≠ 2 ^ 32 - 1) {o : Nat}
    (lt : o < w.fs.fatlength * w.fs.sectSize) :
    w.view (w.fs.fatSect * w.fs.sectSize + o) =
      if w.fs.fatbufnum * w.fs.window ≤ o ∧ o < w.fs.fatbufnum * w.fs.window + w.fs.window then
        w.fs.fatbuf (o - w.fs.fatbufnum * w.fs.window)
      else
        w.disk (w.fs.fatSect * w.fs.sectSize + o) := by
  have inside := sound.held.resolve_left held
  have start : (w.fs.fatbufnum * fatbufblocks + w.fs.fatSect) * w.fs.sectSize =
      w.fs.fatSect * w.fs.sectSize + w.fs.fatbufnum * w.fs.window := by
    rw [Fsdata.window, Nat.add_mul, Nat.mul_comm w.fs.sectSize, Nat.mul_assoc, Nat.add_comm]
  rw [view, if_neg held, start]
  -- the last window may go over the end of the FAT
  have len : o < w.fs.fatbufnum * w.fs.window + w.fs.window ↔
      o < w.fs.fatbufnum * w.fs.window + min fatbufblocks w.fs.fatlength * w.fs.sectSize := by
    by_cases short : w.fs.fatlength ≤ fatbufblocks
    case neg =>
      rw [Nat.min_eq_left (Nat.le_of_not_le short), Fsdata.window, Nat.mul_comm fatbufblocks]
    have first : w.fs.fatbufnum = 0 := by
      unfold fatbufblocks at *
      omega
    have le := Nat.mul_le_mul_right w.fs.sectSize short
    rw [Nat.min_eq_right short, first, Fsdata.window, Nat.mul_comm w.fs.sectSize]
    omega
  split
  case isTrue h =>
    obtain ⟨j, rfl⟩ := Nat.exists_eq_add_of_le h.1
    rw [← Nat.add_assoc, copied (by have less := len.mp h.2; omega), Nat.zero_add,
      Nat.add_sub_cancel_left]
  case isFalse h =>
    by_cases below : o < w.fs.fatbufnum * w.fs.window
    · exact Mem.write_below (by omega)
    · refine Mem.write_above ?_
      rw [Mem.length_read]
      have ge : ¬ o < w.fs.fatbufnum * w.fs.window + w.fs.window := fun less =>
        h ⟨Nat.le_of_not_lt below, less⟩
      rw [len] at ge
      omega

lemma Sound.cached (sound : w.Sound) : Cached w.view w.fs := by
  by_cases none : w.fs.fatbufnum = 2 ^ 32 - 1
  case pos => exact cached_none sound.table none
  intro o lt inside
  rw [view_eq sound none inside, if_pos (by omega), Nat.add_sub_cancel_left]

/-- The start of an entry in the table. -/
def entryStart (fatsize entry : Nat) : Nat :=
  if fatsize = 32 then 4 * entry
  else if fatsize = 16 then 2 * entry
  else 3 * entry / 2

/-- An entry is known by its bytes. -/
lemma fatEntry_congr (same : ∀ o, entryStart d.fatsize entry ≤ o → o < entryEnd d.fatsize entry →
      m' (d.fatSect * d.sectSize + o) = m (d.fatSect * d.sectSize + o)) :
    fatEntry m' d entry = fatEntry m d entry := by
  unfold fatEntry fatByte
  unfold entryEnd entryStart at same
  split_ifs at same ⊢
  · rw [same _ (by omega) (by omega), same _ (by omega) (by omega), same _ (by omega) (by omega),
      same _ (by omega) (by omega)]
  · rw [same _ (by omega) (by omega), same _ (by omega) (by omega)]
  · rw [same _ (by omega) (by omega), same _ (by omega) (by omega)]
  · rw [same _ (by omega) (by omega), same _ (by omega) (by omega)]

lemma Keeps.same (keeps : Keeps w w')
    (inside : entryEnd w.fs.fatsize entry ≤ w.fs.fatlength * w.fs.sectSize) :
    fatEntry w'.view w.fs entry = fatEntry w.view w.fs entry :=
  fatEntry_congr fun o _ lt => keeps.table o (Nat.lt_of_lt_of_le lt inside)

/-- The window of an entry of the table is one of the FAT. -/
lemma Sound.window (sound : w.Sound)
    (inside : entryEnd w.fs.fatsize entry ≤ w.fs.fatlength * w.fs.sectSize) :
    entry / w.fs.bufsize * fatbufblocks < w.fs.fatlength := by
  have here := entry_window sound.table inside
  rw [Fsdata.window, Nat.mul_comm w.fs.sectSize, ← Nat.mul_assoc] at here
  exact Nat.lt_of_mul_lt_mul_right here

lemma Sound.held_of_window (sound : w.Sound)
    (inside : entryEnd w.fs.fatsize entry ≤ w.fs.fatlength * w.fs.sectSize)
    (number : bufnum = entry / w.fs.bufsize) : bufnum ≠ 2 ^ 32 - 1 := by
  have here := sound.window inside
  have few := sound.table.small
  rw [number]
  unfold fatbufblocks at here
  omega

/-- When the buffer has been written back, the FAT is on the disk. -/
lemma flushFatBuffer_view (sound : w.Sound) (held : w.fs.fatbufnum ≠ 2 ^ 32 - 1) :
    ∃ disk, w.flushFatBuffer = (true, { w with disk := disk }) ∧
      Keeps w { w with disk := disk } ∧
      ∀ o < w.fs.fatlength * w.fs.sectSize,
        disk (w.fs.fatSect * w.fs.sectSize + o) = w.view (w.fs.fatSect * w.fs.sectSize + o) := by
  obtain ⟨disk, eq, table, data⟩ := flushFatBuffer_spec sound (sound.held.resolve_left held)
  have sound' : ({ w with disk := disk } : Writer).Sound :=
    ⟨sound.table, sound.bytes, sound.fats, sound.total, sound.held⟩
  refine ⟨disk, eq, ⟨⟨⟨_, _, _, rfl⟩, data, sound'⟩, fun o lt => ?_⟩, table⟩
  have here := table o lt
  rw [view_eq sound held lt] at here ⊢
  refine (view_eq sound' held lt).trans ?_
  split
  case isTrue => rfl
  case isFalse h => exact here.trans (if_neg h)

/-! ## The entries -/

/-- An entry is found. -/
lemma getFatentValue_spec (sound : w.Sound) (valid : checkClust entry w.fs.fatsize = false)
    (inside : entryEnd w.fs.fatsize entry ≤ w.fs.fatlength * w.fs.sectSize) :
    ∃ w', w.getFatentValue entry = (fatEntry w.view w.fs entry, w') ∧ Keeps w w' := by
  obtain ⟨w', eq, keeps, number⟩ :=
    refill_spec sound (sound.window inside) (Nat.min_le_right ..)
  refine ⟨w', ?_, keeps⟩
  have cached := keeps.sound.cached
  have tab := keeps.sound.table
  have same := keeps.same inside
  obtain ⟨disk, buf, num, frame⟩ := keeps.frame
  rw [getFatentValue, valid, if_neg Bool.false_ne_true, if_pos sound.table.kind]
  dsimp only
  rw [eq]
  dsimp only
  have fs : w'.fs = { w.fs with fatbuf := buf, fatbufnum := num } := by rw [frame]
  rw [← same]
  rw [fs] at number cached tab ⊢
  exact congrArg (·, w') (actualEntry_cached tab cached number inside)

/-- The first empty cluster is found, at the latest one that is known to be empty. -/
lemma findFrom_spec {free : Nat} (sound : w.Sound) (low : 2 ≤ k) (le : k ≤ free)
    (valid : checkClust free w.fs.fatsize = false)
    (inside : entryEnd w.fs.fatsize free ≤ w.fs.fatlength * w.fs.sectSize)
    (empty : fatEntry w.view w.fs free = 0) :
    ∃ e w', w.findFrom k = (e, w') ∧ k ≤ e ∧ e ≤ free ∧ fatEntry w.view w.fs e = 0 ∧
      Keeps w w' := by
  induction more : free - k generalizing w k with
  | zero =>
    obtain rfl : k = free := by omega
    obtain ⟨w', eq, keeps⟩ := getFatentValue_spec sound valid inside
    rw [findFrom, eq, if_pos empty]
    exact ⟨k, w', rfl, Nat.le_refl k, Nat.le_refl k, empty, keeps⟩
  | succ n ih =>
    have valid' : checkClust k w.fs.fatsize = false := by
      rw [checkClust, decide_eq_false_iff_not] at valid ⊢
      omega
    have inside' : entryEnd w.fs.fatsize k ≤ w.fs.fatlength * w.fs.sectSize := by
      refine Nat.le_trans ?_ inside
      unfold entryEnd
      split_ifs <;> omega
    obtain ⟨w', eq, keeps⟩ := getFatentValue_spec sound valid' inside'
    rw [findFrom, eq]
    dsimp only
    by_cases here : fatEntry w.view w.fs k = 0
    case pos =>
      rw [if_pos here]
      exact ⟨k, w', rfl, Nat.le_refl k, le, here, keeps⟩
    rw [if_neg here]
    have later := keeps.same inside
    obtain ⟨disk, buf, num, frame⟩ := keeps.frame
    have fs : w'.fs = { w.fs with fatbuf := buf, fatbufnum := num } := by rw [frame]
    obtain ⟨e, w'', found, ge, le', none, keeps'⟩ := ih (w := w') keeps.sound
      (Nat.le_succ_of_le low) (show k + 1 ≤ free by omega) (by rw [fs]; exact valid)
      (by rw [fs]; exact inside) (by rw [fs]; exact later.trans empty) (by omega)
    refine ⟨e, w'', found, Nat.le_of_succ_le ge, le', ?_, keeps.trans keeps'⟩
    rw [fs] at none
    refine Eq.trans (keeps.same ?_).symm none
    refine Nat.le_trans ?_ inside
    unfold entryEnd
    split_ifs <;> omega

/-- The bytes of an entry of a FAT16 or FAT32. -/
def entryWidth (fatsize : Nat) : Nat := if fatsize = 32 then 4 else 2

lemma setEntry_of_ne {fatsize off v i : Nat}
    (away : i < entryWidth fatsize * off ∨ entryWidth fatsize * off + entryWidth fatsize ≤ i) :
    setEntry fatsize m off v i = m i := by
  unfold setEntry
  unfold entryWidth at away
  split_ifs at away ⊢
  · rw [Mem.set16_of_ne (by omega) (by omega), Mem.set16_of_ne (by omega) (by omega)]
  · rw [Mem.set16_of_ne (by omega) (by omega)]

lemma set16_low {v : Nat} : (m.set16 a v a).toNat = v % 256 := by
  have eq : m.set16 a v a = UInt8.ofNat v := Mem.write_at (i := 0) (by simp)
  rw [eq, UInt8.toNat_ofNat']

lemma set16_high {v : Nat} : (m.set16 a v (a + 1)).toNat = v / 256 % 256 := by
  have eq : m.set16 a v (a + 1) = UInt8.ofNat (v / 256) := Mem.write_at (i := 1) (by simp)
  rw [eq, UInt8.toNat_ofNat']

lemma get16_set16_mod {v : Nat} : (m.set16 a v).get16 a = v % 65536 := by
  rw [Mem.get16, set16_low, set16_high]
  omega

/-- An entry of the buffer that was set. -/
lemma actualEntry_setEntry {fatsize off v : Nat} (kind : fatsize = 32 ∨ fatsize = 16)
    (small : v < 256 ^ entryWidth fatsize) :
    actualEntry fatsize (setEntry fatsize m off v) off = v := by
  unfold entryWidth at small
  obtain rfl | rfl := kind
  · rw [if_pos rfl] at small
    rw [actualEntry, if_pos rfl, setEntry, if_pos rfl, get16_set16_mod,
      Mem.get16_set16_of_disjoint (by omega), get16_set16_mod]
    omega
  · rw [if_neg (by decide)] at small
    rw [actualEntry, if_neg (by decide), if_pos rfl, setEntry, if_neg (by decide), word,
      get16_set16_mod]
    omega

/-- The writer with an entry set in its buffer. -/
def withEntry (w : Writer) (offset value : Nat) : Writer :=
  { w with fs := { w.fs with fatbuf := setEntry w.fs.fatsize w.fs.fatbuf offset value } }

/-- An entry of the window in the buffer is set, and the other ones are kept. -/
lemma withEntry_spec {v : Nat} (sound : w.Sound)
    (kind : w.fs.fatsize = 32 ∨ w.fs.fatsize = 16) (small : v < 256 ^ entryWidth w.fs.fatsize)
    (inside : entryEnd w.fs.fatsize entry ≤ w.fs.fatlength * w.fs.sectSize)
    (number : w.fs.fatbufnum = entry / w.fs.bufsize) :
    Step w (w.withEntry (entry - entry / w.fs.bufsize * w.fs.bufsize) v) ∧
      ∀ x, entryEnd w.fs.fatsize x ≤ w.fs.fatlength * w.fs.sectSize →
        fatEntry (w.withEntry (entry - entry / w.fs.bufsize * w.fs.bufsize) v).view w.fs x =
          if x = entry then v else fatEntry w.view w.fs x := by
  obtain ⟨off, offset⟩ : ∃ off, entry - entry / w.fs.bufsize * w.fs.bufsize = off := ⟨_, rfl⟩
  have held := sound.held_of_window inside number
  have sound' : (w.withEntry off v).Sound :=
    ⟨⟨sound.table.kind, sound.table.some, sound.table.even, sound.table.small⟩, sound.bytes,
      sound.fats, sound.total, sound.held⟩
  obtain ⟨b32, b16, -⟩ := entry_place sound.table entry
  rw [offset] at b32 b16 ⊢
  rw [← number] at b32 b16
  refine ⟨⟨⟨_, _, _, rfl⟩, fun _ _ => rfl, sound'⟩, fun x inside' => ?_⟩
  by_cases eq : x = entry
  case pos =>
    subst eq
    rw [if_pos rfl]
    have read := actualEntry_cached sound'.table sound'.cached number inside
    refine read.symm.trans ?_
    show actualEntry w.fs.fatsize _ (x - x / w.fs.bufsize * w.fs.bufsize) = v
    rw [offset]
    exact actualEntry_setEntry kind small
  rw [if_neg eq]
  refine fatEntry_congr fun o ge lt => ?_
  have below := Nat.lt_of_lt_of_le lt inside'
  rw [view_eq sound held below]
  refine (view_eq sound' held below).trans ?_
  by_cases here : w.fs.fatbufnum * w.fs.window ≤ o ∧
      o < w.fs.fatbufnum * w.fs.window + w.fs.window
  case neg => exact (if_neg here).trans (if_neg here).symm
  refine (if_pos here).trans (.trans (setEntry_of_ne ?_) (if_pos here).symm)
  unfold entryWidth
  unfold entryStart at ge
  unfold entryEnd at lt
  show o - w.fs.fatbufnum * w.fs.window < _ ∨ _ ≤ o - w.fs.fatbufnum * w.fs.window
  obtain fat32 | fat16 := kind
  · have place := b32 fat32
    rw [if_pos fat32] at ge lt ⊢
    omega
  · have place := b16 fat16
    rw [fat16, if_neg (by decide), if_pos rfl] at ge lt
    rw [fat16, if_neg (by decide)]
    omega

/-- An entry is set, and the other ones are kept. -/
lemma setFatentValue_spec {v : Nat} (sound : w.Sound)
    (kind : w.fs.fatsize = 32 ∨ w.fs.fatsize = 16) (small : v < 256 ^ entryWidth w.fs.fatsize)
    (inside : entryEnd w.fs.fatsize entry ≤ w.fs.fatlength * w.fs.sectSize) :
    Step w (w.setFatentValue entry v) ∧ (w.setFatentValue entry v).fs.fatbufnum ≠ 2 ^ 32 - 1 ∧
      ∀ x, entryEnd w.fs.fatsize x ≤ w.fs.fatlength * w.fs.sectSize →
        fatEntry (w.setFatentValue entry v).view w.fs x =
          if x = entry then v else fatEntry w.view w.fs x := by
  have limit : min fatbufblocks w.fs.fatlength ≤ u32 (w.fs.fatlength * w.fs.sectSize : Nat) := by
    rw [u32_eq sound.bytes]
    exact Nat.le_trans (Nat.min_le_right ..) (Nat.le_mul_of_pos_right _ sound.table.some)
  obtain ⟨w', eq, keeps, number⟩ := refill_spec sound (sound.window inside) limit
  rw [setFatentValue, if_pos kind]
  dsimp only
  rw [eq]
  dsimp only
  clear eq
  obtain ⟨disk, buf, num, rfl⟩ := keeps.frame
  obtain ⟨step, set⟩ := withEntry_spec keeps.sound kind small inside number
  refine ⟨keeps.toStep.trans step, sound.held_of_window inside number,
    fun x inside' => (set x inside').trans ?_⟩
  rw [← keeps.same inside']
  rfl

end Writer

end Imx.Fat
