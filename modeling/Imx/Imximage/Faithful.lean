import Imx.Imximage.Image

/-!
# The device configuration in the image

The table in the finished image is the one that the file asks for, inside its place and accepted by
the tool itself, exactly when the file is `WellFilled`. The parser counts entries, the structure has
room for 220 of them in one command, and the size that is printed may not be larger than that: a
file that is accepted can still overflow all of these, and the table without entries is refused.
-/

namespace Imx.Imximage
open Imx.Base

variable {s s' img parsed : Img} {m : Mem} {lines : List (List Str)} {l : Layout} {n r : Nat}

/-- The image lists what the file asks for, nothing was written beside the table, and the tool
accepts the image. -/
structure Faithful (lines : List (List Str)) (img parsed : Img) : Prop where
  lists : romOps img.hdr.mem = some (configured lines)
  inside : ∀ w ∈ parsed.hdr.written, dcdTable ≤ w.1 ∧ w.1 + w.2 ≤ dcdTable + sizeofDcd
  verified : imximageVerifyHeader img.hdr.mem = true
  printed : imximagePrintHeader img.hdr.mem = true

/-- There is an operation, all are words, none is lost where the version is said again, the table is
no longer than what is printed of it, and nothing reaches beyond its place. -/
structure WellFilled (lines : List (List Str)) : Prop where
  some : configured lines ≠ []
  words : ∀ op ∈ configured lines, op.width = 4
  kept : Kept ⟨[], none⟩ lines
  fits : (layout lines).1.tableEnd ≤ dcdTable + 8 + 8 * maxHwCfgSizeV2
  inside : (layout lines).2 ≤ dcdTable + sizeofDcd

/-- The size of the table that a header says. -/
structure Tabled (m : Mem) (l : Layout) : Prop where
  tag : m dcdTable = 0xD2
  version : m (dcdTable + 3) = 0x40
  length : m.be16 (dcdTable + 1) = 4 + sizeOf l.filled
  commands : m.read dcdCmd (sizeOf l.filled) = l.filled.flatMap Group.encode

lemma Tabled.congr {m' : Mem} (h : Tabled m l) (same : ∀ i, bootDataPlugin ≤ i → m' i = m i) :
    Tabled m' l := by
  have at_ {i : Nat} (le : bootDataPlugin ≤ i) : m' i = m i := same i le
  refine ⟨(at_ (by decide)).trans h.tag, (at_ (by decide)).trans h.version, ?_, ?_⟩
  · rw [Mem.be16, at_ (by decide), at_ (by decide)]
    exact h.length
  · rw [← h.commands]
    exact Mem.read_congr fun i _ => at_ (Nat.le_trans (by decide) (Nat.le_add_right dcdCmd i))

/-- The boot ROM reads the operations. -/
lemma Tabled.romOps (h : Tabled m l) (small : 4 + sizeOf l.filled < 2 ^ 16)
    (full : ∀ g ∈ l.filled, g.entries ≠ [])
    (groups : ∀ g ∈ l.filled, g.cmd.isDcd = true ∧
      ∀ e ∈ g.entries, e.1 < 2 ^ 32 ∧ e.2 < 2 ^ 32) :
    romOps m = some (l.filled.flatMap Group.ops) := by
  have size : 4 + sizeOf l.filled - 4 = sizeOf l.filled := Nat.add_sub_cancel_left 4 _
  rw [Imx.Imximage.romOps, h.length, if_pos ⟨h.tag, h.version, Nat.le_add_right 4 _⟩, size,
    h.commands]
  refine romCommands_encode groups (by omega) ?_
  have length : l.filled.length ≤ sizeOf l.filled := by
    generalize l.filled = gs at full
    induction gs with
    | nil => exact Nat.le_refl _
    | cons g gs ih =>
      have le := ih (List.forall_mem_cons.mp full).2
      rw [List.length_cons, sizeOf_cons, Group.size]
      omega
  omega

/-- The image is of version 2. -/
lemma Tabled.detected (h : Tabled m l) (tag : m 0 = 0xD1) (zero : get32 m 28 = 0) :
    detectImximageVersion m = some 2 := by
  rw [detectImximageVersion, zero, if_neg fun first => absurd first.2 (by decide),
    if_pos ⟨tag, h.tag⟩]

/-- What is printed is checked against the size of the largest table of entries. -/
lemma Tabled.printed (h : Tabled m l) (small : 4 + sizeOf l.filled < 2 ^ 16)
    (plugin : get32 m bootDataPlugin = 0) :
    printHdrV2 m = true ↔
      4 ≤ sizeOf l.filled ∧ dcdCmd + sizeOf l.filled ≤ dcdTable + 8 + 8 * maxHwCfgSizeV2 := by
  have max : maxHwCfgSizeV2 = 220 := rfl
  have cmd : dcdCmd = 48 := rfl
  have table : dcdTable = 44 := rfl
  rw [printHdrV2, h.length, plugin, decide_eq_true_iff, max, cmd, table, u32]
  omega

/-- The commands that lie in the table are not too many for its length field. -/
lemma Holds.size_filled_lt (h : Holds s l r n) (small : n ≤ maxHwCfgSizeV2) :
    4 + sizeOf l.filled < 2 ^ 16 := by
  obtain ⟨_, _, ops, full, _⟩ := h.filled
  have le := sizeOf_le full
  have few := h.few
  have max : maxHwCfgSizeV2 = 220 := rfl
  rw [ops] at le
  omega

/-- The header of the table says its size. -/
lemma Holds.tabled (h : Holds s l r n) (small : n ≤ maxHwCfgSizeV2) :
    Tabled (setDcdRst s n).hdr.mem l := by
  obtain ⟨mem, _⟩ := h.rst small
  obtain ⟨end_, commands, _⟩ := h.filled
  have lt := h.size_filled_lt small
  have size : l.tableEnd - dcdTable = 4 + sizeOf l.filled := by
    have cmd : dcdCmd = dcdTable + 4 := rfl
    omega
  rw [size, bytesBe_two] at mem
  have header : (s.hdr.mem.write dcdTable (0xD2 :: ([UInt8.ofNat ((4 + sizeOf l.filled) / 256),
      UInt8.ofNat (4 + sizeOf l.filled)] ++ [0x40]))).read dcdTable 4 =
        [0xD2, UInt8.ofNat ((4 + sizeOf l.filled) / 256), UInt8.ofNat (4 + sizeOf l.filled), 0x40] :=
    Mem.read_write_self rfl
  rw [mem]
  rw [Mem.read_succ, Mem.read_succ, Mem.read_succ, Mem.read_succ] at header
  obtain ⟨tag, header⟩ := List.cons.inj header
  obtain ⟨high, header⟩ := List.cons.inj header
  obtain ⟨low, header⟩ := List.cons.inj header
  obtain ⟨version, _⟩ := List.cons.inj header
  refine ⟨tag, version, ?_, ?_⟩
  · rw [Mem.be16]
    rw [high, low, UInt8.toNat_ofNat', UInt8.toNat_ofNat']
    omega
  · rw [← commands]
    exact Mem.read_write_disjoint (.inr (Nat.le_refl _))

/-- Everything is stored in the place of the table exactly when the lines do. -/
lemma Holds.inside (h : Holds s l r n) (small : n ≤ maxHwCfgSizeV2) :
    (∀ w ∈ (setDcdRst s n).hdr.written,
        dcdTable ≤ w.1 ∧ w.1 + w.2 ≤ dcdTable + sizeofDcd) ↔ r ≤ dcdTable + sizeofDcd := by
  obtain ⟨_, written⟩ := h.rst small
  have header : ∀ w ∈ [(dcdTable, 1), (dcdTable + 1, 2), (dcdTable + 3, 1)],
      dcdTable ≤ w.1 ∧ w.1 + w.2 ≤ dcdTable + sizeofDcd := by decide
  obtain ⟨begins, ends⟩ := h.reaches
  rw [written, List.forall_mem_append, ← ends _ (by decide)]
  constructor
  · exact fun all w mem => (all.1 w mem).2
  · exact fun all => ⟨fun w mem => ⟨Nat.le_trans (by decide) (begins w mem), all w mem⟩, header⟩

/-- What `imximage_set_header` builds for a file of version 2. -/
lemma setHeader_spec {st : Img} {payload : Mem} {file : Str} {ep size : Nat}
    (two : Version2 (cfgLines file))
    (run : imximageSetHeader st payload file ep size = some (img, parsed)) :
    ∃ s n, Holds s (layout (cfgLines file)).1 (layout (cfgLines file)).2 n ∧
      n = (configured (cfgLines file)).length ∧ n ≤ maxHwCfgSizeV2 ∧ parsed = setDcdRst s n ∧
        img = setImxHdrV2 (growLoadsize parsed) n ep size := by
  obtain ⟨⟨p, n⟩, parse, eq⟩ := Option.map_eq_some_iff.mp run
  clear run
  obtain ⟨⟨s, k⟩, lines, set⟩ := Option.bind_eq_some_iff.mp parse
  clear parse
  obtain ⟨holds, count, small⟩ := holds_layout payload rfl two lines
  dsimp only at set
  split at set
  · cases set
  · cases set
    have version : (setDcdRst s n).version = 2 := by
      rw [setDcdRst, if_pos holds.version, setDcdRstV2, if_neg (not_not.mpr holds.plugin)]
      exact holds.version
    rw [if_pos version] at eq
    cases eq
    exact ⟨s, n, holds, count, small, rfl, rfl⟩

/-- The load size is not in the header. -/
lemma growLoadsize_hdr : (growLoadsize s).hdr = s.hdr := by
  rw [growLoadsize]
  split
  · rfl
  · rfl

/-- The table has operations when there are commands with entries. -/
lemma Holds.filled_size (h : Holds s l r n) : 4 ≤ sizeOf l.filled ↔ l.ops ≠ [] := by
  obtain ⟨_, _, ops, full, _⟩ := h.filled
  have le := sizeOf_le full
  rw [ops] at le
  rw [← List.length_pos_iff_ne_nil]
  constructor
  · omega
  · intro pos
    cases eq : l.filled with
    | nil =>
      rw [eq] at ops
      rw [← ops] at pos
      cases pos
    | cons g gs =>
      rw [sizeOf_cons, Group.size]
      omega

/-- The image holds what the file asks for exactly when the file is `WellFilled`. -/
theorem dcd_faithful_iff (st : Img) (payload : Mem) (file : Str) (entryPoint fileSize : Nat)
    (img parsed : Img) (two : Version2 (cfgLines file))
    (run : imximageSetHeader st payload file entryPoint fileSize = some (img, parsed)) :
    Faithful (cfgLines file) img parsed ↔ WellFilled (cfgLines file) := by
  obtain ⟨s, n, holds, count, small, rfl, rfl⟩ := setHeader_spec two run
  clear run
  obtain ⟨end_, _, ops, full, groups⟩ := holds.filled
  have lt := holds.size_filled_lt small
  obtain ⟨above, tag, zero⟩ := setImxHdrV2_mem (growLoadsize (setDcdRst s n)) n entryPoint fileSize
  rw [growLoadsize_hdr] at above
  have tabled := (holds.tabled small).congr above
  have detected := tabled.detected tag zero
  have plugin : get32 (setImxHdrV2 (growLoadsize (setDcdRst s n)) n entryPoint fileSize).hdr.mem
      bootDataPlugin = 0 := by
    rw [get32, Mem.read_congr fun i _ => above _ (Nat.le_add_right _ i), (holds.rst small).1,
      Mem.read_write_disjoint (.inl (by decide))]
    exact holds.plugin
  have printed := tabled.printed lt plugin
  have lists := tabled.romOps lt full groups
  rw [ops] at lists
  constructor
  · intro faithful
    have accepted := faithful.printed
    rw [imximagePrintHeader, detected] at accepted
    obtain ⟨some, fits⟩ := printed.mp accepted
    have same : (layout (cfgLines file)).1.ops = configured (cfgLines file) :=
      Option.some.inj (lists.symm.trans faithful.lists)
    obtain ⟨kept, words⟩ := ops_eq_configured.mp same
    refine ⟨?_, words, kept, ?_, ?_⟩
    · rw [← same]
      exact holds.filled_size.mp some
    · rw [end_]
      exact fits
    · exact (holds.inside small).mp faithful.inside
  · intro filled
    have same := ops_eq_configured.mpr ⟨filled.kept, filled.words⟩
    refine ⟨?_, ?_, ?_, ?_⟩
    · rw [lists, same]
    · exact (holds.inside small).mpr filled.inside
    · rw [imximageVerifyHeader, detected]
      rfl
    · rw [imximagePrintHeader, detected]
      refine printed.mpr ⟨?_, ?_⟩
      · rw [holds.filled_size, same]
        exact filled.some
      · rw [← end_]
        exact filled.fits

/-- Two words are written. -/
def twoWords : Str := "IMAGE_VERSION 2\nBOOT_FROM sd\nDATA 4 0x10 0x20\nDATA 4 0x14 1\n".toList

/-- Nothing is configured. -/
def noData : Str := "IMAGE_VERSION 2\nBOOT_FROM sd\n".toList

/-- The variables before the tool runs. -/
def img₀ : Img := ⟨0, undefined, undefined, 0, none, none, blank Mem.zero⟩

/-- Two words are read back. -/
theorem dcd_faithful_iff_run : ∃ img parsed,
    imximageSetHeader img₀ Mem.zero twoWords 0x17800000 300000 = some (img, parsed) ∧
      Faithful (cfgLines twoWords) img parsed := by
  have built : (imximageSetHeader img₀ Mem.zero twoWords 0x17800000 300000).isSome = true := by
    decide
  obtain ⟨r, run⟩ := Option.isSome_iff_exists.mp built
  have two : Version2 (cfgLines twoWords) := by
    unfold Version2
    decide
  have filled : WellFilled (cfgLines twoWords) := by
    refine ⟨?_, ?_, ?_, ?_, ?_⟩ <;> decide
  exact ⟨r.1, r.2, run,
    (dcd_faithful_iff img₀ Mem.zero twoWords 0x17800000 300000 r.1 r.2 two run).mpr filled⟩

/-- The tool refuses the image with an empty table that it built. -/
theorem empty_table_refused : ∃ img parsed,
    Version2 (cfgLines noData) ∧
      imximageSetHeader img₀ Mem.zero noData 0x17800000 300000 = some (img, parsed) ∧
        imximagePrintHeader img.hdr.mem = false ∧ ¬ Faithful (cfgLines noData) img parsed := by
  have refused : ((imximageSetHeader img₀ Mem.zero noData 0x17800000 300000).map
      fun r => imximagePrintHeader r.1.hdr.mem) = some false := by
    decide
  obtain ⟨r, run, printed⟩ := Option.map_eq_some_iff.mp refused
  have two : Version2 (cfgLines noData) := by
    unfold Version2
    decide
  refine ⟨r.1, r.2, two, run, printed, fun faithful => ?_⟩
  rw [faithful.printed] at printed
  cases printed

end Imx.Imximage
