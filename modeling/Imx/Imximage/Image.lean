import Imx.Imximage.Parse

/-!
# The finished image

The boot ROM reads the commands of the table back. The image is the one that the file asks for
exactly when the table is not empty, fits, has words only, and keeps what it had where the version
is said again.
-/

namespace Imx.Imximage
open Imx.Base

variable {s s' : Img} {cmd : Cmd} {m : Mem} {tokens : List Str} {lines : List (List Str)}
  {l : Layout} {g : Group} {gs : List Group} {bs : List UInt8} {a k n r fuel : Nat}

/-! ## The boot ROM -/

lemma ofBe_bytesBe (h : n < 256 ^ k) : ofBe (bytesBe k n) = n := by
  rw [ofBe, bytesBe, List.reverse_reverse, ofLe_bytesLe h]

lemma romPairs_entries {es : List (Nat × Nat)}
    (ranges : ∀ e ∈ es, e.1 < 2 ^ 32 ∧ e.2 < 2 ^ 32) :
    romPairs es.length (es.flatMap entryBytes ++ bs) = es := by
  induction es with
  | nil => rfl
  | cons e es ih =>
    obtain ⟨⟨first, second⟩, ranges⟩ := List.forall_mem_cons.mp ranges
    have len {n : Nat} : (bytesBe 4 n).length = 4 := length_bytesBe
    have split : (e :: es).flatMap entryBytes ++ bs =
        bytesBe 4 e.1 ++ (bytesBe 4 e.2 ++ (es.flatMap entryBytes ++ bs)) := by
      rw [List.flatMap_cons, entryBytes, List.append_assoc, List.append_assoc]
    rw [List.length_cons, romPairs, split, List.take_left' len, List.drop_left' len,
      List.take_left' len, show 8 = 4 + 4 from rfl, ← List.drop_drop, List.drop_left' len,
      List.drop_left' len, ofBe_bytesBe first, ofBe_bytesBe second, ih ranges]

lemma romCmd_eq (dcd : cmd.isDcd = true) :
    romCmd (tagOf cmd) (paramOf cmd) = some cmd ∧ (paramOf cmd % 8).toNat = 4 := by
  cases cmd with
  | imageVersion | bootFrom | bootOffset | csf => cases dcd
  | writeData | writeClrBit | checkBitsSet | checkBitsClr => decide

/-- The commands are read back. -/
lemma romCommands_encode (groups : ∀ g ∈ gs, g.cmd.isDcd = true ∧
      ∀ e ∈ g.entries, e.1 < 2 ^ 32 ∧ e.2 < 2 ^ 32) (small : sizeOf gs < 2 ^ 16)
    (enough : gs.length ≤ fuel) :
    romCommands fuel (gs.flatMap Group.encode) = some (gs.flatMap Group.ops) := by
  induction gs generalizing fuel with
  | nil =>
    unfold romCommands
    rfl
  | cons g gs ih =>
    obtain ⟨⟨dcd, ranges⟩, groups⟩ := List.forall_mem_cons.mp groups
    rw [sizeOf_cons] at small
    obtain ⟨named, width⟩ := romCmd_eq dcd
    cases fuel with
    | zero => simp at enough
    | succ fuel =>
      have size : ofBe [UInt8.ofNat (g.size / 256), UInt8.ofNat g.size] = g.size :=
        ofBe_bytesBe (k := 2) (by omega)
      have eight : (g.entries.flatMap entryBytes).length = 8 * g.entries.length :=
        length_flatMap_eq (fun e => by rw [entryBytes, List.length_append, length_bytesBe,
          length_bytesBe]) _
      have bytes : (g :: gs).flatMap Group.encode = tagOf g.cmd :: UInt8.ofNat (g.size / 256) ::
          UInt8.ofNat g.size :: paramOf g.cmd ::
            (g.entries.flatMap entryBytes ++ gs.flatMap Group.encode) := rfl
      have rest : (g.entries.flatMap entryBytes ++ gs.flatMap Group.encode).drop (g.size - 4) =
          gs.flatMap Group.encode := List.drop_left' (by rw [eight, Group.size]; omega)
      have count : (g.size - 4) / 8 = g.entries.length := by
        rw [Group.size]
        omega
      have fits : ¬ (g.size < 4 ∨
          (g.entries.flatMap entryBytes ++ gs.flatMap Group.encode).length < g.size - 4 ∨
          (g.size - 4) % 8 ≠ 0) := by
        rw [List.length_append, eight, Group.size]
        omega
      rw [bytes, romCommands, size, if_neg fits, named, Option.bind_some, rest, ih groups (by omega)
        (by rw [List.length_cons] at enough; omega), count, romPairs_entries ranges, width]
      rfl

/-! ## The operations -/

/-- An operation with a word. -/
def Op.word (op : Op) : Op := { op with width := 4 }

lemma ops_touch : (l.touch cmd).ops = l.ops := by
  rw [Layout.touch]
  split
  · rename_i none
    rw [Layout.ops, Layout.ops, none]
    rfl
  · rename_i g cur
    split
    · rfl
    · split
      · rename_i empty
        have none : g.ops = [] := by
          rw [Group.ops, empty]
          rfl
        rw [Layout.ops, Layout.ops, cur, Option.map_some, Option.map_some, Option.getD_some,
          Option.getD_some, none]
        rfl
      · rw [Layout.ops, Layout.ops, cur, List.flatMap_append, List.flatMap_cons, List.flatMap_nil,
          List.append_nil]
        exact List.append_nil _

lemma ops_append {e : Nat × Nat} (cur : l.cur = some g) :
    (l.append e).ops = l.ops ++ [⟨g.cmd, 4, e.1, e.2⟩] := by
  rw [Layout.ops, Layout.ops, Layout.append, cur, List.append_assoc]
  simp only [Option.map_some, Option.getD_some, Group.ops, List.map_append, List.map_cons,
    List.map_nil]

lemma ops_reset : l.reset.ops <+: l.ops := by
  rw [Layout.reset]
  split
  · exact List.prefix_refl _
  · rename_i g gs done
    rw [Layout.ops, Layout.ops, done, List.flatMap_cons, List.append_assoc]
    exact List.prefix_append _ _

variable (tokens l) in
/-- What a line adds. -/
lemma ops_line : (isVersionLine tokens = true ∧ (l.line tokens).1 = l.reset ∧
      configuredLine tokens = []) ∨
    (isVersionLine tokens = false ∧
      (l.line tokens).1.ops = l.ops ++ (configuredLine tokens).map Op.word) := by
  have same {tokens : List Str} (version : isVersionLine tokens = false)
      (line : l.line tokens = (l, 0)) (nothing : configuredLine tokens = []) :
      isVersionLine tokens = false ∧
        (l.line tokens).1.ops = l.ops ++ (configuredLine tokens).map Op.word := by
    rw [line, nothing]
    exact ⟨version, (List.append_nil _).symm⟩
  by_cases short : tokens.length < 2
  · obtain ⟨line, nothing⟩ := line_short (l := l) short
    refine .inr (same ?_ line nothing)
    unfold isVersionLine
    split
    · rw [List.length_cons, List.length_cons] at short
      omega
    · rfl
  · obtain ⟨name, size, fields, rfl⟩ : ∃ name size fields, tokens = name :: size :: fields := by
      cases tokens with
      | nil => exact (short (by decide)).elim
      | cons name fields =>
        cases fields with
        | nil => exact (short (by rw [List.length_singleton]; decide)).elim
        | cons size fields => exact ⟨name, size, fields, rfl⟩
    have version : isVersionLine (name :: size :: fields) =
        decide (getTableEntryId imximageCmds name = some .imageVersion) := rfl
    cases named : getTableEntryId imximageCmds name with
    | none =>
      refine .inr (same ?_ ?_ ?_)
      · rw [version, named]
        rfl
      · simp only [Layout.line, named]
      · unfold configuredLine
        split
        · rename_i eq
          cases eq
          rw [named]
        · rfl
    | some cmd =>
      by_cases dcd : cmd.isDcd = true
      · have notVersion : isVersionLine (name :: size :: fields) = false := by
          rw [version, named]
          refine decide_eq_false fun same => ?_
          cases same
          cases dcd
        refine .inr ⟨notVersion, ?_⟩
        cases fields with
        | nil =>
          simp only [Layout.line, named, dcd, if_true, ops_touch, configuredLine, List.map_nil,
            List.append_nil]
        | cons address fields =>
          cases fields with
          | nil =>
            simp only [Layout.line, named, dcd, if_true, ops_touch, configuredLine, List.map_nil,
              List.append_nil]
          | cons value fields =>
            obtain ⟨g, cur, kind⟩ := touch_cur cmd l
            simp only [Layout.line, named, dcd, if_true, configuredLine, List.map_cons,
              List.map_nil, ops_append cur, ops_touch, kind, Op.word]
      · have other : cmd.isDcd = false := Bool.eq_false_iff.mpr dcd
        have nothing : configuredLine (name :: size :: fields) = [] := by
          unfold configuredLine
          split
          · rename_i eq
            cases eq
            rw [named]
            exact if_neg dcd
          · rfl
        by_cases itself : cmd = .imageVersion
        · refine .inl ⟨?_, ?_, nothing⟩
          · rw [version, named, itself]
            rfl
          · simp only [Layout.line, named, other, Bool.false_eq_true, if_false]
            rw [if_pos itself]
        · refine .inr (same ?_ ?_ nothing)
          · rw [version, named]
            exact decide_eq_false fun yes => itself (Option.some.inj yes)
          · simp only [Layout.line, named, other, Bool.false_eq_true, if_false, itself]

variable (lines l r) in
/-- The table has the operations of the lines, as words, when none is lost, and fewer otherwise. -/
lemma ops_lines :
    (Kept l lines → (Layout.lines (l, r) lines).1.ops =
        l.ops ++ (configured lines).map Op.word) ∧
      (Layout.lines (l, r) lines).1.ops.length ≤ l.ops.length + (configured lines).length ∧
      (¬ Kept l lines → (Layout.lines (l, r) lines).1.ops.length <
        l.ops.length + (configured lines).length) := by
  induction lines generalizing l r with
  | nil => exact ⟨fun _ => (List.append_nil _).symm, Nat.le_refl _, fun lost => (lost trivial).elim⟩
  | cons tokens lines ih =>
    obtain ⟨kept, le, lost⟩ := ih (l.line tokens).1 (max r (l.line tokens).2)
    have next : Layout.lines (l, r) (tokens :: lines) =
        Layout.lines ((l.line tokens).1, max r (l.line tokens).2) lines := rfl
    have configured_cons : configured (tokens :: lines) =
        configuredLine tokens ++ configured lines := List.flatMap_cons
    rw [next, configured_cons, Kept]
    obtain ⟨version, line, nothing⟩ | ⟨version, ops⟩ := ops_line tokens l
    · have prefix_ : l.reset.ops.length ≤ l.ops.length := ops_reset.length_le
      rw [line] at kept le lost ⊢
      rw [nothing, List.nil_append]
      refine ⟨?_, by omega, ?_⟩
      · rintro ⟨same, later⟩
        rw [kept later, same version]
      · intro notKept
        by_cases same : l.reset.ops = l.ops
        · have less := lost fun later => notKept ⟨fun _ => same, later⟩
          omega
        · have less : l.reset.ops.length < l.ops.length := by
            refine Nat.lt_of_le_of_ne prefix_ fun length => same ?_
            exact ops_reset.eq_of_length length
          omega
    · rw [ops, List.length_append, List.length_map] at le lost
      rw [List.length_append]
      refine ⟨?_, by omega, ?_⟩
      · rintro ⟨_, later⟩
        rw [kept later, ops, List.map_append, List.append_assoc]
      · intro notKept
        have less := lost fun later =>
          notKept ⟨fun yes => absurd (yes.symm.trans version) nofun, later⟩
        omega

lemma words_iff {ops : List Op} : ops.map Op.word = ops ↔ ∀ op ∈ ops, op.width = 4 := by
  constructor
  · intro same op mem
    rw [← same] at mem
    obtain ⟨op', _, rfl⟩ := List.mem_map.mp mem
    rfl
  · intro words
    refine (List.map_congr_left fun op mem => ?_).trans (List.map_id ops)
    have four := words op mem
    cases op
    cases four
    rfl

/-- The table has the operations that the file asks for. -/
lemma ops_eq_configured :
    (layout lines).1.ops = configured lines ↔
      Kept ⟨[], none⟩ lines ∧ ∀ op ∈ configured lines, op.width = 4 := by
  obtain ⟨kept, _, lost⟩ := ops_lines lines ⟨[], none⟩ dcdCmd
  rw [layout]
  by_cases all : Kept ⟨[], none⟩ lines
  · rw [kept all, ← words_iff]
    exact ⟨fun same => ⟨all, same⟩, fun h => h.2⟩
  · have less := lost all
    constructor
    · intro same
      rw [same] at less
      change (configured lines).length < 0 + (configured lines).length at less
      omega
    · exact fun h => (all h.1).elim

/-! ## The header -/

/-- The commands with entries. -/
def Layout.filled (l : Layout) : List Group :=
  l.done ++ (l.cur.filter (·.entries ≠ [])).toList

/-- The last command belongs to the table when it has entries. -/
lemma filled_cases : (l.cur = none ∧ l.filled = l.done ∧ l.tableEnd = l.last) ∨
    ∃ g, l.cur = some g ∧ ((g.entries = [] ∧ l.filled = l.done ∧ l.tableEnd = l.last) ∨
      (g.entries ≠ [] ∧ l.filled = l.done ++ [g] ∧ l.tableEnd = l.stop)) := by
  rw [Layout.filled, Layout.tableEnd]
  cases l.cur with
  | none => exact .inl ⟨rfl, List.append_nil _, rfl⟩
  | some g =>
    refine .inr ⟨g, rfl, ?_⟩
    by_cases empty : g.entries = []
    · refine .inl ⟨empty, ?_, if_pos empty⟩
      rw [Option.filter_some_neg (by simpa using empty)]
      exact List.append_nil _
    · refine .inr ⟨empty, ?_, if_neg empty⟩
      rw [Option.filter_some_pos (by simpa using empty)]
      rfl

/-- What is read in the table. -/
lemma Holds.filled (h : Holds s l r n) :
    l.tableEnd = dcdCmd + sizeOf l.filled ∧
      s.hdr.mem.read dcdCmd (sizeOf l.filled) = l.filled.flatMap Group.encode ∧
      l.filled.flatMap Group.ops = l.ops ∧ (∀ g ∈ l.filled, g.entries ≠ []) ∧
      ∀ g ∈ l.filled, g.cmd.isDcd = true ∧ ∀ e ∈ g.entries, e.1 < 2 ^ 32 ∧ e.2 < 2 ^ 32 := by
  have groups : ∀ g ∈ l.done, g.cmd.isDcd = true ∧ ∀ e ∈ g.entries, e.1 < 2 ^ 32 ∧ e.2 < 2 ^ 32 :=
    fun g mem => h.groups g (List.mem_append_left _ mem)
  obtain ⟨cur, filled, end_⟩ | ⟨g, cur, ⟨empty, filled, end_⟩ | ⟨some, filled, end_⟩⟩ :=
    filled_cases (l := l)
  · rw [filled, end_]
    refine ⟨rfl, h.finished, ?_, h.full, groups⟩
    rw [Layout.ops, cur]
    exact (List.append_nil _).symm
  · rw [filled, end_]
    refine ⟨rfl, h.finished, ?_, h.full, groups⟩
    have none : g.ops = [] := by
      rw [Group.ops, empty]
      rfl
    rw [Layout.ops, cur, Option.map_some, Option.getD_some, none, List.append_nil]
  · rw [filled, end_]
    refine ⟨?_, ?_, ?_, ?_, ?_⟩
    · rw [Layout.stop, Layout.last, cur, sizeOf_append, sizeOf_cons]
      exact Nat.add_assoc ..
    · rw [sizeOf_append, Mem.read_add, h.finished, List.flatMap_append]
      congr 1
      exact (h.current g cur).trans (List.append_nil _).symm
    · rw [Layout.ops, cur, List.flatMap_append, List.flatMap_cons, List.flatMap_nil,
        List.append_nil]
      rfl
    · intro g' mem
      obtain mem | mem := List.mem_append.mp mem
      · exact h.full g' mem
      · rw [List.mem_singleton.mp mem]
        exact some
    · intro g' mem
      apply h.groups g'
      rw [cur]
      exact mem

/-- The header of the table. -/
lemma Holds.rst (h : Holds s l r n) (small : n ≤ maxHwCfgSizeV2) :
    (setDcdRst s n).hdr.mem =
        s.hdr.mem.write dcdTable (0xD2 :: (bytesBe 2 (l.tableEnd - dcdTable) ++ [0x40])) ∧
      (setDcdRst s n).hdr.written =
        s.hdr.written ++ [(dcdTable, 1), (dcdTable + 1, 2), (dcdTable + 3, 1)] := by
  have end_ : (if 4 < s.hdr.mem.be16 (l.last + 1) then l.last + s.hdr.mem.be16 (l.last + 1)
      else l.last) = l.tableEnd := by
    obtain ⟨cur, _, end_⟩ | ⟨g, cur, ⟨empty, _, end_⟩ | ⟨some, _, end_⟩⟩ :=
      filled_cases (l := l)
    · rw [(h.blank cur).2, if_neg (by decide), end_]
    · rw [(fields_of_read (h.current g cur) (h.size_lt small cur)).2.1, Group.size, empty, end_]
      exact if_neg (by decide)
    · have pos := List.length_pos_of_ne_nil some
      rw [(fields_of_read (h.current g cur) (h.size_lt small cur)).2.1, end_, Layout.stop, cur]
      exact if_pos (by rw [Group.size]; omega)
  rw [setDcdRst, if_pos h.version, setDcdRstV2, if_neg (not_not.mpr h.plugin), h.ptr]
  dsimp only
  rw [end_]
  constructor
  · have split : 0xD2 :: (bytesBe 2 (l.tableEnd - dcdTable) ++ [0x40]) =
        ([0xD2] ++ bytesBe 2 (l.tableEnd - dcdTable)) ++ [0x40] := rfl
    rw [split, Mem.write_append, Mem.write_append]
    rfl
  · simp only [written_store, List.append_assoc, length_bytesBe, List.length_singleton,
      List.cons_append, List.nil_append]

lemma put32_above {i v : Nat} (above : a + 4 ≤ i) : (s.put32 a v).hdr.mem i = s.hdr.mem i :=
  Mem.write_above (by rwa [length_bytesLe])

lemma put32_below {i v : Nat} (below : i < a) : (s.put32 a v).hdr.mem i = s.hdr.mem i :=
  Mem.write_below below

lemma get32_put32_self {v : Nat} : get32 (s.put32 a v).hdr.mem a = u32 v := by
  rw [get32, Img.put32, Mem.read_write_self length_bytesLe]
  exact ofLe_bytesLe (Nat.mod_lt _ (by decide))

lemma get32_put32_other {b v : Nat} (other : b + 4 ≤ a ∨ a + 4 ≤ b) :
    get32 (s.put32 a v).hdr.mem b = get32 s.hdr.mem b := by
  rw [get32, get32, Img.put32, Mem.read_write_disjoint (by rwa [length_bytesLe])]

/-- The header of the image leaves the table as it is. -/
lemma setImxHdrV2_mem (s : Img) (n entryPoint fileSize : Nat) :
    (∀ i, bootDataPlugin ≤ i →
        (setImxHdrV2 s n entryPoint fileSize).hdr.mem i = s.hdr.mem i) ∧
      (setImxHdrV2 s n entryPoint fileSize).hdr.mem 0 = 0xD1 ∧
      get32 (setImxHdrV2 s n entryPoint fileSize).hdr.mem 28 = 0 := by
  rw [setImxHdrV2]
  generalize frame : ({ s with hdr := { s.hdr with
    mem := s.hdr.mem.write 0 ([0xD1] ++ bytesBe 2 32 ++ [0x40]) } } : Img) = s₀
  have begins : s₀.hdr.mem 0 = 0xD1 := by
    rw [← frame]
    rfl
  have above (i : Nat) (le : 40 ≤ i) : s₀.hdr.mem i = s.hdr.mem i := by
    have length : ([0xD1] ++ bytesBe 2 32 ++ [0x40]).length = 4 := rfl
    rw [← frame]
    change (s.hdr.mem.write 0 ([0xD1] ++ bytesBe 2 32 ++ [0x40])) i = _
    exact Mem.write_above (by rw [length]; omega)
  rw [show bootDataPlugin = 40 from rfl]
  generalize (if 0 < n then _ else 0) = dcdPtr
  split
  · refine ⟨fun i le => ?_, ?_, ?_⟩
    · simp (disch := omega) only [put32_above, above]
    · simp (disch := omega) only [put32_below, begins]
    · simp (disch := omega) only [get32_put32_other, get32_put32_self]
      rfl
  · refine ⟨fun i le => ?_, ?_, ?_⟩
    · simp (disch := omega) only [put32_above, above]
    · simp (disch := omega) only [put32_below, begins]
    · simp (disch := omega) only [get32_put32_other, get32_put32_self]
      rfl

end Imx.Imximage
