import Imx.Imximage.Table

/-!
# Reading a configuration file

`Holds` says which commands lie in the table, and how far everything that was stored reaches. Each
field of a line keeps it, with the table that `Layout.line` gives.
-/

namespace Imx.Imximage
open Imx.Base

variable {s s' : Img} {cmd : Cmd} {m m' : Mem} {tokens : List Str} {h : Header} {l : Layout}
  {g : Group} {gs : List Group} {bs : List UInt8} {a k n r fld value addr : Nat}

/-! ## Stores -/

@[simp] lemma mem_store : (h.store a bs).mem = h.mem.write a bs := rfl

@[simp] lemma written_store : (h.store a bs).written = h.written ++ [(a, bs.length)] := rfl

lemma bytesBe_two : bytesBe 2 n = [UInt8.ofNat (n / 256), UInt8.ofNat n] := rfl

@[simp] lemma length_encode : g.encode.length = g.size := by
  rw [Group.encode, List.length_cons, List.length_append, length_bytesBe, List.length_cons,
    length_flatMap_eq (k := 8) (fun e => by rw [entryBytes, List.length_append, length_bytesBe,
      length_bytesBe]), Group.size]
  omega

/-- The fields of a command that lies in the table. -/
lemma fields_of_read (read : m.read a g.size = g.encode) (small : g.size < 2 ^ 16) :
    m a = tagOf g.cmd ∧ m.be16 (a + 1) = g.size ∧ m (a + 3) = paramOf g.cmd := by
  rw [show g.size = 8 * g.entries.length + 1 + 1 + 1 + 1 by rw [Group.size]; omega,
    Mem.read_succ, Mem.read_succ, Mem.read_succ, Mem.read_succ, Group.encode, bytesBe_two] at read
  obtain ⟨tag, read⟩ := List.cons.inj read
  obtain ⟨high, read⟩ := List.cons.inj read
  obtain ⟨low, read⟩ := List.cons.inj read
  obtain ⟨param, _⟩ := List.cons.inj read
  refine ⟨tag, ?_, param⟩
  rw [Mem.be16, high, low, UInt8.toNat_ofNat', UInt8.toNat_ofNat']
  omega

/-- Where the stores end. -/
def Reaches (written : List (Nat × Nat)) (reach : Nat) : Prop :=
  (∀ w ∈ written, dcdCmd ≤ w.1) ∧
    ∀ k, dcdCmd ≤ k → ((∀ w ∈ written, w.1 + w.2 ≤ k) ↔ reach ≤ k)

lemma Reaches.store {written : List (Nat × Nat)} (h : Reaches written r) (above : dcdCmd ≤ a) :
    Reaches (written ++ [(a, n)]) (max r (a + n)) := by
  constructor
  · intro w mem
    obtain mem | mem := List.mem_append.mp mem
    · exact h.1 w mem
    · rw [List.mem_singleton.mp mem]
      exact above
  · intro k le
    rw [Nat.max_le, ← h.2 k le, List.forall_mem_append]
    simp only [List.mem_singleton, forall_eq]

lemma Reaches.congr {written : List (Nat × Nat)} {r' : Nat} (h : Reaches written r) (eq : r = r') :
    Reaches written r' := eq ▸ h

/-! ## The table -/

/-- The commands that lie in the table. -/
structure Holds (s : Img) (l : Layout) (reach n : Nat) : Prop where
  version : s.version = 2
  ptr : s.gdLastCmd.getD dcdCmd = l.last
  first : l.cur = none → l.done = []
  finished : s.hdr.mem.read dcdCmd (sizeOf l.done) = l.done.flatMap Group.encode
  current : ∀ g ∈ l.cur, s.hdr.mem.read l.last g.size = g.encode
  blank : l.cur = none → s.hdr.mem l.last = 0 ∧ s.hdr.mem.be16 (l.last + 1) = 0
  full : ∀ g ∈ l.done, g.entries ≠ []
  groups : ∀ g ∈ l.done ++ l.cur.toList, g.cmd.isDcd = true ∧
    ∀ e ∈ g.entries, e.1 < 2 ^ 32 ∧ e.2 < 2 ^ 32
  few : l.ops.length ≤ n
  plugin : get32 s.hdr.mem bootDataPlugin = 0
  stop_le : l.stop ≤ reach
  reaches : Reaches s.hdr.written reach

lemma sizeOf_append {gs' : List Group} : sizeOf (gs ++ gs') = sizeOf gs + sizeOf gs' := by
  rw [sizeOf, List.map_append, List.sum_append, sizeOf, sizeOf]

lemma sizeOf_cons : sizeOf (g :: gs) = g.size + sizeOf gs := rfl

/-- The size of commands that have entries. -/
lemma sizeOf_le (full : ∀ g ∈ gs, g.entries ≠ []) :
    sizeOf gs ≤ 12 * (gs.flatMap Group.ops).length := by
  induction gs with
  | nil => exact Nat.le_refl _
  | cons g gs ih =>
    obtain ⟨some, full⟩ := List.forall_mem_cons.mp full
    have le := ih full
    have pos := List.length_pos_of_ne_nil some
    rw [sizeOf_cons, List.flatMap_cons, List.length_append, Group.size, Group.ops, List.length_map]
    omega

lemma length_ops : l.ops.length =
    (l.done.flatMap Group.ops).length + (l.cur.map (·.entries.length)).getD 0 := by
  rw [Layout.ops, List.length_append]
  cases l.cur with
  | none => rfl
  | some g => rw [Option.map_some, Option.map_some, Option.getD_some, Option.getD_some, Group.ops,
      List.length_map]

/-- A command is short enough for its length field. -/
lemma Holds.size_lt (h : Holds s l r n) (small : n ≤ maxHwCfgSizeV2) (mem : g ∈ l.cur) :
    g.size < 2 ^ 16 := by
  have few := h.few
  rw [length_ops, show l.cur = some g from mem, Option.map_some, Option.getD_some] at few
  have max : maxHwCfgSizeV2 = 220 := rfl
  rw [Group.size]
  omega

lemma tag_ne_zero (dcd : cmd.isDcd = true) : tagOf cmd ≠ 0 := by
  cases cmd with
  | imageVersion | bootFrom | bootOffset | csf => cases dcd
  | writeData | writeClrBit | checkBitsSet | checkBitsClr => decide

/-- A command begins in the table. -/
lemma begin_mem (h : Header) (cmd : Cmd) (d : Nat) :
    (((h.store d [tagOf cmd]).store (d + 1) (bytesBe 2 4)).store (d + 3) [paramOf cmd]).mem =
      h.mem.write d (Group.encode ⟨cmd, []⟩) := by
  have split : (Group.encode ⟨cmd, []⟩) = ([tagOf cmd] ++ bytesBe 2 4) ++ [paramOf cmd] := rfl
  rw [split, Mem.write_append, Mem.write_append]
  rfl

/-- A command that begins behind the finished ones. -/
lemma Holds.begin (h : Holds s l r n) {ds : List Group} {d : Nat} (at_ : d = dcdCmd + sizeOf ds)
    (finished : s.hdr.mem.read dcdCmd (sizeOf ds) = ds.flatMap Group.encode)
    (full : ∀ g ∈ ds, g.entries ≠ [])
    (groups : ∀ g ∈ ds, g.cmd.isDcd = true ∧ ∀ e ∈ g.entries, e.1 < 2 ^ 32 ∧ e.2 < 2 ^ 32)
    (few : (ds.flatMap Group.ops).length ≤ n) (dcd : cmd.isDcd = true) :
    Holds { s with
        gdLastCmd := some d
        hdr := ((s.hdr.store d [tagOf cmd]).store (d + 1) (bytesBe 2 4)).store (d + 3)
          [paramOf cmd] }
      ⟨ds, some ⟨cmd, []⟩⟩ (max r (d + 4)) n := by
  have mem := begin_mem s.hdr cmd d
  have len : (Group.encode ⟨cmd, []⟩).length = 4 := length_encode
  refine ⟨h.version, at_, nofun, ?_, ?_, nofun, full, ?_, ?_, ?_, ?_, ?_⟩
  · dsimp only
    rw [mem, Mem.read_write_disjoint (.inl (Nat.le_of_eq at_.symm))]
    exact finished
  · rintro _ ⟨⟩
    dsimp only [Layout.last]
    rw [mem, ← at_]
    exact Mem.read_write_self len
  · intro g mem
    obtain mem | mem := List.mem_append.mp mem
    · exact groups g mem
    · rw [List.mem_singleton.mp mem]
      exact ⟨dcd, nofun⟩
  · rw [length_ops]
    exact few
  · dsimp only
    rw [mem, get32, Mem.read_write_disjoint (.inl ?_)]
    · exact h.plugin
    · rw [at_]
      exact Nat.le_trans (by decide : bootDataPlugin + 4 ≤ dcdCmd) (Nat.le_add_right _ _)
  · rw [Layout.stop, Layout.last, ← at_]
    exact Nat.le_max_right _ _
  · have above : dcdCmd ≤ d := at_ ▸ Nat.le_add_right _ _
    have stores := ((h.reaches.store (a := d) (n := 1) above).store (a := d + 1) (n := 2)
      (by omega)).store (a := d + 3) (n := 1) (by omega)
    exact stores.congr (by omega)

lemma dcdCommand_eq (dcd : cmd.isDcd = true) : dcdCommand cmd = some (tagOf cmd, paramOf cmd) := by
  cases cmd with
  | imageVersion | bootFrom | bootOffset | csf => cases dcd
  | writeData | writeClrBit | checkBitsSet | checkBitsClr => rfl

/-- The tag and the parameter tell the commands apart. -/
lemma tag_param_inj {cmd' : Cmd} (dcd : cmd.isDcd = true) (dcd' : cmd'.isDcd = true)
    (tag : tagOf cmd = tagOf cmd') (param : paramOf cmd = paramOf cmd') : cmd = cmd' := by
  revert dcd dcd' tag param
  cases cmd <;> cases cmd' <;> decide

/-- `set_dcd_param` makes the last command one of the kind. -/
lemma Holds.param (h : Holds s l r n) (dcd : cmd.isDcd = true) (small : n ≤ maxHwCfgSizeV2) :
    Holds (setDcdParamV2 s cmd) (l.touch cmd) (max r (l.touch cmd).stop) n ∧
      (setDcdParamV2 s cmd).gdLastCmd = some (l.touch cmd).last ∧
      (l.touch cmd = l → (setDcdParamV2 s cmd).hdr.mem.read l.stop 4 =
        s.hdr.mem.read l.stop 4) := by
  have groups : ∀ g ∈ l.done, g.cmd.isDcd = true ∧ ∀ e ∈ g.entries, e.1 < 2 ^ 32 ∧ e.2 < 2 ^ 32 :=
    fun g mem => h.groups g (List.mem_append_left _ mem)
  have few : (l.done.flatMap Group.ops).length ≤ n := by
    have few := h.few
    rw [length_ops] at few
    omega
  rw [setDcdParamV2, dcdCommand_eq dcd, h.ptr]
  dsimp only
  cases cur : l.cur with
  | none =>
    obtain ⟨tag, len⟩ := h.blank cur
    have starts : goesOn s l.last cmd (tagOf cmd) (paramOf cmd) = false := by
      refine decide_eq_false fun on => ?_
      rw [tag] at on
      exact tag_ne_zero dcd on.2.1.symm
    have touch : l.touch cmd = ⟨l.done, some ⟨cmd, []⟩⟩ := by
      rw [Layout.touch, cur]
    rw [starts, if_neg nofun, len, if_neg (by decide), touch]
    refine ⟨h.begin rfl h.finished h.full groups few dcd, rfl, fun same => ?_⟩
    rw [← same] at cur
    cases cur
  | some g =>
    have size := h.size_lt small cur
    obtain ⟨tag, len, param⟩ := fields_of_read (h.current g cur) size
    obtain ⟨dcdG, _⟩ := h.groups g (List.mem_append_right _ (by rw [cur]; exact List.mem_cons_self ..))
    have on : goesOn s l.last cmd (tagOf cmd) (paramOf cmd) = true ↔
        (cmd = .writeData ∨ cmd = .writeClrBit) ∧ g.cmd = cmd := by
      rw [goesOn, tag, param, decide_eq_true_iff]
      constructor
      · rintro ⟨write, tags, params⟩
        exact ⟨write, tag_param_inj dcdG dcd tags params⟩
      · rintro ⟨write, same⟩
        rw [same]
        exact ⟨write, rfl, rfl⟩
    by_cases same : (cmd = .writeData ∨ cmd = .writeClrBit) ∧ g.cmd = cmd
    · have touch : l.touch cmd = l := by
        rw [Layout.touch, cur]
        exact if_pos same
      rw [if_pos (on.mpr same), touch, Nat.max_eq_left h.stop_le]
      refine ⟨⟨h.version, rfl, h.first, h.finished, h.current, h.blank, h.full, h.groups, h.few,
        h.plugin, h.stop_le, h.reaches⟩, rfl, fun _ => rfl⟩
    · rw [if_neg (fun yes => same (on.mp yes)), len]
      by_cases empty : g.entries = []
      · have touch : l.touch cmd = ⟨l.done, some ⟨cmd, []⟩⟩ := by
          rw [Layout.touch, cur]
          dsimp only
          rw [if_neg same, if_pos empty]
        have four : g.size = 4 := by rw [Group.size, empty, List.length_nil]
        have stop : l.stop = l.last + 4 := by
          rw [Layout.stop, cur, Option.map_some, Option.getD_some, four]
        rw [four, if_neg (Nat.lt_irrefl 4), touch]
        refine ⟨h.begin rfl h.finished h.full groups few dcd, rfl, fun _ => ?_⟩
        rw [begin_mem, stop, Mem.read_write_disjoint (.inr (Nat.le_of_eq _))]
        rw [length_encode]
        rfl
      · have touch : l.touch cmd = ⟨l.done ++ [g], some ⟨cmd, []⟩⟩ := by
          rw [Layout.touch, cur]
          dsimp only
          rw [if_neg same, if_neg empty]
        have pos := List.length_pos_of_ne_nil empty
        have more : 4 < g.size := by
          rw [Group.size]
          omega
        have end_ : l.last + g.size = dcdCmd + sizeOf (l.done ++ [g]) := by
          rw [sizeOf_append, sizeOf_cons, Layout.last]
          exact Nat.add_assoc ..
        rw [if_pos more, touch, end_]
        refine ⟨h.begin rfl ?_ ?_ ?_ ?_ dcd, rfl, fun same => ?_⟩
        · rw [sizeOf_append, Mem.read_add, h.finished, List.flatMap_append]
          congr 1
          exact (h.current g cur).trans (List.append_nil _).symm
        · intro g' mem
          obtain mem | mem := List.mem_append.mp mem
          · exact h.full g' mem
          · rw [List.mem_singleton.mp mem]
            exact empty
        · rw [← Option.toList_some, ← cur]
          exact h.groups
        · have few := h.few
          rw [length_ops, cur, Option.map_some, Option.getD_some] at few
          rw [List.flatMap_append, List.length_append, List.flatMap_cons, List.flatMap_nil,
            List.append_nil, Group.ops, List.length_map]
          exact few
        · have length := congrArg (·.done.length) same
          rw [List.length_append, List.length_singleton] at length
          omega

/-- The offset of the next entry. -/
lemma Holds.off (h : Holds s l r n) (small : n ≤ maxHwCfgSizeV2) (cur : l.cur = some g) :
    (s.hdr.mem.be16 (l.last + 1) - 4) / 8 = g.entries.length ∧
      l.last + 4 + 8 * g.entries.length = l.stop := by
  have len := (fields_of_read (h.current g cur) (h.size_lt small cur)).2.1
  rw [len, Layout.stop, cur, Option.map_some, Option.getD_some, Group.size]
  omega

/-- Bytes in front of the table are kept. -/
lemma plugin_write (plugin : get32 m bootDataPlugin = 0) (above : dcdCmd ≤ a) :
    get32 (m.write a bs) bootDataPlugin = 0 := by
  have le : bootDataPlugin + 4 ≤ dcdCmd := by decide
  rw [get32, Mem.read_write_disjoint (.inl (Nat.le_trans le above))]
  exact plugin

variable (addr) in
/-- The address of an entry is stored behind the last command. -/
lemma Holds.setAddress (h : Holds s l r n) (small : n ≤ maxHwCfgSizeV2)
    (ptr : s.gdLastCmd = some l.last) (cur : l.cur = some g) :
    Holds (setDcdValV2 s 2 addr) l (max r (l.stop + 4)) n ∧
      (setDcdValV2 s 2 addr).hdr.mem.read l.stop 4 = bytesBe 4 addr := by
  obtain ⟨off, stop⟩ := h.off small cur
  have val : setDcdValV2 s 2 addr = { s with hdr := s.hdr.store l.stop (bytesBe 4 addr) } := by
    unfold setDcdValV2
    rw [ptr]
    dsimp only
    rw [if_pos rfl, off, stop]
  have last_le : l.last ≤ l.stop := Nat.le_add_right _ _
  have above : dcdCmd ≤ l.stop := Nat.le_trans (Nat.le_add_right _ _) last_le
  rw [val]
  refine ⟨⟨h.version, h.ptr, h.first, ?_, ?_, ?_, h.full, h.groups, h.few,
    plugin_write h.plugin above, Nat.le_trans h.stop_le (Nat.le_max_left _ _),
    (h.reaches.store above).congr (by rw [length_bytesBe])⟩, ?_⟩
  · rw [mem_store, Mem.read_write_disjoint (.inl last_le)]
    exact h.finished
  · intro g' cur'
    cases cur.symm.trans cur'
    rw [mem_store, Mem.read_write_disjoint (.inl ?_)]
    · exact h.current g cur
    · rw [Layout.stop, cur]
      exact Nat.le_refl _
  · intro none
    rw [none] at cur
    cases cur
  · rw [mem_store]
    exact Mem.read_write_self length_bytesBe

lemma stop_append (cur : l.cur = some g) : (l.append (addr, value)).stop = l.stop + 8 := by
  rw [Layout.stop, Layout.stop, Layout.append, cur]
  simp only [Option.map_some, Option.getD_some, Group.size, List.length_append,
    List.length_singleton, Layout.last]
  omega

/-- A command with one more entry. -/
lemma encode_append : Group.encode { g with entries := g.entries ++ [(addr, value)] } =
    [tagOf g.cmd] ++ (bytesBe 2 (8 * (g.entries.length + 1) + 4) ++
      ((paramOf g.cmd :: g.entries.flatMap entryBytes) ++ (bytesBe 4 addr ++ bytesBe 4 value))) := by
  rw [Group.encode, Group.size, List.flatMap_append, List.flatMap_cons, List.flatMap_nil,
    List.append_nil, List.length_append, List.length_singleton, Nat.add_comm 4]
  rfl

/-- The value of an entry is stored, and the command gets longer. -/
lemma Holds.setValue (h : Holds s l r n) (small : n ≤ maxHwCfgSizeV2)
    (ptr : s.gdLastCmd = some l.last) (cur : l.cur = some g)
    (stored : s.hdr.mem.read l.stop 4 = bytesBe 4 addr) (addr_lt : addr < 2 ^ 32)
    (value_lt : value < 2 ^ 32) :
    Holds (setDcdValV2 s 3 value) (l.append (addr, value)) (max r (l.stop + 8)) (n + 1) := by
  obtain ⟨off, stop⟩ := h.off small cur
  have end_ : l.last + 8 + 8 * g.entries.length = l.stop + 4 := by omega
  have val : setDcdValV2 s 3 value = { s with
      hdr := (s.hdr.store (l.stop + 4) (bytesBe 4 value)).store (l.last + 1)
        (bytesBe 2 (8 * (g.entries.length + 1) + 4)) } := by
    unfold setDcdValV2
    rw [ptr]
    dsimp only
    rw [if_neg (by decide), if_pos rfl, off, end_]
  have new : l.append (addr, value) =
      ⟨l.done, some { g with entries := g.entries ++ [(addr, value)] }⟩ := by
    rw [Layout.append, cur]
    rfl
  have last_le : dcdCmd ≤ l.last := Nat.le_add_right _ _
  have length2 : (bytesBe 2 (8 * (g.entries.length + 1) + 4)).length = 2 := length_bytesBe
  have length4 : (bytesBe 4 value).length = 4 := length_bytesBe
  rw [val]
  refine ⟨h.version, ?_, ?_, ?_, ?_, ?_, ?_, ?_, ?_, ?_, ?_, ?_⟩
  · rw [new]
    exact h.ptr
  · rw [new]
    exact nofun
  · rw [new, mem_store, mem_store,
      Mem.read_write_disjoint (.inl (show l.last ≤ l.last + 1 by omega)),
      Mem.read_write_disjoint (.inl (show l.last ≤ l.stop + 4 by omega))]
    exact h.finished
  · rw [new]
    rintro _ ⟨⟩
    have old := h.current g cur
    obtain ⟨k, length⟩ : ∃ k, k = 1 + 8 * g.entries.length := ⟨_, rfl⟩
    have size : Group.size { g with entries := g.entries ++ [(addr, value)] } =
        1 + (2 + (k + (4 + 4))) := by
      rw [Group.size, List.length_append, List.length_singleton]
      omega
    have tag : s.hdr.mem.read l.last 1 = [tagOf g.cmd] := by
      rw [Mem.read_succ, Mem.read_zero, (fields_of_read old (h.size_lt small cur)).1]
    have rest : s.hdr.mem.read (l.last + 3) k =
        paramOf g.cmd :: g.entries.flatMap entryBytes := by
      have drop := congrArg (List.drop 3) old
      rw [Mem.read_drop, Group.size, show 4 + 8 * g.entries.length - 3 = k by omega] at drop
      exact drop
    rw [mem_store, mem_store, size, encode_append]
    change Mem.read _ l.last _ = _
    rw [Mem.read_add, Mem.read_add, Mem.read_add, Mem.read_add]
    congr 1
    · rw [Mem.read_write_disjoint (.inl (Nat.le_refl _)),
        Mem.read_write_disjoint (.inl (by omega)), tag]
    · congr 1
      · exact Mem.read_write_self length2
      · congr 1
        · rw [Mem.read_write_disjoint (.inr (by omega)),
            Mem.read_write_disjoint (.inl (by omega)), rest]
        · rw [show l.last + 1 + 2 + k = l.stop by omega]
          congr 1
          · rw [Mem.read_write_disjoint (.inr (by omega)),
              Mem.read_write_disjoint (.inl (by omega)), stored]
          · rw [Mem.read_write_disjoint (.inr (by omega))]
            exact Mem.read_write_self length4
  · rw [new]
    exact nofun
  · rw [new]
    exact h.full
  · rw [new]
    intro g' mem
    obtain mem | mem := List.mem_append.mp mem
    · exact h.groups g' (List.mem_append_left _ mem)
    · obtain ⟨dcd, ranges⟩ := h.groups g
        (List.mem_append_right _ (by rw [cur]; exact List.mem_cons_self ..))
      rw [List.mem_singleton.mp mem]
      refine ⟨dcd, fun e mem => ?_⟩
      obtain mem | mem := List.mem_append.mp mem
      · exact ranges e mem
      · rw [List.mem_singleton.mp mem]
        exact ⟨addr_lt, value_lt⟩
  · have few := h.few
    rw [length_ops, cur, Option.map_some, Option.getD_some] at few
    rw [new, length_ops, Option.map_some, Option.getD_some, List.length_append,
      List.length_singleton]
    dsimp only
    omega
  · exact plugin_write (plugin_write h.plugin (by omega)) (by omega)
  · rw [stop_append cur]
    exact Nat.le_max_right _ _
  · have stores := (h.reaches.store (a := l.stop + 4) (n := 4) (by omega)).store (a := l.last + 1)
      (n := 2) (by omega)
    rw [written_store, written_store, length2, length4]
    exact stores.congr (by omega)

/-! ## Lines -/

/-- The other variables do not matter. -/
lemma Holds.congr (h : Holds s l r n) (version : s'.version = s.version)
    (ptr : s'.gdLastCmd = s.gdLastCmd) (hdr : s'.hdr = s.hdr) : Holds s' l r n where
  version := version.trans h.version
  ptr := by rw [ptr, h.ptr]
  first := h.first
  finished := by rw [hdr, h.finished]
  current := by
    rw [hdr]
    exact h.current
  blank := by
    rw [hdr]
    exact h.blank
  full := h.full
  groups := h.groups
  few := h.few
  plugin := by rw [hdr, h.plugin]
  stop_le := h.stop_le
  reaches := by
    rw [hdr]
    exact h.reaches

lemma Holds.notFirst (h : Holds s l r n) : Holds (notFirst s) l r n := by
  rw [Imx.Imximage.notFirst]
  split
  · exact h
  · exact h.congr rfl rfl rfl

variable (cmd l) in
/-- A command is the last one already, or it begins. -/
lemma touch_eq : l.touch cmd = l ∨ ∃ ds, l.touch cmd = ⟨ds, some ⟨cmd, []⟩⟩ := by
  rw [Layout.touch]
  split
  · exact .inr ⟨_, rfl⟩
  · split
    · exact .inl rfl
    · split
      · exact .inr ⟨_, rfl⟩
      · exact .inr ⟨_, rfl⟩

lemma touch_touch : (l.touch cmd).touch cmd = l.touch cmd := by
  obtain same | ⟨ds, begins⟩ := touch_eq cmd l
  · rw [same]
    exact same
  · rw [begins, Layout.touch]
    dsimp only
    split
    · rfl
    · rw [if_pos rfl]

variable (cmd l) in
lemma touch_cur : ∃ g, (l.touch cmd).cur = some g ∧ g.cmd = cmd := by
  unfold Layout.touch
  split
  · exact ⟨_, rfl, rfl⟩
  · rename_i g cur
    split
    · rename_i same
      exact ⟨g, cur, same.2⟩
    · split
      · exact ⟨_, rfl, rfl⟩
      · exact ⟨_, rfl, rfl⟩

lemma getCfgValue_eq {token : Str} {v : Nat} (h : getCfgValue token = some v) :
    v < 2 ^ 32 ∧ val token = v := by
  refine ⟨?_, by rw [val, h]; rfl⟩
  obtain ⟨w, _, rfl⟩ := Option.map_eq_some_iff.mp h
  exact Nat.mod_lt _ (by decide)

/-- Fields that no command has are passed over. -/
lemma parseFlds_rest {x : Line} (some : x.cmd = some cmd) (late : 2 ≤ fld)
    (other : cmd.isDcd = true → 4 ≤ fld) : parseFlds x fld tokens = Option.some x := by
  induction tokens generalizing fld with
  | nil => rfl
  | cons token tokens ih =>
    have pass : parseCfgFld x token fld = Option.some x := by
      rw [parseCfgFld, if_neg (by omega), some]
      dsimp only
      rw [if_neg (by omega), if_neg]
      rintro ⟨few, dcd⟩
      have four := other dcd
      omega
    rw [parseFlds, pass, Option.bind_some]
    exact ih (by omega) fun dcd => Nat.le_succ_of_le (other dcd)

lemma setDcd_two (version : s.version = 2) :
    setDcd s cmd fld value n = some (setDcdValV2 (setDcdParamV2 s cmd) fld value) := if_pos version

lemma setDcdValV2_size : setDcdValV2 s 1 value = s := by
  unfold setDcdValV2
  split
  · rfl
  · rfl

/-- The second field of a line makes its command the last one. -/
lemma Holds.sizeField (h : Holds s l r n) (dcd : cmd.isDcd = true) (small : n ≤ maxHwCfgSizeV2)
    {token : Str} (run : parseCfgCmd s cmd token 1 n = some s') :
    Holds s' (l.touch cmd) (max r (l.touch cmd).stop) n := by
  have field : (getCfgValue token).bind
      (fun value => (setDcd s cmd 1 value n).map Imx.Imximage.notFirst) = some s' := by
    cases cmd with
    | imageVersion | bootFrom | bootOffset | csf => cases dcd
    | writeData | writeClrBit | checkBitsSet | checkBitsClr => exact run
  obtain ⟨value, _, field⟩ := Option.bind_eq_some_iff.mp field
  rw [setDcd_two h.version, setDcdValV2_size] at field
  cases field
  exact (h.param dcd small).1.notFirst

variable (addr) in
/-- The third field stores an address. -/
lemma Holds.addressField (h : Holds s (l.touch cmd) r n) (dcd : cmd.isDcd = true)
    (small : n ≤ maxHwCfgSizeV2) :
    Holds (setDcdValV2 (setDcdParamV2 s cmd) 2 addr) (l.touch cmd)
      (max r ((l.touch cmd).stop + 4)) n ∧
      (setDcdValV2 (setDcdParamV2 s cmd) 2 addr).hdr.mem.read (l.touch cmd).stop 4 =
        bytesBe 4 addr := by
  obtain ⟨g, cur, _⟩ := touch_cur cmd l
  obtain ⟨param, ptr, _⟩ := h.param dcd small
  rw [touch_touch] at param ptr
  obtain ⟨holds, stored⟩ := param.setAddress addr small ptr cur
  have reach : max (max r (l.touch cmd).stop) ((l.touch cmd).stop + 4) =
      max r ((l.touch cmd).stop + 4) := by omega
  exact ⟨reach ▸ holds, stored⟩

/-- The fourth field stores the value. -/
lemma Holds.valueField (h : Holds s (l.touch cmd) r n) (dcd : cmd.isDcd = true)
    (small : n ≤ maxHwCfgSizeV2)
    (stored : s.hdr.mem.read (l.touch cmd).stop 4 = bytesBe 4 addr) (addr_lt : addr < 2 ^ 32)
    (value_lt : value < 2 ^ 32) :
    Holds (setDcdValV2 (setDcdParamV2 s cmd) 3 value) ((l.touch cmd).append (addr, value))
      (max r ((l.touch cmd).stop + 8)) (n + 1) := by
  obtain ⟨g, cur, _⟩ := touch_cur cmd l
  obtain ⟨param, ptr, kept⟩ := h.param dcd small
  rw [touch_touch] at param ptr kept
  have holds := param.setValue small ptr cur ((kept rfl).trans stored) addr_lt value_lt
  have reach : max (max r (l.touch cmd).stop) ((l.touch cmd).stop + 8) =
      max r ((l.touch cmd).stop + 8) := by omega
  exact reach ▸ holds

/-- The version that is said again makes the first command the last one. -/
lemma Holds.reset (h : Holds s l r n) : Holds { s with gdLastCmd := none } l.reset r n := by
  have few := h.few
  have stop_le := h.stop_le
  rw [length_ops] at few
  rw [Layout.reset]
  split
  · rename_i none
    refine ⟨h.version, ?_, h.first, h.finished, h.current, h.blank, h.full, h.groups, h.few,
      h.plugin, h.stop_le, h.reaches⟩
    rw [Layout.last, none]
    rfl
  · rename_i g gs done
    have finished := h.finished
    rw [done, sizeOf_cons, Mem.read_add, List.flatMap_cons] at finished
    rw [Layout.stop, Layout.last, done, sizeOf_cons] at stop_le
    rw [done, List.flatMap_cons, List.length_append, Group.ops, List.length_map] at few
    refine ⟨h.version, rfl, nofun, rfl, ?_, nofun, nofun, ?_, ?_, h.plugin, ?_, h.reaches⟩
    · rintro _ ⟨⟩
      exact (List.append_inj finished (by rw [Mem.length_read, length_encode])).1
    · intro g' mem
      rw [List.mem_singleton.mp mem]
      exact h.groups g (by rw [done]; exact List.mem_cons_self ..)
    · rw [length_ops]
      change 0 + g.entries.length ≤ n
      omega
    · rw [Layout.stop, Layout.last]
      change dcdCmd + 0 + g.size ≤ r
      omega

/-- The second field of a line that has nothing to do with the table. -/
lemma Holds.otherField (h : Holds s l r n) (other : cmd.isDcd = false) {token : Str}
    (two : cmd = .imageVersion → ∀ v ∈ getCfgValue token, v = 2)
    (run : parseCfgCmd s cmd token 1 n = some s') :
    Holds s' (if cmd = .imageVersion then l.reset else l) r n := by
  cases cmd with
  | writeData | writeClrBit | checkBitsSet | checkBitsClr => cases other
  | imageVersion =>
    obtain ⟨v, read, run⟩ := Option.bind_eq_some_iff.mp run
    have eq := two rfl v read
    rw [eq] at run
    split at run
    · cases run
    · cases run
      exact h.reset.congr h.version.symm rfl rfl
  | bootFrom =>
    obtain ⟨offset, _, run⟩ := Option.bind_eq_some_iff.mp run
    obtain ⟨loadsize, _, rfl⟩ := Option.map_eq_some_iff.mp run
    exact Holds.notFirst (h.congr rfl rfl rfl)
  | bootOffset =>
    obtain ⟨offset, _, rfl⟩ := Option.map_eq_some_iff.mp run
    exact Holds.notFirst (h.congr rfl rfl rfl)
  | csf =>
    rw [parseCfgCmd] at run
    split at run
    · cases run
    · obtain ⟨size, _, rfl⟩ := Option.map_eq_some_iff.mp run
      exact Holds.notFirst (h.congr rfl rfl rfl)

/-- A line does to the table what `Layout.line` says. -/
lemma Holds.parseLine (h : Holds s l r n) (small : n ≤ maxHwCfgSizeV2)
    (two : ∀ v ∈ saysVersion tokens, v = 2) {k : Nat}
    (run : parseLine (s, n) tokens = some (s', k)) :
    Holds s' (l.line tokens).1 (max r (l.line tokens).2) k ∧
      k = n + (configuredLine tokens).length ∧ k ≤ maxHwCfgSizeV2 := by
  rw [Imx.Imximage.parseLine] at run
  obtain ⟨x, flds, eq⟩ := Option.map_eq_some_iff.mp run
  clear run
  cases eq
  have le : dcdCmd ≤ r := Nat.le_trans (Nat.le_trans (Nat.le_add_right _ _) (Nat.le_add_right _ _))
    h.stop_le
  cases tokens with
  | nil =>
    cases flds
    exact ⟨by rw [Layout.line, Nat.max_eq_left (Nat.zero_le _)]; exact h, rfl, small⟩
  | cons name fields =>
    obtain ⟨x₀, first, flds⟩ := Option.bind_eq_some_iff.mp flds
    rw [parseCfgFld, if_pos rfl] at first
    obtain ⟨cmd, named, eq⟩ := Option.map_eq_some_iff.mp first
    clear first
    cases eq
    have line : l.line [name] = (l, 0) := by
      simp only [Layout.line, named]
    cases fields with
    | nil =>
      cases flds
      rw [line, Nat.max_eq_left (Nat.zero_le _)]
      exact ⟨h, rfl, small⟩
    | cons size fields =>
      obtain ⟨x₁, second, flds⟩ := Option.bind_eq_some_iff.mp flds
      rw [parseCfgFld, if_neg (by decide)] at second
      dsimp only at second
      rw [if_pos rfl] at second
      obtain ⟨s₁, field, eq⟩ := Option.map_eq_some_iff.mp second
      clear second
      cases eq
      by_cases dcd : cmd.isDcd = true
      · have h₁ := h.sizeField dcd small field
        cases fields with
        | nil =>
          cases flds
          have line : l.line [name, size] = (l.touch cmd, (l.touch cmd).stop) := by
            simp only [Layout.line, named, dcd, if_true]
          rw [line]
          exact ⟨h₁, rfl, small⟩
        | cons address fields =>
          obtain ⟨x₂, third, flds⟩ := Option.bind_eq_some_iff.mp flds
          rw [parseCfgFld, if_neg (by decide)] at third
          dsimp only at third
          rw [if_neg (by decide), if_pos ⟨.inl rfl, dcd⟩] at third
          obtain ⟨a, readA, third⟩ := Option.bind_eq_some_iff.mp third
          obtain ⟨a_lt, valA⟩ := getCfgValue_eq readA
          rw [setDcd_two h₁.version, Option.bind_some, if_pos rfl] at third
          cases third
          obtain ⟨h₂, stored⟩ := h₁.addressField a dcd small
          have further : (l.touch cmd).stop ≤ (l.touch cmd).stop + 4 := by omega
          rw [Nat.max_assoc, Nat.max_eq_right further] at h₂
          cases fields with
          | nil =>
            cases flds
            have line : l.line [name, size, address] =
                (l.touch cmd, (l.touch cmd).stop + 4) := by
              simp only [Layout.line, named, dcd, if_true]
            rw [line]
            exact ⟨h₂, rfl, small⟩
          | cons value fields =>
            obtain ⟨x₃, fourth, flds⟩ := Option.bind_eq_some_iff.mp flds
            rw [parseCfgFld, if_neg (by decide)] at fourth
            dsimp only at fourth
            rw [if_neg (by decide), if_pos ⟨.inr rfl, dcd⟩] at fourth
            obtain ⟨v, readV, fourth⟩ := Option.bind_eq_some_iff.mp fourth
            obtain ⟨v_lt, valV⟩ := getCfgValue_eq readV
            rw [setDcd_two h₂.version, Option.bind_some, if_neg (by decide)] at fourth
            have h₃ := h₂.valueField dcd small stored a_lt v_lt
            have further : (l.touch cmd).stop + 4 ≤ (l.touch cmd).stop + 8 := by omega
            rw [Nat.max_assoc, Nat.max_eq_right further] at h₃
            split at fourth
            · cases fourth
            · rename_i room
              cases fourth
              rw [parseFlds_rest rfl (by omega) fun _ => Nat.le_refl 4] at flds
              cases flds
              have line : l.line (name :: size :: address :: value :: fields) =
                  ((l.touch cmd).append (a, v), (l.touch cmd).stop + 8) := by
                simp only [Layout.line, named, dcd, if_true, valA, valV]
              have configured : configuredLine (name :: size :: address :: value :: fields) =
                  [⟨cmd, val size, val address, val value⟩] := by
                rw [configuredLine, named]
                exact if_pos dcd
              have max : maxDcdEntries (setDcdValV2 (setDcdParamV2 (setDcdValV2
                  (setDcdParamV2 s₁ cmd) 2 a) cmd) 3 v) = maxHwCfgSizeV2 := if_pos h₃.version
              rw [line, configured]
              refine ⟨h₃, rfl, ?_⟩
              rw [max] at room
              exact Nat.le_of_not_lt room
      · have other : cmd.isDcd = false := Bool.eq_false_iff.mpr dcd
        rw [parseFlds_rest rfl (Nat.le_refl 2) fun yes => absurd yes dcd] at flds
        cases flds
        have version : cmd = .imageVersion → ∀ v ∈ getCfgValue size, v = 2 := by
          rintro rfl
          rw [saysVersion, if_pos named] at two
          exact two
        have h₁ := h.otherField other version field
        have configured : configuredLine (name :: size :: fields) = [] := by
          unfold configuredLine
          split
          · rename_i eq
            cases eq
            rw [named]
            dsimp only
            rw [if_neg dcd]
          · rfl
        rw [configured]
        refine ⟨?_, rfl, small⟩
        simp only [Layout.line, named, other, Bool.false_eq_true, if_false]
        by_cases same : cmd = .imageVersion
        · rw [if_pos same] at h₁ ⊢
          rw [Nat.max_eq_left (Nat.zero_le _)]
          exact h₁
        · rw [if_neg same] at h₁ ⊢
          rw [Nat.max_eq_left (Nat.zero_le _)]
          exact h₁

/-- So does a list of lines. -/
lemma Holds.lines {lines : List (List Str)} {k : Nat} (h : Holds s l r n)
    (small : n ≤ maxHwCfgSizeV2) (two : ∀ tokens ∈ lines, ∀ v ∈ saysVersion tokens, v = 2)
    (run : lines.foldlM Imx.Imximage.parseLine (s, n) = some (s', k)) :
    Holds s' (Layout.lines (l, r) lines).1 (Layout.lines (l, r) lines).2 k ∧
      k = n + (configured lines).length ∧ k ≤ maxHwCfgSizeV2 := by
  induction lines generalizing s l r n with
  | nil =>
    cases run
    exact ⟨h, rfl, small⟩
  | cons tokens lines ih =>
    rw [List.foldlM_cons] at run
    obtain ⟨⟨s₁, n₁⟩, first, run⟩ := Option.bind_eq_some_iff.mp run
    obtain ⟨here, two⟩ := List.forall_mem_cons.mp two
    obtain ⟨h₁, count, small₁⟩ := h.parseLine small here first
    obtain ⟨h', count', small'⟩ := ih h₁ small₁ two run
    refine ⟨h', ?_, small'⟩
    rw [count', count, configured, configured, List.flatMap_cons, List.length_append,
      Nat.add_assoc]

/-- Before there is a second field nothing happens. -/
lemma parseLine_short {x : Img × Nat} (short : tokens.length < 2)
    (run : parseLine (s, n) tokens = some x) : x = (s, n) := by
  obtain ⟨y, flds, rfl⟩ := Option.map_eq_some_iff.mp run
  cases tokens with
  | nil =>
    cases flds
    rfl
  | cons name fields =>
    have none : fields = [] := by
      cases fields with
      | nil => rfl
      | cons =>
        rw [List.length_cons, List.length_cons] at short
        omega
    rw [none] at flds
    obtain ⟨z, first, eq⟩ := Option.bind_eq_some_iff.mp flds
    rw [parseCfgFld, if_pos rfl] at first
    obtain ⟨cmd, _, rfl⟩ := Option.map_eq_some_iff.mp first
    cases eq
    rfl

lemma line_short (short : tokens.length < 2) : l.line tokens = (l, 0) ∧
    configuredLine tokens = [] := by
  cases tokens with
  | nil => exact ⟨rfl, rfl⟩
  | cons name fields =>
    cases fields with
    | nil =>
      refine ⟨?_, rfl⟩
      unfold Layout.line
      dsimp only
      split
      · rename_i eq
        cases eq
      · rfl
    | cons =>
      rw [List.length_cons, List.length_cons] at short
      omega

/-- The first line that does something begins the table. -/
lemma holds_version {payload : Mem} {k : Nat} (hdr : s.hdr = blank payload)
    (two : saysVersion tokens = some 2) (run : parseLine (s, 0) tokens = some (s', k)) :
    Holds s' ⟨[], none⟩ dcdCmd 0 ∧ k = 0 ∧
      (Layout.mk [] none).line tokens = (⟨[], none⟩, 0) ∧ configuredLine tokens = [] := by
  rw [parseLine] at run
  obtain ⟨x, flds, eq⟩ := Option.map_eq_some_iff.mp run
  clear run
  cases eq
  unfold saysVersion at two
  split at two
  · rename_i name version fields
    split at two
    · rename_i named
      obtain ⟨x₀, first, flds⟩ := Option.bind_eq_some_iff.mp flds
      rw [parseCfgFld, if_pos rfl, named] at first
      cases first
      obtain ⟨x₁, second, flds⟩ := Option.bind_eq_some_iff.mp flds
      rw [parseCfgFld, if_neg (by decide)] at second
      dsimp only at second
      rw [if_pos rfl] at second
      obtain ⟨s₁, field, eq⟩ := Option.map_eq_some_iff.mp second
      clear second
      cases eq
      rw [parseFlds_rest rfl (Nat.le_refl 2) fun dcd => absurd dcd (by decide)] at flds
      cases flds
      rw [parseCfgCmd, two, Option.bind_some] at field
      have line : (Layout.mk [] none).line (name :: version :: fields) = (⟨[], none⟩, 0) := by
        simp only [Layout.line, named]
        rfl
      have configured : configuredLine (name :: version :: fields) = [] := by
        unfold configuredLine
        split
        · rename_i eq
          cases eq
          rw [named]
          rfl
        · rfl
      refine ⟨?_, rfl, line, configured⟩
      split at field
      · cases field
      · cases field
        have zero {a : Nat} (low : a < sizeofHeader) : s.hdr.mem a = 0 := by
          rw [hdr]
          exact if_pos low
        refine ⟨rfl, rfl, fun _ => rfl, rfl, nofun, fun _ => ⟨zero (by decide), ?_⟩, nofun, nofun,
          Nat.le_refl _, ?_, Nat.le_refl _, ?_⟩
        · change s.hdr.mem.be16 (dcdCmd + 1) = 0
          rw [Mem.be16, zero (by decide), zero (by decide)]
          rfl
        · change ofLe (s.hdr.mem.read bootDataPlugin 4) = 0
          rw [Mem.read_succ, Mem.read_succ, Mem.read_succ, Mem.read_succ, Mem.read_zero,
            zero (by decide), zero (by decide), zero (by decide), zero (by decide)]
          rfl
        · change Reaches s.hdr.written dcdCmd
          rw [hdr]
          exact ⟨nofun, fun k le => ⟨fun _ => le, fun _ => nofun⟩⟩
    · cases two
  · cases two

/-- The table behind a file of version 2. -/
lemma holds_layout (payload : Mem) {lines : List (List Str)} {k : Nat} (hdr : s.hdr = blank payload)
    (two : Version2 lines) (run : lines.foldlM parseLine (s, 0) = some (s', k)) :
    Holds s' (layout lines).1 (layout lines).2 k ∧ k = (configured lines).length ∧
      k ≤ maxHwCfgSizeV2 := by
  obtain ⟨first, all⟩ := two
  induction lines with
  | nil => cases first
  | cons tokens lines ih =>
    rw [List.foldlM_cons] at run
    obtain ⟨⟨s₁, n₁⟩, here, run⟩ := Option.bind_eq_some_iff.mp run
    obtain ⟨_, rest⟩ := List.forall_mem_cons.mp all
    by_cases short : tokens.length < 2
    · cases parseLine_short short here
      have skip : (tokens :: lines).filter (2 ≤ ·.length) = lines.filter (2 ≤ ·.length) :=
        List.filter_cons_of_neg fun two => absurd (of_decide_eq_true two) (Nat.not_le_of_lt short)
      rw [skip] at first
      obtain ⟨same, nothing⟩ := line_short (l := ⟨[], none⟩) short
      rw [layout, Layout.lines, List.foldl_cons, same, configured, List.flatMap_cons, nothing]
      exact ih run first rest
    · have head : ((tokens :: lines).filter (2 ≤ ·.length)).head? = some tokens := by
        have two : decide (2 ≤ tokens.length) = true := decide_eq_true (Nat.le_of_not_lt short)
        rw [List.filter_cons, two]
        rfl
      rw [head, Option.bind_some] at first
      obtain ⟨h, rfl, line, nothing⟩ := holds_version hdr first here
      rw [layout, Layout.lines, List.foldl_cons, line, configured, List.flatMap_cons, nothing]
      obtain ⟨h', count, small⟩ := h.lines (Nat.zero_le _) rest run
      exact ⟨h', by rw [count, Nat.zero_add]; rfl, small⟩

end Imx.Imximage
