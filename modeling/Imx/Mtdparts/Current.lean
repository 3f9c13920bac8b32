import Imx.Mtdparts.Table

/-!
# The current partition

`Good` is what holds of the variables between two commands when nothing else changes the
environment: the tables are in order and counted, the current partition is one of them, and
`mtdparts_init` finds what it saved itself. The index of the current partition follows the
partition it denotes wherever the offsets tell which of two partitions comes first (`Ok`).
-/

namespace Imx.Mtdparts
open Imx.Base

variable {flash : DevType → Nat → Option MtdInfo} {mtdidsDefault : Option Str} {junk : Str}
  {s s' t : Mtd} {id : MtdIds} {dev dev' : Device} {part part' curr : Part} {ps : List Part}
  {p rest name : Str} {i pnum ptr : Nat}

/-- The devices are counted, and the current partition is one of them. -/
structure CurrentOk (s : Mtd) : Prop where
  counts : ∀ dev ∈ s.devices, dev.numParts = dev.parts.length
  none : s.currentDev = none → s.devices = []
  some : ∀ ptr, s.currentDev = some ptr →
    ∃ dev ∈ s.devices, dev.ptr = ptr ∧ s.currentPartnum < dev.numParts
  byte : s.currentPartnum < 2 ^ 8

/-- The variable `partition` is what the last command left there. -/
def Saved (s : Mtd) : Prop :=
  s.env.partition = some s.lastPartition ∧ s.lastPartition ≠ [] ∧
    s.lastPartition.length < partitionMaxlen

/-- So is the variable `mtdparts`. -/
def TextSync (s : Mtd) : Prop :=
  (s.env.mtdparts = some s.lastParts ∧ s.lastParts ≠ []) ∨
    (s.env.mtdparts = none ∧ s.lastParts = [])

/-- What holds when the text of the tables is yet to be saved. -/
structure Unsaved (flash : DevType → Nat → Option MtdInfo) (s : Mtd) : Prop extends
    Known flash s, CurrentOk s where
  saved : s.devices ≠ [] → Saved s

/-- What holds between two commands. -/
structure Good (flash : DevType → Nat → Option MtdInfo) (s : Mtd) : Prop extends
    Unsaved flash s where
  text : s.devices ≠ [] → TextSync s

/-- The partition that is deleted by its name. -/
def deleted (s : Mtd) (name : Str) : Option (Nat × Part) :=
  (findDevAndPart s name).map fun r => (r.1.ptr, r.2.2)

/-- A partition of the current device is deleted while its offset tells whether it comes before the
current partition. -/
def DelOk (s : Mtd) (name : Str) : Prop :=
  ∀ r ∈ findDevAndPart s name, s.currentDev = some r.1.ptr →
    ∀ curr ∈ mtdPartInfo r.1 s.currentPartnum, curr ≠ r.2.2 → r.2.2.offset = curr.offset →
      r.2.2 ∈ r.1.parts.take s.currentPartnum

/-- A partition is added whose description fits its buffer, to a device that can count it, and the
current partition does not move on from number 255. -/
def AddOk (flash : DevType → Nat → Option MtdInfo) (s : Mtd) (mtdDev size name : Str)
    (ro : Option Str) : Prop :=
  ∀ id ∈ (mtdIdParse mtdDev).bind fun r => idFind s r.1 r.2.1,
    addLen id size name ro < partAddDescMaxlen →
      (addDesc id size name ro).length < partAddDescMaxlen ∧
      ∀ r ∈ deviceParse flash s (addDesc id size name ro),
        ∀ devTmp ∈ deviceFind s r.2.1.id.type r.2.1.id.num,
          devTmp.numParts < 2 ^ 16 - 1 ∧
          (s.currentDev = some devTmp.ptr → s.currentPartnum = 2 ^ 8 - 1 →
            ∀ curr ∈ mtdPartInfo devTmp s.currentPartnum, ∀ p ∈ r.2.1.parts.head?,
              curr.offset < p.offset)

variable (flash mtdidsDefault junk) in
/-- The condition of a command, on the tables as `mtdparts_init` leaves them to it. -/
def Ok (s : Mtd) (c : Command) : Prop :=
  let t := (mtdpartsInit flash mtdidsDefault junk s).1
  match c with
  | .add mtdDev size name ro => AddOk flash t mtdDev size name ro
  | .del name => DelOk t name
  | _ => True

variable (flash mtdidsDefault junk) in
/-- Adding or deleting any other partition leaves the current one denoted. -/
def Keeps (s : Mtd) (c : Command) : Prop :=
  ∀ x, s.denoted = some x →
    match c with
    | .add .. => (command flash mtdidsDefault junk s c).denoted = some x
    | .del name =>
      deleted (mtdpartsInit flash mtdidsDefault junk s).1 name ≠ some x →
        (command flash mtdidsDefault junk s c).denoted = some x
    | _ => True

/-- What is expected of the variables between two commands. -/
structure InOrder (s : Mtd) : Prop where
  sorted : ∀ dev ∈ s.devices, dev.parts.Pairwise fun p q => p.offset ≤ q.offset
  counted : ∀ dev ∈ s.devices, dev.numParts = dev.parts.length
  current : ∀ ptr ∈ s.currentDev, ∃ dev ∈ s.current, s.currentPartnum < dev.numParts

instance : Decidable (DelOk s name) :=
  inferInstanceAs (Decidable (∀ r ∈ findDevAndPart s name, _))

instance {mtdDev size : Str} {ro : Option Str} : Decidable (AddOk flash s mtdDev size name ro) :=
  inferInstanceAs (Decidable (∀ id ∈ (mtdIdParse mtdDev).bind fun r => idFind s r.1 r.2.1, _))

instance {c : Command} : Decidable (Ok flash mtdidsDefault junk s c) := by
  unfold Ok
  cases c with
  | add mtdDev size name ro => exact inferInstanceAs (Decidable (AddOk ..))
  | del name => exact inferInstanceAs (Decidable (DelOk ..))
  | init => exact inferInstanceAs (Decidable True)
  | chpart name => exact inferInstanceAs (Decidable True)

/-! ## The current partition -/

/-- The device a pointer denotes. -/
lemma TableOk.find (h : TableOk flash s) (mem : dev ∈ s.devices) :
    s.devices.find? (·.ptr = dev.ptr) = some dev := by
  obtain ⟨d, found⟩ : ∃ d, s.devices.find? (·.ptr = dev.ptr) = some d :=
    Option.isSome_iff_exists.mp (List.find?_isSome.mpr ⟨dev, mem, decide_eq_true rfl⟩)
  have same : d.ptr = dev.ptr := by simpa using List.find?_some found
  rw [found, List.inj_on_of_nodup_map h.ptrs (List.mem_of_find?_eq_some found) mem same]

lemma TableOk.current (h : TableOk flash s) (mem : dev ∈ s.devices)
    (cur : s.currentDev = some dev.ptr) : s.current = some dev := by
  rw [Mtd.current, cur, Option.bind_some, h.find mem]

lemma TableOk.denoted (h : TableOk flash s) (mem : dev ∈ s.devices)
    (cur : s.currentDev = some dev.ptr) :
    s.denoted = (mtdPartInfo dev s.currentPartnum).map (dev.ptr, ·) := by
  rw [Mtd.denoted, h.current mem cur, Option.bind_some]

lemma length_dec {n : Nat} (lt : n < 2 ^ 8) : (dec n).length ≤ 3 := by
  rw [dec]
  exact (Nat.length_toDigits_le_iff (by decide) (by decide)).mpr (by omega)

/-- Saving the current partition brings the variable `partition` in sync. -/
lemma currentSave_sync (cur : s.current = some dev) (num : dev.id.num < 2 ^ 8)
    (byte : s.currentPartnum < 2 ^ 8) :
    (currentSave s).env.partition = some (currentSave s).lastPartition ∧
      (currentSave s).lastPartition ≠ [] ∧
      (currentSave s).lastPartition.length < partitionMaxlen := by
  have short : (dev.id.type.name ++ dec dev.id.num ++ ',' :: dec s.currentPartnum).length <
      partitionMaxlen := by
    have type : dev.id.type.name.length ≤ 7 := by
      cases dev.id.type <;> decide
    have h1 := length_dec num
    have h2 := length_dec byte
    rw [List.length_append, List.length_append, List.length_cons]
    exact Nat.lt_of_le_of_lt (by omega) (by decide : 14 < partitionMaxlen)
  rw [currentSave, cur]
  dsimp only
  rw [List.take_of_length_le (Nat.le_of_lt short)]
  exact ⟨rfl, List.append_ne_nil_of_right_ne_nil _ (List.cons_ne_nil _ _), short⟩

lemma TextSync.same (h : TextSync s) (same : SameTable s s') : TextSync s' := by
  rw [TextSync, same.mtdparts, same.lastParts]
  exact h

/-- A state whose current partition is saved. -/
lemma unsaved_save (known : Known flash s)
    (counts : ∀ dev ∈ s.devices, dev.numParts = dev.parts.length) (mem : dev ∈ s.devices)
    (cur : s.currentDev = some dev.ptr) (lt : s.currentPartnum < dev.numParts)
    (byte : s.currentPartnum < 2 ^ 8) : Unsaved flash (currentSave s) := by
  have same := currentSave_same (s := s)
  obtain ⟨cur', partnum⟩ := currentSave_current (s := s)
  have num := (known.table.nums dev.id
    (List.mem_of_find?_eq_some (known.table.devices dev mem).known)).1
  refine ⟨known.save, ⟨?_, ?_, ?_, ?_⟩, fun _ => ?_⟩
  · rw [same.devices]
    exact counts
  · rw [cur', cur]
    intro none
    cases none
  · rw [cur', cur, same.devices, partnum]
    intro ptr eq
    exact ⟨dev, mem, Option.some.inj eq, lt⟩
  · rw [partnum]
    exact byte
  · exact currentSave_sync (known.table.current mem cur) num byte

lemma unsaved_setCurrent (known : Known flash s)
    (counts : ∀ dev ∈ s.devices, dev.numParts = dev.parts.length) (mem : dev ∈ s.devices)
    (lt : pnum < dev.numParts) (byte : pnum < 2 ^ 8) : Unsaved flash (s.setCurrent dev pnum) := by
  have moved : Known flash { s with currentDev := some dev.ptr, currentPartnum := pnum } := by
    refine ⟨known.table.same ⟨rfl, rfl, rfl, rfl, rfl, rfl, rfl⟩, known.ids, ?_⟩
    intro ptr eq
    cases eq
    exact (known.table.fresh dev mem).1
  exact unsaved_save moved counts mem rfl lt byte

/-- Without devices there is no current partition. -/
lemma good_empty (known : Known flash s) (devices : s.devices = []) (none : s.currentDev = none)
    (byte : s.currentPartnum < 2 ^ 8) : Good flash s := by
  have unsaved : Unsaved flash s := by
    refine ⟨known, ⟨?_, fun _ => devices, ?_, byte⟩, fun some => absurd devices some⟩
    · rw [devices]
      exact List.forall_mem_nil _
    · rw [none]
      intro ptr eq
      cases eq
  exact ⟨unsaved, fun some => absurd devices some⟩

/-- The text is saved. -/
lemma Unsaved.generateSave (h : Unsaved flash s) : Good flash (generateMtdpartsSave s).1 := by
  have known := h.toKnown.generateSave
  rw [generateMtdpartsSave] at known ⊢
  split
  · rename_i eq
    rw [eq] at known
    exact ⟨⟨known, ⟨h.counts, h.none, h.some, h.byte⟩, h.saved⟩, fun _ => .inr ⟨rfl, rfl⟩⟩
  · rename_i buf eq
    rw [eq] at known
    refine ⟨⟨known, ⟨h.counts, h.none, h.some, h.byte⟩, h.saved⟩, fun _ => ?_⟩
    by_cases nil : buf = []
    · exact .inr ⟨if_pos nil, nil⟩
    · exact .inl ⟨if_neg nil, nil⟩

/-- The text does not touch the current partition. -/
lemma generateSave_denoted : (generateMtdpartsSave s).1.denoted = s.denoted := by
  rw [generateMtdpartsSave]
  split
  · rfl
  · rfl

/-! ## `mtdparts_init` -/

/-- Nothing is read again while the environment is in sync. -/
lemma Good.init_same (h : Good flash s) (some : s.devices ≠ []) :
    (mtdpartsInit flash mtdidsDefault junk s).1 = s := by
  obtain ⟨mtdids, nonempty⟩ := h.ids some
  obtain ⟨partition, lastPartition, short⟩ := h.saved some
  have text := h.text some
  have defaults : useDefaults mtdidsDefault s = s := by
    rw [useDefaults, mtdids, Option.some_or, ← mtdids]
  have copied : copyPartition junk (s.env.partition.getD []) = s.lastPartition := by
    rw [partition, Option.getD_some, copyPartition, if_pos short]
  have use : useCurrent s s.lastPartition = s := by
    rw [useCurrent, if_neg (fun other => other.2 rfl),
      if_neg (by rw [partition]; exact Option.some_ne_none _)]
  have parts : (initParts flash s false s.lastPartition).1 = s := by
    obtain ⟨parts, last⟩ | ⟨parts, last⟩ := text
    · rw [initParts, parts]
      dsimp only
      rw [if_neg (by
        rintro (nil | other | changed)
        · exact last nil
        · exact other rfl
        · cases changed)]
      exact use
    · rw [initParts, parts]
      dsimp only
      rw [if_neg (not_not.mpr last)]
  rw [mtdpartsInit, defaults, copied, initIds, mtdids]
  dsimp only
  split
  · rfl
  · split
    · rfl
    · rw [if_pos ⟨nonempty, rfl⟩]
      exact parts

lemma u16_of_lt {n : Nat} (lt : n < 2 ^ 16) : u16 n = n := Nat.mod_eq_of_lt lt

/-- The devices that are read are counted. -/
lemma parseDevices_counts {fuel : Nat} (counts : ∀ dev ∈ s.devices, dev.numParts = dev.parts.length)
    (none : s.currentDev = none) (short : p.length < 2 ^ 16) :
    ∀ dev ∈ (parseDevices flash fuel s p).1.devices, dev.numParts = dev.parts.length := by
  induction fuel generalizing s p with
  | zero => exact counts
  | succ fuel ih =>
    rw [parseDevices]
    split
    · exact counts
    · split
      · exact counts
      · rename_i s₁ dev rest parse
        obtain ⟨k, rfl, _, ok, _, length, lt⟩ := deviceParse_spec parse
          (fun ptr same => absurd (none.symm.trans same) (Option.some_ne_none ptr).symm)
        split
        · exact counts
        · refine ih ?_ none (by omega)
          intro d mem
          obtain mem | mem := List.mem_append.mp mem
          · exact counts d mem
          · rw [List.mem_singleton.mp mem, ok.count, u16_of_lt (by omega)]

lemma behind_length {head : Str} (h : behind head p = some rest) : rest.length ≤ p.length := by
  rw [behind] at h
  split at h
  · cases h
    rw [List.length_drop]
    exact Nat.sub_le ..
  · cases h

/-- What `mtdparts_init` begins with when it reads the tables again. -/
lemma parseMtdparts_good (known : Known flash s) (read : IdsRead s)
    (byte : s.currentPartnum < 2 ^ 8) (short : (s.env.mtdparts.getD []).length < 2 ^ 16) :
    (∀ dev ∈ (parseMtdparts flash s).1.devices, dev.numParts = dev.parts.length) ∧
      (parseMtdparts flash s).1.env.mtdparts = s.env.mtdparts ∧
      (parseMtdparts flash s).1.currentPartnum < 2 ^ 8 ∧
      ((parseMtdparts flash s).2 = false → (parseMtdparts flash s).1.devices = []) := by
  have none : (mtdDevicesInit s).currentDev = none :=
    (currentSave_current (s := { s with lastParts := [], currentDev := none })).1
  have same := currentSave_same (s := { s with lastParts := [], currentDev := Option.none })
  have mtdparts : (mtdDevicesInit s).env.mtdparts = s.env.mtdparts := same.mtdparts
  have partnum : (mtdDevicesInit s).currentPartnum = s.currentPartnum :=
    (currentSave_current (s := { s with lastParts := [], currentDev := Option.none })).2
  rw [parseMtdparts]
  dsimp only
  rw [mtdparts]
  split
  · exact ⟨List.forall_mem_nil _, mtdparts, partnum ▸ byte, fun _ => rfl⟩
  · rename_i p found
    split
    · exact ⟨List.forall_mem_nil _, mtdparts, partnum ▸ byte, fun _ => rfl⟩
    · obtain ⟨_, text, behind⟩ := Option.bind_eq_some_iff.mp found
      have le : p.length < 2 ^ 16 := by
        rw [text, Option.getD_some] at short
        exact Nat.lt_of_le_of_lt (behind_length behind) short
      have read' : IdsRead (mtdDevicesInit s) := by
        rw [IdsRead, show (mtdDevicesInit s).env.mtdids = s.env.mtdids from same.mtdids,
          show (mtdDevicesInit s).lastIds = s.lastIds from same.lastIds]
        exact read
      have counts : ∀ dev ∈ (parseDevices flash (p.length + 1) (mtdDevicesInit s) p).1.devices, _ :=
        parseDevices_counts (List.forall_mem_nil _) none le
      obtain ⟨_, ds, k, eq⟩ :
          Known flash (parseDevices flash (p.length + 1) (mtdDevicesInit s) p).1 ∧ _ :=
        parseDevices_spec (Known.initDevices known.table.nums).1 none read'
      split
      · rename_i ok
        rw [eq] at counts ⊢
        refine ⟨counts, mtdparts, partnum ▸ byte, fun failed => ?_⟩
        rw [failed] at ok
        cases ok
      · rw [eq]
        exact ⟨List.forall_mem_nil _, mtdparts, partnum ▸ byte, fun _ => rfl⟩

/-- A text that was read is not empty. -/
lemma parseMtdparts_nonempty (empty : s.env.mtdparts = some []) : (parseMtdparts flash s).2 = false := by
  have same := currentSave_same (s := { s with lastParts := [], currentDev := none })
  have mtdparts : (mtdDevicesInit s).env.mtdparts = s.env.mtdparts := same.mtdparts
  rw [parseMtdparts]
  dsimp only
  rw [mtdparts, empty]
  rfl

lemma Unsaved.currentDev (h : Unsaved flash s) (empty : s.devices = []) : s.currentDev = none := by
  cases cur : s.currentDev with
  | none => rfl
  | some ptr =>
    obtain ⟨dev, mem, _⟩ := h.some ptr cur
    rw [empty] at mem
    cases mem

lemma Unsaved.save (h : Unsaved flash s) : Unsaved flash (currentSave s) := by
  cases cur : s.currentDev with
  | none =>
    have same := currentSave_same (s := s)
    obtain ⟨cur', partnum⟩ := currentSave_current (s := s)
    exact (good_empty h.toKnown.save (same.devices.trans (h.none cur)) (cur'.trans cur)
      (partnum ▸ h.byte)).toUnsaved
  | some ptr =>
    obtain ⟨dev, mem, rfl, lt⟩ := h.some ptr cur
    exact unsaved_save h.toKnown h.counts mem cur lt h.byte

/-- The partition that is found becomes the current one. -/
lemma Unsaved.choose (h : Unsaved flash s)
    (found : findDevAndPart s name = some (dev, pnum, part)) :
    Unsaved flash (s.setCurrent dev pnum) := by
  obtain ⟨mem, i, list, rfl⟩ := findDevAndPart_mem found
  have lt : i < dev.parts.length := (List.getElem?_eq_some_iff.mp list).1
  have le : u8 i ≤ i := Nat.mod_le ..
  apply unsaved_setCurrent h.toKnown h.counts mem
  · rw [h.counts dev mem]
    omega
  · exact Nat.mod_lt _ (by decide)

lemma Good.useCurrent {tmpEp : Str} (h : Good flash s) : Good flash (useCurrent s tmpEp) := by
  have same := useCurrent_same s tmpEp
  refine ⟨?_, fun some => (h.text (same.devices ▸ some)).same same⟩
  rw [Imx.Mtdparts.useCurrent]
  split
  · split
    · rename_i found
      exact h.toUnsaved.choose found
    · exact h.toUnsaved
  · split
    · exact h.toUnsaved.save
    · exact h.toUnsaved

/-- The tables are read for the first time. -/
lemma Good.initParts {changed : Bool} {tmpEp : Str} (h : Good flash s) (read : IdsRead s)
    (short : (s.env.mtdparts.getD []).length < 2 ^ 16) :
    Good flash (initParts flash s changed tmpEp).1 := by
  rw [Imx.Mtdparts.initParts]
  split
  · split
    · obtain ⟨cur, partnum⟩ :=
        currentSave_current (s := { s with lastParts := [], currentDev := Option.none })
      exact good_empty (Known.initDevices h.table.nums).1 rfl cur
        (lt_of_eq_of_lt partnum h.byte)
    · exact h
  · rename_i parts mtdparts
    split
    · obtain ⟨known, none, _, _⟩ := parseMtdparts_spec h.table.nums read
      obtain ⟨counts, mtdparts', byte, failed⟩ := parseMtdparts_good h.toKnown read h.byte short
      dsimp only
      split
      · rename_i first rest ok devices
        have mem : first ∈ (parseMtdparts flash s).1.devices := by
          rw [devices]
          exact List.mem_cons_self ..
        have some : 0 < first.numParts := by
          rw [counts first mem]
          exact List.length_pos_of_ne_nil (known.table.devices first mem).nonempty
        have start : Unsaved flash
            ({ (parseMtdparts flash s).1 with lastParts := parts }.setCurrent first 0) :=
          unsaved_setCurrent (s := { (parseMtdparts flash s).1 with lastParts := parts })
            ⟨known.table.congr rfl rfl (Nat.le_refl _), known.ids, known.current⟩ counts mem some
            (by decide)
        refine Good.useCurrent ⟨start, fun _ => TextSync.same (.inl ⟨?_, ?_⟩) setCurrent_same⟩
        · exact mtdparts'.trans mtdparts
        · rintro (rfl : parts = [])
          rw [parseMtdparts_nonempty mtdparts] at ok
          cases ok
      · rename_i other
        refine good_empty known ?_ none byte
        cases ok : (parseMtdparts flash s).2 with
        | false => exact failed ok
        | true =>
          cases devices : (parseMtdparts flash s).1.devices with
          | nil => rfl
          | cons first rest => exact (other first rest ok devices).elim
    · exact h.useCurrent

/-- `mtdparts_init` in an environment that nothing else changed. -/
lemma Good.init (h : Good flash s) : Good flash (mtdpartsInit flash mtdidsDefault junk s).1 := by
  by_cases some : s.devices ≠ []
  · rw [h.init_same some]
    exact h
  · have empty : s.devices = [] := not_not.mp some
    have defaults : Good flash (useDefaults mtdidsDefault s) := by
      refine good_empty ⟨?_, fun some => absurd empty some, h.current⟩ empty
        (h.currentDev empty) h.byte
      exact h.table.congr rfl rfl (Nat.le_refl _)
    have devices : (useDefaults mtdidsDefault s).devices = [] := empty
    rw [mtdpartsInit]
    generalize useDefaults mtdidsDefault s = t at *
    rw [initIds]
    split
    · exact defaults
    · rename_i ids mtdids
      split
      · exact defaults
      · split
        · exact defaults
        · rename_i room
          have short : (t.env.mtdparts.getD []).length < 2 ^ 16 :=
            Nat.lt_of_le_of_lt (Nat.le_of_not_lt room) (by decide)
          split
          · rename_i same
            exact defaults.initParts ⟨mtdids.trans (congrArg Option.some same.2.symm), same.1⟩ short
          · have nums : ∀ id ∈ (parseMtdids flash t ids).1.ids, _ := parseMtdids_nums
            dsimp only
            split
            · rename_i ok
              have nonempty : ids ≠ [] := by
                intro nil
                rw [nil] at ok
                cases ok
              have read : Good flash { (parseMtdids flash t ids).1 with lastIds := ids } :=
                good_empty ⟨.none nums devices, fun some => absurd devices some,
                  defaults.current⟩ devices (defaults.currentDev devices) defaults.byte
              exact read.initParts ⟨mtdids, nonempty⟩ short
            · obtain ⟨cur, partnum⟩ := currentSave_current
                (s := { (parseMtdids flash t ids).1 with lastParts := [], currentDev := none })
              exact good_empty (Known.initDevices nums).1 rfl cur
                (lt_of_eq_of_lt partnum defaults.byte)

/-! ## `mtdparts del` -/

/-- A device that is not in the list is not deleted. -/
lemma deviceDel_absent (h : Unsaved flash s) (absent : ∀ d ∈ s.devices, d.ptr ≠ dev.ptr) :
    deviceDel s dev = s := by
  have all : s.devices.filter (·.ptr ≠ dev.ptr) = s.devices :=
    List.filter_eq_self.mpr fun d mem => decide_eq_true (absent d mem)
  have other : s.currentDev ≠ some dev.ptr := by
    intro cur
    obtain ⟨d, mem, same, _⟩ := h.some dev.ptr cur
    exact absent d mem same
  rw [deviceDel]
  dsimp only
  rw [all, if_neg other]

/-- A device is deleted with its only partition. -/
lemma Unsaved.deviceDel (h : Unsaved flash s) : Unsaved flash (deviceDel s dev) := by
  have counts : ∀ d ∈ s.devices.filter (·.ptr ≠ dev.ptr), d.numParts = d.parts.length :=
    fun d mem => h.counts d (List.mem_of_mem_filter mem)
  have fewer : Known flash { s with devices := s.devices.filter (·.ptr ≠ dev.ptr) } := by
    refine ⟨h.table.sublist rfl rfl List.filter_sublist, fun some => h.ids ?_, h.current⟩
    intro none
    exact some (by rw [none]; rfl)
  rw [Imx.Mtdparts.deviceDel]
  dsimp only
  split
  · split
    · rename_i devices
      have known : Known flash { s with
          devices := s.devices.filter (·.ptr ≠ dev.ptr), currentDev := none } :=
        ⟨fewer.table.congr rfl rfl (Nat.le_refl _), fewer.ids, by intro ptr eq; cases eq⟩
      have same := currentSave_same
        (s := { s with devices := s.devices.filter (·.ptr ≠ dev.ptr), currentDev := none })
      obtain ⟨none, partnum⟩ := currentSave_current
        (s := { s with devices := s.devices.filter (·.ptr ≠ dev.ptr), currentDev := Option.none })
      exact (good_empty known.save (same.devices.trans devices) none
        (lt_of_eq_of_lt partnum h.byte)).toUnsaved
    · rename_i first rest devices
      have mem : first ∈ s.devices.filter (·.ptr ≠ dev.ptr) := by
        rw [devices]
        exact List.mem_cons_self ..
      have some : 0 < first.numParts := by
        rw [counts first mem]
        exact List.length_pos_of_ne_nil (fewer.table.devices first mem).nonempty
      exact unsaved_setCurrent fewer counts mem some (by decide)
  · rename_i other
    refine ⟨fewer, ⟨counts, fun none => ?_, ?_, h.byte⟩, fun some => h.saved ?_⟩
    · dsimp only
      rw [h.none none]
      rfl
    · intro ptr cur
      obtain ⟨d, mem, rfl, lt⟩ := h.some ptr cur
      refine ⟨d, List.mem_filter.mpr ⟨mem, decide_eq_true ?_⟩, rfl, lt⟩
      intro same
      rw [same] at cur
      exact other cur
    · intro none
      exact some (by dsimp only; rw [none]; rfl)

lemma sorted_le {j : Nat} (sorted : ps.Pairwise Before) (lt : i < j) (first : ps[i]? = some part)
    (second : ps[j]? = some part') : part.offset ≤ part'.offset := by
  obtain ⟨hi, rfl⟩ := List.getElem?_eq_some_iff.mp first
  obtain ⟨hj, rfl⟩ := List.getElem?_eq_some_iff.mp second
  exact (List.pairwise_iff_getElem.mp sorted i j hi hj lt).1

lemma index_unique {j : Nat} (distinct : (ps.map Part.ptr).Nodup) (first : ps[i]? = some part)
    (second : ps[j]? = some part') (same : part.ptr = part'.ptr) : i = j := by
  obtain ⟨lt, _⟩ := List.getElem?_eq_some_iff.mp first
  refine (List.getElem?_inj (by rwa [List.length_map]) distinct).mp ?_
  rw [List.getElem?_map, List.getElem?_map, first, second, Option.map_some, Option.map_some, same]

/-- Where the current partition is when another one was taken out. -/
lemma current_of_erase (sorted : ps.Pairwise Before) (distinct : (ps.map Part.ptr).Nodup)
    (found : ps[i]? = some part) (current : ps[pnum]? = some curr) (other : curr.ptr ≠ part.ptr)
    (tie : part.offset = curr.offset → part ∈ ps.take pnum) :
    (part.offset ≤ curr.offset ∧ 0 < pnum ∧ (ps.eraseIdx i)[pnum - 1]? = some curr) ∨
      (curr.offset < part.offset ∧ (ps.eraseIdx i)[pnum]? = some curr) := by
  obtain lt | same | gt := Nat.lt_trichotomy i pnum
  · refine .inl ⟨sorted_le sorted lt found current, by omega, ?_⟩
    rw [List.getElem?_eraseIdx_of_ge (by omega), Nat.sub_add_cancel (by omega)]
    exact current
  · rw [same, current] at found
    cases found
    exact (other rfl).elim
  · have le := sorted_le sorted gt current found
    have ne : part.offset ≠ curr.offset := by
      intro same
      obtain ⟨j, taken⟩ := List.mem_iff_getElem?.mp (tie same)
      rw [List.getElem?_take] at taken
      split at taken
      · have eq := index_unique distinct taken found rfl
        omega
      · cases taken
    refine .inr ⟨by omega, ?_⟩
    rw [List.getElem?_eraseIdx_of_lt gt]
    exact current

/-- Where it is when another one was put in. -/
lemma current_of_insert {l r : List Part} (sorted : (l ++ r).Pairwise Before)
    (current : (l ++ r)[pnum]? = some curr) (below : ∀ q ∈ l, q.offset < part.offset)
    (above : ∀ q ∈ r.head?, part.offset ≤ q.offset) :
    (∃ pi, r.head? = some pi ∧ pi.offset ≤ curr.offset ∧ part.offset ≤ curr.offset ∧
        (l ++ part :: r)[pnum + 1]? = some curr) ∨
      ((∀ pi ∈ r.head?, curr.offset < pi.offset) ∧ (l ++ part :: r)[pnum]? = some curr) := by
  by_cases lt : pnum < l.length
  · rw [List.getElem?_append_left lt] at current
    refine .inr ⟨fun pi mem => ?_, ?_⟩
    · exact Nat.lt_of_lt_of_le (below curr (List.mem_of_getElem? current)) (above pi mem)
    · rw [List.getElem?_append_left lt]
      exact current
  · rw [List.getElem?_append_right (by omega)] at current
    cases r with
    | nil => cases current
    | cons pi r =>
      have le : pi.offset ≤ curr.offset := by
        obtain rfl | mem := List.mem_cons.mp (List.mem_of_getElem? current)
        · exact Nat.le_refl _
        · exact (List.rel_of_pairwise_cons (List.pairwise_append.mp sorted).2.1 mem).1
      refine .inl ⟨pi, rfl, le, Nat.le_trans (above pi rfl) le, ?_⟩
      rw [List.getElem?_append_right (by omega), Nat.sub_add_comm (by omega)]
      exact current

lemma counts_put (counts : ∀ dev ∈ s.devices, dev.numParts = dev.parts.length)
    (count : dev'.numParts = dev'.parts.length) :
    ∀ dev ∈ (s.putDevice dev').devices, dev.numParts = dev.parts.length := by
  intro d mem
  obtain ⟨e, memE, rfl⟩ := List.mem_map.mp mem
  split
  · exact count
  · exact counts e memE

lemma mem_put (mem : dev ∈ s.devices) (ptr : dev'.ptr = dev.ptr) :
    dev' ∈ (s.putDevice dev').devices :=
  List.mem_map.mpr ⟨dev, mem, if_pos ptr.symm⟩

lemma mem_put_other {d : Device} (mem : d ∈ s.devices) (other : d.ptr ≠ dev'.ptr) :
    d ∈ (s.putDevice dev').devices :=
  List.mem_map.mpr ⟨d, mem, if_neg other⟩

/-- One of the devices is the current one. -/
lemma Unsaved.current_dev (h : Unsaved flash s) (mem : dev ∈ s.devices) :
    ∃ d ∈ s.devices, s.currentDev = some d.ptr ∧ s.currentPartnum < d.numParts := by
  cases cur : s.currentDev with
  | none =>
    rw [h.none cur] at mem
    cases mem
  | some ptr =>
    obtain ⟨d, memD, rfl, lt⟩ := h.some ptr cur
    exact ⟨d, memD, rfl, lt⟩

/-- A device that is not the current one changes. -/
lemma Unsaved.put_other (h : Unsaved flash s) (known : Known flash (s.putDevice dev'))
    (count : dev'.numParts = dev'.parts.length) (mem : dev ∈ s.devices)
    (other : s.currentDev ≠ some dev'.ptr) :
    Unsaved flash (s.putDevice dev') ∧ (s.putDevice dev').denoted = s.denoted := by
  obtain ⟨d, memD, cur, lt⟩ := h.current_dev mem
  have apart : d.ptr ≠ dev'.ptr := fun same => other (cur.trans (congrArg some same))
  have kept := mem_put_other memD apart
  refine ⟨⟨known, ⟨counts_put h.counts count, ?_, ?_, h.byte⟩, fun _ => ?_⟩, ?_⟩
  · exact fun none => absurd (cur.symm.trans none) (Option.some_ne_none _)
  · intro ptr cur'
    cases cur.symm.trans cur'
    exact ⟨d, kept, rfl, lt⟩
  · exact h.saved (List.ne_nil_of_mem memD)
  · rw [known.table.denoted kept cur, h.table.denoted memD cur]
    rfl

/-- What the current partition is, when its device is the current one. -/
lemma Unsaved.current_part (h : Unsaved flash s) (mem : dev ∈ s.devices)
    (cur : s.currentDev = some dev.ptr) :
    ∃ curr, mtdPartInfo dev s.currentPartnum = some curr ∧ s.currentPartnum < dev.numParts ∧
      dev.parts[s.currentPartnum]? = some curr ∧ s.denoted = some (dev.ptr, curr) := by
  obtain ⟨d, memD, same, lt⟩ := h.some dev.ptr cur
  rw [List.inj_on_of_nodup_map h.table.ptrs memD mem same] at lt
  have inside : s.currentPartnum < dev.parts.length := h.counts dev mem ▸ lt
  have info : mtdPartInfo dev s.currentPartnum = some dev.parts[s.currentPartnum] := by
    rw [mtdPartInfo, if_neg (Nat.not_le_of_lt lt), List.getElem?_eq_getElem inside]
  refine ⟨dev.parts[s.currentPartnum], info, lt, List.getElem?_eq_getElem inside, ?_⟩
  rw [h.table.denoted mem cur, info, Option.map_some]

lemma mtdPartInfo_of {n : Nat} (count : dev.numParts = dev.parts.length)
    (found : dev.parts[n]? = some part) : n < dev.numParts ∧ mtdPartInfo dev n = some part := by
  have lt : n < dev.numParts := count ▸ (List.getElem?_eq_some_iff.mp found).1
  exact ⟨lt, by rw [mtdPartInfo, if_neg (Nat.not_le_of_lt lt), found]⟩

/-- The current device changes, and then the current partition is saved. -/
lemma unsaved_put_save (known : Known flash (t.putDevice dev'))
    (counts : ∀ dev ∈ t.devices, dev.numParts = dev.parts.length)
    (count : dev'.numParts = dev'.parts.length) (mem : dev ∈ t.devices)
    (ptr : dev'.ptr = dev.ptr) (cur : t.currentDev = some dev.ptr)
    (list : dev'.parts[t.currentPartnum]? = some curr) (byte : t.currentPartnum < 2 ^ 8) :
    Unsaved flash (currentSave (t.putDevice dev')) ∧
      (currentSave (t.putDevice dev')).denoted = some (dev.ptr, curr) := by
  obtain ⟨lt, info⟩ := mtdPartInfo_of count list
  have kept : dev' ∈ (t.putDevice dev').devices := mem_put mem ptr
  have cur' : (t.putDevice dev').currentDev = some dev'.ptr := cur.trans (congrArg some ptr.symm)
  have unsaved : Unsaved flash (currentSave (t.putDevice dev')) :=
    unsaved_save known (counts_put counts count) kept cur' lt byte
  obtain ⟨same, partnum⟩ := currentSave_current (s := t.putDevice dev')
  have kept' : dev' ∈ (currentSave (t.putDevice dev')).devices := by
    rw [currentSave_same.devices]
    exact kept
  refine ⟨unsaved, ?_⟩
  rw [unsaved.table.denoted kept' (same.trans cur'), partnum,
    show (t.putDevice dev').currentPartnum = t.currentPartnum from rfl, info, Option.map_some, ptr]

/-- The index follows the current partition when another one is deleted. -/
lemma Unsaved.partDel (h : Unsaved flash s) (mem : dev ∈ s.devices)
    (found : dev.parts[i]? = some part)
    (tie : s.currentDev = some dev.ptr → ∀ curr ∈ mtdPartInfo dev s.currentPartnum,
      curr ≠ part → part.offset = curr.offset → part ∈ dev.parts.take s.currentPartnum) :
    Unsaved flash (partDel s dev part) ∧
      ∀ x, s.denoted = some x → x ≠ (dev.ptr, part) → (partDel s dev part).denoted = some x := by
  have ok := h.table.devices dev mem
  have count := h.counts dev mem
  have lt : i < dev.parts.length := (List.getElem?_eq_some_iff.mp found).1
  rw [Imx.Mtdparts.partDel]
  split
  · rename_i one
    refine ⟨h.deviceDel, fun x denotes other => ?_⟩
    have apart : s.currentDev ≠ some dev.ptr := by
      intro cur
      obtain ⟨curr, _, below, list, now⟩ := h.current_part mem cur
      have zero : i = s.currentPartnum := by omega
      rw [zero, list] at found
      cases found
      exact other (Option.some.inj (denotes.symm.trans now))
    have del : Unsaved flash (Imx.Mtdparts.deviceDel s dev) := h.deviceDel
    rw [Imx.Mtdparts.deviceDel] at del ⊢
    dsimp only at del ⊢
    rw [if_neg apart] at del ⊢
    obtain ⟨d, memD, cur, _⟩ := h.current_dev mem
    have kept : d ∈ s.devices.filter (·.ptr ≠ dev.ptr) :=
      List.mem_filter.mpr ⟨memD, decide_eq_true fun same => apart (cur.trans (congrArg some same))⟩
    rw [del.table.denoted kept cur, ← denotes, h.table.denoted memD cur]
  · rename_i notOne
    generalize hd : ({ dev with
      parts := dev.parts.filter (·.ptr ≠ part.ptr)
      numParts := u16 (dev.numParts + (2 ^ 16 - 1)) } : Device) = dev'
    have parts : dev'.parts = dev.parts.eraseIdx i := by
      rw [← hd]
      exact filter_eq_eraseIdx ok.distinct found
    have ptr : dev'.ptr = dev.ptr := by rw [← hd]
    have known : Known flash (s.putDevice dev') :=
      h.toKnown.without mem found notOne (by rw [← hd]) (by rw [← hd]) ptr (by rw [← hd])
    have length : dev'.parts.length = dev.parts.length - 1 := by
      rw [parts, List.length_eraseIdx_of_lt lt]
    have count' : dev'.numParts = dev'.parts.length := by
      have word : dev.numParts < 2 ^ 16 := by
        rw [ok.count]
        exact Nat.mod_lt _ (by decide)
      rw [length, ← hd]
      dsimp only
      rw [u16]
      omega
    dsimp only
    by_cases cur : s.currentDev = some dev.ptr
    · obtain ⟨curr, info, below, list, now⟩ := h.current_part mem cur
      have keep {n : Nat} {q : Part} (list : (dev.parts.eraseIdx i)[n]? = some q)
          (byte : n < 2 ^ 8) :
          Unsaved flash (currentSave ({ s with currentPartnum := n }.putDevice dev')) ∧
            (currentSave ({ s with currentPartnum := n }.putDevice dev')).denoted =
              some (dev.ptr, q) := by
        have known' : Known flash ({ s with currentPartnum := n }.putDevice dev') :=
          ⟨known.table.congr rfl rfl (Nat.le_refl _), known.ids, known.current⟩
        exact unsaved_put_save known' h.counts count' mem ptr cur (parts ▸ list) byte
      rw [currPi, if_pos cur, info]
      dsimp only
      by_cases same : curr.ptr = part.ptr
      · have here := index_unique ok.distinct list found same
        rw [here, found] at list
        cases list
        have first : 0 < (dev.parts.eraseIdx i).length := by
          rw [List.length_eraseIdx_of_lt lt]
          omega
        rw [if_pos rfl]
        refine ⟨(keep (List.getElem?_eq_getElem first) (by decide)).1, fun x denotes other => ?_⟩
        exact (other (Option.some.inj (denotes.symm.trans now))).elim
      · have same_part {n : Nat} (list : (dev.parts.eraseIdx i)[n]? = some curr) (byte : n < 2 ^ 8) :
            Unsaved flash (currentSave ({ s with currentPartnum := n }.putDevice dev')) ∧
              ∀ x, s.denoted = some x → x ≠ (dev.ptr, part) →
                (currentSave ({ s with currentPartnum := n }.putDevice dev')).denoted = some x := by
          obtain ⟨unsaved, denoted⟩ := keep list byte
          exact ⟨unsaved, fun x denotes _ => by rw [denoted, ← now, denotes]⟩
        rw [if_neg same]
        have differ : curr ≠ part := fun eq => same (congrArg Part.ptr eq)
        have byte := h.byte
        obtain ⟨le, pos, left⟩ | ⟨gt, right⟩ :=
          current_of_erase ok.sorted ok.distinct found list same (tie cur curr info differ)
        · have pred : u8 (s.currentPartnum + (2 ^ 8 - 1)) = s.currentPartnum - 1 := by
            rw [u8]
            omega
          rw [if_pos le, pred]
          exact same_part left (by omega)
        · rw [if_neg (Nat.not_le_of_lt gt)]
          exact same_part right byte
    · rw [currPi, if_neg cur]
      obtain ⟨unsaved, same⟩ := h.put_other known count' mem (ptr ▸ cur)
      exact ⟨unsaved, fun x denotes _ => same.trans denotes⟩

/-! ## `mtdparts add` -/

/-- The current device changes while its current partition stays at its index. -/
lemma unsaved_put (known : Known flash (t.putDevice dev'))
    (counts : ∀ dev ∈ t.devices, dev.numParts = dev.parts.length)
    (count : dev'.numParts = dev'.parts.length) (mem : dev ∈ t.devices)
    (ptr : dev'.ptr = dev.ptr) (cur : t.currentDev = some dev.ptr)
    (list : dev'.parts[t.currentPartnum]? = some curr) (byte : t.currentPartnum < 2 ^ 8)
    (saved : Saved t) :
    Unsaved flash (t.putDevice dev') ∧ (t.putDevice dev').denoted = some (dev.ptr, curr) := by
  obtain ⟨lt, info⟩ := mtdPartInfo_of count list
  have kept : dev' ∈ (t.putDevice dev').devices := mem_put mem ptr
  have cur' : (t.putDevice dev').currentDev = some dev'.ptr := cur.trans (congrArg some ptr.symm)
  refine ⟨⟨known, ⟨counts_put counts count, fun none => ?_, ?_, byte⟩, fun _ => saved⟩, ?_⟩
  · exact absurd (cur'.symm.trans none) (Option.some_ne_none _)
  · intro p eq
    cases cur'.symm.trans eq
    exact ⟨dev', kept, rfl, lt⟩
  · rw [known.table.denoted kept cur',
      show (t.putDevice dev').currentPartnum = t.currentPartnum from rfl, info, Option.map_some, ptr]

/-- The index follows the current partition when another one is added. -/
lemma Unsaved.partAdd (h : Unsaved flash s) (mem : dev ∈ s.devices)
    (add : partAdd flash s dev part = some (s', dev')) (known : Known flash (s'.putDevice dev'))
    (room : dev.numParts < 2 ^ 16 - 1)
    (wrap : s.currentDev = some dev.ptr → s.currentPartnum = 2 ^ 8 - 1 →
      ∀ curr ∈ mtdPartInfo dev s.currentPartnum, curr.offset < part.offset) :
    Unsaved flash (s'.putDevice dev') ∧ (s'.putDevice dev').denoted = s.denoted := by
  have ok := h.table.devices dev mem
  have count := h.counts dev mem
  rw [Imx.Mtdparts.partAdd] at add
  obtain ⟨part', valid, add⟩ := Option.bind_eq_some_iff.mp add
  obtain ⟨l, r, list, eq, below, above, rfl⟩ := partSortAdd_spec add
  have offset : part'.offset = part.offset := by
    rw [(partValidate_eq valid).1, fillSize_eq]
  have ptr : dev'.ptr = dev.ptr := by rw [eq]
  have parts : dev'.parts = l ++ part' :: r := by rw [eq]
  have count' : dev'.numParts = dev'.parts.length := by
    rw [parts, eq]
    dsimp only
    rw [u16_of_lt (by omega), count, list]
    simp only [List.length_append, List.length_cons, Nat.add_assoc]
  by_cases cur : s.currentDev = some dev.ptr
  · obtain ⟨curr, info, lt, now, denoted⟩ := h.current_part mem cur
    have some := List.ne_nil_of_mem mem
    have byte := h.byte
    rw [list] at now
    obtain ⟨pi, head, le, le', moved⟩ | ⟨gt, still⟩ :=
      current_of_insert (list ▸ ok.sorted) now below (fun q mem => (above q mem).1)
    · have notLast : s.currentPartnum ≠ 2 ^ 8 - 1 := by
        intro last
        have before := wrap cur last curr info
        omega
      have next : u8 (s.currentPartnum + 1) = s.currentPartnum + 1 := by
        rw [u8]
        omega
      have update : updateCurrent s dev r.head? =
          currentSave { s with currentPartnum := s.currentPartnum + 1 } := by
        unfold updateCurrent
        rw [head, currPi, if_pos cur, info]
        dsimp only
        rw [if_pos le, next]
      rw [update] at known ⊢
      have table : TableOk flash { s with currentPartnum := s.currentPartnum + 1 } :=
        h.table.congr rfl rfl (Nat.le_refl _)
      obtain ⟨cur', partnum⟩ :=
        currentSave_current (s := { s with currentPartnum := s.currentPartnum + 1 })
      have same := currentSave_same (s := { s with currentPartnum := s.currentPartnum + 1 })
      have num := (h.table.nums dev.id (List.mem_of_find?_eq_some ok.known)).1
      have saved := currentSave_sync (s := { s with currentPartnum := s.currentPartnum + 1 })
        (table.current mem cur) num (by dsimp only; omega)
      rw [denoted]
      apply unsaved_put known _ count' _ ptr (cur'.trans cur) _ _ saved
      · rw [same.devices]
        exact h.counts
      · rw [same.devices]
        exact mem
      · rw [partnum, parts]
        exact moved
      · rw [partnum]
        dsimp only
        omega
    · have update : updateCurrent s dev r.head? = s := by
        unfold updateCurrent
        rw [currPi, if_pos cur, info]
        cases head : r.head? with
        | none => rfl
        | some pi => exact if_neg (Nat.not_le_of_lt (gt pi head))
      rw [update] at known ⊢
      rw [denoted]
      exact unsaved_put known h.counts count' mem ptr cur (parts ▸ still) byte (h.saved some)
  · rw [updateCurrent_other cur] at known ⊢
    exact h.put_other known count' mem (ptr ▸ cur)

/-- A device that is added becomes the current one when it is the first. -/
lemma Unsaved.deviceAdd (h : Unsaved flash s)
    (ok : DeviceOk flash s.ids dev) (added : Known flash { s with devices := s.devices ++ [dev] })
    (count : dev.numParts = dev.parts.length) :
    Unsaved flash (deviceAdd s dev) ∧ ∀ x, s.denoted = some x → (deviceAdd s dev).denoted = some x := by
  have counts : ∀ d ∈ s.devices ++ [dev], d.numParts = d.parts.length := by
    intro d mem
    obtain mem | mem := List.mem_append.mp mem
    · exact h.counts d mem
    · rw [List.mem_singleton.mp mem]
      exact count
  rw [Imx.Mtdparts.deviceAdd]
  split
  · rename_i empty
    have some : 0 < dev.numParts := by
      rw [count]
      exact List.length_pos_of_ne_nil ok.nonempty
    refine ⟨unsaved_setCurrent added counts
      (List.mem_append_right _ (List.mem_singleton_self _)) some (by decide), fun x denotes => ?_⟩
    rw [Mtd.denoted, Mtd.current, h.currentDev empty] at denotes
    cases denotes
  · rename_i some
    obtain ⟨first, rest, devices⟩ := List.exists_cons_of_ne_nil some
    have mem : first ∈ s.devices := by
      rw [devices]
      exact List.mem_cons_self ..
    obtain ⟨d, memD, cur, lt⟩ := h.current_dev mem
    have kept : d ∈ s.devices ++ [dev] := List.mem_append_left _ memD
    refine ⟨⟨added, ⟨counts, fun none => ?_, ?_, h.byte⟩, fun _ => h.saved some⟩, ?_⟩
    · exact absurd (cur.symm.trans none) (Option.some_ne_none _)
    · intro ptr eq
      cases cur.symm.trans eq
      exact ⟨d, kept, rfl, lt⟩
    · intro x denotes
      rw [added.table.denoted kept cur, ← denotes, h.table.denoted memD cur]

/-- Memory is allocated. -/
lemma Unsaved.grow (h : Unsaved flash s) (k : Nat) :
    Unsaved flash { s with next := s.next + k + 1 } := by
  refine ⟨⟨h.table.congr rfl rfl ?_, h.ids, ?_⟩, ⟨h.counts, h.none, h.some, h.byte⟩, h.saved⟩
  · dsimp only
    omega
  · intro ptr cur
    have lt := h.current ptr cur
    dsimp only
    omega

lemma Good.mtdpartsAdd {mtdDev size name : Str} {ro : Option Str} (h : Good flash s)
    (read : IdsRead s) (ok : AddOk flash s mtdDev size name ro) :
    Good flash (mtdpartsAdd flash s mtdDev size name ro).1 ∧
      ∀ x, s.denoted = some x →
        (mtdpartsAdd flash s mtdDev size name ro).1.denoted = some x := by
  rw [Imx.Mtdparts.mtdpartsAdd]
  split
  · exact ⟨h, fun _ denotes => denotes⟩
  · rename_i id found
    split
    · exact ⟨h, fun _ denotes => denotes⟩
    · rename_i fits
      obtain ⟨short, ok⟩ := ok id found (Nat.lt_of_not_le fits)
      split
      · exact ⟨h, fun _ denotes => denotes⟩
      · rename_i s₁ dev rest parse
        obtain ⟨k, rfl, ptr, devOk, parts, length, le⟩ := deviceParse_spec parse h.current
        have grown := h.toUnsaved.grow k
        have fresh : ∀ d ∈ s.devices, d.ptr ≠ dev.ptr := by
          intro d mem
          have lt := (h.table.fresh d mem).1
          omega
        split
        · rename_i missing
          have count : dev.numParts = dev.parts.length := by
            rw [devOk.count, u16_of_lt]
            exact Nat.lt_of_lt_of_le (by omega) (by decide : partAddDescMaxlen ≤ 2 ^ 16)
          have added : Known flash { s with
              devices := s.devices ++ [dev], next := s.next + k + 1 } := by
            refine ⟨grown.table.snoc devOk fresh ?_ ?_ missing, fun _ => read, grown.current⟩
            · dsimp only
              omega
            · intro part mem
              have lt := (parts part mem).2
              dsimp only
              omega
          obtain ⟨unsaved, denoted⟩ := grown.deviceAdd devOk added count
          exact ⟨unsaved.generateSave, fun x denotes => generateSave_denoted.trans (denoted x denotes)⟩
        · rename_i devTmp q qs found list
          obtain ⟨room, wrap⟩ := ok _ parse devTmp found
          have memQ : q ∈ dev.parts := by
            rw [list]
            exact List.mem_cons_self ..
          have qOk := devOk.parts q memQ
          obtain ⟨ge, lt⟩ := parts q memQ
          have mem := (deviceFind_mem found).1
          split
          · rw [deviceDel_absent grown fresh]
            exact ⟨⟨grown, h.text⟩, fun _ denotes => denotes⟩
          · rename_i s₂ devTmp' add
            have known : Known flash (s₂.putDevice devTmp') := by
              apply grown.toKnown.partAdd mem add qOk.name qOk.flags qOk.fits
              · intro d mem p memP
                have lt := (h.table.fresh d mem).2 p memP
                omega
              · dsimp only
                omega
            have first : q ∈ dev.parts.head? := by
              rw [list]
              rfl
            obtain ⟨unsaved, denoted⟩ := grown.partAdd mem add known room
              fun cur last curr info => wrap cur last curr info q first
            exact ⟨unsaved.generateSave,
              fun x denotes => generateSave_denoted.trans (denoted.trans denotes)⟩
        · exact ⟨⟨grown, h.text⟩, fun _ denotes => denotes⟩

/-! ## Runs -/

/-- One command. -/
lemma Good.command {c : Command} (h : Good flash s) (ok : Ok flash mtdidsDefault junk s c) :
    Keeps flash mtdidsDefault junk s c ∧ Good flash (command flash mtdidsDefault junk s c) := by
  have init : Good flash (mtdpartsInit flash mtdidsDefault junk s).1 := h.init
  obtain ⟨_, read⟩ := h.toKnown.mtdpartsInit (d := mtdidsDefault) (j := junk)
  -- a partition is denoted only when there are devices, and then nothing is read again
  have same : ∀ x, s.denoted = some x → (mtdpartsInit flash mtdidsDefault junk s).1 = s := by
    intro x denotes
    apply h.init_same
    intro empty
    rw [Mtd.denoted, Mtd.current, h.currentDev empty] at denotes
    cases denotes
  unfold Keeps Imx.Mtdparts.command
  unfold Ok at ok
  dsimp only at ok ⊢
  have denoted : ∀ x, s.denoted = some x →
      (mtdpartsInit flash mtdidsDefault junk s).1.denoted = some x :=
    fun x denotes => by rw [same x denotes, denotes]
  generalize mtdpartsInit flash mtdidsDefault junk s = r at *
  by_cases done : r.2 = true
  · rw [if_pos done]
    cases c with
    | init => exact ⟨fun _ _ => trivial, init⟩
    | add mtdDev size name ro =>
      obtain ⟨good, keeps⟩ := init.mtdpartsAdd (read done) ok
      exact ⟨fun x denotes => keeps x (denoted x denotes), good⟩
    | del name =>
      rw [perform, deletePartition]
      cases found : findDevAndPart r.1 name with
      | none => exact ⟨fun x denotes _ => denoted x denotes, init⟩
      | some found' =>
        obtain ⟨dev, pnum, part⟩ := found'
        obtain ⟨mem, i, list, _⟩ := findDevAndPart_mem found
        obtain ⟨unsaved, keeps⟩ := init.toUnsaved.partDel mem list (ok _ found)
        refine ⟨fun x denotes other => ?_, unsaved.generateSave⟩
        refine generateSave_denoted.trans (keeps x (denoted x denotes) fun eq => other ?_)
        rw [deleted, found, eq]
        rfl
    | chpart name =>
      refine ⟨fun _ _ => trivial, ?_⟩
      rw [perform, chpart]
      split
      · exact init
      · rename_i found
        exact ⟨init.toUnsaved.choose found,
          fun some => (init.text (setCurrent_same.devices ▸ some)).same setCurrent_same⟩
  · rw [if_neg done]
    refine ⟨fun x denotes => ?_, init⟩
    cases c with
    | init => trivial
    | add mtdDev size name ro => exact denoted x denotes
    | del name => exact fun _ => denoted x denotes
    | chpart name => trivial

lemma Good.inOrder (h : Good flash s) : InOrder s := by
  refine ⟨fun dev mem => ?_, h.counts, fun ptr cur => ?_⟩
  · exact (h.table.devices dev mem).sorted.imp fun before => before.1
  · obtain ⟨dev, mem, rfl, lt⟩ := h.some ptr cur
    exact ⟨dev, h.table.current mem cur, lt⟩

end Imx.Mtdparts
