import Imx.Fat.Defs

/-!
# Long file names

Model of `str2slot` and the names of `fill_dir_slot` of `fs/fat/fat_write.c`, and of `slot2str` and
`get_vfatname` of `fs/fat/fat.c`. A C string is its characters, without the `NUL`. The entries of a
buffer are counted from its start.
-/

namespace Imx.Fat
open Imx.Base

/-- `VFAT_MAXSEQ`. -/
def vfatMaxseq : Nat := 9

/-- `PREFETCH_BLOCKS`. -/
def prefetchBlocks : Nat := 2

/-- `struct dir_slot`, without its fields that are 0. -/
structure DirSlot where
  id : UInt8
  name0_4 : List UInt8
  attr : UInt8
  aliasChecksum : UInt8
  name5_10 : List UInt8
  name11_12 : List UInt8

def DirSlot.bytes (s : DirSlot) : List UInt8 :=
  s.id :: (s.name0_4 ++ ([s.attr, 0, s.aliasChecksum] ++ (s.name5_10 ++ ([0, 0] ++ s.name11_12))))

/-- The slot at an address. -/
def DirSlot.get (m : Mem) (a : Nat) : DirSlot where
  id := m a
  name0_4 := m.read (a + 1) 10
  attr := m (a + 11)
  aliasChecksum := m (a + 13)
  name5_10 := m.read (a + 14) 12
  name11_12 := m.read (a + 28) 4

/-! ## Writing -/

/-- A loop of `str2slot` over the `k` characters of a field: the field, and what is left of the
name, or without where its end was stored. -/
def putChars : Nat → List UInt8 → List UInt8 × Option (List UInt8)
  | 0, name => ([], some name)
  -- Not used characters are filled with 0xff 0xff
  | k + 1, [] => (0 :: 0 :: List.replicate (2 * k) 0xff, none)
  | k + 1, c :: name => ((c :: 0 :: (putChars k name).1), (putChars k name).2)

/-- The fields of a slot, and what is left of the name, or without where 1 is returned. -/
def str2slot (name : List UInt8) :
    (List UInt8 × List UInt8 × List UInt8) × Option (List UInt8) :=
  match putChars 5 name with
  | (a, none) => ((a, List.replicate 12 0xff, List.replicate 4 0xff), none)
  | (a, some name) =>
    match putChars 6 name with
    | (b, none) => ((a, b, List.replicate 4 0xff), none)
    | (b, some name) =>
      match putChars 2 name with
      | (c, none) => ((a, b, c), none)
      | (c, some name) => ((a, b, c), if name = [] then none else some name)

/-- A slot with its id, attribute and checksum. -/
def slotOf (fields : List UInt8 × List UInt8 × List UInt8) (id checksum : UInt8) : DirSlot where
  id := id
  name0_4 := fields.1
  attr := 0xf
  aliasChecksum := checksum
  name5_10 := fields.2.1
  name11_12 := fields.2.2

/-- What is left of a name after a field. -/
lemma putChars_rest {k : Nat} {name rest : List UInt8} (eq : (putChars k name).2 = some rest) :
    rest.length + k = name.length := by
  induction k generalizing name with
  | zero =>
    cases eq
    rfl
  | succ k ih =>
    cases name with
    | nil => cases eq
    | cons c name =>
      rw [List.length_cons, ← ih eq, Nat.add_assoc]

lemma str2slot_rest {name rest : List UInt8} (eq : (str2slot name).2 = some rest) :
    rest.length + 13 = name.length := by
  unfold str2slot at eq
  rcases first : putChars 5 name with ⟨a, _ | name'⟩
  · simp only [first] at eq
    cases eq
  rcases second : putChars 6 name' with ⟨b, _ | name''⟩
  · simp only [first, second] at eq
    cases eq
  rcases third : putChars 2 name'' with ⟨c, _ | name'''⟩
  · simp only [first, second, third] at eq
    cases eq
  simp only [first, second, third] at eq
  have one := putChars_rest (k := 5) (congrArg Prod.snd first)
  have two := putChars_rest (k := 6) (congrArg Prod.snd second)
  have three := putChars_rest (k := 2) (congrArg Prod.snd third)
  split_ifs at eq
  cases eq
  omega

/-- The slots of `fill_dir_slot`, from the one behind `counter` on. -/
def slotsFrom (checksum : UInt8) (counter : Nat) (name : List UInt8) : List DirSlot :=
  match h : (str2slot name).2 with
  | none => [slotOf (str2slot name).1 (UInt8.ofNat (counter + 1) ||| 0x40) checksum]
  | some rest => slotOf (str2slot name).1 (UInt8.ofNat (counter + 1)) checksum ::
      slotsFrom checksum (counter + 1) rest
termination_by name.length
decreasing_by
  have := str2slot_rest h
  omega

/-! ## Reading -/

/-- A loop of `slot2str` over a field: the characters, and whether a zero byte was found. -/
def getChars : List UInt8 → List UInt8 × Bool
  | c :: _ :: field =>
    if c = 0 then ([], true) else (c :: (getChars field).1, (getChars field).2)
  | _ => ([], false)

/-- The characters of a slot, and whether 1 is returned. -/
def slot2str (s : DirSlot) : List UInt8 × Bool :=
  match getChars s.name0_4 with
  | (a, true) => (a, true)
  | (a, false) =>
    match getChars s.name5_10 with
    | (b, true) => (a ++ b, true)
    | (b, false) => (a ++ (b ++ (getChars s.name11_12).1), (getChars s.name11_12).2)

/-- The sequence number of a slot, as it is compared. -/
def DirSlot.seq (s : DirSlot) : Nat := (s.id &&& 0xbf).toNat

/-- The slots are counted down to the real entry, or to the limit of the buffer. -/
def countSlots (m : Mem) (limit : Nat) : Nat → Nat → Option (Nat × Nat)
  | 0, i => some (i, 0)
  | counter + 1, i =>
    if limit ≤ 32 * i then
      some (i, counter + 1)
    else if (DirSlot.get m (32 * i)).seq ≠ counter + 1 then
      none
    else
      countSlots m limit counter (i + 1)

/-- The characters of the slots in front of an entry, back to the start of the buffer. -/
def gatherSlots (m : Mem) : Nat → List UInt8
  | 0 => []
  | i + 1 => (slot2str (DirSlot.get m (32 * i))).1 ++ gatherSlots m i

/-- The characters of the slots in front of an entry, back to the last one of the name. It is `none`
where there is no last one in the buffer. -/
def lastSlots (m : Mem) : Nat → Option (List UInt8)
  | 0 => none
  | i + 1 =>
    let s := DirSlot.get m (32 * i)
    if (slot2str s).2 ∨ s.id &&& 0x40 ≠ 0 then
      some (slot2str s).1
    else
      (lastSlots m i).map fun chars => (slot2str s).1 ++ chars

/-- `tolower`, whose table has the letters of Latin-1. -/
def tolower (c : UInt8) : UInt8 :=
  if (65 ≤ c ∧ c ≤ 90) ∨ (192 ≤ c ∧ c ≤ 222 ∧ c ≠ 215) then c + 32 else c

def downcase (name : List UInt8) : List UInt8 := name.map tolower

/-- The name at last, where the first character of a short name stands for another one. -/
def nameOf (chars : List UInt8) : List UInt8 :=
  downcase <| match chars with
    | 0xe5 :: _ => []
    | 0x05 :: chars => 0xe5 :: chars
    | chars => chars

/-- `get_vfatname`, for an entry of a cluster that is in a buffer. It is `none` where -1 is
returned, and else the name and the real directory entry. -/
def getVfatname (disk : Mem) (dma : Nat) (d : Fsdata) (curclust : Nat) (cluster block : Mem)
    (retdent : Nat) : Option (List UInt8 × List UInt8) :=
  let limit := d.sectSize * (if curclust = 0 then prefetchBlocks else d.clustSize)
  let counter := (DirSlot.get cluster (32 * retdent)).seq
  if vfatMaxseq < counter then
    none
  else
    (countSlots cluster limit counter retdent).bind fun (slotptr, counter) =>
      if limit ≤ 32 * slotptr then
        if curclust = 0 then
          none
        else
          let (curclust, d) := getFatent disk d curclust
          if checkClust curclust d.fatsize then
            none
          else
            let block := getCluster disk dma d curclust block 0 d.bytesperclust
            (countSlots block maxClustsize counter 0).bind fun (slotptr2, _) =>
              (lastSlots cluster slotptr).map fun chars =>
                (nameOf (gatherSlots block slotptr2 ++ chars), block.read (32 * slotptr2) 32)
      else
        (lastSlots cluster slotptr).map fun chars =>
          (nameOf chars, cluster.read (32 * slotptr) 32)

/-! ## Slots and names -/

variable {m : Mem} {k i c counter limit : Nat} {checksum id : UInt8} {s : DirSlot}
  {name rest chars : List UInt8} {slots ss : List DirSlot}

lemma length_putChars : (putChars k name).1.length = 2 * k := by
  induction k generalizing name with
  | zero => rfl
  | succ k ih =>
    cases name with
    | nil =>
      rw [putChars, List.length_cons, List.length_cons, List.length_replicate]
      rfl
    | cons c name =>
      rw [putChars, List.length_cons, List.length_cons, ih]
      omega

/-- A field is full of characters. -/
lemma putChars_full (plain : 0 ∉ name) (le : k ≤ name.length) :
    ∃ field, putChars k name = (field, some (name.drop k)) ∧
      getChars field = (name.take k, false) := by
  induction k generalizing name with
  | zero => exact ⟨[], rfl, rfl⟩
  | succ k ih =>
    cases name with
    | nil => exact absurd le (Nat.not_succ_le_zero k)
    | cons c name =>
      obtain ⟨here, there⟩ := List.ne_and_not_mem_of_not_mem_cons plain
      obtain ⟨field, eq, chars⟩ := ih there (Nat.le_of_succ_le_succ le)
      refine ⟨c :: 0 :: field, by rw [putChars, eq]; rfl, ?_⟩
      rw [getChars, if_neg (Ne.symm here), chars]
      rfl

/-- A name ends in a field. -/
lemma putChars_end (plain : 0 ∉ name) (lt : name.length < k) :
    ∃ field, putChars k name = (field, none) ∧ getChars field = (name, true) := by
  induction k generalizing name with
  | zero => exact absurd lt (Nat.not_lt_zero _)
  | succ k ih =>
    cases name with
    | nil => exact ⟨_, rfl, rfl⟩
    | cons c name =>
      obtain ⟨here, there⟩ := List.ne_and_not_mem_of_not_mem_cons plain
      obtain ⟨field, eq, chars⟩ := ih there (Nat.lt_of_succ_lt_succ lt)
      refine ⟨c :: 0 :: field, by rw [putChars, eq], ?_⟩
      rw [getChars, if_neg (Ne.symm here), chars]

lemma not_mem_drop (plain : 0 ∉ name) : 0 ∉ name.drop k :=
  fun mem => plain (List.mem_of_mem_drop mem)

/-- A name goes on behind a slot. -/
lemma str2slot_full (id checksum : UInt8) (plain : 0 ∉ name) (lt : 13 < name.length) :
    ∃ fields, str2slot name = (fields, some (name.drop 13)) ∧
      slot2str (slotOf fields id checksum) = (name.take 13, false) := by
  obtain ⟨a, one, first⟩ := putChars_full (k := 5) plain (by omega)
  obtain ⟨b, two, second⟩ := putChars_full (k := 6) (not_mem_drop (k := 5) plain)
    (by rw [List.length_drop]; omega)
  obtain ⟨c, three, third⟩ := putChars_full (k := 2) (not_mem_drop (k := 11) plain)
    (by rw [List.length_drop]; omega)
  rw [List.drop_drop] at two three
  have some : name.drop 13 ≠ [] := fun none => by
    rw [List.drop_eq_nil_iff] at none
    omega
  refine ⟨(a, b, c), ?_, ?_⟩
  · simp only [str2slot, one, two, three, if_neg some]
  · have split : name.take 13 = name.take 5 ++ ((name.drop 5).take 6 ++ (name.drop 11).take 2) := by
      rw [show 13 = 5 + (6 + 2) by rfl, List.take_add, List.take_add, List.drop_drop]
    simp only [slot2str, slotOf, first, second, third, split]

/-- A name ends with a slot. -/
lemma str2slot_end (id checksum : UInt8) (plain : 0 ∉ name) (le : name.length ≤ 13) :
    ∃ fields, str2slot name = (fields, none) ∧
      (slot2str (slotOf fields id checksum)).1 = name := by
  by_cases short : name.length < 5
  case pos =>
    obtain ⟨a, one, first⟩ := putChars_end (k := 5) plain short
    refine ⟨(a, List.replicate 12 0xff, List.replicate 4 0xff), ?_, ?_⟩
    · simp only [str2slot, one]
    · simp only [slot2str, slotOf, first]
  obtain ⟨a, one, first⟩ := putChars_full (k := 5) plain (by omega)
  have five := List.take_append_drop 5 name
  by_cases middle : name.length < 11
  case pos =>
    obtain ⟨b, two, second⟩ := putChars_end (k := 6) (not_mem_drop (k := 5) plain)
      (by rw [List.length_drop]; omega)
    refine ⟨(a, b, List.replicate 4 0xff), ?_, ?_⟩
    · simp only [str2slot, one, two]
    · simp only [slot2str, slotOf, first, second, five]
  obtain ⟨b, two, second⟩ := putChars_full (k := 6) (not_mem_drop (k := 5) plain)
    (by rw [List.length_drop]; omega)
  have six := List.take_append_drop 6 (name.drop 5)
  rw [List.drop_drop] at two six
  by_cases long : name.length < 13
  case pos =>
    obtain ⟨c, three, third⟩ := putChars_end (k := 2) (not_mem_drop (k := 11) plain)
      (by rw [List.length_drop]; omega)
    refine ⟨(a, b, c), ?_, ?_⟩
    · simp only [str2slot, one, two, three]
    · simp only [slot2str, slotOf, first, second, third, six, five]
  obtain ⟨c, three, third⟩ := putChars_full (k := 2) (not_mem_drop (k := 11) plain)
    (by rw [List.length_drop]; omega)
  rw [List.drop_drop] at three
  have none : name.drop 13 = [] := List.drop_eq_nil_of_le le
  refine ⟨(a, b, c), by simp only [str2slot, one, two, three, if_pos none], ?_⟩
  have all : (name.drop 11).take 2 = name.drop 11 :=
    List.take_of_length_le (by rw [List.length_drop]; omega)
  simp only [slot2str, slotOf, first, second, third, all, six, five]

/-- How many slots a name has. -/
def slotCount (name : List UInt8) : Nat := (name.length - 1) / 13 + 1

lemma length_slotsFrom (plain : 0 ∉ name) :
    (slotsFrom checksum counter name).length = slotCount name := by
  induction length : name.length using Nat.strong_induction_on generalizing counter name with
  | h length ih =>
    subst length
    rw [slotsFrom]
    by_cases le : name.length ≤ 13
    case pos =>
      obtain ⟨fields, eq, -⟩ := str2slot_end 0 0 plain le
      have one : slotCount name = 1 := by
        unfold slotCount
        omega
      split
      case h_1 => rw [one, List.length_singleton]
      case h_2 h =>
        rw [eq] at h
        cases h
    obtain ⟨fields, eq, -⟩ := str2slot_full 0 0 plain (by omega)
    have less : (name.drop 13).length < name.length := by
      rw [List.length_drop]
      omega
    split
    case h_1 h =>
      rw [eq] at h
      cases h
    case h_2 rest h =>
      rw [eq] at h
      cases h
      rw [List.length_cons, ih _ less (not_mem_drop plain) rfl, slotCount, slotCount,
        List.length_drop]
      omega

/-- Slots that hold a name, from the one behind `counter` on. -/
inductive Spells : Nat → List DirSlot → List UInt8 → Prop
  | last {counter : Nat} {s : DirSlot} {name : List UInt8} :
    s.id = UInt8.ofNat (counter + 1) ||| 0x40 →
    (slot2str s).1 = name →
    Spells counter [s] name
  | more {counter : Nat} {s : DirSlot} {ss : List DirSlot} {chars name : List UInt8} :
    s.id = UInt8.ofNat (counter + 1) →
    slot2str s = (chars, false) →
    chars.length = 13 →
    Spells (counter + 1) ss name →
    Spells counter (s :: ss) (chars ++ name)

/-- The slots of a name hold it. -/
theorem slotsFrom_spells (plain : 0 ∉ name) :
    Spells counter (slotsFrom checksum counter name) name := by
  induction length : name.length using Nat.strong_induction_on generalizing counter name with
  | h length ih =>
    subst length
    rw [slotsFrom]
    by_cases le : name.length ≤ 13
    case pos =>
      obtain ⟨fields, eq, chars⟩ :=
        str2slot_end (UInt8.ofNat (counter + 1) ||| 0x40) checksum plain le
      split
      case h_1 => exact .last rfl (by rw [eq]; exact chars)
      case h_2 rest h =>
        rw [eq] at h
        cases h
    obtain ⟨fields, eq, chars⟩ :=
      str2slot_full (UInt8.ofNat (counter + 1)) checksum plain (by omega)
    split
    case h_1 h =>
      rw [eq] at h
      cases h
    case h_2 rest h =>
      rw [eq] at h
      cases h
      have less : (name.drop 13).length < name.length := by
        rw [List.length_drop]
        omega
      have rest : Spells (counter + 1) _ _ := ih _ less (not_mem_drop plain) rfl
      have all := Spells.more (s := slotOf fields (UInt8.ofNat (counter + 1)) checksum) rfl chars
        (by rw [List.length_take]; omega) rest
      rw [List.take_append_drop] at all
      rw [eq]
      exact all

end Imx.Fat
