import Imx.Base.Fuel
import Imx.Dos.Defs

/-!
# The two walks of a DOS partition table

`Ends` says that following the links of a disk comes to an end, and then both walks come back. They
do not go the same way everywhere: the list of partitions shows the extended entries of block 0, looks
at no boot flag but the first one of a block, and follows every link. `Regular` says that the tables
of a disk are such that this makes no difference, and `walks_agree` is what both walks then have in
common.
-/

namespace Imx.Dos
open Imx.Base

variable {w : Nat} (disk : BitVec w → Option Mem) (uuids : Bool) (dev : BlockDesc w)

/-- The links from a block on come to an end. -/
inductive Ends : BitVec w → BitVec w → Prop where
  | intro {s rel} :
    (∀ buffer, disk s = some buffer → signed buffer → ∀ pt ∈ table buffer, pt.isExtended →
      Ends (lbaStart pt rel) (relativeOf s (lbaStart pt rel) rel)) →
    Ends s rel

/-- The tables from a block on are regular: what is a table has boot flags that are right and one
link at most, and what has the signature only holds no partition. `whole` is whether the last block
is one of a file system on the whole device. -/
inductive Regular : Bool → BitVec w → BitVec w → Prop where
  | unread {s rel} :
    disk s = none →
    Regular false s rel
  | unsigned {s rel buffer} :
    disk s = some buffer →
    signed buffer = false →
    Regular false s rel
  | bare {s rel buffer} :
    disk s = some buffer →
    signed buffer →
    testBlockType buffer ≠ some .mbr →
    (∀ pt ∈ table buffer, pt.isExtended = false ∧ (pt.isData → pt.flagOk = false)) →
    Regular (testBlockType buffer = some .pbr) s rel
  | last {s rel buffer} :
    disk s = some buffer →
    testBlockType buffer = some .mbr →
    (∀ pt ∈ table buffer, pt.isData → pt.flagOk) →
    (table buffer).filter DosPartition.isExtended = [] →
    Regular false s rel
  | link {whole s rel buffer pt} :
    disk s = some buffer →
    testBlockType buffer = some .mbr →
    (∀ pt ∈ table buffer, pt.isData → pt.flagOk) →
    (table buffer).filter DosPartition.isExtended = [pt] →
    Regular whole (lbaStart pt rel) (relativeOf s (lbaStart pt rel) rel) →
    Regular whole s rel

/-- The line is one of partition `n` with data. -/
def Line.Of (n : Nat) (line : Line w) : Prop := line.partNum = n ∧ line.extd = false

/-- What is told of partition `n` is what its line says; without a line it is the device as a whole
if that is one file system. -/
structure Alike (whole : Bool) (lines : List (Line w)) (n : Nat) (r : Option (PartInfo w)) :
    Prop where
  printed : ∀ line ∈ lines, line.Of n →
    ∃ info, r = some info ∧ info.start = line.lbaStart ∧ info.size = line.lbaSize
  told : ∀ info, r = some info →
    (∃ line ∈ lines, line.Of n ∧ info.start = line.lbaStart ∧ info.size = line.lbaSize) ∨
      (whole ∧ (∀ line ∈ lines, ¬ line.Of n) ∧ info.start = 0 ∧ info.size = dev.lba)

section Numbers

variable {ext : BitVec w} {num : Nat} {pts : List DosPartition} {x y : Nat × DosPartition}

lemma le_nextNum {pt : DosPartition} : num ≤ nextNum ext num pt := by
  rw [nextNum]
  split_ifs <;> omega

lemma nextNum_data {pt : DosPartition} (data : pt.isData) : nextNum ext num pt = num + 1 :=
  if_pos (.inr data)

lemma le_numAfter : num ≤ numAfter ext num pts := by
  induction pts generalizing num with
  | nil => exact Nat.le_refl num
  | cons pt pts ih => exact Nat.le_trans le_nextNum ih

/-- The numbers go up. -/
lemma le_of_numbered (mem : x ∈ numbered ext num pts) : num ≤ x.1 := by
  induction pts generalizing num with
  | nil => cases mem
  | cons pt pts ih =>
    rcases List.mem_cons.1 mem with rfl | mem
    · exact Nat.le_refl _
    · exact Nat.le_trans le_nextNum (ih mem)

lemma mem_of_numbered (mem : x ∈ numbered ext num pts) : x.2 ∈ pts := by
  induction pts generalizing num with
  | nil => cases mem
  | cons pt pts ih =>
    rcases List.mem_cons.1 mem with rfl | mem
    · exact List.mem_cons_self
    · exact List.mem_cons_of_mem pt (ih mem)

/-- The number of an entry with data is not used behind the table. -/
lemma lt_numAfter (mem : x ∈ numbered ext num pts) (data : x.2.isData) :
    x.1 < numAfter ext num pts := by
  induction pts generalizing num with
  | nil => cases mem
  | cons pt pts ih =>
    rcases List.mem_cons.1 mem with rfl | mem
    · have after := @le_numAfter w ext (nextNum ext num pt) pts
      rw [nextNum_data data] at after
      rw [numAfter, List.foldl_cons, nextNum_data data]
      exact after
    · exact ih mem

/-- Entries with data have numbers of their own. -/
lemma eq_of_number (memX : x ∈ numbered ext num pts) (memY : y ∈ numbered ext num pts)
    (dataX : x.2.isData) (dataY : y.2.isData) (same : x.1 = y.1) : x = y := by
  induction pts generalizing num with
  | nil => cases memX
  | cons pt pts ih =>
    rcases List.mem_cons.1 memX with rfl | memX
    · rcases List.mem_cons.1 memY with rfl | memY
      · rfl
      · have later := le_of_numbered memY
        rw [nextNum_data dataX] at later
        simp only at same
        omega
    · rcases List.mem_cons.1 memY with rfl | memY
      · have later := le_of_numbered memX
        rw [nextNum_data dataY] at later
        simp only at same
        omega
      · exact ih memX memY

end Numbers

/-! ## Coming back -/

section Back

variable {disk uuids dev} {s rel : BitVec w} {num n : Nat} {sig : BitVec 32} {info : PartInfo w}
  {buffer : Mem}

/-- A block that is not followed any further. -/
lemma gives_print_stop (stop : ∀ buffer, disk s = some buffer → testBlockType buffer ≠ some .mbr) :
    Gives (fun k => printPartitionExtended disk k s rel num sig) [] := by
  apply gives_of_succ
  intro k
  rw [printPartitionExtended]
  cases read : disk s with
  | none => rfl
  | some buffer => exact if_pos (stop buffer read)

/-- A table, and what its links lead to. -/
lemma gives_print_table (read : disk s = some buffer) (type : testBlockType buffer = some .mbr)
    {more : List (List (Line w))}
    (rest : Gives (fun k => ((table buffer).filter DosPartition.isExtended).mapM fun pt =>
      printPartitionExtended disk k (lbaStart pt rel) (relativeOf s (lbaStart pt rel) rel)
        (numAfter s num (table buffer)) (if s = 0 then le32ToInt buffer 0x1b8 else sig)) more) :
    Gives (fun k => printPartitionExtended disk k s rel num sig)
      (printTable buffer s num (if s = 0 then le32ToInt buffer 0x1b8 else sig) ++ more.flatten) := by
  apply (rest.map fun more => printTable buffer s num
    (if s = 0 then le32ToInt buffer 0x1b8 else sig) ++ more.flatten).succ
  intro k
  rw [printPartitionExtended, read]
  simp only [type, ne_eq, not_true_eq_false, if_false]

/-- The list does not come back from the only link of a table. -/
lemma print_link_none (read : disk s = some buffer) (type : testBlockType buffer = some .mbr)
    {pt : DosPartition} (links : (table buffer).filter DosPartition.isExtended = [pt]) {calls : Nat}
    (rest : ∀ num sig, printPartitionExtended disk calls (lbaStart pt rel)
      (relativeOf s (lbaStart pt rel) rel) num sig = none) :
    printPartitionExtended disk (calls + 1) s rel num sig = none := by
  rw [printPartitionExtended, read]
  simp only [type, ne_eq, not_true_eq_false, if_false, links, List.mapM_cons, rest]
  rfl

/-- A block that nothing can be found in. -/
lemma gives_get_stop (stop : ∀ buffer, disk s = some buffer → signed buffer = false) :
    Gives (fun k => getPartitionInfoExtended disk uuids dev k s rel num n info sig) none := by
  apply gives_of_succ
  intro k
  rw [getPartitionInfoExtended]
  cases read : disk s with
  | none => rfl
  | some buffer => simp only [stop buffer read, Bool.not_false, if_true]

/-- The entry is in the block. -/
lemma gives_get_found (read : disk s = some buffer) (sign : signed buffer) {x : Nat × DosPartition}
    (found : findEntry buffer s num n = some x) :
    Gives (fun k => getPartitionInfoExtended disk uuids dev k s rel num n info sig)
      (some (infoOf uuids dev info s x.1 x.2
        (if uuids ∧ s = 0 then le32ToInt buffer 0x1b8 else sig))) := by
  apply gives_of_succ
  intro k
  rw [getPartitionInfoExtended, read]
  simp only [sign, Bool.not_true, Bool.false_eq_true, if_false, found]

/-- The entry is looked for behind the first link. -/
lemma gives_get_link (read : disk s = some buffer) (sign : signed buffer)
    (missing : findEntry buffer s num n = none) {pt : DosPartition}
    (link : (table buffer).find? DosPartition.isExtended = some pt) {r : Option (PartInfo w)}
    (rest : Gives (fun k => getPartitionInfoExtended disk uuids dev k (lbaStart pt rel)
      (relativeOf s (lbaStart pt rel) rel) (numAfter s num (table buffer)) n info
      (if uuids ∧ s = 0 then le32ToInt buffer 0x1b8 else sig)) r) :
    Gives (fun k => getPartitionInfoExtended disk uuids dev k s rel num n info sig) r := by
  apply rest.succ
  intro k
  rw [getPartitionInfoExtended, read]
  simp only [sign, Bool.not_true, Bool.false_eq_true, if_false, missing, link]

/-- The block is the last one. -/
lemma gives_get_last (read : disk s = some buffer) (sign : signed buffer)
    (missing : findEntry buffer s num n = none)
    (link : (table buffer).find? DosPartition.isExtended = none) :
    Gives (fun k => getPartitionInfoExtended disk uuids dev k s rel num n info sig)
      (if testBlockType buffer = some .pbr then some (infoOfPbr uuids dev info) else none) := by
  apply gives_of_succ
  intro k
  rw [getPartitionInfoExtended, read]
  simp only [sign, Bool.not_true, Bool.false_eq_true, if_false, missing, link]
  split_ifs <;> rfl

lemma signed_of_type {type : BlockType} (h : testBlockType buffer = some type) : signed buffer := by
  rw [testBlockType] at h
  by_contra unsigned
  rw [Bool.not_eq_true] at unsigned
  simp only [unsigned, Bool.not_false, if_true] at h
  cases h

/-- Both walks come back when the links come to an end. -/
lemma Ends.gives (ends : Ends disk s rel) :
    (∀ num sig, ∃ lines, Gives (fun k => printPartitionExtended disk k s rel num sig) lines) ∧
      ∀ num n info sig, ∃ r,
        Gives (fun k => getPartitionInfoExtended disk uuids dev k s rel num n info sig) r := by
  induction ends with
  | @intro s rel links ih =>
    constructor
    · intro num sig
      by_cases stop : ∀ buffer, disk s = some buffer → testBlockType buffer ≠ some .mbr
      · exact ⟨[], gives_print_stop stop⟩
      · push Not at stop
        obtain ⟨buffer, read, type⟩ := stop
        have each : ∀ pt ∈ (table buffer).filter DosPartition.isExtended, ∃ lines,
            Gives (fun k => printPartitionExtended disk k (lbaStart pt rel)
              (relativeOf s (lbaStart pt rel) rel) (numAfter s num (table buffer))
              (if s = 0 then le32ToInt buffer 0x1b8 else sig)) lines := by
          intro pt mem
          obtain ⟨mem, extended⟩ := List.mem_filter.1 mem
          exact (ih buffer read (signed_of_type type) pt mem extended).1 _ _
        obtain ⟨more, rest⟩ := gives_mapM each
        exact ⟨_, gives_print_table read type rest⟩
    · intro num n info sig
      by_cases stop : ∀ buffer, disk s = some buffer → signed buffer = false
      · exact ⟨none, gives_get_stop stop⟩
      · push Not at stop
        obtain ⟨buffer, read, sign⟩ := stop
        rw [ne_eq, Bool.not_eq_false] at sign
        cases found : findEntry buffer s num n with
        | some x => exact ⟨_, gives_get_found read sign found⟩
        | none =>
          cases link : (table buffer).find? DosPartition.isExtended with
          | none => exact ⟨_, gives_get_last read sign found link⟩
          | some pt =>
            obtain ⟨r, rest⟩ := (ih buffer read sign pt (List.mem_of_find?_eq_some link)
              (List.find?_some link)).2 _ n info _
            exact ⟨r, gives_get_link read sign found link rest⟩

end Back

/-! ## Agreement -/

section Agreement

variable {disk uuids dev} {s rel : BitVec w} {num n : Nat} {sig sig' : BitVec 32} {info : PartInfo w}
  {buffer : Mem} {whole : Bool} {line : Line w} {more : List (Line w)} {r : Option (PartInfo w)}

/-- The lines of a table that are of partitions with data. -/
lemma mem_printTable (mem : line ∈ printTable buffer s num sig) (data : line.extd = false) :
    ∃ x ∈ numbered s num (table buffer), x.2.isData ∧ line = printOnePart x.2 s x.1 sig := by
  obtain ⟨x, entry, rfl⟩ := List.mem_map.1 mem
  obtain ⟨entry, shown⟩ := List.mem_filter.1 entry
  refine ⟨x, entry, ?_, rfl⟩
  rw [Bool.and_eq_true] at shown
  change x.2.isExtended = false at data
  rw [DosPartition.isData, shown.1, data]
  rfl

lemma printTable_mem {x : Nat × DosPartition} (mem : x ∈ numbered s num (table buffer))
    (data : x.2.isData) : printOnePart x.2 s x.1 sig ∈ printTable buffer s num sig := by
  rw [DosPartition.isData, Bool.and_eq_true] at data
  refine List.mem_map_of_mem (List.mem_filter.2 ⟨mem, ?_⟩)
  rw [data.1, data.2, Bool.or_true, Bool.true_and]

/-- What is found has data, a boot flag and the number. -/
lemma findEntry_some {x : Nat × DosPartition} (found : findEntry buffer s num n = some x) :
    x ∈ numbered s num (table buffer) ∧ x.2.isData ∧ x.2.flagOk ∧ x.1 = n := by
  refine ⟨List.mem_of_find?_eq_some found, ?_⟩
  have ok := List.find?_some found
  simp only [Bool.and_eq_true, beq_iff_eq] at ok
  obtain ⟨⟨⟨flag, used⟩, number⟩, plain⟩ := ok
  refine ⟨?_, flag, number⟩
  rw [DosPartition.isData, used, plain]
  rfl

/-- What has data, a boot flag and the number is found. -/
lemma findEntry_none (missing : findEntry buffer s num n = none) {x : Nat × DosPartition}
    (mem : x ∈ numbered s num (table buffer)) (data : x.2.isData) (flag : x.2.flagOk) : x.1 ≠ n := by
  intro number
  rw [DosPartition.isData, Bool.and_eq_true] at data
  have no := List.find?_eq_none.1 missing x mem
  rw [flag, data.1, data.2, number] at no
  simp at no

/-- The entry is in a table. -/
lemma alike_found {x : Nat × DosPartition} (found : findEntry buffer s num n = some x)
    (later : ∀ line ∈ more, line.extd = false → numAfter s num (table buffer) ≤ line.partNum) :
    Alike dev whole (printTable buffer s num sig ++ more) n
      (some (infoOf uuids dev info s x.1 x.2 sig')) := by
  obtain ⟨mem, data, -, number⟩ := findEntry_some found
  constructor
  · rintro line shown ⟨of, plain⟩
    rcases List.mem_append.1 shown with shown | shown
    · obtain ⟨y, memY, dataY, rfl⟩ := mem_printTable shown plain
      obtain rfl := eq_of_number mem memY data dataY (number.trans of.symm)
      exact ⟨_, rfl, rfl, rfl⟩
    · have above := later line shown plain
      have below := lt_numAfter mem data
      omega
  · rintro info ⟨⟩
    have plain : (printOnePart x.2 s x.1 sig).extd = false := by
      rw [DosPartition.isData, Bool.and_eq_true, Bool.not_eq_true'] at data
      exact data.2
    exact .inl ⟨_, List.mem_append_left more (printTable_mem mem data), ⟨number, plain⟩, rfl, rfl⟩

/-- The entry is not in a table; what is found behind it decides. -/
lemma alike_missing (missing : findEntry buffer s num n = none)
    (flags : ∀ pt ∈ table buffer, pt.isData → pt.flagOk) (rest : Alike dev whole more n r) :
    Alike dev whole (printTable buffer s num sig ++ more) n r := by
  have none : ∀ line ∈ printTable buffer s num sig, ¬ line.Of n := by
    rintro line shown ⟨of, plain⟩
    obtain ⟨y, memY, dataY, rfl⟩ := mem_printTable shown plain
    exact findEntry_none missing memY dataY (flags y.2 (mem_of_numbered memY) dataY) of
  constructor
  · intro line shown of
    rcases List.mem_append.1 shown with shown | shown
    · exact absurd of (none line shown)
    · exact rest.printed line shown of
  · intro info eq
    rcases rest.told info eq with ⟨line, shown, same⟩ | ⟨all, others, same⟩
    · exact .inl ⟨line, List.mem_append_right _ shown, same⟩
    · refine .inr ⟨all, fun line shown => ?_, same⟩
      rcases List.mem_append.1 shown with shown | shown
      · exact none line shown
      · exact others line shown

/-- The links of regular tables come to an end. -/
lemma Regular.ends (regular : Regular disk whole s rel) : Ends disk s rel := by
  induction regular with
  | unread read =>
    refine .intro fun b some => ?_
    rw [read] at some
    cases some
  | unsigned read sign =>
    refine .intro fun b some sign' => ?_
    rw [read] at some
    cases some
    exact absurd sign' (Bool.eq_false_iff.1 sign)
  | bare read _ _ entries =>
    refine .intro fun b some _ pt mem extended => ?_
    rw [read] at some
    cases some
    exact absurd extended (Bool.eq_false_iff.1 (entries pt mem).1)
  | last read _ _ links =>
    refine .intro fun b some _ pt mem extended => ?_
    rw [read] at some
    cases some
    have link := List.mem_filter.2 ⟨mem, extended⟩
    rw [links] at link
    cases link
  | link read _ _ links _ ih =>
    refine .intro fun b some _ pt mem extended => ?_
    rw [read] at some
    cases some
    have link := List.mem_filter.2 ⟨mem, extended⟩
    rw [links] at link
    obtain rfl := List.mem_singleton.1 link
    exact ih

/-- The walks agree from a block on. -/
lemma Regular.alike (regular : Regular disk whole s rel) :
    ∃ lines, Gives (fun k => printPartitionExtended disk k s rel num sig) lines ∧
      (∀ line ∈ lines, line.extd = false → num ≤ line.partNum) ∧
        ∀ n info sig', ∃ r,
          Gives (fun k => getPartitionInfoExtended disk uuids dev k s rel num n info sig') r ∧
            Alike dev whole lines n r := by
  have nothing : ∀ n : Nat, Alike dev false ([] : List (Line w)) n none := fun n =>
    ⟨fun line none => absurd none List.not_mem_nil, fun info none => by cases none⟩
  induction regular generalizing num sig with
  | unread read =>
    refine ⟨[], gives_print_stop fun b some => ?_, fun line none => absurd none List.not_mem_nil,
      fun n info sig' => ⟨none, gives_get_stop fun b some => ?_, nothing n⟩⟩
    all_goals
      rw [read] at some
      cases some
  | @unsigned s rel buffer read sign =>
    have only : ∀ b, disk s = some b → signed b = false := by
      intro b same
      rw [read] at same
      cases same
      exact sign
    refine ⟨[], gives_print_stop fun b some type => ?_, fun line none => absurd none List.not_mem_nil,
      fun n info sig' => ⟨none, gives_get_stop only, nothing n⟩⟩
    exact absurd (signed_of_type type) (Bool.eq_false_iff.1 (only b some))
  | @bare s rel buffer read sign type entries =>
    refine ⟨[], gives_print_stop fun b same => ?_, fun line none => absurd none List.not_mem_nil,
      fun n info sig' => ?_⟩
    · rw [read] at same
      cases same
      exact type
    · have missing : findEntry buffer s num n = none := by
        cases found : findEntry buffer s num n with
        | none => rfl
        | some x =>
          obtain ⟨mem, data, flag, -⟩ := findEntry_some found
          have wrong := (entries x.2 (mem_of_numbered mem)).2 data
          exact absurd flag (Bool.eq_false_iff.1 wrong)
      have link : (table buffer).find? DosPartition.isExtended = none :=
        List.find?_eq_none.2 fun pt mem => Bool.eq_false_iff.1 (entries pt mem).1
      refine ⟨_, gives_get_last read sign missing link, ?_, ?_⟩
      · exact fun line none => absurd none List.not_mem_nil
      · intro info' eq
        split_ifs at eq with pbr
        cases eq
        exact .inr ⟨decide_eq_true pbr, fun line none => absurd none List.not_mem_nil, rfl, rfl⟩
  | @last s rel buffer read type flags links =>
    have sign := signed_of_type type
    have rest : Gives (fun k => ((table buffer).filter DosPartition.isExtended).mapM fun pt =>
        printPartitionExtended disk k (lbaStart pt rel) (relativeOf s (lbaStart pt rel) rel)
          (numAfter s num (table buffer)) (if s = 0 then le32ToInt buffer 0x1b8 else sig)) [] := by
      rw [links]
      exact ⟨0, fun _ _ => rfl⟩
    refine ⟨_, gives_print_table read type rest, ?_, fun n info sig' => ?_⟩
    · intro line shown plain
      rw [List.flatten_nil, List.append_nil] at shown
      obtain ⟨x, mem, -, rfl⟩ := mem_printTable shown plain
      exact le_of_numbered mem
    · cases found : findEntry buffer s num n with
      | some x =>
        exact ⟨_, gives_get_found read sign found,
          alike_found found fun line none => absurd none List.not_mem_nil⟩
      | none =>
        have link : (table buffer).find? DosPartition.isExtended = none :=
          List.find?_eq_none.2 fun pt mem extended => by
            have some := List.mem_filter.2 ⟨mem, extended⟩
            rw [links] at some
            cases some
        have back := @gives_get_last w disk uuids dev s rel num n sig' info buffer read sign found link
        rw [type, if_neg (by decide)] at back
        exact ⟨_, back, alike_missing found flags (nothing n)⟩
  | @link whole s rel buffer pt read type flags links regular ih =>
    have sign := signed_of_type type
    obtain ⟨lines, shown, above, told⟩ := @ih (numAfter s num (table buffer))
      (if s = 0 then le32ToInt buffer 0x1b8 else sig)
    have rest : Gives (fun k => ((table buffer).filter DosPartition.isExtended).mapM fun pt =>
        printPartitionExtended disk k (lbaStart pt rel) (relativeOf s (lbaStart pt rel) rel)
          (numAfter s num (table buffer)) (if s = 0 then le32ToInt buffer 0x1b8 else sig))
        [lines] := by
      rw [links]
      obtain ⟨k0, gives⟩ := shown
      refine ⟨k0, fun k le => ?_⟩
      simp only [List.mapM_cons, gives k le, List.mapM_nil]
      rfl
    have flat : [lines].flatten = lines := by simp
    have first := gives_print_table read type rest
    rw [flat] at first
    refine ⟨_, first, ?_, fun n info sig' => ?_⟩
    · intro line mem plain
      rcases List.mem_append.1 mem with mem | mem
      · obtain ⟨x, entry, -, rfl⟩ := mem_printTable mem plain
        exact le_of_numbered entry
      · exact Nat.le_trans le_numAfter (above line mem plain)
    · cases found : findEntry buffer s num n with
      | some x => exact ⟨_, gives_get_found read sign found, alike_found found above⟩
      | none =>
        have next : (table buffer).find? DosPartition.isExtended = some pt := by
          rw [← List.head?_filter, links, List.head?_cons]
        obtain ⟨r, back, alike⟩ := told n info
          (if uuids ∧ s = 0 then le32ToInt buffer 0x1b8 else sig')
        exact ⟨r, gives_get_link read sign found next back, alike_missing found flags alike⟩

end Agreement

/-- Where the links come to an end, both walks come back; where the tables are regular, what is told
of a partition is what its line in the list says. -/
theorem walks_agree :
    (Ends disk 0 0 →
      (∃ lines, Gives (printPartDos disk) lines) ∧
        ∀ part info, ∃ r, Gives (fun k => getPartitionInfoDos disk uuids dev k part info) r) ∧
      ∀ whole, Regular disk whole 0 0 →
        ∃ lines, Gives (printPartDos disk) lines ∧ ∀ part info, ∃ r,
          Gives (fun k => getPartitionInfoDos disk uuids dev k part info) r ∧
            Alike dev whole lines part r := by
  constructor
  · intro ends
    obtain ⟨print, get⟩ := @Ends.gives w disk uuids dev 0 0 ends
    exact ⟨print 1 0, fun part info => get 1 part info 0⟩
  · intro whole regular
    obtain ⟨lines, print, -, get⟩ := @Regular.alike w disk uuids dev 0 0 1 0 whole regular
    exact ⟨lines, print, fun part info => get part info 0⟩

/-! ## Three disks -/

/-- A block with a table of one entry. -/
def tableOf (sysInd start size : Nat) : Mem :=
  Mem.zero.write 0x1be ([0, 0, 0, 0, UInt8.ofNat sysInd, 0, 0, 0] ++ bytesLe 4 start ++
    bytesLe 4 size ++ List.replicate 48 0 ++ [0x55, 0xaa])

/-- An extended partition from block 10 on with one logical partition. -/
def logical : BitVec 32 → Option Mem := fun s =>
  if s = 0 then some (tableOf 0x5 10 20) else if s = 10 then some (tableOf 0x83 1 5) else none

/-- An extended partition whose first block cannot be read. -/
def unreadable : BitVec 32 → Option Mem := fun s =>
  if s = 0 then some (tableOf 0x5 10 20) else none

/-- An extended partition whose first block has a link to itself. -/
def cyclic : BitVec 32 → Option Mem := fun s =>
  if s = 0 then some (tableOf 0x5 10 20) else if s = 10 then some (tableOf 0x5 0 20) else none

/-- The first device of some kind. -/
def sampleDev : BlockDesc 32 := ⟨.other, 0, 100⟩

/-- A disk with one logical partition is read and listed alike. -/
theorem walks_agree_logical :
    (∃ lines, Gives (printPartDos logical) lines) ∧
      ∃ lines, Gives (printPartDos logical) lines ∧ ∀ part info, ∃ r,
        Gives (fun k => getPartitionInfoDos logical true sampleDev k part info) r ∧
          Alike sampleDev false lines part r := by
  have walks := walks_agree logical true sampleDev
  have second : Regular logical false 10 10 :=
    @Regular.last 32 logical 10 10 (tableOf 0x83 1 5) rfl (by decide) (by decide) (by decide)
  have regular : Regular logical false 0 0 :=
    @Regular.link 32 logical false 0 0 (tableOf 0x5 10 20) (DosPartition.get (tableOf 0x5 10 20) 0) rfl
      (by decide) (by decide) (by decide) second
  exact ⟨(walks.1 regular.ends).1, walks.2 false regular⟩

/-- The list of a disk has its extended partition, of which nothing is told, and there is no list of
a disk with a link that goes round. -/
theorem not_walks_agree :
    (∃ lines, Gives (printPartDos unreadable) lines ∧ (∃ line ∈ lines, line.partNum = 1) ∧
      ∀ info, Gives (fun k => getPartitionInfoDos unreadable true sampleDev k 1 info) none) ∧
      ∀ calls, printPartDos cyclic calls = none := by
  constructor
  · have type : testBlockType (tableOf 0x5 10 20) = some .mbr := by decide
    have links : (table (tableOf 0x5 10 20)).filter DosPartition.isExtended =
        [DosPartition.get (tableOf 0x5 10 20) 0] := by decide
    have behind : Gives (fun k => ((table (tableOf 0x5 10 20)).filter DosPartition.isExtended).mapM
        fun pt => printPartitionExtended unreadable k (lbaStart pt 0) (relativeOf 0 (lbaStart pt 0) 0)
          (numAfter (0 : BitVec 32) 1 (table (tableOf 0x5 10 20)))
          (if (0 : BitVec 32) = 0 then le32ToInt (tableOf 0x5 10 20) 0x1b8 else 0)) [[]] := by
      rw [links]
      exact gives_of_succ fun k => rfl
    have first : (table (tableOf 0x5 10 20)).find? DosPartition.isExtended =
        some (DosPartition.get (tableOf 0x5 10 20) 0) := by decide
    refine ⟨_, gives_print_table rfl type behind,
      ⟨printOnePart (DosPartition.get (tableOf 0x5 10 20) 0) 0 1 (le32ToInt (tableOf 0x5 10 20) 0x1b8),
        by decide, rfl⟩, fun info => ?_⟩
    apply gives_get_link rfl (by decide) (by decide) first
    exact gives_get_stop fun buffer read => by cases read
  · have back : (table (tableOf 0x5 0 20)).filter DosPartition.isExtended =
        [DosPartition.get (tableOf 0x5 0 20) 0] := by decide
    have links : (table (tableOf 0x5 10 20)).filter DosPartition.isExtended =
        [DosPartition.get (tableOf 0x5 10 20) 0] := by decide
    have round : ∀ calls num sig, printPartitionExtended cyclic calls 10 10 num sig = none := by
      intro calls
      induction calls with
      | zero => exact fun num sig => rfl
      | succ calls ih =>
        intro num sig
        exact print_link_none rfl (by decide) back ih
    intro calls
    cases calls with
    | zero => rfl
    | succ calls =>
      exact print_link_none rfl (by decide) links (round calls)

end Imx.Dos
