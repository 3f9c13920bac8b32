import Imx.Gpt.Write

/-!
# What is written is read back

After `gpt_restore` the partitions are told and verified as they were given exactly if the list is
one that the three translations of it agree on (`ReadsBack`): the code writes UUIDs in one byte order
and reads them in the other, shows what is not printable as dots, takes an entry with the type GUID
of zeros for unused, and verifies a last size of 0 as if it were a size (`restore_reads_back_iff`).
-/

namespace Imx.Gpt
open Imx.Base

variable {w : Nat} {typeGuids : Bool} {crc : List UInt8 → BitVec 32}

/-! ## What is given -/

/-- A partition is told as it was given: it begins at a block, goes up to the last usable one if it
is the last and its size is 0, and its UUID is the same up to letter case. -/
structure Told (info : PartitionInfo w) (p : DiskPartition w) (start lastUsable : BitVec w)
    (isLast : Bool) : Prop where
  begins : info.start = start
  rest : isLast ∧ p.size = 0 → info.size = lastUsable + 1 - start
  size : ¬ (isLast ∧ p.size = 0) → info.size = p.size
  name : info.name = p.nameStr
  uuid : info.uuid.map lower = p.uuid.map lower

/-- The partitions of a list are told as they were given, from number `i + 1` on. -/
def AllTold (typeGuids : Bool) (crc : List UInt8 → BitVec 32) (d : BlockDev w) :
    Nat → BitVec w → List (DiskPartition w) → Prop
  | _, _, [] => True
  | i, offset, p :: ps =>
    (∃ info, getPartitionInfoEfi typeGuids crc d (i + 1) = some info ∧
      Told info p (startOf offset p) (d.lba - 34) ps.isEmpty) ∧
      AllTold typeGuids crc d (i + 1) (startOf offset p + p.size) ps

/-- A partition at a block is read back as it was given. -/
structure PartReadsBack (typeGuids : Bool) (p : DiskPartition w) (start : BitVec w)
    (isLast : Bool) : Prop where
  uuid : Mirrored p.uuid
  name : ∀ c ∈ p.nameStr, isprint c
  type : ¬ (typeGuids ∧ p.typeGuid = zeroUuid)
  size : isLast → p.size ≠ 0
  wraps : w = 64 ∨ 0 < start.toNat + p.size.toNat ∧ start.toNat + p.size.toNat ≤ 2 ^ w

/-- All partitions of a list are read back as they were given. -/
def ReadsBack (typeGuids : Bool) : BitVec w → List (DiskPartition w) → Prop
  | _, [] => True
  | offset, p :: ps =>
    PartReadsBack typeGuids p (startOf offset p) ps.isEmpty ∧
      ReadsBack typeGuids (startOf offset p + p.size) ps

/-! ## Names -/

section Names

variable {p : DiskPartition w} {e : GptEntry} {bs rest : List UInt8} {off : Nat}

/-- A name with a NUL in its field. -/
def DiskPartition.Short (p : DiskPartition w) : Prop := ∃ i, p.name i = 0

/-- The low byte of a character. -/
lemma low_byte : UInt8.ofNat (getLe 16 bs off).toNat = bs.getD off 0 := by
  have first : bs.getD off 0 = (bs.drop off).getD 0 0 := by
    rw [List.getD_eq_getElem?_getD, List.getD_eq_getElem?_getD, List.getElem?_drop, Nat.add_zero]
  rw [first, getLe]
  cases bs.drop off with
  | nil => rfl
  | cons b more =>
    have value : ofLe ((b :: more).take (16 / 8)) = b.toNat + 256 * ofLe (more.take 1) := rfl
    have byte := b.toNat_lt
    rw [value, ← UInt8.toNat_inj, UInt8.toNat_ofNat', BitVec.toNat_ofNat]
    show _ = b.toNat
    omega

/-- The characters of a short name, whatever comes behind its field. -/
lemma nameStr_append (short : p.Short) :
    (List.ofFn p.name ++ rest).takeWhile (· != 0) = p.nameStr := by
  obtain ⟨i, nul⟩ := short
  have stops : ((List.ofFn p.name).takeWhile (· != 0)).length ≠ (List.ofFn p.name).length := by
    intro all
    have whole := (List.takeWhile_prefix (· != 0)).eq_of_length all
    have mem : p.name i ∈ List.ofFn p.name := List.mem_ofFn.2 ⟨i, rfl⟩
    rw [← whole] at mem
    have all := List.all_eq_true.1 List.all_takeWhile _ mem
    simp [nul] at all
  rw [List.takeWhile_append, if_neg stops, DiskPartition.nameStr]

/-- What is shown of a character. -/
def shown (c : UInt8) : UInt8 := if c ≠ 0 ∧ !isprint c then 46 else c

/-- A character is shown as it is exactly if it is printable. -/
lemma shown_eq_iff {c : UInt8} (ne : c ≠ 0) : shown c = c ↔ isprint c := by
  rw [shown]
  by_cases print : isprint c
  · simp [print]
  · have dot : (46 : UInt8) ≠ c := by
      rintro rfl
      exact print (by decide)
    simp [print, ne, dot]

/-- Only the NUL is shown as a NUL. -/
lemma shown_zero_iff {c : UInt8} : shown c = 0 ↔ c = 0 := by
  rw [shown]
  split_ifs with dot
  · simp [dot.1]
  · exact Iff.rfl

variable {typeGuid uniqueGuid : Guid} {start ending : BitVec 64}

/-- The characters of an entry. -/
lemma fillEntry_char {k : Fin 36} :
    UInt8.ofNat ((fillEntry p typeGuid uniqueGuid start ending).partitionName k).toNat =
      if lt : k < 32 then p.name ⟨k, lt⟩ else 0 := by
  show UInt8.ofNat (if lt : k < 32 then BitVec.ofNat 16 (p.name ⟨k, lt⟩).toNat else 0).toNat = _
  split_ifs with lt
  · have byte := (p.name ⟨k, lt⟩).toNat_lt
    rw [BitVec.toNat_ofNat, Nat.mod_eq_of_lt (by omega), UInt8.ofNat_toNat]
  · rfl

/-- The name of an entry is shown printable. -/
lemma printEfiname_eq (short : p.Short) :
    printEfiname (fillEntry p typeGuid uniqueGuid start ending) = p.nameStr.map shown := by
  have chars : (List.finRange 36).map (fun i =>
      UInt8.ofNat ((fillEntry p typeGuid uniqueGuid start ending).partitionName i).toNat) =
        List.ofFn p.name ++ List.replicate 4 0 := by
    apply List.ext_getElem
    · simp
    · intro i lt _
      rw [List.getElem_map, List.getElem_finRange, fillEntry_char, List.getElem_append]
      have lt' : i < 36 := by simpa using lt
      show (if lt : (⟨i, lt'⟩ : Fin 36) < 32 then p.name ⟨i, lt⟩ else 0) = _
      by_cases inside : i < 32
      · have inside' : (⟨i, lt'⟩ : Fin 36) < 32 := inside
        have inside'' : i < (List.ofFn p.name).length := by simpa using inside
        rw [dif_pos inside', dif_pos inside'', List.getElem_ofFn]
      · have inside' : ¬ (⟨i, lt'⟩ : Fin 36) < 32 := inside
        have inside'' : ¬ i < (List.ofFn p.name).length := by simpa using inside
        rw [dif_neg inside', dif_neg inside'', List.getElem_replicate]
  have stop : (fun c => c != 0) ∘ shown = fun c => c != 0 := by
    funext c
    simp [bne, shown_zero_iff]
  have whole : printEfiname (fillEntry p typeGuid uniqueGuid start ending) =
      (((List.finRange 36).map fun i => UInt8.ofNat
        ((fillEntry p typeGuid uniqueGuid start ending).partitionName i).toNat).map shown).takeWhile
          (· != 0) := by
    rw [List.map_map]
    rfl
  rw [whole, chars, List.takeWhile_map, stop, nameStr_append short]

/-- The name is shown as it was given exactly if it is printable. -/
lemma map_shown_iff : p.nameStr.map shown = p.nameStr ↔ ∀ c ∈ p.nameStr, isprint c := by
  have nonzero : ∀ c ∈ p.nameStr, c ≠ 0 := by
    intro c mem
    have all := List.all_eq_true.1 List.all_takeWhile _ mem
    simpa using all
  have pointwise : p.nameStr.map shown = p.nameStr.map id ↔ ∀ c ∈ p.nameStr, shown c = id c :=
    List.map_inj_left
  rw [List.map_id] at pointwise
  rw [pointwise]
  exact forall₂_congr fun c mem => shown_eq_iff (nonzero c mem)

/-- The verifier reads the name as it was given. -/
lemma convert_eq (short : p.Short) {i : Nat}
    (entry : GptEntry.get bs (128 * i) = fillEntry p typeGuid uniqueGuid start ending) :
    (gptConvertEfiNameToChar (bs.drop (128 * i + 56)) 37).take 32 = p.nameStr := by
  have char (j : Nat) (lt : j < 32) :
      (bs.drop (128 * i + 56)).getD (2 * j) 0 = p.name ⟨j, lt⟩ := by
    have here := congrArg (fun e => UInt8.ofNat (e.partitionName ⟨j, by omega⟩).toNat) entry
    have at' : (⟨j, by omega⟩ : Fin 36) < 32 := lt
    simp only [fillEntry_char, dif_pos at', GptEntry.get, low_byte] at here
    rw [List.getD_eq_getElem?_getD, List.getElem?_drop, ← List.getD_eq_getElem?_getD, here]
  have first : (List.range 32).map (fun j => (bs.drop (128 * i + 56)).getD (2 * j) 0) =
      List.ofFn p.name := by
    apply List.ext_getElem
    · simp
    · intro j lt _
      rw [List.getElem_map, List.getElem_range, List.getElem_ofFn, char]
  have size : p.nameStr.length ≤ 32 := by
    have le := (List.takeWhile_sublist (l := List.ofFn p.name) (· != 0)).length_le
    rwa [List.length_ofFn] at le
  have count : 37 = 32 + 5 := rfl
  rw [gptConvertEfiNameToChar, count, List.range_add, List.map_append, first, nameStr_append short,
    List.take_of_length_le size]

end Names

/-! ## Type GUIDs and UUIDs -/

section Guids

variable {s : CStr} {p : DiskPartition w} {g u : Guid} {start ending : BitVec 64}

/-- Only a zero or a dash is that in lower case. -/
lemma lower_eq {c : UInt8} (h : lower c = 48 ∨ lower c = 45) : lower c = c := by
  rw [lower] at h ⊢
  split_ifs at h ⊢ with upper
  · have low : 65 ≤ c.toNat := upper.1
    have high : c.toNat ≤ 90 := upper.2
    have add : (c + 32).toNat = c.toNat + 32 := by
      rw [UInt8.toNat_add]
      exact Nat.mod_eq_of_lt (show c.toNat + 32 < 2 ^ 8 by omega)
    obtain zero | minus := h
    · rw [zero] at add
      have this : 48 = c.toNat + 32 := add
      omega
    · rw [minus] at add
      have this : 45 = c.toNat + 32 := add
      omega
  · rfl

/-- What is printed is in lower case. -/
lemma printed_lower {f : Format} : (uuidBinToStr g f).map lower = uuidBinToStr g f := by
  have byte (b : UInt8) : (hexByte b).map lower = hexByte b := by
    have digit : ∀ x < 16, lower (hexDigit (UInt8.ofNat x)) = hexDigit (UInt8.ofNat x) := by decide
    have lt := b.toNat_lt
    rw [hexByte, (halves_eq b).1, (halves_eq b).2, List.map_cons, List.map_singleton,
      digit _ (by omega), digit _ (by omega)]
  have sep (i : Fin 16) : (dash i).map lower = dash i := by
    revert i
    decide
  rw [uuidBinToStr, List.map_flatMap]
  simp only [List.map_append, byte, sep]

/-- Only the text of zeros is the GUID of zeros. -/
lemma bin_eq_zero_iff (valid : uuidStrValid s) :
    (Format.guid.bin s).toBytes = List.replicate 16 0 ↔ s = zeroUuid := by
  constructor
  · intro zeros
    have zero : Format.guid.bin s = fun _ => 0 := List.ofFn_injective zeros
    have text := uuidBinToStr_same (f := .guid) valid
    have printed : uuidBinToStr (fun _ => 0) .guid = zeroUuid := by decide
    rw [zero, printed] at text
    have same : s.map lower = s.map id := by
      apply List.map_congr_left
      intro c mem
      have digits : ∀ x ∈ zeroUuid, x = 48 ∨ x = 45 := by simp [zeroUuid]
      have low : lower c ∈ zeroUuid := by
        rw [text]
        exact List.mem_map_of_mem mem
      exact lower_eq (digits _ low)
    rw [text, same, List.map_id]
  · rintro rfl
    decide

/-- An entry is taken for unused only if its type GUID was given as zeros. -/
lemma isPteValid_iff (type : fillTypeGuid typeGuids p = some g) :
    isPteValid (fillEntry p g u start ending) ↔ ¬ (typeGuids ∧ p.typeGuid = zeroUuid) := by
  have used : isPteValid (fillEntry p g u start ending) ↔ g.toBytes ≠ List.replicate 16 0 := by
    rw [isPteValid, bne_iff_ne]
    rfl
  rw [used, not_iff_not]
  rw [fillTypeGuid] at type
  by_cases given : typeGuids ∧ p.typeGuid ≠ []
  · rw [if_pos given] at type
    by_cases valid : uuidStrValid p.typeGuid
    · rw [uuidStrToBin_valid _ valid, Option.some.injEq] at type
      rw [← type, bin_eq_zero_iff valid]
      simp [given.1]
    · have other : p.typeGuid ≠ zeroUuid := by
        intro eq
        rw [eq] at valid
        exact valid (by decide)
      have named : ∀ e ∈ listGuid, e.2.toBytes ≠ List.replicate 16 0 := by decide
      rw [uuidStrToBin, if_neg valid, if_pos given.1, uuidGuidGetBin, Option.map_eq_some_iff] at type
      obtain ⟨e, found, rfl⟩ := type
      have nonzero := named e (List.mem_of_find?_eq_some found)
      simp only [nonzero, other, and_false]
  · rw [if_neg given, Option.some.injEq] at type
    have basic : partitionBasicDataGuid.toBytes ≠ List.replicate 16 0 := by decide
    have none : ¬ (typeGuids ∧ p.typeGuid = zeroUuid) := by
      rintro ⟨on, eq⟩
      apply given
      rw [eq]
      exact ⟨on, by decide⟩
    rw [← type]
    simp only [basic, none]

end Guids

/-! ## Sizes -/

section Sizes

variable {start size last : BitVec w} (hw : w = 32 ∨ w = 64)
include hw

/-- An end that is told gives back the size. -/
lemma told_size : ((start + size - 1).setWidth 64).setWidth w + 1 - start = size := by
  rcases hw with rfl | rfl <;> bv_omega

/-- The verifier finds the size unless the end wraps around. -/
lemma verified_size_iff :
    (start + size - 1).setWidth 64 - start.setWidth 64 + 1 = size.setWidth 64 ↔
      w = 64 ∨ 0 < start.toNat + size.toNat ∧ start.toNat + size.toNat ≤ 2 ^ w := by
  rcases hw with rfl | rfl
  · constructor <;> intro h <;> bv_omega
  · simp only [BitVec.setWidth_eq, true_or, iff_true]
    grind

/-- The verifier does not find the rest of the disk where 0 was given. -/
lemma verified_rest (lt : start + size < (last.setWidth 64).setWidth w) (zero : size = 0)
    (room : last.toNat + 1 < 2 ^ w) :
    last.setWidth 64 - start.setWidth 64 + 1 ≠ size.setWidth 64 := by
  subst zero
  have none : start + 0 = start := BitVec.add_zero start
  rw [none] at lt
  rcases hw with rfl | rfl
  · bv_omega
  · simp only [BitVec.setWidth_eq] at lt ⊢
    bv_omega

end Sizes

/-! ## One partition -/

section Partition

variable {gptH : GptHeader} {gptE : List UInt8} {p : DiskPartition w} {ps : List (DiskPartition w)}
  {g u : Guid} {start last : BitVec w} {i : Nat}

/-- The entry of a partition that begins at a block. -/
def entryAt (p : DiskPartition w) (isLast : Bool) (g u : Guid) (start last : BitVec w) : GptEntry :=
  fillEntry p g u (start.setWidth 64)
    (if isLast ∧ p.size = 0 then last.setWidth 64 else (start + p.size - 1).setWidth 64)

variable {isLast : Bool} (hw : w = 32 ∨ w = 64) (number : gptH.numPartitionEntries = gptEntryNumbers)
  (entry : GptEntry.get gptE (128 * i) = entryAt p isLast g u start last)
include hw number entry

/-- What is told of a partition. -/
lemma told_iff (room : i < 128) (short : p.Short) (valid : uuidStrValid p.uuid)
    (type : fillTypeGuid typeGuids p = some g) (unique : u = Format.std.bin p.uuid) :
    (∃ info, partitionInfo typeGuids gptH gptE (i + 1) = some info ∧
      Told info p start last isLast) ↔
        ¬ (typeGuids ∧ p.typeGuid = zeroUuid) ∧ (∀ c ∈ p.nameStr, isprint c) ∧ Mirrored p.uuid := by
  have here : ¬ (i + 1 > gptEntryNumbers.toNat) := by
    have count : gptEntryNumbers.toNat = 128 := rfl
    omega
  have used := @isPteValid_iff w typeGuids p g u (start.setWidth 64)
    (if isLast ∧ p.size = 0 then last.setWidth 64 else (start + p.size - 1).setWidth 64) type
  have name : printEfiname (entryAt p isLast g u start last) = p.nameStr ↔
      ∀ c ∈ p.nameStr, isprint c := by
    rw [entryAt, printEfiname_eq short, map_shown_iff]
  have uuid : (uuidBinToStr u .guid).map lower = p.uuid.map lower ↔ Mirrored p.uuid := by
    rw [printed_lower, unique, uuidBinToStr_crossed_iff valid]
  have back (x : BitVec w) : (x.setWidth 64).setWidth w = x := by
    rcases hw with rfl | rfl <;> simp
  rw [← used, ← name, ← uuid]
  simp only [partitionInfo, Nat.add_sub_cancel, entry, number]
  by_cases valid : isPteValid (entryAt p isLast g u start last)
  · rw [if_neg (by simp [here, valid])]
    constructor
    · rintro ⟨info, eq, told⟩
      obtain rfl := Option.some.inj eq
      exact ⟨valid, told.name, told.uuid⟩
    · rintro ⟨-, name, uuid⟩
      refine ⟨_, rfl, back start, ?_, ?_, name, uuid⟩
      · intro rest
        simp only [entryAt, fillEntry, if_pos rest, back]
      · intro given
        simp only [entryAt, fillEntry, if_neg given, back start]
        exact told_size hw
  · rw [if_pos (by simp [valid])]
    constructor
    · rintro ⟨info, none, -⟩
      cases none
    · rintro ⟨valid', -⟩
      exact absurd valid' valid

/-- What is verified of a partition. -/
lemma verified_iff (short : p.Short) (room : last.toNat + 1 < 2 ^ w)
    (fits : start + p.size < (last.setWidth 64).setWidth w) (given : p.start ≠ 0 → start = p.start) :
    verifyLoop gptH gptE i (p :: ps) = 0 ↔
      i ≠ 128 ∧ ¬ (isLast ∧ p.size = 0) ∧
        (w = 64 ∨ 0 < start.toNat + p.size.toNat ∧ start.toNat + p.size.toNat ≤ 2 ^ w) ∧
        verifyLoop gptH gptE (i + 1) ps = 0 := by
  have name := convert_eq short entry
  have count : gptH.numPartitionEntries.toNat = 128 := by
    rw [number]
    rfl
  have begins : p.start ≠ 0 → (entryAt p isLast g u start last).startingLba = p.start.setWidth 64 := by
    intro ne
    rw [← given ne]
    rfl
  have size : (entryAt p isLast g u start last).endingLba -
      (entryAt p isLast g u start last).startingLba + 1 = p.size.setWidth 64 ↔
        ¬ (isLast ∧ p.size = 0) ∧
          (w = 64 ∨ 0 < start.toNat + p.size.toNat ∧ start.toNat + p.size.toNat ≤ 2 ^ w) := by
    by_cases rest : isLast ∧ p.size = 0
    · have ne := verified_rest hw fits rest.2 room
      simp only [entryAt, fillEntry, if_pos rest]
      exact ⟨fun eq => absurd eq ne, fun all => absurd rest all.1⟩
    · simp only [entryAt, fillEntry, if_neg rest]
      rw [verified_size_iff hw]
      exact ⟨fun wraps => ⟨rest, wraps⟩, fun all => all.2⟩
  rw [verifyLoop]
  simp only [entry, name, count, ne_eq, not_true_eq_false, if_false]
  by_cases full : i = 128
  · simp [full]
  rw [if_neg full]
  by_cases same : (entryAt p isLast g u start last).endingLba -
      (entryAt p isLast g u start last).startingLba + 1 = p.size.setWidth 64
  · have goOn : (if p.start = 0 then verifyLoop gptH gptE (i + 1) ps
        else if (entryAt p isLast g u start last).startingLba ≠ p.start.setWidth 64 then -1
        else verifyLoop gptH gptE (i + 1) ps) = verifyLoop gptH gptE (i + 1) ps := by
      split_ifs with zero differ
      · rfl
      · exact absurd (begins zero) differ
      · rfl
    rw [if_neg (not_not_intro same), goOn]
    obtain ⟨sized, wraps⟩ := size.1 same
    exact ⟨fun rest => ⟨full, sized, wraps, rest⟩, fun all => all.2.2.2⟩
  · rw [if_pos same]
    exact ⟨fun none => absurd none (by decide), fun all => absurd (size.2 ⟨all.2.1, all.2.2.1⟩) same⟩

end Partition

/-! ## The list -/

section List

variable {d : BlockDev w} {gptH h : GptHeader} {gptE : List UInt8} {offset : BitVec w}
  {parts : List (DiskPartition w)} {es : List GptEntry} {i : Nat}

/-- A list has at most 128 partitions when it is verified. -/
lemma verified_count (number : h.numPartitionEntries = gptEntryNumbers) (le : i ≤ 128)
    (ok : verifyLoop h gptE i parts = 0) : i + parts.length ≤ 128 := by
  induction parts generalizing i with
  | nil => exact le
  | cons p ps ih =>
    have count : h.numPartitionEntries.toNat = 128 := by
      rw [number]
      rfl
    rw [verifyLoop] at ok
    simp only [count] at ok
    by_cases full : i = 128
    · rw [if_pos full] at ok
      exact absurd ok (by decide)
    · have rest : verifyLoop h gptE (i + 1) ps = 0 := by
        split_ifs at ok <;> exact ok
      have all := ih (by omega) rest
      rw [List.length_cons]
      omega

/-- The partitions are told and verified as they were given exactly if each is one that is read
back. -/
lemma allTold_iff (hw : w = 32 ∨ w = 64) (read : readGpt crc d = some (gptH, gptE))
    (number : gptH.numPartitionEntries = gptEntryNumbers)
    (number' : h.numPartitionEntries = gptEntryNumbers)
    (last : (d.lba - 34).toNat + 1 < 2 ^ w) {filled : GptHeader}
    (usable : filled.lastUsableLba = (d.lba - 34).setWidth 64)
    (fill : gptFillPte typeGuids filled offset parts = some es)
    (entries : ∀ j (lt : j < es.length), GptEntry.get gptE (128 * (i + j)) = es[j])
    (count : i + parts.length ≤ 128) (short : ∀ p ∈ parts, p.Short)
    (valid : ∀ p ∈ parts, uuidStrValid p.uuid) :
    AllTold typeGuids crc d i offset parts ∧ verifyLoop h gptE i parts = 0 ↔
      ReadsBack typeGuids offset parts := by
  induction parts generalizing i offset es with
  | nil => simp [AllTold, verifyLoop, ReadsBack]
  | cons p ps ih =>
    obtain ⟨-, fits, g, u, es', type, unique, rest, rfl⟩ := gptFillPte_cons fill
    rw [List.length_cons] at count
    have here : GptEntry.get gptE (128 * i) =
        entryAt p ps.isEmpty g u (startOf offset p) (d.lba - 34) := by
      have first := entries 0 (by simp)
      rw [Nat.add_zero] at first
      rw [first, entryAt, ← usable]
      simp
    have shortP := short p List.mem_cons_self
    have validP := valid p List.mem_cons_self
    have bin : u = Format.std.bin p.uuid := by
      rw [uuidStrToBin_valid _ validP, Option.some.injEq] at unique
      exact unique.symm
    have given : p.start ≠ 0 → startOf offset p = p.start := by
      intro ne
      rw [startOf, if_pos ne]
    rw [usable] at fits
    have told := told_iff hw number here (by omega) shortP validP type bin
    have verified := @verified_iff w h gptE p ps g u _ _ i _ hw number' here shortP last fits given
    have next : ∀ j (lt : j < es'.length), GptEntry.get gptE (128 * (i + 1 + j)) = es'[j] := by
      intro j lt
      have entry := entries (j + 1) (by simpa using lt)
      rw [List.getElem_cons_succ] at entry
      have index : i + 1 + j = i + (j + 1) := by omega
      rw [index, entry]
    have tail := @ih (startOf offset p + p.size) es' (i + 1) rest next (by omega)
      (fun q mem => short q (List.mem_cons_of_mem p mem))
      (fun q mem => valid q (List.mem_cons_of_mem p mem))
    have info : getPartitionInfoEfi typeGuids crc d (i + 1) =
        partitionInfo typeGuids gptH gptE (i + 1) := by
      rw [getPartitionInfoEfi, if_neg (by omega), read, Option.bind_some]
    rw [AllTold, ReadsBack, info, told, verified, ← tail]
    constructor
    · rintro ⟨⟨⟨type, name, uuid⟩, toldRest⟩, -, size, wraps, verifiedRest⟩
      exact ⟨⟨uuid, name, type, not_and.1 size, wraps⟩, toldRest, verifiedRest⟩
    · rintro ⟨⟨uuid, name, type, size, wraps⟩, toldRest, verifiedRest⟩
      exact ⟨⟨⟨type, name, uuid⟩, toldRest⟩, by omega, not_and.2 size, wraps, verifiedRest⟩

/-- An entry is made of every partition. -/
lemma length_gptFillPte {filled : GptHeader} (fill : gptFillPte typeGuids filled offset parts = some es) :
    es.length = parts.length := by
  induction parts generalizing offset es with
  | nil =>
    obtain rfl := Option.some.inj fill
    rfl
  | cons p ps ih =>
    obtain ⟨-, -, _, _, es', -, -, rest, rfl⟩ := gptFillPte_cons fill
    rw [List.length_cons, List.length_cons, ih rest]

/-- The usable blocks of a new table. -/
lemma fill_blocks {guid : CStr} {filled : GptHeader} (hw : w = 32 ∨ w = 64)
    (fill : gptFillHeader typeGuids d guid = some filled) :
    filled.lastUsableLba = (d.lba - 34).setWidth 64 ∧ filled.firstUsableLba.setWidth w = 34 := by
  rw [gptFillHeader, Option.map_eq_some_iff] at fill
  obtain ⟨diskGuid, -, rfl⟩ := fill
  refine ⟨rfl, ?_⟩
  rcases hw with rfl | rfl <;> rfl

end List

/-- What a disk tells and verifies after a list was written. -/
lemma restored_iff (hw : w = 32 ∨ w = 64) (d d' : BlockDev w) (room : 67 ≤ d.lba.toNat)
    (guid : CStr) (parts : List (DiskPartition w))
    (accepted : gptRestore typeGuids crc d guid parts = (d', 0))
    (short : ∀ p ∈ parts, p.Short) (valid : ∀ p ∈ parts, uuidStrValid p.uuid) :
    (AllTold typeGuids crc d' 0 34 parts ∧ gptVerifyPartitions crc d' parts = 0) ↔
      parts.length ≤ 128 ∧ ReadsBack typeGuids 34 parts := by
  have blocks : 34 ≤ d.lba.toNat := by omega
  -- the disk
  cases array : restoreArray typeGuids d guid parts with
  | none =>
    rw [gptRestore, restoreWrites_none crc array] at accepted
    cases accepted
  | some e =>
    obtain ⟨m, p, b, done, pair, t⟩ := gptRestore_tables crc hw room array
    obtain rfl : { d with disk := m } = d' := congrArg Prod.fst (done.symm.trans accepted)
    have read := readGpt_primary (d := { d with disk := m }) hw blocks pair t
    have primary := primary_valid (d := { d with disk := m }) hw blocks pair.primary
      pair.primaryEntries t
    have backup := backup_valid (d := { d with disk := m }) hw blocks pair.backup
      pair.backupEntries t
    rw [pair.primaryCrc, if_pos rfl] at primary
    rw [pair.backupCrc, if_pos rfl] at backup
    have verify : gptVerifyPartitions crc { d with disk := m } parts = verifyLoop b e 0 parts := by
      rw [gptVerifyPartitions, gptVerifyHeaders, primary]
      simp only [Option.bind_eq_bind, Option.bind_some]
      rw [backup]
    rw [verify]
    -- the entries
    rw [restoreArray] at array
    simp only [Option.bind_eq_bind, Option.bind_eq_some_iff, Option.some.injEq] at array
    obtain ⟨filled, header, es, pte, rfl⟩ := array
    obtain ⟨usable, first⟩ := fill_blocks hw header
    rw [first] at pte
    have length := length_gptFillPte pte
    by_cases count : parts.length ≤ 128
    · rw [and_iff_right count]
      have entries : ∀ j (lt : j < es.length),
          GptEntry.get (entryArray es) (128 * (0 + j)) = es[j] := by
        intro j lt
        rw [Nat.zero_add]
        exact entryArray_get lt (by omega)
      have last : (d.lba - 34).toNat + 1 < 2 ^ w := by
        rcases hw with rfl | rfl <;> bv_omega
      exact allTold_iff hw read pair.primary.number pair.backup.number last usable pte entries
        (by omega) short valid
    · constructor
      · rintro ⟨-, verified⟩
        have fits := verified_count pair.backup.number (by omega) verified
        omega
      · rintro ⟨fits, -⟩
        exact absurd fits count

/-- A list that is accepted and does not wrap around needs a device with room for both tables. -/
lemma accepted_room (hw : w = 32 ∨ w = 64) {d : BlockDev w} (blocks : 34 ≤ d.lba.toNat)
    {guid : CStr} {p : DiskPartition w} {ps : List (DiskPartition w)} {e : List UInt8}
    (array : restoreArray typeGuids d guid (p :: ps) = some e)
    (within : (startOf 34 p).toNat + p.size.toNat < 2 ^ w) : 67 ≤ d.lba.toNat := by
  rw [restoreArray] at array
  simp only [Option.bind_eq_bind, Option.bind_eq_some_iff, Option.some.injEq] at array
  obtain ⟨filled, header, es, pte, -⟩ := array
  obtain ⟨usable, first⟩ := fill_blocks hw header
  rw [first] at pte
  obtain ⟨above, fits, -⟩ := gptFillPte_cons pte
  obtain ⟨-, -, -, back, -, -⟩ := places hw blocks
  rw [usable, back] at fits
  have begins : 34 ≤ startOf 34 p := by
    rw [startOf]
    split_ifs with ne
    · exact above.resolve_left ne
    · exact BitVec.le_refl _
  rcases hw with rfl | rfl <;> bv_omega

/-- On a device with room for both tables, what `gpt_restore` wrote is told and verified as it was
given exactly if there are at most 128 partitions and each is one that is read back. -/
theorem restore_reads_back_iff (hw : w = 32 ∨ w = 64) (d d' : BlockDev w) (room : 67 ≤ d.lba.toNat)
    (guid : CStr) (parts : List (DiskPartition w))
    (accepted : gptRestore typeGuids crc d guid parts = (d', 0))
    (short : ∀ p ∈ parts, p.Short) (valid : ∀ p ∈ parts, uuidStrValid p.uuid) :
    (AllTold typeGuids crc d' 0 34 parts ∧ gptVerifyPartitions crc d' parts = 0) ↔
      parts.length ≤ 128 ∧ ReadsBack typeGuids 34 parts :=
  restored_iff hw d d' room guid parts accepted short valid

/-- A UUID whose first three groups read the same backwards. -/
def mirroredUuid : CStr :=
  [65, 49, 66, 50, 98, 50, 97, 49, 45, 99, 51, 67, 51, 45, 100, 52, 68, 52, 45, 48, 53, 48, 54, 45,
    48, 55, 48, 56, 48, 57, 48, 97, 48, 98, 48, 99]

/-- A UUID whose bytes count up. -/
def countingUuid : CStr :=
  [48, 48, 48, 49, 48, 50, 48, 51, 45, 48, 52, 48, 53, 45, 48, 54, 48, 55, 45, 48, 56, 48, 57, 45,
    48, 97, 48, 98, 48, 99, 48, 100, 48, 101, 48, 102]

/-- A device of 100 blocks. -/
def device100 : BlockDev 32 where
  lba := 100
  disk := Mem.zero

/-- A checksum: the sum of the bytes. -/
def byteSum (bs : List UInt8) : BitVec 32 := BitVec.ofNat 32 (bs.map UInt8.toNat).sum

/-- A partition of ten blocks can be written on it. -/
lemma sample_written {uuid : CStr} (valid : uuidStrValid uuid) :
    ∃ d', gptRestore false byteSum device100 zeroUuid [samplePartition 10 uuid] = (d', 0) := by
  obtain ⟨e, array⟩ := @sample_accepted device100 10 uuid valid (by decide)
  obtain ⟨m, p, b, done, -⟩ := gptRestore_tables byteSum (.inl rfl) (by decide) array
  exact ⟨_, done⟩

/-- One partition with such a UUID is told and verified as it was given. -/
theorem restore_reads_back_mirrored :
    ∃ d', gptRestore false byteSum device100 zeroUuid [samplePartition 10 mirroredUuid] = (d', 0) ∧
      AllTold false byteSum d' 0 34 [samplePartition 10 mirroredUuid] ∧
      gptVerifyPartitions byteSum d' [samplePartition 10 mirroredUuid] = 0 := by
  have valid : uuidStrValid mirroredUuid := by decide
  obtain ⟨d', written⟩ := sample_written valid
  refine ⟨d', written, (restore_reads_back_iff (.inl rfl) device100 d' (by decide) zeroUuid _ written
    ?_ ?_).2 ⟨by decide, ⟨?_, ?_, ?_, ?_, .inr ?_⟩, trivial⟩⟩
  · intro p mem
    rw [List.mem_singleton.1 mem]
    exact ⟨1, rfl⟩
  · intro p mem
    rw [List.mem_singleton.1 mem]
    exact valid
  · exact (by decide : Mirrored mirroredUuid)
  · decide +kernel
  · simp
  · intro _
    decide
  · decide

/-- The UUID of a partition is told with its first three groups backwards. -/
theorem restore_swaps_uuid :
    ∃ d', gptRestore false byteSum device100 zeroUuid [samplePartition 10 countingUuid] = (d', 0) ∧
      uuidStrValid countingUuid ∧ (samplePartition 10 countingUuid).Short ∧
      ¬ (AllTold false byteSum d' 0 34 [samplePartition 10 countingUuid] ∧
        gptVerifyPartitions byteSum d' [samplePartition 10 countingUuid] = 0) := by
  have valid : uuidStrValid countingUuid := by decide
  have short : (samplePartition 10 countingUuid).Short := ⟨1, rfl⟩
  obtain ⟨d', written⟩ := sample_written valid
  refine ⟨d', written, valid, short, fun both => ?_⟩
  obtain ⟨-, ⟨back, -⟩⟩ := (restored_iff (.inl rfl) device100 d' (by decide) zeroUuid _ written
    (List.forall_mem_singleton.2 short) (List.forall_mem_singleton.2 valid)).1 both
  exact absurd back.uuid (by decide : ¬ Mirrored countingUuid)

end Imx.Gpt
