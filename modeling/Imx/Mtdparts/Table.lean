import Mathlib.Data.List.Nodup
import Imx.Base.Run
import Imx.Mtdparts.Defs

/-!
# The partition tables

`DeviceOk` is what holds of a device in the list: its partitions are valid, sorted by offset, and at
most the first of them begins at zero. Each operation of the file keeps it (`TableOk`), whatever the
environment and the arguments of the commands are.
-/

namespace Imx.Mtdparts
open Imx.Base

variable {flash : DevType → Nat → Option MtdInfo} {mtdidsDefault : Option Str} {junk : Str}
  {s s' : Mtd} {id : MtdIds} {ids : List MtdIds} {dev dev' : Device} {part part' : Part}
  {ps ps' : List Part} {p rest : Str}

/-! ## Partitions -/

/-- The order of the partitions of a device. -/
def Before (p q : Part) : Prop := p.offset ≤ q.offset ∧ q.offset ≠ 0

instance : Decidable (Before part part') := inferInstanceAs (Decidable (_ ∧ _))

/-- A partition of a list. -/
structure PartOk (flash : DevType → Nat → Option MtdInfo) (id : MtdIds) (part : Part) : Prop where
  valid : partValidate flash id part = some part
  name : part.autoName = false → part.name ≠ [] ∧ ')' ∉ part.name
  flags : part.maskFlags = 0 ∨ part.maskFlags = 1
  fits : part.size < 2 ^ 64

lemma fillSize_of_ne (other : part.size ≠ sizeRemaining) : fillSize id part = part := if_neg other

lemma fillSize_eq : fillSize id part = { part with size := (fillSize id part).size } := by
  rw [fillSize]
  split
  · rfl
  · rfl

lemma fillSize_fits (fits : part.size < 2 ^ 64) : (fillSize id part).size < 2 ^ 64 := by
  rw [fillSize]
  split
  · exact Nat.mod_lt _ (by decide)
  · exact fits

/-- A size is filled in once. -/
lemma fillSize_fillSize : fillSize id (fillSize id part) = fillSize id part := by
  by_cases all : part.size = sizeRemaining
  · have filled : fillSize id part = { part with size := u64 (id.size + 2 ^ 64 - part.offset) } :=
      if_pos all
    rw [filled, fillSize]
    split
    · rfl
    · rfl
  · rw [fillSize_of_ne all, fillSize_of_ne all]

/-- What `part_validate` accepts, with the size it fills in. -/
lemma partValidate_eq (h : partValidate flash id part = some part') :
    part' = fillSize id part ∧ part'.offset ≤ id.size ∧
      part'.offset < u64 (part'.offset + part'.size) ∧
      u64 (part'.offset + part'.size) ≤ id.size := by
  rw [partValidate] at h
  generalize fillSize id part = q at *
  split at h
  · cases h
  · split at h
    · cases h
    · split at h
      · cases h
      · split at h
        · cases h
          exact ⟨rfl, by omega, by omega, by omega⟩
        · cases h

/-- A valid partition stays as it is. -/
lemma partValidate_idem (h : partValidate flash id part = some part') :
    partValidate flash id part' = some part' := by
  have again : partValidate flash id (fillSize id part) = partValidate flash id part := by
    rw [partValidate, partValidate, fillSize_fillSize]
  rw [(partValidate_eq h).1, again, h, (partValidate_eq h).1]

/-- Where a partition is put. -/
lemma sortInsert_spec {before : Option Part} (h : sortInsert part ps = some (ps', before)) :
    ∃ l r, ps = l ++ r ∧ ps' = l ++ part :: r ∧ before = r.head? ∧
      (∀ q ∈ l, q.offset < part.offset) ∧
      ∀ q ∈ r.head?, part.offset ≤ q.offset ∧ ¬ (part.offset = q.offset ∧ q.offset = 0) := by
  induction ps generalizing ps' before with
  | nil =>
    cases h
    exact ⟨[], [], rfl, rfl, rfl, nofun, nofun⟩
  | cons pi ps ih =>
    rw [sortInsert] at h
    split at h
    · cases h
    · rename_i notZero
      split at h
      · rename_i le
        cases h
        refine ⟨[], pi :: ps, rfl, rfl, rfl, nofun, ?_⟩
        intro q mem
        cases mem
        exact ⟨le, notZero⟩
      · rename_i gt
        obtain ⟨⟨ps₁, before₁⟩, rec, eq⟩ := Option.map_eq_some_iff.mp h
        cases eq
        obtain ⟨l, r, rfl, eq, head, below, above⟩ := ih rec
        refine ⟨pi :: l, r, rfl, ?_, head, ?_, above⟩
        · rw [List.cons_append, ← eq]
        · intro q mem
          obtain rfl | mem := List.mem_cons.mp mem
          · omega
          · exact below q mem

/-- The list stays in order. -/
lemma sorted_insert {l r : List Part} (sorted : (l ++ r).Pairwise Before)
    (below : ∀ q ∈ l, q.offset < part.offset)
    (above : ∀ q ∈ r.head?, part.offset ≤ q.offset ∧ ¬ (part.offset = q.offset ∧ q.offset = 0)) :
    (l ++ part :: r).Pairwise Before := by
  obtain ⟨left, right, across⟩ := List.pairwise_append.mp sorted
  have first : ∀ q ∈ r, Before part q := by
    cases r with
    | nil => nofun
    | cons pi r =>
      obtain ⟨le, notZero⟩ := above pi rfl
      intro q mem
      obtain rfl | mem := List.mem_cons.mp mem
      · exact ⟨le, by omega⟩
      · obtain ⟨le', pos⟩ := List.rel_of_pairwise_cons right mem
        exact ⟨by omega, pos⟩
  refine List.pairwise_append.mpr ⟨left, List.pairwise_cons.mpr ⟨first, right⟩, ?_⟩
  intro p memP q memQ
  obtain rfl | memQ := List.mem_cons.mp memQ
  · have lt := below p memP
    exact ⟨by omega, by omega⟩
  · exact across p memP q memQ

/-- What `part_sort_add` does to the list, and to the current partition. -/
lemma partSortAdd_spec (h : partSortAdd s dev part = some (s', dev')) :
    ∃ l r, dev.parts = l ++ r ∧
      dev' = { dev with parts := l ++ part :: r, numParts := u16 (dev.numParts + 1) } ∧
      (∀ q ∈ l, q.offset < part.offset) ∧
      (∀ q ∈ r.head?, part.offset ≤ q.offset ∧ ¬ (part.offset = q.offset ∧ q.offset = 0)) ∧
      s' = updateCurrent s dev r.head? := by
  obtain ⟨⟨parts, before⟩, insert, eq⟩ := Option.map_eq_some_iff.mp h
  cases eq
  obtain ⟨l, r, list, rfl, rfl, below, above⟩ := sortInsert_spec insert
  exact ⟨l, r, list, rfl, below, above, rfl⟩

/-- The current partition of another device stays where it is. -/
lemma updateCurrent_other {before : Option Part} (other : s.currentDev ≠ some dev.ptr) :
    updateCurrent s dev before = s := by
  have none : currPi s dev = none := if_neg other
  unfold updateCurrent
  rw [none]

/-- Nothing of the table changes when the current partition does. -/
structure SameTable (s s' : Mtd) : Prop where
  ids : s'.ids = s.ids
  devices : s'.devices = s.devices
  next : s'.next = s.next
  mtdids : s'.env.mtdids = s.env.mtdids
  mtdparts : s'.env.mtdparts = s.env.mtdparts
  lastIds : s'.lastIds = s.lastIds
  lastParts : s'.lastParts = s.lastParts

lemma SameTable.refl : SameTable s s := ⟨rfl, rfl, rfl, rfl, rfl, rfl, rfl⟩

lemma SameTable.trans {t : Mtd} (h : SameTable s s') (h' : SameTable s' t) : SameTable s t :=
  ⟨h'.ids.trans h.ids, h'.devices.trans h.devices, h'.next.trans h.next,
    h'.mtdids.trans h.mtdids, h'.mtdparts.trans h.mtdparts, h'.lastIds.trans h.lastIds,
    h'.lastParts.trans h.lastParts⟩

lemma currentSave_same : SameTable s (currentSave s) := by
  rw [currentSave]
  split
  · exact ⟨rfl, rfl, rfl, rfl, rfl, rfl, rfl⟩
  · exact ⟨rfl, rfl, rfl, rfl, rfl, rfl, rfl⟩

lemma SameTable.save (h : SameTable s s') : SameTable s (currentSave s') := h.trans currentSave_same

lemma setCurrent_same {pnum : Nat} : SameTable s (s.setCurrent dev pnum) := by
  rw [Mtd.setCurrent]
  exact SameTable.save ⟨rfl, rfl, rfl, rfl, rfl, rfl, rfl⟩

lemma updateCurrent_same {before : Option Part} : SameTable s (updateCurrent s dev before) := by
  unfold updateCurrent
  split
  · split
    · exact SameTable.save ⟨rfl, rfl, rfl, rfl, rfl, rfl, rfl⟩
    · exact .refl
  · exact .refl

/-! ## Devices -/

/-- The partitions a device may have in its list. -/
structure PartsOk (flash : DevType → Nat → Option MtdInfo) (id : MtdIds) (ps : List Part) : Prop where
  parts : ∀ part ∈ ps, PartOk flash id part
  sorted : ps.Pairwise Before
  distinct : (ps.map Part.ptr).Nodup

/-- A device of the list. -/
structure DeviceOk (flash : DevType → Nat → Option MtdInfo) (ids : List MtdIds) (dev : Device) :
    Prop extends PartsOk flash dev.id dev.parts where
  known : ids.find? (·.mtdId = dev.id.mtdId) = some dev.id
  colon : ':' ∉ dev.id.mtdId
  nonempty : dev.parts ≠ []
  count : dev.numParts = u16 dev.parts.length

/-- The lists of devices. -/
structure TableOk (flash : DevType → Nat → Option MtdInfo) (s : Mtd) : Prop where
  devices : ∀ dev ∈ s.devices, DeviceOk flash s.ids dev
  ptrs : (s.devices.map Device.ptr).Nodup
  names : s.devices.Pairwise fun d e => ¬ (d.id.type = e.id.type ∧ d.id.num = e.id.num)
  fresh : ∀ dev ∈ s.devices, dev.ptr < s.next ∧ ∀ part ∈ dev.parts, part.ptr < s.next
  nums : ∀ id ∈ s.ids, id.num < 2 ^ 8 ∧ id.size < 2 ^ 64

lemma u16_succ {n : Nat} : u16 (u16 n + 1) = u16 (n + 1) := Nat.mod_add_mod ..

/-- A partition that is put in order. -/
lemma PartsOk.insert {l r : List Part} (h : PartsOk flash id (l ++ r)) (ok : PartOk flash id part)
    (below : ∀ q ∈ l, q.offset < part.offset)
    (above : ∀ q ∈ r.head?, part.offset ≤ q.offset ∧ ¬ (part.offset = q.offset ∧ q.offset = 0))
    (other : ∀ q ∈ l ++ r, q.ptr ≠ part.ptr) : PartsOk flash id (l ++ part :: r) where
  parts := by
    intro q mem
    obtain mem | mem := List.mem_append.mp mem
    · exact h.parts q (List.mem_append_left _ mem)
    · obtain rfl | mem := List.mem_cons.mp mem
      · exact ok
      · exact h.parts q (List.mem_append_right _ mem)
  sorted := sorted_insert h.sorted below above
  distinct := by
    have perm : (l ++ part :: r).Perm (part :: (l ++ r)) := List.perm_middle
    rw [(perm.map Part.ptr).nodup_iff, List.map_cons, List.nodup_cons]
    refine ⟨?_, h.distinct⟩
    intro mem
    obtain ⟨q, mem, same⟩ := List.mem_map.mp mem
    exact other q mem same

/-- The partitions of a device that was read go into its list one by one. -/
lemma foldlM_partSortAdd {parts : List Part} {t : Mtd × Device} (other : s.currentDev ≠ some dev.ptr)
    (h : parts.foldlM (fun r part => partSortAdd r.1 r.2 part) (s, dev) = some t)
    (ok : PartsOk flash dev.id dev.parts) (count : dev.numParts = u16 dev.parts.length)
    (parts_ok : ∀ part ∈ parts, PartOk flash dev.id part)
    (distinct : ((parts ++ dev.parts).map Part.ptr).Nodup) :
    t.1 = s ∧ t.2.ptr = dev.ptr ∧ t.2.id = dev.id ∧ PartsOk flash dev.id t.2.parts ∧
      t.2.numParts = u16 t.2.parts.length ∧ t.2.parts.Perm (parts ++ dev.parts) := by
  induction parts generalizing dev with
  | nil =>
    cases h
    exact ⟨rfl, rfl, rfl, ok, count, .refl _⟩
  | cons part parts ih =>
    rw [List.foldlM_cons] at h
    obtain ⟨⟨s₁, dev₁⟩, first, h⟩ := Option.bind_eq_some_iff.mp h
    obtain ⟨l, r, list, eq, below, above, rfl⟩ := partSortAdd_spec first
    rw [updateCurrent_other other] at h
    rw [list] at ok count distinct ⊢
    have perm : (parts ++ dev₁.parts).Perm (part :: parts ++ (l ++ r)) := by
      rw [eq, List.cons_append, ← List.append_assoc, ← List.append_assoc]
      exact List.perm_middle
    have others : ∀ q ∈ l ++ r, q.ptr ≠ part.ptr := by
      intro q mem same
      rw [List.cons_append, List.map_cons, List.nodup_cons] at distinct
      apply distinct.1
      rw [← same]
      exact List.mem_map_of_mem (List.mem_append_right _ mem)
    have ptr : dev₁.ptr = dev.ptr := by rw [eq]
    have id : dev₁.id = dev.id := by rw [eq]
    have ok' : PartsOk flash dev₁.id dev₁.parts := by
      rw [eq]
      exact ok.insert (parts_ok part (List.mem_cons_self ..)) below above others
    have counted : dev₁.numParts = u16 dev₁.parts.length := by
      rw [eq]
      simp only [count, u16_succ, List.length_append, List.length_cons, Nat.add_assoc]
    have other₁ : s.currentDev ≠ some dev₁.ptr := by
      rw [ptr]
      exact other
    obtain ⟨same, ptr', id', ok', count', perm'⟩ := ih other₁ h ok' counted
      (fun p mem => id ▸ parts_ok p (List.mem_cons_of_mem _ mem))
      ((perm.map Part.ptr).nodup_iff.mpr distinct)
    exact ⟨same, ptr'.trans ptr, id'.trans id, id ▸ ok', count', perm'.trans perm⟩

/-! ## What the parser returns -/

lemma strchr_spec {c : Char} {before after : Str} (h : strchr c p = some (before, after)) :
    p = before ++ c :: after ∧ c ∉ before := by
  induction p generalizing before with
  | nil => cases h
  | cons a p ih =>
    rw [strchr] at h
    split at h
    · rename_i same
      cases h
      rw [same]
      exact ⟨rfl, nofun⟩
    · rename_i other
      obtain ⟨⟨before', after'⟩, rec, eq⟩ := Option.map_eq_some_iff.mp h
      cases eq
      obtain ⟨rfl, none⟩ := ih rec
      refine ⟨rfl, ?_⟩
      intro mem
      obtain same | mem := List.mem_cons.mp mem
      · exact other same.symm
      · exact none mem

/-- The digits that were read were there. -/
lemma digits_length {m base acc : Nat} :
    (digits m base acc p).2.length ≤ p.length ∧
      ((digits m base acc p).2.length = p.length → (digits m base acc p).1 = acc) := by
  induction p generalizing acc with
  | nil => exact ⟨Nat.le_refl _, fun _ => rfl⟩
  | cons c p ih =>
    rw [digits]
    split
    · obtain ⟨le, _⟩ : (digits m base ((acc * base + digitValue c) % m) p).2.length ≤ p.length ∧ _ :=
        ih
      refine ⟨Nat.le_succ_of_le le, fun same => ?_⟩
      rw [List.length_cons] at same
      omega
    · exact ⟨Nat.le_refl _, fun _ => rfl⟩

lemma radix_length : (radix p).2.length ≤ p.length := by
  unfold radix
  split
  · split
    · simp only [List.length_cons]
      omega
    · simp only [List.length_cons]
      omega
  · exact Nat.le_succ _
  · exact Nat.le_refl _

lemma simpleStrtoull_length {m : Nat} :
    (simpleStrtoull m p).2.length ≤ p.length ∧
      ((simpleStrtoull m p).2.length = p.length → (simpleStrtoull m p).1 = 0) := by
  rw [simpleStrtoull]
  have radix := radix_length (p := p)
  obtain ⟨le, zero⟩ : (digits m (Imx.Mtdparts.radix p).1 0 (Imx.Mtdparts.radix p).2).2.length ≤ _ ∧ _ :=
    digits_length
  exact ⟨Nat.le_trans le radix, fun same => zero (by omega)⟩

lemma memsizeParse_length :
    (memsizeParse p).2.length ≤ p.length ∧
      ((memsizeParse p).2.length = p.length → (memsizeParse p).1 = 0) := by
  have number := simpleStrtoull_length (m := 2 ^ 64) (p := p)
  unfold memsizeParse
  dsimp only
  split
  · exact number
  · rename_i c cs rest
    have suffix (n : Nat) : (n, cs).2.length ≤ p.length ∧
        ((n, cs).2.length = p.length → (n, cs).1 = 0) := by
      have lt : cs.length < p.length := by
        rw [rest, List.length_cons] at number
        omega
      exact ⟨Nat.le_of_lt lt, fun same => absurd same (Nat.ne_of_lt lt)⟩
    repeat' split
    · exact suffix _
    · exact suffix _
    · exact suffix _
    · exact number

lemma digits_lt {m base acc : Nat} (lt : acc < m) : (digits m base acc p).1 < m := by
  induction p generalizing acc with
  | nil => exact lt
  | cons c p ih =>
    rw [digits]
    split
    · exact ih (Nat.mod_lt _ (by omega))
    · exact lt

lemma memsizeParse_lt : (memsizeParse p).1 < 2 ^ 64 := by
  have number : (simpleStrtoull (2 ^ 64) p).1 < 2 ^ 64 := digits_lt (by decide)
  have cut {n : Nat} {cs : Str} : (u64 n, cs).1 < 2 ^ 64 := Nat.mod_lt _ (by decide)
  unfold memsizeParse
  dsimp only
  split
  · exact number
  · repeat' split
    · exact cut
    · exact cut
    · exact cut
    · exact number

lemma parseSize_lt {size : Nat} (h : parseSize p = some (size, rest)) : size < 2 ^ 64 := by
  have number := memsizeParse_lt (p := p)
  unfold parseSize at h
  split at h
  · cases h
    decide
  · dsimp only at h
    split at h
    · cases h
    · rw [Option.some.inj h] at number
      exact number

lemma parseSize_length {size : Nat} (h : parseSize p = some (size, rest)) :
    rest.length < p.length := by
  unfold parseSize at h
  split at h
  · cases h
    exact Nat.lt_succ_self _
  · dsimp only at h
    split at h
    · cases h
    · rename_i big
      obtain ⟨le, zero⟩ := memsizeParse_length (p := p)
      rw [Option.some.inj h] at le zero big
      have few : rest.length ≠ p.length := by
        intro same
        have none : size = 0 := zero same
        rw [none] at big
        exact big (show 0 < minPartSize by decide)
      exact Nat.lt_of_le_of_ne le few

lemma parseOffset_length : (parseOffset p).2.length ≤ p.length := by
  unfold parseOffset
  split
  · exact Nat.le_succ_of_le memsizeParse_length.1
  · exact Nat.le_refl _

lemma parseName_length {name : Option Str} (h : parseName p = some (name, rest)) :
    rest.length ≤ p.length ∧ ∀ n ∈ name, n ≠ [] ∧ ')' ∉ n := by
  unfold parseName at h
  split at h
  · rename_i q
    split at h
    · cases h
    · rename_i found
      obtain ⟨rfl, none⟩ := strchr_spec found
      split at h
      · cases h
      · rename_i some
        cases h
        refine ⟨?_, ?_⟩
        · simp only [List.length_cons, List.length_append]
          omega
        · intro n mem
          cases mem
          exact ⟨some, none⟩
  · cases h
    exact ⟨Nat.le_refl _, nofun⟩

lemma parseOptions_length :
    (parseOptions p).2.length ≤ p.length ∧ ((parseOptions p).1 = 0 ∨ (parseOptions p).1 = 1) := by
  unfold parseOptions
  split
  · refine ⟨?_, .inr rfl⟩
    simp only [List.length_cons]
    omega
  · exact ⟨Nat.le_refl _, .inl rfl⟩

lemma parseEnd_length {size : Nat} (h : parseEnd size p = some rest) : rest.length ≤ p.length := by
  unfold parseEnd at h
  split at h
  · split at h
    · cases h
    · cases h
      exact Nat.le_succ _
  · cases h
    exact Nat.le_refl _
  · cases h
    exact Nat.le_refl _
  · cases h

/-- A partition definition is not empty, and names the partition properly. -/
lemma partParse_spec {ptr : Nat} (h : partParse ptr p = some (part, rest)) :
    part.ptr = ptr ∧ rest.length < p.length ∧
      (part.autoName = false → part.name ≠ [] ∧ ')' ∉ part.name) ∧
      (part.maskFlags = 0 ∨ part.maskFlags = 1) ∧ part.size < 2 ^ 64 := by
  rw [partParse] at h
  obtain ⟨⟨size, p₁⟩, hSize, h⟩ := Option.bind_eq_some_iff.mp h
  obtain ⟨⟨name, p₂⟩, hName, h⟩ := Option.bind_eq_some_iff.mp h
  obtain ⟨p₃, hEnd, eq⟩ := Option.map_eq_some_iff.mp h
  have size_lt := parseSize_length hSize
  have fits := parseSize_lt hSize
  have offset_le := parseOffset_length (p := p₁)
  obtain ⟨name_le, named⟩ := parseName_length hName
  obtain ⟨options_le, flags⟩ := parseOptions_length (p := p₂)
  have end_le := parseEnd_length hEnd
  have lt : p₃.length < p.length := by
    dsimp only at name_le end_le
    omega
  cases name with
  | none =>
    cases eq
    exact ⟨rfl, lt, nofun, flags, fits⟩
  | some name =>
    cases eq
    exact ⟨rfl, lt, fun _ => named name rfl, flags, fits⟩

lemma fillOffset_eq {offset : Nat} :
    fillOffset part offset = { part with offset := (fillOffset part offset).offset } := by
  rw [fillOffset]
  split
  · rfl
  · rfl

/-- The partitions a device is read with. -/
lemma parseParts_spec {fuel ptr offset : Nat} {parts : List Part}
    (h : parseParts flash id fuel ptr p offset = some (parts, rest)) :
    (∀ part ∈ parts, PartOk flash id part ∧ ptr ≤ part.ptr ∧ part.ptr < ptr + parts.length) ∧
      (parts.map Part.ptr).Nodup := by
  induction fuel generalizing ptr p offset parts with
  | zero => cases h
  | succ fuel ih =>
    rw [parseParts] at h
    split at h
    · cases h
      exact ⟨nofun, List.nodup_nil⟩
    · obtain ⟨⟨raw, p₁⟩, parse, h⟩ := Option.bind_eq_some_iff.mp h
      obtain ⟨part, valid, h⟩ := Option.bind_eq_some_iff.mp h
      obtain ⟨⟨parts', rest'⟩, rec, eq⟩ := Option.map_eq_some_iff.mp h
      dsimp only at eq
      cases eq
      obtain ⟨ptr_eq, _, named, flags, fits⟩ := partParse_spec parse
      obtain ⟨oks, nodup⟩ := ih rec
      obtain ⟨eq, _⟩ := partValidate_eq valid
      have same : part.ptr = raw.ptr ∧ part.name = raw.name ∧ part.autoName = raw.autoName ∧
          part.maskFlags = raw.maskFlags := by
        rw [eq, fillSize_eq, fillOffset_eq]
        exact ⟨rfl, rfl, rfl, rfl⟩
      obtain ⟨ptr', name', auto', flags'⟩ := same
      rw [ptr_eq] at ptr'
      have ok : PartOk flash id part := by
        refine ⟨partValidate_idem valid, ?_, ?_, ?_⟩
        · rw [auto', name']
          exact named
        · rw [flags']
          exact flags
        · rw [eq]
          apply fillSize_fits
          rw [fillOffset_eq]
          exact fits
      constructor
      · intro q mem
        rw [List.length_cons]
        obtain rfl | mem := List.mem_cons.mp mem
        · exact ⟨ok, by omega, by omega⟩
        · obtain ⟨ok, ge, lt⟩ := oks q mem
          exact ⟨ok, by omega, by omega⟩
      · rw [List.map_cons, List.nodup_cons]
        refine ⟨?_, nodup⟩
        intro mem
        obtain ⟨q, mem, same⟩ := List.mem_map.mp mem
        have ge := (oks q mem).2.1
        omega

/-- The fuel is never used up: each definition takes some of the text. -/
lemma parseParts_fuel {fuel more ptr offset : Nat} (enough : p.length < fuel)
    (enough' : p.length < more) :
    parseParts flash id fuel ptr p offset = parseParts flash id more ptr p offset := by
  induction fuel generalizing more ptr p offset with
  | zero => omega
  | succ fuel ih =>
    cases more with
    | zero => omega
    | succ more =>
      rw [parseParts, parseParts]
      split
      · rfl
      · apply Option.bind_congr
        rintro ⟨raw, p₁⟩ parse
        have shorter := (partParse_spec parse).2.1
        apply Option.bind_congr
        intro part _
        have tail : parseParts flash id fuel (ptr + 1) p₁ (u64 (part.offset + part.size)) =
            parseParts flash id more (ptr + 1) p₁ (u64 (part.offset + part.size)) :=
          ih (by omega) (by omega)
        dsimp only
        rw [tail]

/-- There are no more partitions than the text has characters. -/
lemma parseParts_count {fuel ptr offset : Nat}
    (h : parseParts flash id fuel ptr p offset = some (ps, rest)) :
    ps.length + rest.length ≤ p.length := by
  induction fuel generalizing ptr p offset ps with
  | zero => cases h
  | succ fuel ih =>
    rw [parseParts] at h
    split at h
    · cases h
      simp
    · obtain ⟨⟨raw, p₁⟩, parse, h⟩ := Option.bind_eq_some_iff.mp h
      obtain ⟨part, valid, h⟩ := Option.bind_eq_some_iff.mp h
      obtain ⟨⟨ps', rest'⟩, tail, eq⟩ := Option.map_eq_some_iff.mp h
      cases eq
      have shorter := (partParse_spec parse).2.1
      have le := ih tail
      dsimp only at le ⊢
      rw [List.length_cons]
      omega

lemma nextDevice_length : (nextDevice p).length ≤ p.length := by
  unfold nextDevice
  split
  · exact Nat.le_succ _
  · exact Nat.le_refl _

/-- A device that was read is new, and may be put into the list. -/
lemma deviceParse_spec (h : deviceParse flash s p = some (s', dev, rest))
    (known : ∀ ptr, s.currentDev = some ptr → ptr < s.next) :
    ∃ k, s' = { s with next := s.next + k + 1 } ∧ dev.ptr = s.next + k ∧
      DeviceOk flash s.ids dev ∧
      (∀ part ∈ dev.parts, s.next ≤ part.ptr ∧ part.ptr < s.next + k) ∧
      dev.parts.length = k ∧ k + rest.length < p.length := by
  rw [deviceParse] at h
  obtain ⟨⟨mtdId, p₁⟩, head, h⟩ := Option.bind_eq_some_iff.mp h
  obtain ⟨id, found, h⟩ := Option.bind_eq_some_iff.mp h
  obtain ⟨⟨parts, p₂⟩, parse, h⟩ := Option.bind_eq_some_iff.mp h
  split at h
  · cases h
  · rename_i some
    obtain ⟨⟨s₁, dev₁⟩, fold, eq⟩ := Option.map_eq_some_iff.mp h
    dsimp only at eq
    cases eq
    obtain ⟨oks, nodup⟩ := parseParts_spec parse
    obtain ⟨text, colon⟩ := strchr_spec head
    have name : id.mtdId = mtdId := by
      have this := List.find?_some found
      simpa using this
    have other : s.currentDev ≠ Option.some (s.next + parts.length) := by
      intro same
      have lt := known _ same
      omega
    have empty : PartsOk flash id [] := ⟨nofun, .nil, List.nodup_nil⟩
    obtain ⟨same, ptr, id_eq, ok, count, perm⟩ :=
      foldlM_partSortAdd (s := { s with next := s.next + parts.length + 1 }) other fold empty rfl
        (fun part mem => (oks part mem).1) (by rw [List.append_nil]; exact nodup)
    rw [List.append_nil] at perm
    dsimp only at same ptr id_eq ok count perm
    have few := parseParts_count parse
    have next := nextDevice_length (p := p₂)
    refine ⟨parts.length, same, ptr, ?_, ?_, perm.length_eq, ?_⟩
    · refine ⟨id_eq ▸ ok, ?_, ?_, ?_, count⟩
      · rw [id_eq, name]
        exact found
      · rw [id_eq, name]
        exact colon
      · intro none
        rw [none] at perm
        exact some perm.nil_eq.symm
    · intro part mem
      exact (oks part (perm.mem_iff.mp mem)).2
    · rw [text, List.length_append, List.length_cons]
      dsimp only at few
      omega

/-! ## The operations -/

lemma TableOk.congr (h : TableOk flash s) (ids : s'.ids = s.ids) (devices : s'.devices = s.devices)
    (next : s.next ≤ s'.next) : TableOk flash s' where
  devices := by
    rw [ids, devices]
    exact h.devices
  ptrs := by
    rw [devices]
    exact h.ptrs
  names := by
    rw [devices]
    exact h.names
  fresh := by
    rw [devices]
    intro dev mem
    obtain ⟨lt, parts⟩ := h.fresh dev mem
    exact ⟨by omega, fun part mem => Nat.lt_of_lt_of_le (parts part mem) next⟩
  nums := by
    rw [ids]
    exact h.nums

lemma TableOk.same (h : TableOk flash s) (same : SameTable s s') : TableOk flash s' :=
  h.congr same.ids same.devices (Nat.le_of_eq same.next.symm)

/-- Some of the devices. -/
lemma TableOk.sublist (h : TableOk flash s) (ids : s'.ids = s.ids) (next : s'.next = s.next)
    (devices : s'.devices.Sublist s.devices) : TableOk flash s' where
  devices := by
    rw [ids]
    exact fun dev mem => h.devices dev (devices.subset mem)
  ptrs := (devices.map Device.ptr).nodup h.ptrs
  names := h.names.sublist devices
  fresh := by
    rw [next]
    exact fun dev mem => h.fresh dev (devices.subset mem)
  nums := by
    rw [ids]
    exact h.nums

/-- No devices. -/
lemma TableOk.none (nums : ∀ id ∈ s.ids, id.num < 2 ^ 8 ∧ id.size < 2 ^ 64)
    (devices : s.devices = []) : TableOk flash s := by
  refine ⟨?_, ?_, ?_, ?_, nums⟩
  · rw [devices]
    exact nofun
  · rw [devices]
    exact List.nodup_nil
  · rw [devices]
    exact .nil
  · rw [devices]
    exact nofun

/-- One more device at the end of the list. -/
lemma TableOk.snoc (h : TableOk flash s) (ok : DeviceOk flash s.ids dev)
    (ptr : ∀ d ∈ s.devices, d.ptr ≠ dev.ptr) (fresh : dev.ptr < s.next)
    (parts : ∀ part ∈ dev.parts, part.ptr < s.next)
    (name : deviceFind s dev.id.type dev.id.num = Option.none) :
    TableOk flash { s with devices := s.devices ++ [dev] } where
  devices := by
    intro d mem
    obtain mem | mem := List.mem_append.mp mem
    · exact h.devices d mem
    · rw [List.mem_singleton.mp mem]
      exact ok
  ptrs := by
    rw [List.map_append, List.nodup_append]
    refine ⟨h.ptrs, List.nodup_singleton _, ?_⟩
    intro a memA b memB
    obtain ⟨d, mem, rfl⟩ := List.mem_map.mp memA
    rw [List.map_singleton, List.mem_singleton] at memB
    rw [memB]
    exact ptr d mem
  names := by
    refine List.pairwise_append.mpr ⟨h.names, List.pairwise_singleton _ _, ?_⟩
    intro d mem e memE same
    rw [List.mem_singleton.mp memE] at same
    have missing := List.find?_eq_none.mp name d mem
    exact missing (decide_eq_true same)
  fresh := by
    intro d mem
    obtain mem | mem := List.mem_append.mp mem
    · exact h.fresh d mem
    · rw [List.mem_singleton.mp mem]
      exact ⟨fresh, parts⟩
  nums := h.nums

/-- A device with another list of partitions. -/
lemma TableOk.putDevice (h : TableOk flash s) (mem : dev ∈ s.devices) (ptr : dev'.ptr = dev.ptr)
    (id : dev'.id = dev.id) (ok : PartsOk flash dev.id dev'.parts) (nonempty : dev'.parts ≠ [])
    (count : dev'.numParts = u16 dev'.parts.length)
    (parts : ∀ part ∈ dev'.parts, part.ptr < s.next) : TableOk flash (s.putDevice dev') where
  devices := by
    intro d memD
    obtain ⟨e, memE, rfl⟩ := List.mem_map.mp memD
    split
    · have old := h.devices dev mem
      exact ⟨id ▸ ok, id ▸ old.known, id ▸ old.colon, nonempty, count⟩
    · exact h.devices e memE
  ptrs := by
    have same : (s.putDevice dev').devices.map Device.ptr = s.devices.map Device.ptr := by
      rw [Mtd.putDevice, List.map_map]
      apply List.map_congr_left
      intro d _
      rw [Function.comp_apply]
      split
      · rename_i same
        exact same.symm
      · rfl
    rw [same]
    exact h.ptrs
  names := by
    rw [Mtd.putDevice, List.pairwise_map]
    refine List.Pairwise.imp_of_mem ?_ h.names
    intro d e memD memE other
    have key : ∀ d ∈ s.devices, (if d.ptr = dev'.ptr then dev' else d).id = d.id := by
      intro d memD
      split
      · rename_i same
        rw [id, List.inj_on_of_nodup_map h.ptrs memD mem (same.trans ptr)]
      · rfl
    rw [key d memD, key e memE]
    exact other
  fresh := by
    intro d memD
    obtain ⟨e, memE, rfl⟩ := List.mem_map.mp memD
    split
    · rw [ptr]
      exact ⟨(h.fresh dev mem).1, parts⟩
    · exact h.fresh e memE
  nums := h.nums

/-- The ids are those of the variable `mtdids`. -/
def IdsRead (s : Mtd) : Prop := s.env.mtdids = some s.lastIds ∧ s.lastIds ≠ []

lemma IdsRead.same (h : IdsRead s) (same : SameTable s s') : IdsRead s' := by
  rw [IdsRead, same.mtdids, same.lastIds]
  exact h

/-- The variable of the devices, which no command changes, was read before there are any. -/
structure Known (flash : DevType → Nat → Option MtdInfo) (s : Mtd) : Prop where
  table : TableOk flash s
  ids : s.devices ≠ [] → IdsRead s
  current : ∀ ptr, s.currentDev = some ptr → ptr < s.next

lemma Known.save (h : Known flash s) : Known flash (currentSave s) := by
  have same := currentSave_same (s := s)
  have current : (currentSave s).currentDev = s.currentDev := by
    rw [currentSave]
    split
    · rfl
    · rfl
  refine ⟨h.table.same same, ?_, ?_⟩
  · rw [same.devices]
    exact fun some => (h.ids some).same same
  · rw [current, same.next]
    exact h.current

lemma currentSave_current : (currentSave s).currentDev = s.currentDev ∧
    (currentSave s).currentPartnum = s.currentPartnum := by
  rw [currentSave]
  split
  · exact ⟨rfl, rfl⟩
  · exact ⟨rfl, rfl⟩

/-- A state with the same tables and a current device that is one of them. -/
lemma Known.setCurrent {pnum : Nat} (h : Known flash s) (mem : dev ∈ s.devices) :
    Known flash (s.setCurrent dev pnum) := by
  apply Known.save
  refine ⟨h.table.same ⟨rfl, rfl, rfl, rfl, rfl, rfl, rfl⟩, h.ids, ?_⟩
  intro ptr same
  cases same
  exact (h.table.fresh dev mem).1

lemma Known.updateCurrent {before : Option Part} (h : Known flash s) :
    Known flash (updateCurrent s dev before) := by
  unfold Imx.Mtdparts.updateCurrent
  split
  · split
    · apply Known.save
      exact ⟨h.table.same ⟨rfl, rfl, rfl, rfl, rfl, rfl, rfl⟩, h.ids, h.current⟩
    · exact h
  · exact h

lemma Known.initDevices (nums : ∀ id ∈ s.ids, id.num < 2 ^ 8 ∧ id.size < 2 ^ 64) :
    Known flash (mtdDevicesInit s) ∧ (mtdDevicesInit s).devices = [] := by
  have same := currentSave_same (s := { s with lastParts := [], currentDev := none })
  refine ⟨⟨TableOk.none ?_ rfl, fun some => absurd rfl some, ?_⟩, rfl⟩
  · intro id mem
    apply nums id
    have ids : (mtdDevicesInit s).ids = s.ids := same.ids
    rwa [ids] at mem
  · intro ptr some
    have none : (mtdDevicesInit s).currentDev = Option.none :=
      (currentSave_current (s := { s with lastParts := [], currentDev := Option.none })).1
    rw [none] at some
    cases some

/-- A device is in the list when it is found. -/
lemma deviceFind_mem {type : DevType} {num : Nat} (h : deviceFind s type num = some dev) :
    dev ∈ s.devices ∧ dev.id.type = type ∧ dev.id.num = num := by
  refine ⟨List.mem_of_find?_eq_some h, ?_⟩
  have found := List.find?_some h
  simpa using found

lemma mtdPartInfo_eq {n : Nat} (h : mtdPartInfo dev n = some part) :
    n < dev.numParts ∧ dev.parts[n]? = some part := by
  rw [mtdPartInfo] at h
  split at h
  · cases h
  · rename_i lt
    exact ⟨Nat.lt_of_not_le lt, h⟩

lemma u8_u8 {n : Nat} : u8 (u8 n) = u8 n := Nat.mod_mod ..

/-- A partition that is found is one of its device. -/
lemma findDevAndPart_mem {name : Str} {pnum : Nat}
    (h : findDevAndPart s name = some (dev, pnum, part)) :
    dev ∈ s.devices ∧ ∃ i, dev.parts[i]? = some part ∧ pnum = u8 i := by
  rw [findDevAndPart] at h
  split at h
  · rename_i found
    cases h
    obtain ⟨d, mem, found⟩ := List.exists_of_findSome?_eq_some found
    obtain ⟨⟨q, i⟩, named, eq⟩ := Option.map_eq_some_iff.mp found
    cases eq
    exact ⟨mem, i, List.mem_zipIdx_iff_getElem?.mp (List.mem_of_find?_eq_some named), rfl⟩
  · split at h
    · dsimp only at h
      split at h
      · cases h
      · obtain ⟨d, found, h⟩ := Option.bind_eq_some_iff.mp h
        obtain ⟨q, info, eq⟩ := Option.map_eq_some_iff.mp h
        cases eq
        exact ⟨(deviceFind_mem found).1, _, (mtdPartInfo_eq info).2, u8_u8.symm⟩
    · cases h

/-! ## The commands -/

/-- Devices are read one behind the other. -/
lemma parseDevices_spec {fuel : Nat} (h : Known flash s) (none : s.currentDev = none)
    (mtdids : IdsRead s) :
    Known flash (parseDevices flash fuel s p).1 ∧
      ∃ ds k, (parseDevices flash fuel s p).1 = { s with devices := ds, next := k } := by
  induction fuel generalizing s p with
  | zero => exact ⟨h, s.devices, s.next, rfl⟩
  | succ fuel ih =>
    rw [parseDevices]
    split
    · exact ⟨h, s.devices, s.next, rfl⟩
    · split
      · exact ⟨h, s.devices, s.next, rfl⟩
      · rename_i s₁ dev rest parse
        obtain ⟨k, rfl, ptr, ok, parts, _⟩ := deviceParse_spec parse h.current
        have grown : Known flash { s with next := s.next + k + 1 } :=
          ⟨h.table.congr rfl rfl (by dsimp only; omega), h.ids,
            fun ptr same => absurd (none.symm.trans same) nofun⟩
        split
        · exact ⟨grown, s.devices, _, rfl⟩
        · rename_i missing
          have fresh : ∀ d ∈ s.devices, d.ptr ≠ dev.ptr := by
            intro d mem
            have lt := (h.table.fresh d mem).1
            omega
          have name : deviceFind { s with next := s.next + k + 1 } dev.id.type dev.id.num =
              Option.none := Option.not_isSome_iff_eq_none.mp missing
          have added : Known flash { s with
              devices := s.devices ++ [dev], next := s.next + k + 1 } := by
            refine ⟨grown.table.snoc ok fresh ?_ ?_ name, fun _ => mtdids, ?_⟩
            · dsimp only
              omega
            · intro part mem
              have lt := (parts part mem).2
              dsimp only
              omega
            · exact fun ptr same => absurd (none.symm.trans same) nofun
          obtain ⟨known, ds, k', eq⟩ := ih added none mtdids
          exact ⟨known, ds, k', eq⟩

lemma mtdIdParse_num {type : DevType} {num : Nat} (h : mtdIdParse p = some (type, num, rest)) :
    num < 2 ^ 8 := by
  have number {t : DevType} {q : Str} (h : mtdIdNumber t q = some (type, num, rest)) :
      num < 2 ^ 8 := by
    unfold mtdIdNumber at h
    split at h
    · cases h
    · split at h
      · cases h
        exact Nat.mod_lt _ (by decide)
      · cases h
  unfold mtdIdParse at h
  split at h
  · exact number h
  · exact number h
  · exact number h
  · cases h

/-- The ids of the devices that exist. -/
lemma parseIds_nums {fuel : Nat} {ids : List MtdIds}
    (h : ∀ id ∈ ids, id.num < 2 ^ 8 ∧ id.size < 2 ^ 64) :
    ∀ id ∈ (parseIds flash fuel ids p).1, id.num < 2 ^ 8 ∧ id.size < 2 ^ 64 := by
  induction fuel generalizing ids p with
  | zero => exact h
  | succ fuel ih =>
    rw [parseIds]
    split
    · exact h
    · split
      · rename_i type num rest parse
        split
        · exact h
        · rename_i mtd _
          dsimp only
          split
          · exact nofun
          · apply ih
            intro id mem
            obtain mem | mem := List.mem_append.mp mem
            · exact h id mem
            · rw [List.mem_singleton.mp mem]
              exact ⟨mtdIdParse_num parse, mtd.size_lt⟩
      · exact nofun

lemma parseMtdids_nums {text : Str} :
    ∀ id ∈ (parseMtdids flash s text).1.ids, id.num < 2 ^ 8 ∧ id.size < 2 ^ 64 := by
  rw [parseMtdids]
  dsimp only
  split
  · exact nofun
  · exact parseIds_nums nofun

/-- The variable `mtdparts` is read. -/
lemma parseMtdparts_spec (nums : ∀ id ∈ s.ids, id.num < 2 ^ 8 ∧ id.size < 2 ^ 64)
    (mtdids : IdsRead s) :
    Known flash (parseMtdparts flash s).1 ∧ (parseMtdparts flash s).1.currentDev = none ∧
      (parseMtdparts flash s).1.env.mtdids = s.env.mtdids ∧
      (parseMtdparts flash s).1.lastIds = s.lastIds := by
  obtain ⟨known, empty⟩ : Known flash (mtdDevicesInit s) ∧ _ := Known.initDevices nums
  have same := currentSave_same (s := { s with lastParts := [], currentDev := none })
  have none : (mtdDevicesInit s).currentDev = none :=
    (currentSave_current (s := { s with lastParts := [], currentDev := none })).1
  have mtdids' : (mtdDevicesInit s).env.mtdids = s.env.mtdids := same.mtdids
  have lastIds' : (mtdDevicesInit s).lastIds = s.lastIds := same.lastIds
  have start : (mtdDevicesInit s).env.mtdids = some (mtdDevicesInit s).lastIds ∧
      (mtdDevicesInit s).lastIds ≠ [] := by
    rw [mtdids', lastIds']
    exact mtdids
  rw [parseMtdparts]
  dsimp only
  split
  · exact ⟨known, none, mtdids', lastIds'⟩
  · rename_i p _
    split
    · exact ⟨⟨known.table.sublist rfl rfl (List.nil_sublist _), fun some => absurd rfl some,
        known.current⟩, none, mtdids', lastIds'⟩
    · obtain ⟨known', ds, k, eq⟩ :
          Known flash (parseDevices flash (p.length + 1) (mtdDevicesInit s) p).1 ∧ _ :=
        parseDevices_spec known none start
      split
      · rw [eq] at known' ⊢
        exact ⟨known', none, mtdids', lastIds'⟩
      · refine ⟨⟨known'.table.sublist rfl rfl (List.nil_sublist _), fun some => absurd rfl some,
          known'.current⟩, ?_⟩
        rw [eq]
        exact ⟨none, mtdids', lastIds'⟩

lemma useCurrent_same (s : Mtd) (tmpEp : Str) : SameTable s (useCurrent s tmpEp) := by
  rw [useCurrent]
  split
  · split
    · exact setCurrent_same
    · exact .refl
  · split
    · exact currentSave_same
    · exact .refl

lemma Known.useCurrent {tmpEp : Str} (h : Known flash s) : Known flash (useCurrent s tmpEp) := by
  rw [Imx.Mtdparts.useCurrent]
  split
  · split
    · rename_i found
      exact h.setCurrent (findDevAndPart_mem found).1
    · exact h
  · split
    · exact h.save
    · exact h

lemma Known.initParts {changed : Bool} {tmpEp : Str} (h : Known flash s) (read : IdsRead s) :
    Known flash (initParts flash s changed tmpEp).1 ∧
      IdsRead (initParts flash s changed tmpEp).1 := by
  rw [Imx.Mtdparts.initParts]
  split
  · split
    · have same := currentSave_same (s := { s with lastParts := [], currentDev := none })
      refine ⟨(Known.initDevices h.table.nums).1, ?_⟩
      rw [IdsRead, show (mtdDevicesInit s).env.mtdids = s.env.mtdids from same.mtdids,
        show (mtdDevicesInit s).lastIds = s.lastIds from same.lastIds]
      exact read
    · exact ⟨h, read⟩
  · split
    · obtain ⟨known, _, mtdids', lastIds'⟩ := parseMtdparts_spec h.table.nums read
      have read' : IdsRead (parseMtdparts flash s).1 := by
        rw [IdsRead, mtdids', lastIds']
        exact read
      dsimp only
      split
      · rename_i first rest _ devices
        constructor
        · apply Known.useCurrent
          apply Known.setCurrent
          · exact ⟨known.table.congr rfl rfl (Nat.le_refl _), known.ids, known.current⟩
          · change first ∈ (parseMtdparts flash s).1.devices
            rw [devices]
            exact List.mem_cons_self ..
        · apply IdsRead.same _ (setCurrent_same.trans (useCurrent_same _ _))
          exact read'
      · exact ⟨known, read'⟩
    · exact ⟨h.useCurrent, read.same (useCurrent_same _ _)⟩

lemma Known.initIds {tmpEp : Str} (h : Known flash s) :
    Known flash (initIds flash s tmpEp).1 ∧
      ((initIds flash s tmpEp).2 = true → IdsRead (initIds flash s tmpEp).1) := by
  rw [Imx.Mtdparts.initIds]
  split
  · exact ⟨h, nofun⟩
  · rename_i ids mtdids
    split
    · exact ⟨h, nofun⟩
    · split
      · exact ⟨h, nofun⟩
      · split
        · rename_i same
          have read : IdsRead s := ⟨by rw [mtdids, same.2], same.1⟩
          obtain ⟨known, read⟩ := h.initParts read
          exact ⟨known, fun _ => read⟩
        · rename_i changed
          have nums : ∀ id ∈ (parseMtdids flash s ids).1.ids, _ := parseMtdids_nums
          have devices : s.devices = [] := by
            by_contra some
            obtain ⟨read, nonempty⟩ := h.ids some
            exact changed ⟨nonempty, Option.some.inj (read.symm.trans mtdids)⟩
          have empty : Known flash { (parseMtdids flash s ids).1 with lastIds := ids } :=
            ⟨.none nums devices, fun some => absurd devices some, h.current⟩
          dsimp only
          split
          · rename_i ok
            have nonempty : ids ≠ [] := by
              intro nil
              rw [nil] at ok
              cases ok
            obtain ⟨known, read⟩ := empty.initParts ⟨mtdids, nonempty⟩
            exact ⟨known, fun _ => read⟩
          · exact ⟨(Known.initDevices nums).1, nofun⟩

/-- `mtdparts_init` from any state. -/
lemma Known.mtdpartsInit {d : Option Str} {j : Str} (h : Known flash s) :
    Known flash (mtdpartsInit flash d j s).1 ∧
      ((mtdpartsInit flash d j s).2 = true → IdsRead (mtdpartsInit flash d j s).1) := by
  have defaults : Known flash (useDefaults d s) := by
    refine ⟨h.table.congr rfl rfl (Nat.le_refl _), ?_, h.current⟩
    intro some
    obtain ⟨mtdids, nonempty⟩ := h.ids some
    refine ⟨?_, nonempty⟩
    change s.env.mtdids.or d = Option.some s.lastIds
    rw [mtdids]
    rfl
  exact defaults.initIds

lemma Known.generateSave (h : Known flash s) : Known flash (generateMtdpartsSave s).1 := by
  rw [generateMtdpartsSave]
  split
  · exact ⟨h.table.congr rfl rfl (Nat.le_refl _), h.ids, h.current⟩
  · exact ⟨h.table.congr rfl rfl (Nat.le_refl _), h.ids, h.current⟩

lemma Known.deviceDel (h : Known flash s) : Known flash (deviceDel s dev) := by
  have fewer : Known flash { s with devices := s.devices.filter (·.ptr ≠ dev.ptr) } := by
    refine ⟨h.table.sublist rfl rfl List.filter_sublist, ?_, h.current⟩
    intro some
    apply h.ids
    intro none
    apply some
    dsimp only
    rw [none]
    rfl
  rw [Imx.Mtdparts.deviceDel]
  generalize ({ s with devices := s.devices.filter (·.ptr ≠ dev.ptr) } : Mtd) = t at *
  split
  · split
    · apply Known.save
      exact ⟨fewer.table.congr rfl rfl (Nat.le_refl _), fewer.ids, nofun⟩
    · rename_i first rest devices
      apply fewer.setCurrent
      rw [devices]
      exact List.mem_cons_self ..
  · exact fewer

/-- The partitions that are left are in order. -/
lemma PartsOk.filter {ptr : Nat} (h : PartsOk flash id ps) :
    PartsOk flash id (ps.filter (·.ptr ≠ ptr)) where
  parts := fun part mem => h.parts part (List.mem_of_mem_filter mem)
  sorted := h.sorted.sublist List.filter_sublist
  distinct := (List.filter_sublist.map Part.ptr).nodup h.distinct

/-- Exactly the partition that was found is taken out. -/
lemma filter_eq_eraseIdx {i : Nat} (distinct : (ps.map Part.ptr).Nodup)
    (found : ps[i]? = some part) : ps.filter (·.ptr ≠ part.ptr) = ps.eraseIdx i := by
  induction ps generalizing i with
  | nil => cases found
  | cons q ps ih =>
    rw [List.map_cons, List.nodup_cons] at distinct
    obtain ⟨notin, distinct⟩ := distinct
    cases i with
    | zero =>
      cases found
      rw [List.filter_cons_of_neg (by simp), List.eraseIdx_cons_zero]
      apply List.filter_eq_self.mpr
      intro q mem
      refine decide_eq_true fun same => notin ?_
      rw [← same]
      exact List.mem_map_of_mem mem
    | succ i =>
      rw [List.getElem?_cons_succ] at found
      have other : q.ptr ≠ part.ptr := by
        intro same
        apply notin
        rw [same]
        exact List.mem_map_of_mem (List.mem_of_getElem? found)
      have keep : decide (q.ptr ≠ part.ptr) = true := decide_eq_true other
      rw [List.filter_cons_of_pos (p := fun x : Part => decide (x.ptr ≠ part.ptr)) keep,
        List.eraseIdx_cons_succ, ih distinct found]

lemma u16_pred {n : Nat} (pos : 0 < n) : u16 (u16 n + (2 ^ 16 - 1)) = u16 (n - 1) := by
  rw [u16, u16, u16]
  omega

lemma Known.putDevice (h : Known flash s) (mem : dev ∈ s.devices) (ptr : dev'.ptr = dev.ptr)
    (id : dev'.id = dev.id) (ok : PartsOk flash dev.id dev'.parts) (nonempty : dev'.parts ≠ [])
    (count : dev'.numParts = u16 dev'.parts.length)
    (parts : ∀ part ∈ dev'.parts, part.ptr < s.next) : Known flash (s.putDevice dev') where
  table := h.table.putDevice mem ptr id ok nonempty count parts
  ids := fun _ => h.ids (List.ne_nil_of_mem mem)
  current := h.current

/-- A device that is left with fewer partitions. -/
lemma Known.without {i : Nat} (h : Known flash s) (mem : dev ∈ s.devices)
    (found : dev.parts[i]? = some part) (notOne : dev.numParts ≠ 1)
    (parts : dev'.parts = dev.parts.filter (·.ptr ≠ part.ptr))
    (numParts : dev'.numParts = u16 (dev.numParts + (2 ^ 16 - 1))) (ptr : dev'.ptr = dev.ptr)
    (id : dev'.id = dev.id) : Known flash (s.putDevice dev') := by
  have ok := h.table.devices dev mem
  have lt : i < dev.parts.length := (List.getElem?_eq_some_iff.mp found).1
  have length : dev'.parts.length = dev.parts.length - 1 := by
    rw [parts, filter_eq_eraseIdx ok.distinct found, List.length_eraseIdx_of_lt lt]
  apply h.putDevice mem ptr id
  · rw [parts]
    exact ok.toPartsOk.filter
  · intro nil
    rw [nil, List.length_nil] at length
    have one : dev.parts.length = 1 := by omega
    have count := ok.count
    rw [one] at count
    exact notOne count
  · rw [numParts, length, ok.count, u16_pred (by omega)]
  · rw [parts]
    exact fun q memQ => (h.table.fresh dev mem).2 q (List.mem_of_mem_filter memQ)

/-- A partition is deleted. -/
lemma Known.partDel {i : Nat} (h : Known flash s) (mem : dev ∈ s.devices)
    (found : dev.parts[i]? = some part) : Known flash (partDel s dev part) := by
  rw [Imx.Mtdparts.partDel]
  split
  · exact h.deviceDel
  · rename_i notOne
    generalize hd : ({ dev with
      parts := dev.parts.filter (·.ptr ≠ part.ptr)
      numParts := u16 (dev.numParts + (2 ^ 16 - 1)) } : Device) = dev'
    have put : Known flash (s.putDevice dev') :=
      h.without mem found notOne (by rw [← hd]) (by rw [← hd]) (by rw [← hd]) (by rw [← hd])
    dsimp only
    split
    · exact put
    · apply Known.save
      exact ⟨put.table.congr rfl rfl (Nat.le_refl _), put.ids, put.current⟩

/-- A partition is put into the list of a device. -/
lemma Known.partAdd (h : Known flash s) (mem : dev ∈ s.devices)
    (add : partAdd flash s dev part = some (s', dev'))
    (name : part.autoName = false → part.name ≠ [] ∧ ')' ∉ part.name)
    (flags : part.maskFlags = 0 ∨ part.maskFlags = 1) (fits : part.size < 2 ^ 64)
    (fresh : ∀ d ∈ s.devices, ∀ q ∈ d.parts, q.ptr ≠ part.ptr) (lt : part.ptr < s.next) :
    Known flash (s'.putDevice dev') := by
  rw [Imx.Mtdparts.partAdd] at add
  obtain ⟨part', valid, add⟩ := Option.bind_eq_some_iff.mp add
  obtain ⟨l, r, list, eq, below, above, rfl⟩ := partSortAdd_spec add
  have ok := h.table.devices dev mem
  have same : SameTable s (Imx.Mtdparts.updateCurrent s dev r.head?) := updateCurrent_same
  have fields : part'.ptr = part.ptr ∧ part'.name = part.name ∧
      part'.autoName = part.autoName ∧ part'.maskFlags = part.maskFlags := by
    rw [(partValidate_eq valid).1, fillSize_eq]
    exact ⟨rfl, rfl, rfl, rfl⟩
  obtain ⟨ptr', name', auto', flags'⟩ := fields
  have partOk : PartOk flash dev.id part' := by
    refine ⟨partValidate_idem valid, ?_, ?_, ?_⟩
    · rw [auto', name']
      exact name
    · rw [flags']
      exact flags
    · rw [(partValidate_eq valid).1]
      exact fillSize_fits fits
  have parts : dev'.parts = l ++ part' :: r := by rw [eq]
  have moved : Known flash (Imx.Mtdparts.updateCurrent s dev r.head?) := h.updateCurrent
  apply moved.putDevice (same.devices ▸ mem)
  · rw [eq]
  · rw [eq]
  · rw [parts]
    refine PartsOk.insert (list ▸ ok.toPartsOk) partOk below above ?_
    rw [← list, ptr']
    exact fresh dev mem
  · rw [parts]
    exact List.append_ne_nil_of_right_ne_nil _ (List.cons_ne_nil _ _)
  · rw [parts, eq]
    dsimp only
    rw [ok.count, list, u16_succ]
    simp only [List.length_append, List.length_cons, Nat.add_assoc]
  · rw [parts, same.next]
    intro q memQ
    obtain memQ | memQ := List.mem_append.mp memQ
    · exact (h.table.fresh dev mem).2 q (list ▸ List.mem_append_left _ memQ)
    · obtain rfl | memQ := List.mem_cons.mp memQ
      · rw [ptr']
        exact lt
      · exact (h.table.fresh dev mem).2 q (list ▸ List.mem_append_right _ memQ)

/-- A device is put into the list. -/
lemma Known.deviceAdd (h : Known flash s) (ok : DeviceOk flash s.ids dev)
    (ptr : ∀ d ∈ s.devices, d.ptr ≠ dev.ptr) (fresh : dev.ptr < s.next)
    (parts : ∀ part ∈ dev.parts, part.ptr < s.next)
    (mtdids : IdsRead s) (name : deviceFind s dev.id.type dev.id.num = none) :
    Known flash (deviceAdd s dev) := by
  have added : Known flash { s with devices := s.devices ++ [dev] } :=
    ⟨h.table.snoc ok ptr fresh parts name, fun _ => mtdids, h.current⟩
  rw [Imx.Mtdparts.deviceAdd]
  split
  · exact added.setCurrent (List.mem_append_right _ (List.mem_singleton_self _))
  · exact added

/-- A partition is added. -/
lemma Known.mtdpartsAdd {mtdDev size name : Str} {ro : Option Str} (h : Known flash s)
    (read : IdsRead s) :
    Known flash (mtdpartsAdd flash s mtdDev size name ro).1 := by
  rw [Imx.Mtdparts.mtdpartsAdd]
  split
  · exact h
  · split
    · exact h
    · split
      · exact h
      · rename_i s₁ dev rest parse
        obtain ⟨k, rfl, ptr, ok, parts, _⟩ := deviceParse_spec parse h.current
        have grown : Known flash { s with next := s.next + k + 1 } := by
          refine ⟨h.table.congr rfl rfl (by dsimp only; omega), h.ids, ?_⟩
          intro ptr same
          have lt := h.current ptr same
          dsimp only
          omega
        split
        · rename_i missing
          apply Known.generateSave
          apply grown.deviceAdd ok ?_ ?_ ?_ ?_ missing
          · intro d mem
            have lt := (h.table.fresh d mem).1
            omega
          · dsimp only
            omega
          · intro part mem
            have lt := (parts part mem).2
            dsimp only
            omega
          · exact read
        · rename_i devTmp q qs found list
          have memQ : q ∈ dev.parts := by
            rw [list]
            exact List.mem_cons_self ..
          have qOk := ok.parts q memQ
          obtain ⟨ge, lt⟩ := parts q memQ
          split
          · exact grown.deviceDel
          · rename_i s₂ devTmp' add
            apply Known.generateSave
            apply grown.partAdd (deviceFind_mem found).1 add qOk.name qOk.flags qOk.fits
            · intro d mem p memP
              have lt := (h.table.fresh d mem).2 p memP
              omega
            · dsimp only
              omega
        · exact grown

/-- What a command does. -/
lemma Known.perform {c : Command} (h : Known flash s) (read : IdsRead s) :
    Known flash (perform flash s c).1 := by
  cases c with
  | init => exact h
  | add mtdDev size name ro => exact h.mtdpartsAdd read
  | del name =>
    rw [Imx.Mtdparts.perform, deletePartition]
    split
    · exact h
    · rename_i found
      obtain ⟨mem, i, found, _⟩ := findDevAndPart_mem found
      exact (h.partDel mem found).generateSave
  | chpart name =>
    rw [Imx.Mtdparts.perform, chpart]
    split
    · exact h
    · rename_i found
      exact h.setCurrent (findDevAndPart_mem found).1

/-- Every command keeps the tables. -/
lemma Known.command {c : Command} (h : Known flash s) :
    Known flash (command flash mtdidsDefault junk s c) := by
  obtain ⟨known, read⟩ := h.mtdpartsInit (d := mtdidsDefault) (j := junk)
  rw [Imx.Mtdparts.command]
  split
  · rename_i ok
    exact known.perform (read ok)
  · exact known

/-- So does every run. -/
lemma Known.run {cmds : List Command} (h : Known flash s) :
    Known flash (cmds.foldl (Imx.Mtdparts.command flash mtdidsDefault junk) s) := by
  induction cmds generalizing s with
  | nil => exact h
  | cons c cmds ih => exact ih h.command

end Imx.Mtdparts
