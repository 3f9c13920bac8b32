import Imx.Gpt.RoundTrip

/-!
# The places of new partitions

What `gpt_fill_pte` gives to the partitions of a list it accepts. `asked` is where the loop lets each
partition begin and the size it has; `Sensible` says of these numbers that nothing runs over the end
of an `lbaint_t`. `wellPlaced_iff` shows that the entries are disjoint and on the disk exactly then.
-/

namespace Imx.Gpt

variable {w : Nat} {typeGuids : Bool}

/-! ## Ranges of blocks -/

/-- No block is in both. -/
def Apart (a b : Nat × Nat) : Prop := a.2 < b.1 ∨ b.2 < a.1

/-- The ranges have a first and a last block inside of given ones, and no two of them overlap. -/
structure WellPlaced (first last : Nat) (rs : List (Nat × Nat)) : Prop where
  inside : ∀ r ∈ rs, first ≤ r.1 ∧ r.1 ≤ r.2 ∧ r.2 ≤ last
  apart : rs.Pairwise Apart

/-- The first and the last block of an entry. -/
def GptEntry.blocks (e : GptEntry) : Nat × Nat := (e.startingLba.toNat, e.endingLba.toNat)

/-- Where the loop lets each partition begin, and the size of it. -/
def asked : BitVec w → List (DiskPartition w) → List (Nat × Nat)
  | _, [] => []
  | offset, p :: ps =>
    ((startOf offset p).toNat, p.size.toNat) :: asked (startOf offset p + p.size) ps

/-- The ranges that are asked for; one without a size goes up to the last block when it is the last
one. -/
def ranges (last : Nat) : List (Nat × Nat) → List (Nat × Nat)
  | [] => []
  | x :: xs => (x.1, if xs = [] ∧ x.2 = 0 then last else x.1 + x.2 - 1) :: ranges last xs

/-- The numbers fit in an `lbaint_t`: every partition but the last has a size, and none ends behind
block `2 ^ w - 1`. After one that ends there the loop is back at block 0; then that block is usable,
and all have sizes, begin at the first usable block or behind it, and leave each other alone. -/
structure Sensible (first last w : Nat) (xs : List (Nat × Nat)) : Prop where
  fits : xs ≠ [] → first < 2 ^ w
  sizes : ∀ x ∈ xs.dropLast, x.2 ≠ 0
  sums : ∀ x ∈ xs, x.1 + x.2 ≤ 2 ^ w
  lap : (∃ x ∈ xs, x.1 + x.2 = 2 ^ w) → 2 ^ w ≤ last + 1 ∧ (∀ x ∈ xs, first ≤ x.1 ∧ x.2 ≠ 0) ∧
    xs.Pairwise fun a b => a.1 + a.2 ≤ b.1 ∨ b.1 + b.2 ≤ a.1

section Ranges

variable {first last : Nat} {x : Nat × Nat} {xs : List (Nat × Nat)}

lemma mem_dropLast_cons {y : Nat × Nat} :
    y ∈ (x :: xs).dropLast ↔ (xs ≠ [] ∧ y = x) ∨ y ∈ xs.dropLast := by
  cases xs with
  | nil => simp
  | cons z zs => simp

/-- With sizes, the ranges are the ones that are asked for. -/
lemma ranges_eq_map (sizes : ∀ x ∈ xs, x.2 ≠ 0) :
    ranges last xs = xs.map fun x => (x.1, x.1 + x.2 - 1) := by
  induction xs with
  | nil => rfl
  | cons x xs ih =>
    have ne : ¬ (xs = [] ∧ x.2 = 0) := fun h => sizes x List.mem_cons_self h.2
    rw [ranges, if_neg ne, ih fun y mem => sizes y (List.mem_cons_of_mem x mem), List.map_cons]

/-- The ranges of a list with a last one. -/
lemma ranges_concat : ranges last (xs ++ [x]) =
    xs.map (fun y => (y.1, y.1 + y.2 - 1)) ++ [(x.1, if x.2 = 0 then last else x.1 + x.2 - 1)] := by
  induction xs with
  | nil => simp [ranges]
  | cons y ys ih => simp [ranges, ih]

/-- Where one of the ranges that are well placed ends with block `2 ^ w - 1`, all have sizes. -/
lemma sizes_of_lap (placed : WellPlaced first last (ranges last xs))
    (sizes : ∀ y ∈ xs.dropLast, y.2 ≠ 0) (begins : ∀ y ∈ xs, y.1 < 2 ^ w) (mem : x ∈ xs)
    (ends : x.1 + x.2 = 2 ^ w) : ∀ y ∈ xs, y.2 ≠ 0 := by
  obtain rfl | ⟨ys, z, rfl⟩ := List.eq_nil_or_concat xs
  · cases mem
  rw [List.concat_eq_append] at *
  rw [List.dropLast_concat] at sizes
  obtain ⟨inside, apart⟩ := placed
  rw [ranges_concat] at inside apart
  have below := begins z (List.mem_append_right ys (List.mem_singleton_self z))
  intro y memY zero
  rcases List.mem_append.1 memY with memY | memY
  · exact sizes y memY zero
  obtain rfl := List.mem_singleton.1 memY
  rcases List.mem_append.1 mem with mem | mem
  · -- both ranges have the block
    have memX := List.mem_map_of_mem (f := fun y : Nat × Nat => (y.1, y.1 + y.2 - 1)) mem
    have inX := inside _ (List.mem_append_left _ memX)
    have far := (List.pairwise_append.1 apart).2.2 _ memX _ (List.mem_singleton_self _)
    rw [if_pos zero, Apart] at far
    have beginsX := begins x (List.mem_append_left _ mem)
    simp only at inX far
    omega
  · obtain rfl := List.mem_singleton.1 mem
    omega

/-- Ranges with sizes are placed as they are asked for. -/
lemma wellPlaced_map (sizes : ∀ y ∈ xs, y.2 ≠ 0) :
    WellPlaced first last (ranges last xs) ↔
      (∀ y ∈ xs, first ≤ y.1 ∧ y.1 + y.2 ≤ last + 1) ∧
        xs.Pairwise fun a b => a.1 + a.2 ≤ b.1 ∨ b.1 + b.2 ≤ a.1 := by
  rw [ranges_eq_map sizes]
  constructor
  · rintro ⟨inside, apart⟩
    rw [List.forall_mem_map] at inside
    rw [List.pairwise_map] at apart
    constructor
    · intro y mem
      have bounds := inside y mem
      simp only at bounds
      omega
    · refine apart.imp_of_mem fun {a b} memA memB far => ?_
      have sizeA := sizes a memA
      have sizeB := sizes b memB
      simp only [Apart] at far
      omega
  · rintro ⟨inside, apart⟩
    constructor
    · rw [List.forall_mem_map]
      intro y mem
      have size := sizes y mem
      have bounds := inside y mem
      simp only
      omega
    · rw [List.pairwise_map]
      refine apart.imp_of_mem fun {a b} memA memB far => ?_
      have sizeA := sizes a memA
      have sizeB := sizes b memB
      simp only [Apart]
      omega

/-- Ranges in order are placed well. -/
lemma wellPlaced_of_ordered (sizes : ∀ y ∈ xs.dropLast, y.2 ≠ 0)
    (inside : ∀ y ∈ xs, first ≤ y.1 ∧ y.1 + y.2 < last)
    (ordered : xs.Pairwise fun a b => a.1 + a.2 ≤ b.1) :
    WellPlaced first last (ranges last xs) := by
  obtain rfl | ⟨ys, z, rfl⟩ := List.eq_nil_or_concat xs
  · exact ⟨fun r none => absurd none List.not_mem_nil, .nil⟩
  rw [List.concat_eq_append] at *
  rw [List.dropLast_concat] at sizes
  obtain ⟨orderedY, -, before⟩ := List.pairwise_append.1 ordered
  have inZ := inside z (List.mem_append_right ys (List.mem_singleton_self z))
  have inY : ∀ y ∈ ys, first ≤ y.1 ∧ y.1 + y.2 < last := fun y mem =>
    inside y (List.mem_append_left _ mem)
  have placedY : WellPlaced first last (ranges last ys) := by
    refine (wellPlaced_map sizes).2 ⟨fun y mem => ?_, orderedY.imp fun h => .inl h⟩
    have bounds := inY y mem
    omega
  obtain ⟨insideY, apartY⟩ := placedY
  rw [ranges_eq_map sizes] at insideY apartY
  rw [ranges_concat]
  constructor
  · intro r mem
    rcases List.mem_append.1 mem with mem | mem
    · exact insideY r mem
    · obtain rfl := List.mem_singleton.1 mem
      simp only
      split_ifs <;> omega
  · refine List.pairwise_append.2 ⟨apartY, List.pairwise_singleton _ _, ?_⟩
    intro r mem s memS
    obtain ⟨y, memY, rfl⟩ := List.mem_map.1 mem
    obtain rfl := List.mem_singleton.1 memS
    have size := sizes y memY
    have far := before y memY z (List.mem_singleton_self z)
    left
    simp only
    omega

end Ranges

/-! ## The loop -/

section Loop

variable {gptH : GptHeader} {offset : BitVec w} {ps : List (DiskPartition w)} {es : List GptEntry}

lemma asked_eq_nil : asked offset ps = [] ↔ ps = [] := by
  cases ps with
  | nil => exact iff_of_true rfl rfl
  | cons p ps => exact iff_of_false (List.cons_ne_nil _ _) (List.cons_ne_nil _ _)

/-- The last block of a partition that does not run over the end of an `lbaint_t`. -/
lemma ending_of_sum (hw : w = 32 ∨ w = 64) {s z : BitVec w} (size : z.toNat ≠ 0)
    (sum : s.toNat + z.toNat ≤ 2 ^ w) :
    ((s + z - 1).setWidth 64).toNat = s.toNat + z.toNat - 1 := by
  rcases hw with rfl | rfl <;> bv_omega

lemma setWidth_start (hw : w = 32 ∨ w = 64) {s : BitVec w} : (s.setWidth 64).toNat = s.toNat := by
  rcases hw with rfl | rfl <;> bv_omega

/-- The entries have the ranges that are asked for. -/
lemma gptFillPte_ranges (hw : w = 32 ∨ w = 64)
    (fill : gptFillPte typeGuids gptH offset ps = some es)
    (sizes : ∀ x ∈ (asked offset ps).dropLast, x.2 ≠ 0)
    (sums : ∀ x ∈ asked offset ps, x.1 + x.2 ≤ 2 ^ w) :
    es.map GptEntry.blocks = ranges gptH.lastUsableLba.toNat (asked offset ps) := by
  induction ps generalizing offset es with
  | nil =>
    obtain rfl := Option.some.inj fill
    rfl
  | cons p ps ih =>
    obtain ⟨-, -, g, u, es', -, -, rest, rfl⟩ := gptFillPte_cons fill
    rw [asked] at sizes sums ⊢
    have tail := ih rest (fun x mem => sizes x (mem_dropLast_cons.2 (.inr mem)))
      (fun x mem => sums x (List.mem_cons_of_mem _ mem))
    rw [List.map_cons, ranges, tail, GptEntry.blocks]
    simp only [fillEntry, setWidth_start hw, asked_eq_nil]
    congr 2
    by_cases toEnd : ps = [] ∧ p.size = 0
    · rw [if_pos toEnd, if_pos ⟨toEnd.1, by rw [toEnd.2]; rfl⟩]
    · have size : p.size.toNat ≠ 0 := by
        intro zero
        have none : p.size = 0 := BitVec.eq_of_toNat_eq zero
        have more : ps ≠ [] := fun nil => toEnd ⟨nil, none⟩
        exact sizes _ (mem_dropLast_cons.2 (.inl ⟨fun nil => more (asked_eq_nil.1 nil), rfl⟩)) zero
      rw [if_neg toEnd, if_neg fun h => size h.2]
      exact ending_of_sum hw size (sums _ List.mem_cons_self)

/-- An entry begins at a block that is an `lbaint_t`. -/
lemma begins_lt (hw : w = 32 ∨ w = 64) (fill : gptFillPte typeGuids gptH offset ps = some es) :
    ∀ r ∈ es.map GptEntry.blocks, r.1 < 2 ^ w := by
  induction ps generalizing offset es with
  | nil =>
    obtain rfl := Option.some.inj fill
    exact fun r none => absurd none List.not_mem_nil
  | cons p ps ih =>
    obtain ⟨-, -, g, u, es', -, -, rest, rfl⟩ := gptFillPte_cons fill
    intro r mem
    rw [List.map_cons, List.mem_cons] at mem
    rcases mem with rfl | mem
    · simp only [GptEntry.blocks, fillEntry, setWidth_start hw]
      exact BitVec.isLt _
    · exact ih rest r mem

/-- Entries that are disjoint and have a first and a last block are of partitions with sizes that do
not run over the end of an `lbaint_t`. -/
lemma sizes_of_wellPlaced {first last : Nat} (hw : w = 32 ∨ w = 64)
    (fill : gptFillPte typeGuids gptH offset ps = some es)
    (placed : WellPlaced first last (es.map GptEntry.blocks)) :
    (∀ x ∈ (asked offset ps).dropLast, x.2 ≠ 0) ∧ ∀ x ∈ asked offset ps, x.1 + x.2 ≤ 2 ^ w := by
  induction ps generalizing offset es with
  | nil => exact ⟨fun x none => absurd none List.not_mem_nil, fun x none => absurd none List.not_mem_nil⟩
  | cons p ps ih =>
    obtain ⟨-, -, g, u, es', -, -, rest, rfl⟩ := gptFillPte_cons fill
    obtain ⟨inside, apart⟩ := placed
    rw [List.map_cons] at inside apart
    obtain ⟨here, apart⟩ := List.pairwise_cons.1 apart
    obtain ⟨sizes, sums⟩ := ih rest ⟨fun r mem => inside r (List.mem_cons_of_mem _ mem), apart⟩
    have range := (inside _ List.mem_cons_self).2.1
    simp only [GptEntry.blocks, fillEntry, setWidth_start hw] at range here
    rw [asked]
    generalize startOf offset p = s at *
    have size : ps ≠ [] → p.size.toNat ≠ 0 := by
      intro more zero
      -- the entry has all blocks, and so overlaps with the next one
      have none : p.size = 0 := BitVec.eq_of_toNat_eq zero
      rw [if_neg fun h => more h.1, none] at range here
      obtain ⟨q, qs, rfl⟩ := List.exists_cons_of_ne_nil more
      have below := begins_lt hw rest
      obtain ⟨-, -, g', u', es'', -, -, -, rfl⟩ := gptFillPte_cons rest
      rw [List.map_cons] at here below
      have next := here _ List.mem_cons_self
      have lt := below _ List.mem_cons_self
      rw [Apart] at next
      rcases hw with rfl | rfl <;> bv_omega
    have sum : s.toNat + p.size.toNat ≤ 2 ^ w := by
      by_cases zero : p.size = 0
      · rw [zero]
        exact Nat.le_of_lt s.isLt
      · rw [if_neg fun h => zero h.2] at range
        rcases hw with rfl | rfl <;> bv_omega
    constructor
    · intro x mem
      rcases mem_dropLast_cons.1 mem with ⟨more, rfl⟩ | mem
      · exact size fun nil => more (asked_eq_nil.2 nil)
      · exact sizes x mem
    · intro x mem
      rcases List.mem_cons.1 mem with rfl | mem
      · exact sum
      · exact sums x mem

/-- Partitions that do not run over the end of an `lbaint_t` are asked for in order, from the offset
on and below the last usable block. -/
lemma asked_ordered (fill : gptFillPte typeGuids gptH offset ps = some es)
    (sums : ∀ x ∈ asked offset ps, x.1 + x.2 < 2 ^ w) :
    (∀ x ∈ asked offset ps, offset.toNat ≤ x.1 ∧ x.1 + x.2 < gptH.lastUsableLba.toNat) ∧
      (asked offset ps).Pairwise fun a b => a.1 + a.2 ≤ b.1 := by
  induction ps generalizing offset es with
  | nil => exact ⟨fun x none => absurd none List.not_mem_nil, .nil⟩
  | cons p ps ih =>
    obtain ⟨above, below, g, u, es', -, -, rest, rfl⟩ := gptFillPte_cons fill
    rw [asked] at sums ⊢
    obtain ⟨all, ordered⟩ := ih rest fun x mem => sums x (List.mem_cons_of_mem _ mem)
    have sum := sums _ List.mem_cons_self
    have begins : offset.toNat ≤ (startOf offset p).toNat := by
      rw [startOf]
      split_ifs with ne
      · exact above.resolve_left ne
      · exact Nat.le_refl _
    have next : (startOf offset p + p.size).toNat = (startOf offset p).toNat + p.size.toNat := by
      rw [BitVec.toNat_add, Nat.mod_eq_of_lt sum]
    have usable : (startOf offset p).toNat + p.size.toNat < gptH.lastUsableLba.toNat := by
      have lt : (startOf offset p + p.size).toNat < (gptH.lastUsableLba.setWidth w).toNat := below
      rw [next, BitVec.toNat_setWidth] at lt
      exact Nat.lt_of_lt_of_le lt (Nat.mod_le _ _)
    rw [next] at all
    constructor
    · intro x mem
      rcases List.mem_cons.1 mem with rfl | mem
      · exact ⟨begins, usable⟩
      · have later := all x mem
        exact ⟨by omega, later.2⟩
    · exact List.pairwise_cons.2 ⟨fun x mem => (all x mem).1, ordered⟩

/-- A partition is asked for at a block that is an `lbaint_t`. -/
lemma asked_lt : ∀ x ∈ asked offset ps, x.1 < 2 ^ w := by
  induction ps generalizing offset with
  | nil => exact fun x none => absurd none List.not_mem_nil
  | cons p ps ih =>
    intro x mem
    rcases List.mem_cons.1 mem with rfl | mem
    · exact BitVec.isLt _
    · exact ih x mem

end Loop

/-- The list of a partition with a size and one that takes the rest. -/
lemma twoParts_accepted {gptH : GptHeader} {offset size : BitVec 32}
    (fits : ¬ offset + size ≥ gptH.lastUsableLba.setWidth 32) (rest : BitVec 32)
    (fits' : ¬ offset + size + rest ≥ gptH.lastUsableLba.setWidth 32) :
    ∃ g u : Guid, gptFillPte false gptH offset
        [samplePartition size zeroUuid, samplePartition rest zeroUuid] =
      some [fillEntry (samplePartition size zeroUuid) g u (offset.setWidth 64)
          ((offset + size - 1).setWidth 64),
        fillEntry (samplePartition rest zeroUuid) g u ((offset + size).setWidth 64)
          (if rest = 0 then gptH.lastUsableLba else (offset + size + rest - 1).setWidth 64)] := by
  have valid : uuidStrValid zeroUuid := by decide
  have unique := uuidStrToBin_valid false valid .std
  refine ⟨partitionBasicDataGuid, Format.std.bin zeroUuid, ?_⟩
  simp [gptFillPte, startOf, samplePartition, fillTypeGuid, fits, fits', unique]

/-- The header of a table on a device with 100 blocks. -/
lemma filled100 : ∃ h, gptFillHeader false device100 zeroUuid = some h ∧
    h.firstUsableLba = 34 ∧ h.lastUsableLba = 66 := by
  obtain ⟨h, fill⟩ := exists_fill device100
  refine ⟨h, fill, ?_⟩
  rw [gptFillHeader, Option.map_eq_some_iff] at fill
  obtain ⟨g, -, rfl⟩ := fill
  exact ⟨rfl, rfl⟩

/-- The entries of a list that is accepted have a first and a last block inside of the usable ones,
and no two of them overlap, exactly if the numbers of the list fit in an `lbaint_t`. -/
theorem wellPlaced_iff (hw : w = 32 ∨ w = 64) (gptH : GptHeader) (ps : List (DiskPartition w))
    (es : List GptEntry)
    (accepted : gptFillPte typeGuids gptH (gptH.firstUsableLba.setWidth w) ps = some es) :
    WellPlaced gptH.firstUsableLba.toNat gptH.lastUsableLba.toNat (es.map GptEntry.blocks) ↔
      Sensible gptH.firstUsableLba.toNat gptH.lastUsableLba.toNat w
        (asked (gptH.firstUsableLba.setWidth w) ps) := by
  generalize firstEq : gptH.firstUsableLba.toNat = first
  generalize lastEq : gptH.lastUsableLba.toNat = last
  generalize xsEq : asked (gptH.firstUsableLba.setWidth w) ps = xs
  have begins : ∀ x ∈ xs, x.1 < 2 ^ w := xsEq ▸ asked_lt
  have entries := gptFillPte_ranges hw accepted
  have ordered := asked_ordered accepted
  rw [xsEq, lastEq] at entries ordered
  constructor
  · intro placed
    obtain ⟨sizes, sums⟩ := sizes_of_wellPlaced hw accepted placed
    rw [xsEq] at sizes sums
    rw [entries sizes sums] at placed
    refine ⟨fun some => ?_, sizes, sums, fun ⟨x, mem, ends⟩ => ?_⟩
    · obtain ⟨x, xs', rfl⟩ := List.exists_cons_of_ne_nil some
      have lt := begins x List.mem_cons_self
      have le := (placed.inside _ List.mem_cons_self).1
      simp only at le
      omega
    · have all := sizes_of_lap placed sizes begins mem ends
      obtain ⟨inside, apart⟩ := (wellPlaced_map all).1 placed
      have top := (inside x mem).2
      exact ⟨by omega, fun y memY => ⟨(inside y memY).1, all y memY⟩, apart⟩
  · rintro ⟨fits, sizes, sums, lap⟩
    rw [entries sizes sums]
    by_cases full : ∃ x ∈ xs, x.1 + x.2 = 2 ^ w
    · obtain ⟨top, all, apart⟩ := lap full
      refine (wellPlaced_map fun y mem => (all y mem).2).2 ⟨fun y mem => ⟨(all y mem).1, ?_⟩, apart⟩
      have sum := sums y mem
      omega
    · have under : ∀ x ∈ xs, x.1 + x.2 < 2 ^ w := fun x mem =>
        Nat.lt_of_le_of_ne (sums x mem) fun eq => full ⟨x, mem, eq⟩
      obtain ⟨inside, increasing⟩ := ordered under
      refine wellPlaced_of_ordered sizes (fun y mem => ?_) increasing
      have fit := fits (List.ne_nil_of_mem mem)
      have after := (inside y mem).1
      rw [BitVec.toNat_setWidth, firstEq, Nat.mod_eq_of_lt fit] at after
      exact ⟨after, (inside y mem).2⟩

/-- A partition of ten blocks and one that takes the rest are placed well. -/
theorem wellPlaced_rest :
    ∃ h es, gptFillHeader false device100 zeroUuid = some h ∧
      gptFillPte false h (h.firstUsableLba.setWidth 32)
        [samplePartition 10 zeroUuid, samplePartition 0 zeroUuid] = some es ∧
      WellPlaced h.firstUsableLba.toNat h.lastUsableLba.toNat (es.map GptEntry.blocks) := by
  obtain ⟨h, fill, first, last⟩ := filled100
  obtain ⟨g, u, accepted⟩ := @twoParts_accepted h 34 10 (by rw [last]; decide) 0 (by rw [last]; decide)
  have offset : h.firstUsableLba.setWidth 32 = 34 := by rw [first]; rfl
  rw [← offset] at accepted
  refine ⟨h, _, fill, accepted, (wellPlaced_iff (.inl rfl) h _ _ accepted).2 ?_⟩
  have places : asked (h.firstUsableLba.setWidth 32)
      [samplePartition 10 zeroUuid, samplePartition 0 zeroUuid] = [(34, 10), (44, 0)] := by
    rw [offset]
    rfl
  rw [places, first, last]
  exact ⟨by decide, by decide, by decide, by decide⟩

/-- The entry of a partition without a size that is not the last one ends before it begins. -/
theorem not_wellPlaced_empty :
    ∃ h es, gptFillHeader false device100 zeroUuid = some h ∧
      h.firstUsableLba ≤ h.lastUsableLba ∧
      gptFillPte false h (h.firstUsableLba.setWidth 32)
        [samplePartition 0 zeroUuid, samplePartition 10 zeroUuid] = some es ∧
      ¬ WellPlaced h.firstUsableLba.toNat h.lastUsableLba.toNat (es.map GptEntry.blocks) := by
  obtain ⟨h, fill, first, last⟩ := filled100
  obtain ⟨g, u, accepted⟩ := @twoParts_accepted h 34 0 (by rw [last]; decide) 10 (by rw [last]; decide)
  have offset : h.firstUsableLba.setWidth 32 = 34 := by rw [first]; rfl
  rw [← offset] at accepted
  refine ⟨h, _, fill, by rw [first, last]; decide, accepted, fun placed => ?_⟩
  have range := (placed.inside _ List.mem_cons_self).2.1
  simp only [GptEntry.blocks, fillEntry, offset] at range
  exact absurd range (by decide)

end Imx.Gpt
