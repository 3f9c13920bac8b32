import Imx.Lmb.Ordered

/-!
# Freeing a range

`lmb_free` looks for the reserved region that has the range and takes it out: the whole region, its
front, its end, or a piece in the middle. For the last the region is cut off before the range first
and what lies behind it is added as a region of its own, which a full table refuses: the region has
lost its end by then. `lmbFree_iff` says that this is the only case in which addresses outside the
range are lost.
-/

namespace Imx.Lmb

variable {w i x base size : Nat} {rgn rgn' : Region} {p : Property} {lmb : Blocks}

/-- The table covers what it covered, without the range. -/
def Without (rgn rgn' : Region) (base size : Nat) : Prop :=
  ∀ x, Covered rgn' x ↔ Covered rgn x ∧ ¬ (base ≤ x ∧ x < base + size)

/-- `lmb_free` takes exactly the range away when it succeeds and nothing when it fails, and leaves
the reserved regions in order. -/
def FreesExactly (w : Nat) (lmb : Blocks) (base size : Nat) : Prop :=
  ∃ lmb' ret, lmbFree w lmb base size = some (lmb', ret) ∧ lmb'.memory = lmb.memory ∧
    (0 ≤ ret → Without lmb.reserved lmb'.reserved base size) ∧
    (ret = -1 → ∀ x, Covered lmb'.reserved x ↔ Covered lmb.reserved x) ∧ -1 ≤ ret ∧
    (Ordered 0 w lmb'.reserved ∨ Dummy lmb'.reserved)

/-- The range lies in the middle of region `i`, the table is full, and no region follows at once. -/
def TailLost (rgn : Region) (base size i : Nat) : Prop :=
  Splits rgn i base size ∧ maxLmbRegions ≤ rgn.cnt ∧
    ¬ (i + 1 < rgn.cnt ∧
      (rgn.region (i + 1)).base = (rgn.region i).base + (rgn.region i).size)

section
variable (tbl : Ordered 0 w rgn) (ic : i < rgn.cnt)
include tbl ic

/-- An address of a region is in no other one. -/
lemma Ordered.other {j : Nat} (jc : j < rgn.cnt) (ji : j ≠ i) (has : (rgn.region j).Has x) :
    ¬ (rgn.region i).Has x := by
  intro here
  simp only [Property.Has] at has here
  obtain lt | gt := Nat.lt_or_gt_of_ne ji
  · have apart := tbl.lt lt ic
    omega
  · have apart := tbl.lt gt jc
    omega

/-- What is left of the region and the other regions are the addresses without the range. -/
lemma without_parts {P : Nat → Prop} (below : (rgn.region i).base ≤ base)
    (above : base + size ≤ (rgn.region i).base + (rgn.region i).size)
    (left : ∀ x, P x ↔ (rgn.region i).Has x ∧ ¬ (base ≤ x ∧ x < base + size)) (x : Nat) :
    (P x ∨ ∃ j < rgn.cnt, j ≠ i ∧ (rgn.region j).Has x) ↔
      Covered rgn x ∧ ¬ (base ≤ x ∧ x < base + size) := by
  rw [covered_split ic, left x, or_and_right]
  refine or_congr_right ?_
  constructor
  · rintro ⟨j, jc, ji, has⟩
    have out := tbl.other ic jc ji has
    refine ⟨⟨j, jc, ji, has⟩, fun range => out ?_⟩
    simp only [Property.Has]
    omega
  · exact And.left

/-- Taking a range out of the region that has it: the piece behind the range is refused by a full
table, and in every other case exactly the range is gone. -/
lemma freeFrom_ordered (pos : 0 < size) (below : (rgn.region i).base ≤ base)
    (above : base + size ≤ (rgn.region i).base + (rgn.region i).size) :
    (TailLost rgn base size i ∧ freeFrom w rgn i base size = some (cutBefore rgn i base, -1) ∧
      Ordered 0 w (cutBefore rgn i base)) ∨
    (¬ TailLost rgn base size i ∧ ∃ rgn' ret, freeFrom w rgn i base size = some (rgn', ret) ∧
      0 ≤ ret ∧ Ordered 0 w rgn' ∧ Without rgn rgn' base size) := by
  have ib := tbl.bound i ic
  have parts := @without_parts w i base size rgn tbl ic
  have before : ∀ j, j + 1 = i → (rgn.region j).base + (rgn.region j).size ≤ (rgn.region i).base := by
    intro j ji
    exact tbl.lt (by omega) ic
  rw [freeFrom]
  simp only [add_eq (show base + size < 2 ^ w from by omega), add_eq ib]
  by_cases front : (rgn.region i).base = base
  · have whole : ¬ TailLost rgn base size i := fun h => by
      have less := h.1.1
      omega
    refine .inr ⟨whole, ?_⟩
    by_cases back : (rgn.region i).base + (rgn.region i).size = base + size
    · rw [if_pos ⟨front, back⟩]
      refine ⟨_, _, rfl, Int.le_refl 0, tbl.remove, ?_⟩
      intro x
      have nothing : ∀ x, False ↔ (rgn.region i).Has x ∧ ¬ (base ≤ x ∧ x < base + size) := by
        intro x
        rw [false_iff]
        simp only [Property.Has]
        omega
      rw [covered_remove ic, ← parts below above nothing x, false_or]
    · rw [if_neg fun h => back h.2, if_pos front, sub_eq (by omega) (by omega)]
      refine ⟨_, _, rfl, Int.le_refl 0, tbl.set ?_ ?_ ?_ ?_, ?_⟩
      · simp only
        omega
      · simp only
        omega
      · intro j ji
        have near := before j ji
        simp only
        omega
      · intro next
        have near := tbl.gap i next
        simp only
        omega
      · intro x
        rw [covered_set ic]
        refine parts below above (fun x => ?_) x
        simp only [Property.Has]
        omega
  rw [if_neg fun h => front h.1, if_neg front]
  by_cases back : (rgn.region i).base + (rgn.region i).size = base + size
  · have whole : ¬ TailLost rgn base size i := fun h => by
      have less := h.1.2
      omega
    rw [if_pos back, sub_eq (by omega) (by omega)]
    refine .inr ⟨whole, _, _, rfl, Int.le_refl 0, tbl.set ?_ ?_ ?_ ?_, ?_⟩
    · simp only
      omega
    · simp only
      omega
    · exact before
    · intro next
      have near := tbl.gap i next
      simp only
      omega
    · intro x
      rw [covered_set ic]
      refine parts below above (fun x => ?_) x
      simp only [Property.Has]
      omega
  -- what lies before the range stays, what lies behind it is added
  rw [if_neg back, sub_eq (by omega) (by omega), sub_eq (by omega) (by omega)]
  have cut : Ordered 0 w (cutBefore rgn i base) := by
    refine tbl.set ?_ ?_ ?_ ?_
    · simp only
      omega
    · simp only
      omega
    · exact before
    · intro next
      have near := tbl.gap i next
      simp only
      omega
  have splits : Splits rgn i base size := ⟨by omega, by omega⟩
  have same : ∀ j, j ≠ i → (cutBefore rgn i base).region j = rgn.region j :=
    fun j ji => Region.set_ne ji
  have here : (cutBefore rgn i base).region i = ⟨(rgn.region i).base, base - (rgn.region i).base⟩ :=
    Region.set_self
  have tail : Free (cutBefore rgn i base) (base + size)
      ((rgn.region i).base + (rgn.region i).size - (base + size)) := by
    rintro x ⟨j, jc, has⟩ range
    by_cases ji : j = i
    · rw [ji, here] at has
      simp only [Property.Has] at has
      omega
    · rw [same j ji] at has
      apply tbl.other ic jc ji has
      simp only [Property.Has]
      omega
  have clear : Untouched (cutBefore rgn i base) (base + size)
      ((rgn.region i).base + (rgn.region i).size - (base + size)) ↔
      ¬ (i + 1 < rgn.cnt ∧
        (rgn.region (i + 1)).base = (rgn.region i).base + (rgn.region i).size) := by
    constructor
    · rintro all ⟨next, meet⟩
      obtain ⟨-, apart⟩ := all (i + 1) next
      rw [same (i + 1) (by omega)] at apart
      omega
    · intro no j jc
      have jc : j < rgn.cnt := jc
      rcases Nat.lt_trichotomy j i with lt | rfl | gt
      · have apart := tbl.lt lt ic
        rw [ClearOf, same j (by omega)]
        omega
      · rw [ClearOf, here]
        simp only
        omega
      · have apart := tbl.lt gt jc
        have filled := tbl.pos j jc
        rw [ClearOf, same j (by omega)]
        by_cases next : j = i + 1
        · rw [next] at apart ⊢
          omega
        · have far := tbl.lt (show i + 1 < j by omega) jc
          have near := tbl.gap i (by omega)
          have filled' := tbl.pos (i + 1) (by omega)
          omega
  obtain ⟨untouched, full, e⟩ | ⟨room, rgn', ret, e, nonneg, ordered, -, cov⟩ :=
    addRegion_ordered cut (Nat.zero_le 1) (by rw [cutBefore, Region.set_cnt]; omega)
      (by omega) (by omega) tail
  · exact .inl ⟨⟨splits, full, clear.mp untouched⟩, e, cut⟩
  · refine .inr ⟨?_, rgn', ret, e, nonneg, ordered, ?_⟩
    · rintro ⟨-, full, no⟩
      exact room ⟨clear.mpr no, full⟩
    · intro x
      have both : ∀ x, (Property.Has ⟨(rgn.region i).base, base - (rgn.region i).base⟩ x ∨
          (base + size ≤ x ∧
            x < base + size + ((rgn.region i).base + (rgn.region i).size - (base + size)))) ↔
          (rgn.region i).Has x ∧ ¬ (base ≤ x ∧ x < base + size) := by
        intro x
        simp only [Property.Has]
        omega
      rw [cov x, cutBefore, covered_set ic, or_right_comm]
      exact parts below above both x

end

/-- Region `i` has the range. -/
def Holding (rgn : Region) (base size i : Nat) : Prop :=
  i < rgn.cnt ∧ (rgn.region i).base ≤ base ∧
    base + size ≤ (rgn.region i).base + (rgn.region i).size

/-- Only one region has the range. -/
lemma Holding.unique (pos : 0 < size) (tbl : Ordered 0 w rgn) {j : Nat} (hi : Holding rgn base size i)
    (hj : Holding rgn base size j) : i = j := by
  obtain ⟨ic, low, high⟩ := hi
  obtain ⟨jc, low', high'⟩ := hj
  by_contra ne
  exact tbl.other ic jc (fun e => ne e.symm) (x := base) ⟨low', by omega⟩ ⟨low, by omega⟩

section
variable (bound : base + size < 2 ^ w) (pos : 0 < size)
include bound pos

/-- The loop finds it. -/
lemma findRegion_iff (tbl : Ordered 0 w rgn) :
    findRegion w rgn base size = some i ↔ Holding rgn base size i := by
  have yes : ∀ j, j < rgn.cnt → ((decide ((rgn.region j).base ≤ base) &&
      decide (add w base size ≤ add w (rgn.region j).base (rgn.region j).size)) = true ↔
        Holding rgn base size j) := by
    intro j jc
    rw [add_eq bound, add_eq (tbl.bound j jc), Bool.and_eq_true, decide_eq_true_eq,
      decide_eq_true_eq, Holding, and_iff_right jc]
  constructor
  · intro found
    have ic := List.mem_range.mp (List.mem_of_find?_eq_some found)
    have here := List.find?_some found
    exact (yes i ic).mp here
  · intro held
    cases found : findRegion w rgn base size with
    | none =>
      have no := List.find?_eq_none.mp found i (List.mem_range.mpr held.1)
      exact absurd ((yes i held.1).mpr held) no
    | some j =>
      have jc := List.mem_range.mp (List.mem_of_find?_eq_some found)
      have here := List.find?_some found
      have held' := (yes j jc).mp here
      rw [held'.unique pos tbl held]

/-- The dummy region has no range. -/
lemma Dummy.findRegion (dummy : Dummy rgn) : findRegion w rgn base size = none := by
  obtain ⟨one, zero⟩ := dummy
  apply List.find?_eq_none.mpr
  intro i ir
  rw [one] at ir
  obtain rfl : i = 0 := by
    have lt := List.mem_range.mp ir
    omega
  have le := Nat.mod_le ((rgn.region 0).base + 0) (2 ^ w)
  rw [Bool.and_eq_true, decide_eq_true_eq, decide_eq_true_eq, add_eq bound, zero, add]
  omega

/-- Freeing a range of a table in order, or of the one `lmb_init` leaves, takes exactly the range or
nothing, unless the range lies in the middle of a region, the table is full and the region has no
neighbour at its end: then the end is lost. -/
theorem lmbFree_iff (tbl : Ordered 0 w lmb.reserved ∨ Dummy lmb.reserved) :
    FreesExactly w lmb base size ↔
      ∀ i, Holding lmb.reserved base size i → ¬ TailLost lmb.reserved base size i := by
  cases found : findRegion w lmb.reserved base size with
  | none =>
    refine iff_of_true ?_ ?_
    · refine ⟨lmb, -1, by rw [lmbFree, found], rfl, fun h => absurd h (by decide),
        fun _ x => Iff.rfl, by decide, tbl⟩
    · intro i held
      obtain tbl | ⟨one, zero⟩ := tbl
      · rw [(findRegion_iff bound pos tbl).mpr held] at found
        exact absurd found (by simp)
      · obtain ⟨ic, low, high⟩ := held
        obtain rfl : i = 0 := by omega
        omega
  | some i =>
    have tbl : Ordered 0 w lmb.reserved := by
      obtain tbl | dummy := tbl
      · exact tbl
      · rw [dummy.findRegion bound pos] at found
        exact absurd found (by simp)
    have held := (findRegion_iff bound pos tbl).mp found
    have ic := held.1
    have low := held.2.1
    have high := held.2.2
    have only : (∀ j, Holding lmb.reserved base size j → ¬ TailLost lmb.reserved base size j) ↔
        ¬ TailLost lmb.reserved base size i := by
      constructor
      · intro all
        exact all i held
      · intro here j held'
        rwa [← held.unique pos tbl held']
    rw [only]
    obtain ⟨lost, e, ordered⟩ | ⟨kept, rgn', ret, e, nonneg, ordered, gone⟩ :=
      freeFrom_ordered tbl ic pos low high
    · refine iff_of_false ?_ (not_not.mpr lost)
      rintro ⟨lmb', ret, e', -, -, same, -⟩
      rw [lmbFree, found] at e'
      simp only [e, Option.map_some, Option.some.injEq, Prod.mk.injEq] at e'
      obtain ⟨rfl, rfl⟩ := e'
      -- the first address of the range is no longer covered
      have was : Covered lmb.reserved base := ⟨i, ic, low, by omega⟩
      have now := (same rfl base).mpr was
      rw [cutBefore, covered_set ic] at now
      obtain here | ⟨j, jc, ji, has⟩ := now
      · simp only [Property.Has] at here
        omega
      · exact tbl.other ic jc ji has ⟨low, by omega⟩
    · refine iff_of_true ?_ kept
      refine ⟨{ lmb with reserved := rgn' }, ret, ?_, rfl, fun _ => gone, fun h => by omega,
        by omega, .inl ordered⟩
      rw [lmbFree, found]
      simp only [e, Option.map_some]

end

/-- A piece in the middle of the only region. -/
theorem lmbFree_iff_onePage : FreesExactly 32 ⟨.init, onePage⟩ 0x1400 0x400 ↔
    ∀ i, Holding onePage 0x1400 0x400 i → ¬ TailLost onePage 0x1400 0x400 i :=
  lmbFree_iff (by decide) (by decide) (.inl (ordered_one rfl (by decide) (by decide)))

/-- A table of eight regions, none adjacent to another. -/
def fullTable : Region := ⟨8, fun i => ⟨0x10000 * i, 0x3000⟩⟩

/-- Freeing the middle of one of them fails, and the region has lost its end. -/
theorem not_freesExactly_full : Ordered 0 32 fullTable ∧
    ¬ FreesExactly 32 ⟨.init, fullTable⟩ 0x11000 0x1000 := by
  refine ⟨⟨by decide, by decide, ?_⟩, ?_⟩
  · intro i _
    show 0x10000 * i + 0x3000 + 0 ≤ 0x10000 * (i + 1)
    omega
  · rintro ⟨lmb', ret, e, -, -, same, -⟩
    have run : lmbFree 32 ⟨.init, fullTable⟩ 0x11000 0x1000 =
        some (⟨.init, cutBefore fullTable 1 0x11000⟩, -1) := rfl
    rw [run] at e
    obtain ⟨rfl, rfl⟩ := Prod.mk.inj (Option.some.inj e)
    have was : Covered fullTable 0x11000 := ⟨1, by decide, by decide, by decide⟩
    obtain ⟨i, ic, low, high⟩ := (same rfl 0x11000).mpr was
    have none : ∀ i < 8, ¬ (((cutBefore fullTable 1 0x11000).region i).base ≤ 0x11000 ∧
        0x11000 < ((cutBefore fullTable 1 0x11000).region i).base +
          ((cutBefore fullTable 1 0x11000).region i).size) := by decide
    exact none i ic ⟨low, high⟩

end Imx.Lmb
