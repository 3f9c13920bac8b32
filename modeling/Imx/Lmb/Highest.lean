import Imx.Lmb.Ordered

/-!
# The highest place

`Fits` says which addresses an allocation may return. The search goes over the memory regions from
the last one down, and in each from the highest multiple of the alignment down to the next one below
whatever reserved region is in the way: `tryLoop_highest` shows that no place is skipped on the way.
`lmbAllocBase_iff` adds that the place is returned unless recording it runs off the array, which it
can when `lmb_free` has emptied the reserved table.
-/

namespace Imx.Lmb

variable {w k i j r x base size align maxAddr lim fuel n : Nat} {res : Region} {lmb : Blocks}
  {p : Property}

/-- The place of an allocation: a multiple of the alignment other than 0 with the range inside one
memory region, below the limit if there is one, and free of reserved addresses. -/
structure Fits (lmb : Blocks) (size align maxAddr r : Nat) : Prop where
  ne : r ≠ 0
  dvd : align ∣ r
  inside : ∃ i < lmb.memory.cnt, (lmb.memory.region i).base ≤ r ∧
    r + size ≤ (lmb.memory.region i).base + (lmb.memory.region i).size
  below : maxAddr ≠ 0 → r + size ≤ maxAddr
  free : Free lmb.reserved r size

/-- The allocation returns the highest place, and 0 only when there is none. -/
def AllocatesHighest (w : Nat) (lmb : Blocks) (size align maxAddr : Nat) : Prop :=
  ∃ lmb' r, lmbAllocBase w lmb size align maxAddr = some (lmb', r) ∧
    (r = 0 ∧ (∀ r', ¬ Fits lmb size align maxAddr r') ∨
      Fits lmb size align maxAddr r ∧ ∀ r', Fits lmb size align maxAddr r' → r' ≤ r)

/-- The table `lmb_init` leaves: one region of size 0 at address 0. -/
def Initial (rgn : Region) : Prop := rgn.cnt = 1 ∧ rgn.region 0 = ⟨0, 0⟩

/-- The multiples up to a number are those up to the highest of them. -/
lemma le_alignDown (dvd : align ∣ r) (le : r ≤ n) : r ≤ n / align * align := by
  obtain ⟨m, rfl⟩ := dvd
  by_cases zero : align = 0
  · simp [zero]
  · have pos : 0 < align := Nat.pos_of_ne_zero zero
    rw [Nat.mul_comm]
    apply Nat.mul_le_mul_right
    exact (Nat.le_div_iff_mul_le pos).mpr (by rwa [Nat.mul_comm])

section
variable (tbl : Ordered 0 w res ∨ Initial res)
include tbl

/-- The test for an overlap is right where the range ends below the end of the address space. -/
lemma overlapsRegion_none (bound : base + size < 2 ^ w)
    (none : overlapsRegion w res base size = none) : Free res base size := by
  rintro x ⟨i, ic, low, high⟩ range
  have no := List.find?_eq_none.mp none i (List.mem_range.mpr ic)
  obtain tbl | ⟨one, zero⟩ := tbl
  · rw [addrsOverlap, add_eq bound, add_eq (tbl.bound i ic)] at no
    simp only [Bool.and_eq_true, decide_eq_true_eq, not_and] at no
    omega
  · obtain rfl : i = 0 := by omega
    rw [zero] at low high
    simp only at low high
    omega

/-- A region that is found in the way has an address of the range. -/
lemma overlapsRegion_some (bound : base + size < 2 ^ w)
    (hit : overlapsRegion w res base size = some j) : Ordered 0 w res ∧ j < res.cnt ∧
      base < (res.region j).base + (res.region j).size ∧ (res.region j).base < base + size := by
  have jc := List.mem_range.mp (List.mem_of_find?_eq_some hit)
  have yes := List.find?_some hit
  obtain tbl | ⟨one, zero⟩ := tbl
  · rw [addrsOverlap, add_eq bound, add_eq (tbl.bound j jc)] at yes
    simp only [Bool.and_eq_true, decide_eq_true_eq] at yes
    exact ⟨tbl, jc, yes⟩
  · obtain rfl : j = 0 := by omega
    rw [addrsOverlap, zero, add] at yes
    simp at yes

/-- What the code does with the place it has found. -/
def record (w : Nat) (res : Region) (size align r : Nat) : Option Tried :=
  (addRegion w res r (alignUp w size align)).map fun (p : Region × Int) =>
    if p.2 < 0 then .done p.1 0 else .done p.1 r

/-- The search in one memory region comes to the highest place there, if there is one. -/
lemma tryLoop_highest (lmbbase : Nat) (pos : 0 < size) (kw : k < w) (dvd : 2 ^ k ∣ base)
    (le : base + size ≤ lim) (hl : lim < 2 ^ w) (enough : base < fuel)
    (top : ∀ r, 2 ^ k ∣ r → r + size ≤ lim → Free res r size → r ≤ base) :
    (tryLoop w res lmbbase size (2 ^ k) fuel base = some .next ∧
      ∀ r, r ≠ 0 → lmbbase ≤ r → 2 ^ k ∣ r → r + size ≤ lim → ¬ Free res r size) ∨
    ∃ r, tryLoop w res lmbbase size (2 ^ k) fuel base = record w res size (2 ^ k) r ∧
      r ≠ 0 ∧ lmbbase ≤ r ∧ 2 ^ k ∣ r ∧ r + size ≤ lim ∧ Free res r size ∧
      ∀ r', 2 ^ k ∣ r' → r' + size ≤ lim → Free res r' size → r' ≤ r := by
  induction fuel generalizing base with
  | zero => omega
  | succ fuel ih =>
    rw [tryLoop]
    by_cases go : base ≠ 0 ∧ lmbbase ≤ base
    swap
    · rw [if_neg go]
      refine .inl ⟨rfl, ?_⟩
      intro r ne low rd room free
      have high := top r rd room free
      omega
    rw [if_pos go]
    cases hit : overlapsRegion w res base size with
    | none =>
      have free := overlapsRegion_none tbl (by omega) hit
      exact .inr ⟨base, rfl, go.1, go.2, dvd, le, free, top⟩
    | some j =>
      obtain ⟨tbl', jc, before, behind⟩ := overlapsRegion_some tbl (by omega) hit
      have jb := tbl'.bound j jc
      have jp := tbl'.pos j jc
      -- a place at or below `base` keeps in front of the region that is in the way
      have skip : ∀ r, 2 ^ k ∣ r → r + size ≤ lim → Free res r size →
          r + size ≤ (res.region j).base := by
        intro r rd room free
        have high := top r rd room free
        have side := free.side pos jc jp
        omega
      simp only
      by_cases low : (res.region j).base < size
      · rw [if_pos low]
        refine .inl ⟨rfl, ?_⟩
        intro r ne _ rd room free
        have front := skip r rd room free
        omega
      · rw [if_neg low, sub_eq (by omega) (by omega), alignDown_eq kw (by omega)]
        have down := Nat.div_mul_le_self ((res.region j).base - size) (2 ^ k)
        refine ih (Nat.dvd_mul_left ..) (by omega) (by omega) ?_
        intro r rd room free
        have front := skip r rd room free
        exact le_alignDown rd (by omega)

end

/-- Where the search in a memory region begins: at the highest multiple that leaves room up to the
end of the region or the limit. -/
def Limit (p : Property) (maxAddr : Nat) : Nat :=
  if maxAddr = 0 then p.base + p.size else min (p.base + p.size) maxAddr

/-- A place in the region lies below the limit. -/
lemma le_limit : r + size ≤ Limit p maxAddr ↔
    r + size ≤ p.base + p.size ∧ (maxAddr ≠ 0 → r + size ≤ maxAddr) := by
  rw [Limit]
  split
  · rename_i any
    rw [and_iff_left fun ne => absurd any ne]
  · rename_i some
    rw [Nat.le_min, imp_iff_right some]

/-- A memory region is passed over only where no place can be, and else the search begins at the
highest multiple. -/
lemma startBase_highest (kw : k < w) (pos : 0 < size) (bound : p.base + p.size < 2 ^ w)
    (mlt : maxAddr < 2 ^ w) (fit : maxAddr ≠ 0 → size ≤ maxAddr) :
    (startBase w p size (2 ^ k) maxAddr = none ∧
      ∀ r, p.base ≤ r → ¬ r + size ≤ Limit p maxAddr) ∨
    (startBase w p size (2 ^ k) maxAddr = some ((Limit p maxAddr - size) / 2 ^ k * 2 ^ k) ∧
      size ≤ Limit p maxAddr) := by
  rw [startBase, Limit]
  by_cases small : p.size < size
  · rw [if_pos small]
    refine .inl ⟨rfl, ?_⟩
    intro r low
    split <;> omega
  rw [if_neg small]
  by_cases any : maxAddr = 0
  · rw [if_pos any, if_pos any, add_eq bound, sub_eq bound (by omega), alignDown_eq kw (by omega)]
    exact .inr ⟨rfl, by omega⟩
  rw [if_neg any, if_neg any]
  have fit := fit any
  by_cases below : p.base < maxAddr
  · rw [if_pos below]
    simp only [add_eq bound]
    rw [if_neg (by omega), sub_eq (by omega) (by omega), alignDown_eq kw (by omega)]
    exact .inr ⟨rfl, by omega⟩
  · rw [if_neg below]
    refine .inl ⟨rfl, ?_⟩
    intro r low
    omega

/-! ## Recording the place -/

/-- The loop over the stale regions of an emptied table does not run off the array. -/
def Recordable (w : Nat) (res : Region) : Prop := res.cnt ≠ 0 ∨ regionsAdjacent w res 0 1 = 0

/-- A table with room takes any range, unless the loop runs off the array. -/
lemma addRegion_room (room : res.cnt < maxLmbRegions) (ok : Recordable w res) :
    ∃ res' ret, addRegion w res base size = some (res', ret) ∧ 0 ≤ ret := by
  have next : ∀ rgn i, 0 ≤ (coalesceNext w rgn i).2 := by
    intro rgn i
    rw [coalesceNext]
    split
    · exact show (0 : Int) ≤ 2 by decide
    · exact show (0 : Int) ≤ 1 by decide
  rw [addRegion]
  by_cases dummy : res.cnt = 1 ∧ (res.region 0).size = 0
  · rw [if_pos dummy]
    exact ⟨_, _, rfl, Int.le_refl 0⟩
  rw [if_neg dummy]
  cases touch w res base size (List.range res.cnt) with
  | no =>
    have runs : ¬ (res.cnt = 0 ∧ regionsAdjacent w res 0 1 ≠ 0) := by
      rintro ⟨zero, adj⟩
      exact adj (ok.resolve_left (not_not.mpr zero))
    simp only
    rw [if_neg runs, if_neg (by omega)]
    exact ⟨_, _, rfl, Int.le_refl 0⟩
  | same => exact ⟨_, _, rfl, Int.le_refl 0⟩
  | below i => exact ⟨_, _, rfl, next _ _⟩
  | above i => exact ⟨_, _, rfl, next _ _⟩

/-- The place that was found is returned, or recording it runs off the array. -/
lemma record_ok (room : res.cnt < maxLmbRegions) (ok : Recordable w res) :
    ∃ res', record w res size align r = some (.done res' r) := by
  obtain ⟨res', ret, e, nonneg⟩ : ∃ res' ret, addRegion w res r (alignUp w size align) =
      some (res', ret) ∧ 0 ≤ ret := addRegion_room room ok
  refine ⟨res', ?_⟩
  rw [record, e, Option.map_some, if_neg (by omega)]

lemma record_off (no : ¬ Recordable w res) : record w res size align r = none := by
  rw [Recordable, not_or, not_not] at no
  obtain ⟨zero, adj⟩ := no
  rw [record, addRegion, if_neg (by omega), zero]
  have none : (if (0 : Nat) = 0 ∧ regionsAdjacent w res 0 1 ≠ 0 then none
      else if maxLmbRegions ≤ 0 then some (res, (-1 : Int))
      else some (insertRegion res r (alignUp w size align), 0)) = none := if_pos ⟨rfl, adj⟩
  exact congrArg (Option.map _) none

/-! ## The memory regions -/

/-- The place lies in memory region `i`. -/
def FitsIn (lmb : Blocks) (size align maxAddr i r : Nat) : Prop :=
  r ≠ 0 ∧ align ∣ r ∧ (lmb.memory.region i).base ≤ r ∧
    r + size ≤ Limit (lmb.memory.region i) maxAddr ∧ Free lmb.reserved r size

lemma fits_iff : Fits lmb size align maxAddr r ↔
    ∃ i < lmb.memory.cnt, FitsIn lmb size align maxAddr i r := by
  constructor
  · rintro ⟨ne, dvd, ⟨i, ic, low, high⟩, below, free⟩
    exact ⟨i, ic, ne, dvd, low, le_limit.mpr ⟨high, below⟩, free⟩
  · rintro ⟨i, ic, ne, dvd, low, high, free⟩
    obtain ⟨high, below⟩ := le_limit.mp high
    exact ⟨ne, dvd, ⟨i, ic, low, high⟩, below, free⟩

/-- What the search in the memory regions below `n` comes to: the highest place in them, which is
then recorded, or 0 if there is none. -/
def Searched (w : Nat) (lmb : Blocks) (size align maxAddr n : Nat) : Prop :=
  (allocLoop w lmb size align maxAddr n = some (lmb, 0) ∧
    ∀ i < n, ∀ r, ¬ FitsIn lmb size align maxAddr i r) ∨
  ∃ r, (∃ i < n, FitsIn lmb size align maxAddr i r) ∧
    (∀ i < n, ∀ r', FitsIn lmb size align maxAddr i r' → r' ≤ r) ∧
    (Recordable w lmb.reserved →
      ∃ lmb', allocLoop w lmb size align maxAddr n = some (lmb', r)) ∧
    (¬ Recordable w lmb.reserved → allocLoop w lmb size align maxAddr n = none)

section
variable (memory : Ordered 0 w lmb.memory ∨ Initial lmb.memory)
  (reserved : Ordered 0 w lmb.reserved ∨ Initial lmb.reserved)
  (room : lmb.reserved.cnt < maxLmbRegions) (pos : 0 < size) (kw : k < w)
  (mlt : maxAddr < 2 ^ w) (fit : maxAddr ≠ 0 → size ≤ maxAddr)
include memory reserved room pos kw mlt fit

/-- The memory regions are searched from the last one down, so the first place found is the
highest. -/
lemma allocLoop_highest (le : n ≤ lmb.memory.cnt) : Searched w lmb size (2 ^ k) maxAddr n := by
  have bound : ∀ i < lmb.memory.cnt,
      (lmb.memory.region i).base + (lmb.memory.region i).size < 2 ^ w := by
    intro i ic
    obtain tbl | ⟨one, zero⟩ := memory
    · exact tbl.bound i ic
    · obtain rfl : i = 0 := by omega
      rw [zero]
      exact Nat.two_pow_pos w
  have apart : ∀ i j, i < j → j < lmb.memory.cnt →
      (lmb.memory.region i).base + (lmb.memory.region i).size ≤ (lmb.memory.region j).base := by
    intro i j ij jc
    obtain tbl | ⟨one, -⟩ := memory
    · exact tbl.lt ij jc
    · omega
  induction n with
  | zero => exact .inl ⟨rfl, fun i h => absurd h (Nat.not_lt_zero i)⟩
  | succ n ih =>
    have ih := ih (by omega)
    -- where region `n` has no place the search goes on below it
    have pass (none : ∀ r, ¬ FitsIn lmb size (2 ^ k) maxAddr n r)
        (on : allocLoop w lmb size (2 ^ k) maxAddr (n + 1) =
          allocLoop w lmb size (2 ^ k) maxAddr n) :
        Searched w lmb size (2 ^ k) maxAddr (n + 1) := by
      rw [Searched, on]
      obtain ⟨zero, no⟩ | ⟨r, ⟨i, lt, here⟩, high, yes, off⟩ := ih
      · refine .inl ⟨zero, ?_⟩
        intro i lt r
        obtain lt | rfl := Nat.lt_succ_iff_lt_or_eq.mp lt
        · exact no i lt r
        · exact none r
      · refine .inr ⟨r, ⟨i, by omega, here⟩, ?_, yes, off⟩
        intro j lt r' other
        obtain lt | rfl := Nat.lt_succ_iff_lt_or_eq.mp lt
        · exact high j lt r' other
        · exact absurd other (none r')
    obtain ⟨start, no⟩ | ⟨start, room'⟩ :=
      startBase_highest kw pos (bound n (by omega)) mlt fit
    · refine pass ?_ (by rw [allocLoop, start])
      rintro r ⟨-, -, low, high, -⟩
      exact no r low high
    have ends : Limit (lmb.memory.region n) maxAddr < 2 ^ w := by
      have here := bound n (by omega)
      rw [Limit]
      split <;> omega
    have down := Nat.div_mul_le_self (Limit (lmb.memory.region n) maxAddr - size) (2 ^ k)
    obtain ⟨next, no⟩ | ⟨r, found, ne, low, dvd, high, free, top⟩ :=
      tryLoop_highest reserved (lmb.memory.region n).base pos kw
        (Nat.dvd_mul_left (2 ^ k) ((Limit (lmb.memory.region n) maxAddr - size) / 2 ^ k))
        (show _ + size ≤ Limit (lmb.memory.region n) maxAddr by omega) ends (Nat.lt_succ_self _)
        (fun r rd under _ => le_alignDown rd (by omega))
    · refine pass ?_ (by rw [allocLoop, start]; simp only [next])
      rintro r ⟨ne, dvd, low, high, free⟩
      exact no r ne low dvd high free
    · refine .inr ⟨r, ⟨n, Nat.lt_succ_self n, ne, dvd, low, high, free⟩, ?_, ?_, ?_⟩
      · intro i lt r' other
        obtain lt | rfl := Nat.lt_succ_iff_lt_or_eq.mp lt
        · have before := apart i n lt (by omega)
          have inside := (le_limit.mp other.2.2.2.1).1
          omega
        · exact top r' other.2.1 other.2.2.2.1 other.2.2.2.2
      · intro ok
        obtain ⟨res', e⟩ : ∃ res', record w lmb.reserved size (2 ^ k) r = some (.done res' r) :=
          record_ok room ok
        refine ⟨{ lmb with reserved := res' }, ?_⟩
        rw [allocLoop, start]
        simp only [found, e]
      · intro off
        rw [allocLoop, start]
        simp only [found, record_off off]

/-- The allocation returns the highest place, and 0 only when there is none, unless there is one
and recording it runs off the array: when `lmb_free` has emptied the reserved table and its first
two stale regions are adjacent. -/
theorem lmbAllocBase_iff : AllocatesHighest w lmb size (2 ^ k) maxAddr ↔
    Recordable w lmb.reserved ∨ ∀ r, ¬ Fits lmb size (2 ^ k) maxAddr r := by
  rw [AllocatesHighest, lmbAllocBase]
  simp only [fits_iff]
  obtain ⟨zero, no⟩ | ⟨r, here, high, yes, off⟩ :=
    allocLoop_highest memory reserved room pos kw mlt fit (Nat.le_refl lmb.memory.cnt)
  · have none : ∀ r, ¬ ∃ i < lmb.memory.cnt, FitsIn lmb size (2 ^ k) maxAddr i r := by
      rintro r ⟨i, ic, here⟩
      exact no i ic r here
    exact iff_of_true ⟨lmb, 0, zero, .inl ⟨rfl, none⟩⟩ (.inr none)
  · by_cases ok : Recordable w lmb.reserved
    · obtain ⟨lmb', e⟩ := yes ok
      refine iff_of_true ⟨lmb', r, e, .inr ⟨here, ?_⟩⟩ (.inl ok)
      rintro r' ⟨i, ic, other⟩
      exact high i ic r' other
    · refine iff_of_false ?_ ?_
      · rintro ⟨lmb', r', e, -⟩
        rw [off ok] at e
        exact absurd e (by simp)
      · rintro (ok' | none)
        · exact ok ok'
        · exact none r here

end

/-- Below the reserved end of the only region. -/
theorem lmbAllocBase_iff_onePage :
    AllocatesHighest 32 ⟨onePage, ⟨1, fun _ => ⟨0x1f80, 0x80⟩⟩⟩ 0x100 (2 ^ 7) 0 ↔
      Recordable 32 ⟨1, fun _ => ⟨0x1f80, 0x80⟩⟩ ∨
        ∀ r, ¬ Fits ⟨onePage, ⟨1, fun _ => ⟨0x1f80, 0x80⟩⟩⟩ 0x100 (2 ^ 7) 0 r :=
  lmbAllocBase_iff (.inl (ordered_one rfl (by decide) (by decide)))
    (.inl (ordered_one rfl (by decide) (by decide))) (by decide) (by decide) (by decide)
    (by decide) (fun h => absurd rfl h)

/-- A run that leaves the reserved table empty, with two stale regions that are adjacent. -/
def seamRun : List Op :=
  [.add 0x10000000 0x10000000, .reserve 0x11000000 0x1000, .reserve 0x11002000 0x1000,
    .free 0x11002000 0x1000, .reserve 0x11001000 0x1000, .free 0x11000000 0x2000]

/-- After it an allocation runs off the array. -/
theorem not_allocatesHighest_seam :
    Ordered 0 32 (seamRun.foldl (step 32) State.start).lmb.memory ∧
    Ordered 0 32 (seamRun.foldl (step 32) State.start).lmb.reserved ∧
    ¬ AllocatesHighest 32 (seamRun.foldl (step 32) State.start).lmb 0x1000 0x1000 0 := by
  have zero : (seamRun.foldl (step 32) State.start).lmb.reserved.cnt = 0 := by decide
  refine ⟨ordered_one (by decide) (by decide) (by decide), ?_, ?_⟩
  · refine ⟨?_, ?_, ?_⟩
    · intro i ic
      omega
    · intro i ic
      omega
    · intro i ic
      omega
  · rintro ⟨lmb', r, e, -⟩
    have off : (lmbAllocBase 32 (seamRun.foldl (step 32) State.start).lmb 0x1000 0x1000 0).isNone =
        true := by decide
    rw [e] at off
    exact absurd off (by simp)

end Imx.Lmb
