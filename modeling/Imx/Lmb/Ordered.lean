import Imx.Lmb.Alloc

/-!
# Tables in order

`Ordered d w rgn` says that the regions of a table are in the order of their bases, at least `d`
addresses apart, and that none ends above the last address: with `d = 0` the regions are disjoint,
with `d = 1` no two of them are adjacent either. Adding a range that is disjoint from the table
keeps this (`addRegion_ordered`): the range goes where it belongs, and takes in what it touches.
`addRegion_iff` adds the table that `lmb_free` has emptied, whose array the code still looks at.
-/

namespace Imx.Lmb

variable {w d i j m x base size : Nat} {rgn rgn' : Region} {p q : Property}

/-- The regions are in order, at least `d` apart, not empty, and end at the last address or
below. -/
structure Ordered (d w : Nat) (rgn : Region) : Prop where
  bound : ∀ i < rgn.cnt, (rgn.region i).base + (rgn.region i).size < 2 ^ w
  pos : ∀ i < rgn.cnt, 0 < (rgn.region i).size
  gap : ∀ i, i + 1 < rgn.cnt →
    (rgn.region i).base + (rgn.region i).size + d ≤ (rgn.region (i + 1)).base

/-- The range has no address of the table. -/
def Free (rgn : Region) (base size : Nat) : Prop :=
  ∀ x, Covered rgn x → ¬ (base ≤ x ∧ x < base + size)

/-- The range does not touch region `i`. -/
def ClearOf (rgn : Region) (base size i : Nat) : Prop :=
  (rgn.region i).base + (rgn.region i).size ≠ base ∧ base + size ≠ (rgn.region i).base

/-- The range touches no region of the table. -/
def Untouched (rgn : Region) (base size : Nat) : Prop :=
  ∀ i < rgn.cnt, ClearOf rgn base size i

namespace Ordered

/-- A region ends where a later one begins, or before. -/
lemma lt (tbl : Ordered d w rgn) (ij : i < j) (jc : j < rgn.cnt) :
    (rgn.region i).base + (rgn.region i).size + d ≤ (rgn.region j).base := by
  induction ij with
  | refl => exact tbl.gap i jc
  | step ij ih =>
    have jc : _ + 1 < rgn.cnt := jc
    have before := ih (by omega)
    have next := tbl.gap _ jc
    exact Nat.le_trans before (by rw [Nat.add_assoc] at next; exact Nat.le_of_add_right_le next)

lemma sorted (tbl : Ordered d w rgn) : Sorted rgn := by
  intro i _ h
  have next := tbl.gap i h
  omega

lemma good (tbl : Ordered d w rgn) : Good w (2 ^ w - 1) rgn where
  bound i ic := by
    have last := tbl.bound i ic
    omega
  pos := tbl.pos
  small i ic := by
    have last := tbl.bound i ic
    omega

/-- A region may be exchanged for one that keeps apart from its neighbours. -/
lemma set (tbl : Ordered d w rgn) (bound : p.base + p.size < 2 ^ w) (pos : 0 < p.size)
    (before : ∀ j, j + 1 = i → (rgn.region j).base + (rgn.region j).size + d ≤ p.base)
    (after : i + 1 < rgn.cnt → p.base + p.size + d ≤ (rgn.region (i + 1)).base) :
    Ordered d w (rgn.set i p) where
  bound j jc := by
    by_cases ji : j = i
    · rwa [ji, Region.set_self]
    · rw [Region.set_ne ji]
      exact tbl.bound j jc
  pos j jc := by
    by_cases ji : j = i
    · rwa [ji, Region.set_self]
    · rw [Region.set_ne ji]
      exact tbl.pos j jc
  gap j jc := by
    by_cases ji : j = i
    · subst ji
      rw [Region.set_self, Region.set_ne (by omega)]
      exact after jc
    · rw [Region.set_ne ji]
      by_cases ji' : j + 1 = i
      · rw [ji', Region.set_self]
        exact before j ji'
      · rw [Region.set_ne ji']
        exact tbl.gap j jc

/-- A region may be taken out. -/
lemma remove (tbl : Ordered d w rgn) : Ordered d w (removeRegion rgn i) where
  bound j jc := by
    simp only [removeRegion] at jc ⊢
    split
    · exact tbl.bound (j + 1) (by omega)
    · exact tbl.bound j (by omega)
  pos j jc := by
    simp only [removeRegion] at jc ⊢
    split
    · exact tbl.pos (j + 1) (by omega)
    · exact tbl.pos j (by omega)
  gap j jc := by
    simp only [removeRegion] at jc ⊢
    by_cases ij : i ≤ j
    · rw [if_pos (by omega), if_pos (by omega)]
      exact tbl.gap (j + 1) (by omega)
    · rw [if_neg (by omega)]
      split
      · have two := tbl.lt (show j < j + 1 + 1 by omega) (by omega)
        exact two
      · exact tbl.gap j (by omega)

/-- A region may be put in where it keeps apart from the others. -/
lemma insert (tbl : Ordered d w rgn) (ins : InsertedAt rgn rgn' p m)
    (bound : p.base + p.size < 2 ^ w) (pos : 0 < p.size)
    (before : ∀ j, j + 1 = m → (rgn.region j).base + (rgn.region j).size + d ≤ p.base)
    (after : m < rgn.cnt → p.base + p.size + d ≤ (rgn.region m).base) : Ordered d w rgn' := by
  have le := ins.le
  have each {j} (jc : j < rgn'.cnt) : rgn'.region j = p ∨
      ∃ k < rgn.cnt, rgn'.region j = rgn.region k := by
    rw [ins.cnt] at jc
    rcases Nat.lt_trichotomy j m with lt | rfl | gt
    · exact .inr ⟨j, by omega, ins.before j lt⟩
    · exact .inl ins.here
    · exact .inr ⟨j - 1, by omega, ins.after j gt (by omega)⟩
  refine ⟨?_, ?_, ?_⟩
  · intro j jc
    obtain e | ⟨k, kc, e⟩ := each jc
    · rwa [e]
    · rw [e]
      exact tbl.bound k kc
  · intro j jc
    obtain e | ⟨k, kc, e⟩ := each jc
    · rwa [e]
    · rw [e]
      exact tbl.pos k kc
  · intro j jc
    rw [ins.cnt] at jc
    rcases Nat.lt_trichotomy (j + 1) m with lt | eq | gt
    · rw [ins.before j (by omega), ins.before (j + 1) lt]
      exact tbl.gap j (by omega)
    · rw [ins.before j (by omega), eq, ins.here]
      exact before j eq
    · by_cases jm : j = m
      · subst jm
        rw [ins.here, ins.after (j + 1) (by omega) (by omega)]
        exact after (by omega)
      · rw [ins.after j (by omega) (by omega), ins.after (j + 1) (by omega) (by omega)]
        have next := tbl.gap (j - 1) (by omega)
        rwa [show j - 1 + 1 = j + 1 - 1 by omega] at next

end Ordered

/-- A range that is free keeps to one side of each region. -/
lemma Free.side (free : Free rgn base size) (pos : 0 < size) (ic : i < rgn.cnt)
    (ipos : 0 < (rgn.region i).size) :
    base + size ≤ (rgn.region i).base ∨ (rgn.region i).base + (rgn.region i).size ≤ base := by
  by_contra no
  have low := free (max base (rgn.region i).base) ⟨i, ic, by omega, by omega⟩
  omega

/-! ## What the range touches -/

section
variable (tbl : Ordered d w rgn) (bound : base + size < 2 ^ w) (pos : 0 < size)
  (free : Free rgn base size)
include tbl bound pos free

/-- The first loop of `lmb_add_region` finds the first region that the range touches. -/
lemma touch_first {is : List Nat} (inc : is.Pairwise (· < ·)) (inside : ∀ i ∈ is, i < rgn.cnt) :
    (touch w rgn base size is = .no ∧ ∀ i ∈ is, ClearOf rgn base size i) ∨
    ∃ i ∈ is, (∀ j ∈ is, j < i → ClearOf rgn base size j) ∧
      (touch w rgn base size is = .below i ∧ (rgn.region i).base = base + size ∨
        touch w rgn base size is = .above i ∧
          base = (rgn.region i).base + (rgn.region i).size) := by
  induction is with
  | nil => exact .inl ⟨rfl, fun i h => absurd h List.not_mem_nil⟩
  | cons i is ih =>
    have ic := inside i (.head _)
    have ib := tbl.bound i ic
    have side := free.side pos ic (tbl.pos i ic)
    have first : ∀ j ∈ i :: is, j < i → ClearOf rgn base size j := by
      intro j hj ji
      obtain rfl | hj := List.mem_cons.mp hj
      · omega
      · have := List.rel_of_pairwise_cons inc hj
        omega
    have other : ¬ ((rgn.region i).base = base ∧ (rgn.region i).size = size) := by omega
    rw [touch]
    simp only [if_neg other, addrsAdjacent, add_eq bound, add_eq ib]
    by_cases low : (rgn.region i).base = base + size
    · exact .inr ⟨i, .head _, first, .inl ⟨by simp [low], low⟩⟩
    · by_cases high : base = (rgn.region i).base + (rgn.region i).size
      · refine .inr ⟨i, .head _, first, .inr ⟨?_, high⟩⟩
        rw [if_neg low, if_pos high, if_neg (by omega), if_pos (by omega)]
      · have clear : ClearOf rgn base size i := ⟨fun e => high e.symm, fun e => low e.symm⟩
        rw [if_neg low, if_neg high, if_neg (by omega), if_neg (by omega)]
        obtain ⟨no, all⟩ | ⟨k, kis, before, found⟩ :=
          ih inc.of_cons fun j hj => inside j (.tail _ hj)
        · refine .inl ⟨no, ?_⟩
          intro j hj
          obtain rfl | hj := List.mem_cons.mp hj
          · exact clear
          · exact all j hj
        · refine .inr ⟨k, .tail _ kis, ?_, found⟩
          intro j hj jk
          obtain rfl | hj := List.mem_cons.mp hj
          · exact clear
          · exact before j hj jk

end

/-- Taking out a later region and exchanging one commute. -/
lemma remove_set (ij : i < j) : removeRegion (rgn.set i p) j = (removeRegion rgn j).set i p := by
  simp only [removeRegion, Region.set]
  congr 1
  funext k
  show (if j ≤ k ∧ k < rgn.cnt - 1 then if k + 1 = i then p else rgn.region (k + 1)
    else if k = i then p else rgn.region k) =
    if k = i then p else if j ≤ k ∧ k < rgn.cnt - 1 then rgn.region (k + 1) else rgn.region k
  by_cases moved : j ≤ k ∧ k < rgn.cnt - 1
  · rw [if_pos moved, if_pos moved, if_neg (by omega), if_neg (by omega)]
  · rw [if_neg moved, if_neg moved]

lemma set_set : (rgn.set i p).set i q = rgn.set i q := by
  simp only [Region.set]
  congr 1
  funext k
  split <;> rfl

/-- A region that was extended takes in the next one where they are adjacent now. -/
lemma coalesceNext_ordered (tbl : Ordered d w rgn) (one : d ≤ 1) (ic : i < rgn.cnt)
    (bound : q.base + q.size < 2 ^ w) (pos : 0 < q.size)
    (before : ∀ j, j + 1 = i → (rgn.region j).base + (rgn.region j).size + d ≤ q.base)
    (after : i + 1 < rgn.cnt → q.base + q.size ≤ (rgn.region (i + 1)).base) :
    Ordered d w (coalesceNext w (rgn.set i q) i).1 ∧ 0 ≤ (coalesceNext w (rgn.set i q) i).2 := by
  rw [coalesceNext]
  by_cases next : i + 1 < rgn.cnt
  swap
  · rw [if_neg (by rw [Region.set_cnt]; omega)]
    exact ⟨tbl.set bound pos before fun h => absurd h next, Int.one_nonneg⟩
  have nb := tbl.bound (i + 1) next
  have np := tbl.pos (i + 1) next
  have apart := after next
  have adjacent : regionsAdjacent w (rgn.set i q) i (i + 1) ≠ 0 ↔
      (rgn.region (i + 1)).base = q.base + q.size := by
    rw [regionsAdjacent, Region.set_self, Region.set_ne (by omega), addrsAdjacent, add_eq bound,
      add_eq nb]
    by_cases meet : (rgn.region (i + 1)).base = q.base + q.size
    · rw [if_pos meet]
      exact iff_of_true (by decide) meet
    · rw [if_neg meet, if_neg (by omega)]
      exact iff_of_false (by decide) meet
  by_cases meet : (rgn.region (i + 1)).base = q.base + q.size
  · rw [if_pos ⟨by rw [Region.set_cnt]; omega, adjacent.mpr meet⟩]
    refine ⟨?_, show (0 : Int) ≤ 2 by decide⟩
    rw [coalesceRegions, Region.set_self, Region.set_ne (by omega),
      add_eq (by omega), set_set, remove_set (Nat.lt_succ_self i)]
    refine (tbl.remove (i := i + 1)).set ?_ ?_ ?_ ?_
    · simp only
      omega
    · simp only
      omega
    · intro j ji
      simp only [removeRegion]
      rw [if_neg (by omega)]
      exact before j ji
    · intro h
      simp only [removeRegion] at h ⊢
      rw [if_pos (by omega)]
      have far := tbl.gap (i + 1) (by omega)
      omega
  · rw [if_neg fun h => meet (adjacent.mp h.2)]
    exact ⟨tbl.set bound pos before fun h => by omega, Int.one_nonneg⟩

section
variable (tbl : Ordered d w rgn) (one : d ≤ 1) (cnt : 1 ≤ rgn.cnt)
  (bound : base + size < 2 ^ w) (pos : 0 < size) (free : Free rgn base size)
include tbl one cnt bound pos free

/-- Adding a free range to a table in order: it is refused exactly when it touches no region and
the table is full, and the table stays in order. -/
lemma addRegion_ordered :
    (Untouched rgn base size ∧ maxLmbRegions ≤ rgn.cnt ∧
      addRegion w rgn base size = some (rgn, -1)) ∨
    (¬ (Untouched rgn base size ∧ maxLmbRegions ≤ rgn.cnt) ∧
      ∃ rgn' ret, addRegion w rgn base size = some (rgn', ret) ∧ 0 ≤ ret ∧ Ordered d w rgn' ∧
        1 ≤ rgn'.cnt ∧ ∀ x, Covered rgn' x ↔ Covered rgn x ∨ (base ≤ x ∧ x < base + size)) := by
  have notDummy : ¬ (rgn.cnt = 1 ∧ (rgn.region 0).size = 0) := by
    have first := tbl.pos 0 (by omega)
    omega
  have seam : Dummy rgn ∨ NoSeam w rgn base size :=
    .inr (noSeam_of_lt (by omega) tbl.good (by omega))
  obtain ⟨rgn', ret, e, added⟩ := addRegion_spec (by omega) cnt tbl.sorted (.inl tbl.good)
    (by omega) pos (by omega) seam
  have inc : (List.range rgn.cnt).Pairwise (· < ·) := List.pairwise_lt_range
  have inside : ∀ i ∈ List.range rgn.cnt, i < rgn.cnt := fun i h => List.mem_range.mp h
  obtain ⟨no, all⟩ | ⟨i, ir, before, found⟩ := touch_first tbl bound pos free inc inside
  · have clear : Untouched rgn base size := fun i ic => all i (List.mem_range.mpr ic)
    by_cases full : maxLmbRegions ≤ rgn.cnt
    · refine .inl ⟨clear, full, ?_⟩
      rw [addRegion, if_neg notDummy]
      simp only [no]
      rw [if_neg (by omega), if_pos full]
    · have here : addRegion w rgn base size = some (insertRegion rgn base size, 0) := by
        rw [addRegion, if_neg notDummy]
        simp only [no]
        rw [if_neg (by omega), if_neg full]
      rw [here] at e
      obtain ⟨rfl, rfl⟩ := Prod.mk.inj (Option.some.inj e)
      refine .inr ⟨fun h => full h.2, _, _, here, Int.le_refl 0, ?_, added.cnt,
        added.covered (Int.le_refl 0)⟩
      obtain ⟨m, ins, low, high⟩ := @insertRegion_spec rgn base size tbl.sorted cnt
      have le := ins.le
      refine tbl.insert ins bound pos ?_ ?_
      · intro j jm
        have jl := low j (by omega)
        have side := free.side pos (show j < rgn.cnt by omega) (tbl.pos j (by omega))
        have touch := clear j (by omega)
        have apart := touch.1
        simp only
        omega
      · intro mc
        have jl := high m (Nat.le_refl m) mc
        have side := free.side pos mc (tbl.pos m mc)
        have touch := clear m mc
        have apart := touch.2
        simp only
        omega
  · have ic := List.mem_range.mp ir
    have ib := tbl.bound i ic
    have ip := tbl.pos i ic
    have touched : ¬ Untouched rgn base size := by
      intro clear
      have here := clear i ic
      obtain ⟨-, low⟩ | ⟨-, high⟩ := found
      · exact here.2 low.symm
      · exact here.1 high.symm
    have left : ∀ j, j + 1 = i → (rgn.region j).base + (rgn.region j).size ≤ base →
        (rgn.region j).base + (rgn.region j).size + d ≤ base := by
      intro j ji le
      have clear := before j (List.mem_range.mpr (by omega)) (by omega)
      have apart := clear.1
      omega
    -- either way the region now has the range, and the next one may follow at once
    have extended : ∃ q : Property, addRegion w rgn base size =
        some (coalesceNext w (rgn.set i q) i) ∧ Ordered d w (coalesceNext w (rgn.set i q) i).1 ∧
        0 ≤ (coalesceNext w (rgn.set i q) i).2 := by
      obtain ⟨found, low⟩ | ⟨found, high⟩ := found
      · refine ⟨⟨base, (rgn.region i).size + size⟩, ?_,
          coalesceNext_ordered tbl one ic ?_ ?_ ?_ ?_⟩
        · rw [addRegion, if_neg notDummy]
          simp only [found]
          rw [sub_eq (by omega) (by omega), add_eq (by omega), low, Nat.add_sub_cancel]
        · simp only
          omega
        · simp only
          omega
        · intro j ji
          have side := free.side pos (show j < rgn.cnt by omega) (tbl.pos j (by omega))
          have near := tbl.gap j (by omega)
          have filled := tbl.pos j (by omega)
          rw [ji] at near
          exact left j ji (by omega)
        · intro next
          have near := tbl.gap i next
          simp only
          omega
      · refine ⟨⟨(rgn.region i).base, (rgn.region i).size + size⟩, ?_,
          coalesceNext_ordered tbl one ic ?_ ?_ ?_ ?_⟩
        · rw [addRegion, if_neg notDummy]
          simp only [found]
          rw [add_eq (by omega)]
        · simp only
          omega
        · simp only
          omega
        · intro j ji
          have near := tbl.gap j (by omega)
          rwa [ji] at near
        · intro next
          have near := tbl.gap i next
          have side := free.side pos next (tbl.pos (i + 1) next)
          have np := tbl.pos (i + 1) next
          simp only
          omega
    obtain ⟨q, here, ordered, nonneg⟩ := extended
    rw [here] at e
    have e1 := congrArg Prod.fst (Option.some.inj e)
    have e2 := congrArg Prod.snd (Option.some.inj e)
    subst e1 e2
    exact .inr ⟨fun h => touched h.1, _, _, here, nonneg, ordered, added.cnt,
      added.covered nonneg⟩

end

/-! ## Adding a range -/

/-- The range is refused, with the table as it was, exactly when it touches no region and the table
is full; otherwise its addresses are added and the table is in order with no regions adjacent. -/
def AddsExactly (w : Nat) (rgn : Region) (base size : Nat) : Prop :=
  ∃ rgn' ret, addRegion w rgn base size = some (rgn', ret) ∧
    (Untouched rgn base size ∧ maxLmbRegions ≤ rgn.cnt ∧ ret = -1 ∧ rgn' = rgn ∨
      ¬ (Untouched rgn base size ∧ maxLmbRegions ≤ rgn.cnt) ∧ ret ≠ -1 ∧ Ordered 1 w rgn' ∧
        ∀ x, Covered rgn' x ↔ Covered rgn x ∨ (base ≤ x ∧ x < base + size))

/-- The addresses of a table with one region. -/
lemma covered_one (one : rgn.cnt = 1) : Covered rgn x ↔ (rgn.region 0).Has x := by
  constructor
  · rintro ⟨i, ic, has⟩
    obtain rfl : i = 0 := by omega
    exact has
  · intro has
    exact ⟨0, by omega, has⟩

lemma not_covered_empty (zero : rgn.cnt = 0) : ¬ Covered rgn x := by
  rintro ⟨i, ic, -⟩
  omega

/-- A table with one region is in order. -/
lemma ordered_one (one : rgn.cnt = 1)
    (bound : (rgn.region 0).base + (rgn.region 0).size < 2 ^ w) (pos : 0 < (rgn.region 0).size) :
    Ordered d w rgn where
  bound i ic := by
    obtain rfl : i = 0 := by omega
    exact bound
  pos i ic := by
    obtain rfl : i = 0 := by omega
    exact pos
  gap i ic := by omega

section
variable (bound : base + size < 2 ^ w) (pos : 0 < size)
include bound pos

/-- The first range takes the place of the dummy region. -/
lemma Dummy.addsExactly (dummy : Dummy rgn) : AddsExactly w rgn base size := by
  obtain ⟨one, zero⟩ := dummy
  have notFull : ¬ (Untouched rgn base size ∧ maxLmbRegions ≤ rgn.cnt) := by
    rintro ⟨-, full⟩
    rw [one] at full
    exact absurd full (by decide)
  refine ⟨_, _, by rw [addRegion, if_pos ⟨one, zero⟩], .inr ⟨notFull, by decide, ?_, ?_⟩⟩
  · apply ordered_one
    · rwa [Region.set_cnt]
    · rwa [Region.set_self]
    · rwa [Region.set_self]
  · intro x
    rw [covered_one one, covered_one (by rwa [Region.set_cnt]), Region.set_self]
    simp only [Property.Has, zero]
    omega

/-- In the table that was emptied the range is stored when it begins below the stale first
region. -/
lemma empty_iff (zero : rgn.cnt = 0) : AddsExactly w rgn base size ↔
    regionsAdjacent w rgn 0 1 = 0 ∧ (base < (rgn.region 0).base ∨ rgn.region 0 = ⟨base, size⟩) := by
  have notFull : ¬ (Untouched rgn base size ∧ maxLmbRegions ≤ rgn.cnt) := by
    rintro ⟨-, full⟩
    rw [zero] at full
    exact absurd full (by decide)
  have run : addRegion w rgn base size = if regionsAdjacent w rgn 0 1 ≠ 0 then none
      else some (insertRegion rgn base size, 0) := by
    rw [addRegion, if_neg (by omega), zero]
    by_cases adj : regionsAdjacent w rgn 0 1 ≠ 0
    · rw [if_pos adj]
      exact if_pos ⟨rfl, adj⟩
    · rw [if_neg adj]
      exact (if_neg fun h => adj h.2).trans (if_neg (by decide))
  have cnt : (insertRegion rgn base size).cnt = 1 := by
    rw [insertRegion, zero, insertLoop]
    simp only
    split
    · rw [Region.set_cnt, zero]
    · rw [zero]
  have first : (insertRegion rgn base size).region 0 =
      if base < (rgn.region 0).base then ⟨base, size⟩ else rgn.region 0 := by
    rw [insertRegion, zero, insertLoop]
    simp only
    split
    · rw [Region.set_self]
    · rfl
  by_cases adj : regionsAdjacent w rgn 0 1 = 0
  swap
  · refine iff_of_false ?_ (fun h => adj h.1)
    rintro ⟨rgn', ret, e, -⟩
    rw [run, if_pos adj] at e
    exact absurd e (by simp)
  rw [and_iff_right adj]
  constructor
  · rintro ⟨rgn', ret, e, ⟨clear, full, -⟩ | ⟨-, -, -, cov⟩⟩
    · exact absurd ⟨clear, full⟩ notFull
    · rw [run, if_neg (not_not.mpr adj)] at e
      obtain ⟨rfl, -⟩ := Prod.mk.inj (Option.some.inj e)
      by_cases lt : base < (rgn.region 0).base
      · exact .inl lt
      · have same : ∀ x, (rgn.region 0).Has x ↔ base ≤ x ∧ x < base + size := by
          intro x
          have here := cov x
          rwa [covered_one cnt, first, if_neg lt, or_iff_right (not_covered_empty zero)] at here
        have low := (same base).mpr ⟨Nat.le_refl _, by omega⟩
        have last := (same (base + size - 1)).mpr ⟨by omega, by omega⟩
        have begins := (same (rgn.region 0).base).mp ⟨Nat.le_refl _, by have := low.2; omega⟩
        have stops := mt (same (base + size)).mp (by omega)
        simp only [Property.Has] at low last begins stops
        right
        have base' : (rgn.region 0).base = base := by omega
        have size' : (rgn.region 0).size = size := by omega
        rw [← base', ← size']
  · intro h
    refine ⟨_, _, by rw [run, if_neg (not_not.mpr adj)], .inr ⟨notFull, by decide, ?_⟩⟩
    have here : (insertRegion rgn base size).region 0 = ⟨base, size⟩ := by
      rw [first]
      split
      · rfl
      · exact h.resolve_left (by assumption)
    refine ⟨ordered_one cnt (by rwa [here]) (by rwa [here]), ?_⟩
    intro x
    rw [covered_one cnt, here, or_iff_right (not_covered_empty zero)]
    rfl

/-- Adding a free range to a table in order with no regions adjacent, or to the one `lmb_init`
leaves, does exactly that, unless `lmb_free` has emptied the table: then the stale regions of the
array decide. -/
theorem addRegion_iff (tbl : Ordered 1 w rgn ∨ Dummy rgn) (free : Free rgn base size) :
    AddsExactly w rgn base size ↔ rgn.cnt ≠ 0 ∨ (regionsAdjacent w rgn 0 1 = 0 ∧
      (base < (rgn.region 0).base ∨ rgn.region 0 = ⟨base, size⟩)) := by
  by_cases zero : rgn.cnt = 0
  · rw [empty_iff bound pos zero, or_iff_right (not_not.mpr zero)]
  · refine iff_of_true ?_ (.inl zero)
    obtain tbl | dummy := tbl
    · obtain ⟨clear, full, e⟩ | ⟨no, rgn', ret, e, nonneg, ordered, -, cov⟩ :=
        addRegion_ordered tbl (Nat.le_refl 1) (by omega) bound pos free
      · exact ⟨_, _, e, .inl ⟨clear, full, rfl, rfl⟩⟩
      · exact ⟨_, _, e, .inr ⟨no, by omega, ordered, cov⟩⟩
    · exact dummy.addsExactly bound pos

end

/-- One region of 4096 bytes. -/
def onePage : Region := ⟨1, fun _ => ⟨0x1000, 0x1000⟩⟩

/-- The page behind it. -/
theorem addRegion_iff_onePage : AddsExactly 32 onePage 0x2000 0x1000 ↔
    onePage.cnt ≠ 0 ∨ (regionsAdjacent 32 onePage 0 1 = 0 ∧
      (0x2000 < (onePage.region 0).base ∨ onePage.region 0 = ⟨0x2000, 0x1000⟩)) := by
  refine addRegion_iff (by decide) (by decide) (.inl (ordered_one rfl (by decide) (by decide))) ?_
  intro x cov range
  rw [covered_one rfl] at cov
  have last : x < 0x1000 + 0x1000 := cov.2
  omega

/-- When that region has been freed, a range above it is not recorded. -/
theorem not_addsExactly_emptied : Ordered 1 32 (removeRegion onePage 0) ∧
    Free (removeRegion onePage 0) 0x3000 0x1000 ∧
    ¬ AddsExactly 32 (removeRegion onePage 0) 0x3000 0x1000 := by
  have zero : (removeRegion onePage 0).cnt = 0 := rfl
  refine ⟨⟨?_, ?_, ?_⟩, fun x cov => absurd cov (not_covered_empty zero), ?_⟩
  · intro i ic
    exact absurd ic (Nat.not_lt_zero i)
  · intro i ic
    exact absurd ic (Nat.not_lt_zero i)
  · intro i ic
    exact absurd ic (Nat.not_lt_zero _)
  · rw [empty_iff (by decide) (by decide) zero]
    decide

end Imx.Lmb
