import Imx.Lmb.Defs

/-!
# What the operations on a table do

`Covered rgn x` says that some region of the table has the address `x`. Adding a range to a sorted
table adds exactly its addresses, provided that nothing meets across the end of the address space
(`NoSeam`); freeing a range takes away at most its addresses.
-/

namespace Imx.Lmb

variable {w L : Nat} {rgn rgn' : Region} {p q : Property} {a b i j x base size : Nat}

/-! ## Arithmetic without wrap -/

lemma add_eq (h : a + b < 2 ^ w) : add w a b = a + b :=
  Nat.mod_eq_of_lt h

lemma add_top (h : a + b = 2 ^ w) : add w a b = 0 := by
  rw [add, h, Nat.mod_self]

lemma sub_eq (ha : a < 2 ^ w) (h : b ≤ a) : sub w a b = a - b := by
  rw [sub, show a + (2 ^ w - b) = a - b + 2 ^ w from by omega, Nat.add_mod_right,
    Nat.mod_eq_of_lt (by omega)]

/-- A sum at most `2 ^ w` that is not zero did not wrap. -/
lemma add_eq_of_ne_zero (h : a + b ≤ 2 ^ w) (ne : add w a b ≠ 0) : add w a b = a + b := by
  rcases Nat.lt_or_ge (a + b) (2 ^ w) with lt | ge
  · exact add_eq lt
  · exact absurd (add_top (Nat.le_antisymm h ge)) ne

/-! ## Tables -/

/-- The range has the address. -/
def Property.Has (p : Property) (x : Nat) : Prop := p.base ≤ x ∧ x < p.base + p.size

/-- Some region has the address. -/
def Covered (rgn : Region) (x : Nat) : Prop := ∃ i < rgn.cnt, (rgn.region i).Has x

/-- The table is sorted by base. -/
def Sorted (rgn : Region) : Prop :=
  ∀ i < rgn.cnt, i + 1 < rgn.cnt → (rgn.region i).base ≤ (rgn.region (i + 1)).base

instance : Decidable (Sorted rgn) := inferInstanceAs (Decidable (∀ i < rgn.cnt, _))

/-- The regions end at `L` or below, and none is empty or the whole address space. -/
structure Good (w L : Nat) (rgn : Region) : Prop where
  bound : ∀ i < rgn.cnt, (rgn.region i).base + (rgn.region i).size ≤ L
  pos : ∀ i < rgn.cnt, 0 < (rgn.region i).size
  small : ∀ i < rgn.cnt, (rgn.region i).size < 2 ^ w

/-- The table as `lmb_init` leaves it. -/
def Dummy (rgn : Region) : Prop := rgn.cnt = 1 ∧ (rgn.region 0).size = 0

instance : Decidable (Dummy rgn) := inferInstanceAs (Decidable (_ ∧ _))

/-- No region ends, with the range, where another begins across the end of the address space. -/
def NoSeam (w : Nat) (rgn : Region) (base size : Nat) : Prop :=
  ¬ ((base = 0 ∨ ∃ i < rgn.cnt, (rgn.region i).base = 0) ∧
    (base + size = 2 ^ w ∨ ∃ i < rgn.cnt, (rgn.region i).base + (rgn.region i).size = 2 ^ w))

instance : Decidable (NoSeam w rgn base size) := by
  unfold NoSeam
  infer_instance

@[simp] lemma Region.set_cnt : (rgn.set i p).cnt = rgn.cnt := rfl
@[simp] lemma Region.set_self : (rgn.set i p).region i = p := if_pos rfl

lemma Region.set_ne (ne : j ≠ i) : (rgn.set i p).region j = rgn.region j := if_neg ne

lemma Sorted.le (sorted : Sorted rgn) (ij : i ≤ j) (jc : j < rgn.cnt) :
    (rgn.region i).base ≤ (rgn.region j).base := by
  induction ij with
  | refl => exact Nat.le_refl _
  | step ij ih =>
    have jc : _ + 1 < rgn.cnt := jc
    exact Nat.le_trans (ih (by omega)) (sorted _ (by omega) jc)

/-- The addresses of a table in which one region was replaced. -/
lemma covered_set (ic : i < rgn.cnt) :
    Covered (rgn.set i p) x ↔ p.Has x ∨ ∃ j < rgn.cnt, j ≠ i ∧ (rgn.region j).Has x := by
  constructor
  · rintro ⟨j, jc, has⟩
    by_cases ji : j = i
    · subst ji
      rw [Region.set_self] at has
      exact .inl has
    · rw [Region.set_ne ji] at has
      exact .inr ⟨j, jc, ji, has⟩
  · rintro (has | ⟨j, jc, ji, has⟩)
    · exact ⟨i, ic, by rwa [Region.set_self]⟩
    · exact ⟨j, jc, by rwa [Region.set_ne ji]⟩

/-- The addresses of a table from which one region was removed. -/
lemma covered_remove (ic : i < rgn.cnt) :
    Covered (removeRegion rgn i) x ↔ ∃ j < rgn.cnt, j ≠ i ∧ (rgn.region j).Has x := by
  constructor
  · rintro ⟨j, jc, has⟩
    simp only [removeRegion] at jc has
    by_cases ij : i ≤ j
    · rw [if_pos ⟨ij, jc⟩] at has
      exact ⟨j + 1, by omega, by omega, has⟩
    · rw [if_neg (by omega)] at has
      exact ⟨j, by omega, by omega, has⟩
  · rintro ⟨j, jc, ji, has⟩
    by_cases ij : j < i
    · refine ⟨j, by simp only [removeRegion]; omega, ?_⟩
      simp only [removeRegion]
      rwa [if_neg (by omega)]
    · refine ⟨j - 1, by simp only [removeRegion]; omega, ?_⟩
      simp only [removeRegion]
      rwa [if_pos (by omega), show j - 1 + 1 = j from by omega]

/-- The regions are those with one taken out. -/
lemma covered_split (ic : i < rgn.cnt) :
    Covered rgn x ↔ (rgn.region i).Has x ∨ ∃ j < rgn.cnt, j ≠ i ∧ (rgn.region j).Has x := by
  constructor
  · rintro ⟨j, jc, has⟩
    by_cases ji : j = i
    · exact .inl (ji ▸ has)
    · exact .inr ⟨j, jc, ji, has⟩
  · rintro (has | ⟨j, jc, -, has⟩)
    · exact ⟨i, ic, has⟩
    · exact ⟨j, jc, has⟩

lemma Good.set (good : Good w L rgn) (bound : p.base + p.size ≤ L) (pos : 0 < p.size)
    (small : p.size < 2 ^ w) : Good w L (rgn.set i p) where
  bound j jc := by
    by_cases ji : j = i
    · rwa [ji, Region.set_self]
    · rw [Region.set_ne ji]
      exact good.bound j jc
  pos j jc := by
    by_cases ji : j = i
    · rwa [ji, Region.set_self]
    · rw [Region.set_ne ji]
      exact good.pos j jc
  small j jc := by
    by_cases ji : j = i
    · rwa [ji, Region.set_self]
    · rw [Region.set_ne ji]
      exact good.small j jc

lemma Good.remove (good : Good w L rgn) : Good w L (removeRegion rgn i) where
  bound j jc := by
    simp only [removeRegion] at jc ⊢
    split
    · exact good.bound (j + 1) (by omega)
    · exact good.bound j (by omega)
  pos j jc := by
    simp only [removeRegion] at jc ⊢
    split
    · exact good.pos (j + 1) (by omega)
    · exact good.pos j (by omega)
  small j jc := by
    simp only [removeRegion] at jc ⊢
    split
    · exact good.small (j + 1) (by omega)
    · exact good.small j (by omega)

/-! ## Inserting -/

/-- `rgn'` is `rgn` with `p` put in at place `m`. -/
structure InsertedAt (rgn rgn' : Region) (p : Property) (m : Nat) : Prop where
  le : m ≤ rgn.cnt
  cnt : rgn'.cnt = rgn.cnt + 1
  before : ∀ j < m, rgn'.region j = rgn.region j
  here : rgn'.region m = p
  after : ∀ j, m < j → j ≤ rgn.cnt → rgn'.region j = rgn.region (j - 1)

/-- Where the second loop stores the range: behind the last region that does not begin above it,
or nowhere. -/
lemma insertLoop_spec (n : Nat) :
    (∃ m < n, (rgn.region m).base ≤ base ∧ (∀ j, m < j → j < n → base < (rgn.region j).base) ∧
      (∀ j ≤ m, (insertLoop base size rgn n).region j = rgn.region j) ∧
      (insertLoop base size rgn n).region (m + 1) = ⟨base, size⟩ ∧
      ∀ j, m + 1 < j → (insertLoop base size rgn n).region j =
        if j ≤ n then rgn.region (j - 1) else rgn.region j) ∨
    ((∀ j < n, base < (rgn.region j).base) ∧
      ∀ j, (insertLoop base size rgn n).region j =
        if 0 < j ∧ j ≤ n then rgn.region (j - 1) else rgn.region j) := by
  induction n generalizing rgn with
  | zero =>
    refine .inr ⟨fun j h => absurd h (Nat.not_lt_zero j), fun j => ?_⟩
    rw [if_neg (by omega)]
    rfl
  | succ n ih =>
    rw [insertLoop]
    by_cases lt : base < (rgn.region n).base
    · simp only [if_pos lt]
      have old {j} (h : j ≠ n + 1) : (rgn.set (n + 1) (rgn.region n)).region j = rgn.region j :=
        Region.set_ne h
      rcases @ih (rgn.set (n + 1) (rgn.region n)) with ⟨m, mn, le, gt, lo, here, hi⟩ |
        ⟨all, shift⟩
      · refine .inl ⟨m, by omega, by rwa [← old (by omega)], ?_, ?_, here, ?_⟩
        · intro j mj jn
          rcases Nat.lt_succ_iff_lt_or_eq.1 jn with h | rfl
          · rw [← old (by omega)]
            exact gt j mj h
          · exact lt
        · intro j jm
          rw [lo j jm, old (by omega)]
        · intro j mj
          rw [hi j mj]
          by_cases jn : j ≤ n
          · rw [if_pos jn, if_pos (by omega), old (by omega)]
          · rw [if_neg jn]
            by_cases jn1 : j = n + 1
            · rw [jn1, Region.set_self, if_pos (by omega)]
              rfl
            · rw [old jn1, if_neg (by omega)]
      · refine .inr ⟨?_, ?_⟩
        · intro j jn
          rcases Nat.lt_succ_iff_lt_or_eq.1 jn with h | rfl
          · rw [← old (by omega)]
            exact all j h
          · exact lt
        · intro j
          rw [shift j]
          by_cases jn : 0 < j ∧ j ≤ n
          · rw [if_pos jn, if_pos (by omega), old (by omega)]
          · rw [if_neg jn]
            by_cases jn1 : j = n + 1
            · rw [jn1, Region.set_self, if_pos (by omega)]
              rfl
            · rw [old jn1, if_neg (by omega)]
    · simp only [if_neg lt]
      refine .inl ⟨n, by omega, by omega, fun j nj jn => by omega, ?_, Region.set_self, ?_⟩
      · intro j jn
        rw [Region.set_ne (by omega)]
      · intro j nj
        rw [Region.set_ne (by omega), if_neg (by omega)]

lemma insertLoop_cnt (n : Nat) : (insertLoop base size rgn n).cnt = rgn.cnt := by
  induction n generalizing rgn with
  | zero => rfl
  | succ n ih =>
    rw [insertLoop]
    split
    · rw [ih, Region.set_cnt]
    · rfl

/-- Into a sorted table the range is put at one place, the others keep their order. -/
lemma insertRegion_spec (sorted : Sorted rgn) (one : 1 ≤ rgn.cnt) :
    ∃ m, InsertedAt rgn (insertRegion rgn base size) ⟨base, size⟩ m ∧
      (∀ j < m, (rgn.region j).base ≤ base) ∧
      ∀ j, m ≤ j → j < rgn.cnt → base < (rgn.region j).base := by
  have cnt := @insertLoop_cnt rgn base size rgn.cnt
  rcases @insertLoop_spec rgn base size rgn.cnt with ⟨m, mc, le, gt, lo, here, hi⟩ |
    ⟨all, shift⟩
  · have first : ¬ base < ((insertLoop base size rgn rgn.cnt).region 0).base := by
      rw [lo 0 (by omega)]
      have := sorted.le (Nat.zero_le m) mc
      omega
    refine ⟨m + 1, ⟨by omega, ?_, ?_, ?_, ?_⟩, fun j jm => ?_, fun j mj jc => gt j (by omega) jc⟩
    case refine_5 =>
      have mono := sorted.le (show j ≤ m by omega) mc
      omega
    all_goals simp only [insertRegion, if_neg first]
    · rw [cnt]
    · intro j jm
      exact lo j (by omega)
    · exact here
    · intro j mj jc
      rw [hi j mj, if_pos jc]
  · have first : base < ((insertLoop base size rgn rgn.cnt).region 0).base := by
      rw [shift 0, if_neg (by omega)]
      exact all 0 one
    refine ⟨0, ⟨by omega, ?_, ?_, ?_, ?_⟩, fun j jm => by omega, fun j _ jc => all j jc⟩
    all_goals simp only [insertRegion, if_pos first]
    · rw [Region.set_cnt, cnt]
    · intro j jm
      omega
    · rw [Region.set_self]
    · intro j mj jc
      rw [Region.set_ne (by omega), shift j, if_pos (by omega)]

lemma InsertedAt.covered {m : Nat} (ins : InsertedAt rgn rgn' p m) :
    Covered rgn' x ↔ Covered rgn x ∨ p.Has x := by
  constructor
  · rintro ⟨j, jc, has⟩
    rw [ins.cnt] at jc
    rcases Nat.lt_trichotomy j m with lt | rfl | gt
    · exact .inl ⟨j, by have := ins.le; omega, by rwa [← ins.before j lt]⟩
    · exact .inr (by rwa [← ins.here])
    · exact .inl ⟨j - 1, by omega, by rwa [← ins.after j gt (by omega)]⟩
  · rintro (⟨j, jc, has⟩ | has)
    · by_cases jm : j < m
      · exact ⟨j, by rw [ins.cnt]; omega, by rwa [ins.before j jm]⟩
      · exact ⟨j + 1, by rw [ins.cnt]; omega, by rwa [ins.after (j + 1) (by omega) (by omega)]⟩
    · exact ⟨m, by have := ins.le; rw [ins.cnt]; omega, by rwa [ins.here]⟩

lemma InsertedAt.good {m : Nat} (ins : InsertedAt rgn rgn' p m) (good : Good w L rgn)
    (bound : p.base + p.size ≤ L) (pos : 0 < p.size) (small : p.size < 2 ^ w) :
    Good w L rgn' := by
  have each {j} (jc : j < rgn'.cnt) : rgn'.region j = p ∨
      ∃ k < rgn.cnt, rgn'.region j = rgn.region k := by
    rw [ins.cnt] at jc
    rcases Nat.lt_trichotomy j m with lt | rfl | gt
    · exact .inr ⟨j, by have := ins.le; omega, ins.before j lt⟩
    · exact .inl ins.here
    · exact .inr ⟨j - 1, by omega, ins.after j gt (by omega)⟩
  constructor
  · intro j jc
    rcases each jc with e | ⟨k, kc, e⟩
    · rwa [e]
    · rw [e]
      exact good.bound k kc
  · intro j jc
    rcases each jc with e | ⟨k, kc, e⟩
    · rwa [e]
    · rw [e]
      exact good.pos k kc
  · intro j jc
    rcases each jc with e | ⟨k, kc, e⟩
    · rwa [e]
    · rw [e]
      exact good.small k kc

/-! ## Adding -/

/-- What the first loop of `lmb_add_region` has found. -/
lemma touch_spec {is : List Nat} :
    (touch w rgn base size is = .no) ∨
    (∃ i ∈ is, touch w rgn base size is = .same ∧ rgn.region i = ⟨base, size⟩) ∨
    (∃ i ∈ is, touch w rgn base size is = .below i ∧ (rgn.region i).base = add w base size) ∨
    (∃ i ∈ is, touch w rgn base size is = .above i ∧
      base = add w (rgn.region i).base (rgn.region i).size) := by
  induction is with
  | nil => exact .inl rfl
  | cons i is ih =>
    rw [touch]
    by_cases same : (rgn.region i).base = base ∧ (rgn.region i).size = size
    · refine .inr (.inl ⟨i, List.mem_cons_self, if_pos same, ?_⟩)
      obtain ⟨eb, es⟩ := same
      rw [← eb, ← es]
    · simp only [if_neg same]
      by_cases low : (rgn.region i).base = add w base size
      · refine .inr (.inr (.inl ⟨i, List.mem_cons_self, ?_, low⟩))
        simp [addrsAdjacent, low]
      · by_cases high : base = add w (rgn.region i).base (rgn.region i).size
        · refine .inr (.inr (.inr ⟨i, List.mem_cons_self, ?_, high⟩))
          rw [addrsAdjacent, if_neg low, if_pos high]
          rfl
        · rw [show addrsAdjacent w base size (rgn.region i).base (rgn.region i).size = 0 from by
            rw [addrsAdjacent, if_neg low, if_neg high]]
          simp only [show ¬ (0 : Int) > 0 from by omega, if_false]
          rcases ih with h | ⟨j, mem, h⟩ | ⟨j, mem, h⟩ | ⟨j, mem, h⟩
          · exact .inl h
          · exact .inr (.inl ⟨j, List.mem_cons_of_mem _ mem, h⟩)
          · exact .inr (.inr (.inl ⟨j, List.mem_cons_of_mem _ mem, h⟩))
          · exact .inr (.inr (.inr ⟨j, List.mem_cons_of_mem _ mem, h⟩))

/-- What adding a range to a table comes to: its addresses are added, or it is refused. -/
structure Added (w L : Nat) (rgn : Region) (base size : Nat) (rgn' : Region) (ret : Int) :
    Prop where
  good : Good w L rgn'
  cnt : 1 ≤ rgn'.cnt
  covered : 0 ≤ ret → ∀ x, Covered rgn' x ↔ Covered rgn x ∨ (base ≤ x ∧ x < base + size)
  refused : ret < 0 → rgn' = rgn ∧ maxLmbRegions ≤ rgn.cnt ∧
    touch w rgn base size (List.range rgn.cnt) = .no

section Extend

variable (hL : L ≤ 2 ^ w) (sorted : Sorted rgn) (good : Good w L rgn) (ic : i < rgn.cnt)
include hL sorted good ic

/-- A region has been extended to `q`, which has its addresses and those of the range; with the
next one it meets only at its own end. -/
lemma coalesceNext_spec (qL : q.base + q.size ≤ L) (qpos : 0 < q.size) (qsmall : q.size < 2 ^ w)
    (le : q.base ≤ (rgn.region i).base)
    (zero : q.base = 0 → base = 0 ∨ ∃ j < rgn.cnt, (rgn.region j).base = 0)
    (top : q.base + q.size = 2 ^ w → base + size = 2 ^ w ∨
      ∃ j < rgn.cnt, (rgn.region j).base + (rgn.region j).size = 2 ^ w)
    (seam : NoSeam w rgn base size)
    (has : ∀ x, q.Has x ↔ (rgn.region i).Has x ∨ (base ≤ x ∧ x < base + size)) :
    Added w L rgn base size (coalesceNext w (rgn.set i q) i).1
      (coalesceNext w (rgn.set i q) i).2 := by
  have cov1 : ∀ x, Covered (rgn.set i q) x ↔ Covered rgn x ∨ (base ≤ x ∧ x < base + size) := by
    intro x
    rw [covered_set ic, covered_split ic, has x, or_right_comm]
  have good1 : Good w L (rgn.set i q) := good.set qL qpos qsmall
  rw [coalesceNext]
  by_cases adj : i < (rgn.set i q).cnt - 1 ∧ regionsAdjacent w (rgn.set i q) i (i + 1) ≠ 0
  · obtain ⟨lt, adj⟩ := adj
    rw [if_pos ⟨lt, adj⟩]
    rw [Region.set_cnt] at lt
    have nL := good.bound (i + 1) (by omega)
    have npos := good.pos (i + 1) (by omega)
    have srt := sorted i ic (by omega)
    have qnext : (rgn.region (i + 1)).base = q.base + q.size := by
      rw [regionsAdjacent, Region.set_self, Region.set_ne (by omega), addrsAdjacent] at adj
      by_cases fwd : (rgn.region (i + 1)).base = add w q.base q.size
      · rw [fwd]
        refine add_eq_of_ne_zero (by omega) fun z => seam ⟨.inr ⟨i + 1, by omega, by omega⟩, top ?_⟩
        rcases Nat.lt_or_ge (q.base + q.size) (2 ^ w) with h | h
        · rw [add_eq h] at z
          omega
        · omega
      · rw [if_neg fwd] at adj
        by_cases back : q.base = add w (rgn.region (i + 1)).base (rgn.region (i + 1)).size
        · exfalso
          by_cases z : q.base = 0
          · refine seam ⟨zero z, .inr ⟨i + 1, by omega, ?_⟩⟩
            rcases Nat.lt_or_ge ((rgn.region (i + 1)).base + (rgn.region (i + 1)).size) (2 ^ w)
              with h | h
            · rw [add_eq h] at back
              omega
            · omega
          · have := add_eq_of_ne_zero (Nat.le_trans nL hL) (back ▸ z)
            omega
        · rw [if_neg back] at adj
          exact absurd rfl adj
    have sum : q.size + (rgn.region (i + 1)).size < 2 ^ w := by
      rcases Nat.lt_or_ge (q.size + (rgn.region (i + 1)).size) (2 ^ w) with h | h
      · exact h
      · refine absurd ⟨zero (by omega), .inr ⟨i + 1, by omega, by omega⟩⟩ seam
    have shape : coalesceRegions w (rgn.set i q) i (i + 1) =
        removeRegion (rgn.set i ⟨q.base, q.size + (rgn.region (i + 1)).size⟩) (i + 1) := by
      rw [coalesceRegions, Region.set_self, Region.set_ne (by omega), add_eq sum]
      congr 1
      simp only [Region.set]
      congr 1
      funext j
      split <;> rfl
    rw [shape]
    refine ⟨(good.set (p := ⟨q.base, q.size + (rgn.region (i + 1)).size⟩) (by
      simp only
      omega) (by simp only; omega) sum).remove, ?_, fun _ x => ?_,
      fun h => absurd h (show ¬ (2 : Int) < 0 from by decide)⟩
    · simp only [removeRegion, Region.set_cnt]
      omega
    · rw [← cov1 x, covered_remove (by rw [Region.set_cnt]; omega), covered_set ic]
      simp only [Region.set_cnt]
      constructor
      · rintro ⟨j, jc, ji, hj⟩
        by_cases e : j = i
        · subst e
          rw [Region.set_self] at hj
          obtain ⟨h1, h2⟩ := hj
          simp only at h1 h2
          by_cases xq : x < q.base + q.size
          · exact .inl ⟨h1, xq⟩
          · exact .inr ⟨j + 1, by omega, by omega, by omega, by omega⟩
        · rw [Region.set_ne e] at hj
          exact .inr ⟨j, jc, e, hj⟩
      · rintro (hq | ⟨j, jc, ji, hj⟩)
        · refine ⟨i, ic, by omega, ?_⟩
          rw [Region.set_self]
          exact ⟨hq.1, by have := hq.2; simp only; omega⟩
        · by_cases e : j = i + 1
          · subst e
            refine ⟨i, ic, by omega, ?_⟩
            rw [Region.set_self]
            obtain ⟨h1, h2⟩ := hj
            exact ⟨by simp only; omega, by simp only; omega⟩
          · exact ⟨j, jc, e, by rwa [Region.set_ne ji]⟩
  · rw [if_neg adj]
    refine ⟨good1, ?_, fun _ x => cov1 x, fun h => absurd h (show ¬ (1 : Int) < 0 from by decide)⟩
    rw [Region.set_cnt]
    omega

end Extend

/-- Adding a range to a table that is not empty. -/
lemma addRegion_spec (hL : L ≤ 2 ^ w) (one : 1 ≤ rgn.cnt) (sorted : Sorted rgn)
    (good : Good w L rgn ∨ Dummy rgn) (bound : base + size ≤ L) (pos : 0 < size)
    (small : size < 2 ^ w) (seam : Dummy rgn ∨ NoSeam w rgn base size) :
    ∃ rgn' ret, addRegion w rgn base size = some (rgn', ret) ∧
      Added w L rgn base size rgn' ret := by
  rw [addRegion]
  by_cases dummy : Dummy rgn
  · obtain ⟨cnt, sz⟩ := dummy
    refine ⟨_, _, if_pos ⟨cnt, sz⟩, ⟨?_, ?_, ?_⟩, one, fun _ x => ?_, fun h => absurd h (by decide)⟩
    · intro j jc
      obtain rfl : j = 0 := by rw [Region.set_cnt] at jc; omega
      rwa [Region.set_self]
    · intro j jc
      obtain rfl : j = 0 := by rw [Region.set_cnt] at jc; omega
      rwa [Region.set_self]
    · intro j jc
      obtain rfl : j = 0 := by rw [Region.set_cnt] at jc; omega
      rwa [Region.set_self]
    · rw [covered_set (by omega), covered_split (show 0 < rgn.cnt from by omega)]
      have empty : ¬ (rgn.region 0).Has x := fun h => by
        have := h.1
        have := h.2
        omega
      simp only [empty, false_or]
      exact or_comm
  · rw [if_neg (show ¬ (rgn.cnt = 1 ∧ (rgn.region 0).size = 0) from dummy)]
    have good := good.resolve_right dummy
    have seam := seam.resolve_left dummy
    rcases @touch_spec w rgn base size (List.range rgn.cnt) with
      h | ⟨i, mem, h, same⟩ | ⟨i, mem, h, low⟩ | ⟨i, mem, h, high⟩
    · simp only [h]
      rw [if_neg (by omega)]
      by_cases full : maxLmbRegions ≤ rgn.cnt
      · exact ⟨_, _, if_pos full, good, one, fun h => absurd h (by decide), fun _ => ⟨rfl, full, h⟩⟩
      · rw [if_neg full]
        obtain ⟨m, ins, -⟩ := @insertRegion_spec rgn base size sorted one
        refine ⟨_, _, rfl, ins.good good bound pos small, ?_, fun _ x => ins.covered,
          fun h => absurd h (by decide)⟩
        rw [ins.cnt]
        omega
    · simp only [h]
      have ic := List.mem_range.1 mem
      refine ⟨_, _, rfl, good, one, fun _ x => ⟨.inl, ?_⟩, fun h => absurd h (by decide)⟩
      rintro (cov | ⟨h1, h2⟩)
      · exact cov
      · exact ⟨i, ic, by rw [same]; exact ⟨h1, h2⟩⟩
    · simp only [h]
      have ic := List.mem_range.1 mem
      have ib := good.bound i ic
      have ip := good.pos i ic
      have low' : (rgn.region i).base = base + size := by
        rw [low]
        refine add_eq_of_ne_zero (by omega) fun z => seam ⟨.inr ⟨i, ic, low.trans z⟩, .inl ?_⟩
        rcases Nat.lt_or_ge (base + size) (2 ^ w) with h | h
        · rw [add_eq h] at z
          omega
        · omega
      have sum : (rgn.region i).size + size < 2 ^ w := by
        rcases Nat.lt_or_ge ((rgn.region i).size + size) (2 ^ w) with h | h
        · exact h
        · exact absurd ⟨.inl (by omega), .inr ⟨i, ic, by omega⟩⟩ seam
      rw [add_eq sum, sub_eq (by omega) (by omega), show (rgn.region i).base - size = base from by
        omega]
      refine ⟨_, _, rfl, coalesceNext_spec hL sorted good ic ?_ ?_ sum ?_ .inl (fun h => .inr ⟨i, ic, ?_⟩)
        seam fun x => ?_⟩
      · simp only
        omega
      · simp only
        omega
      · simp only
        omega
      · simp only at h
        omega
      · simp only [Property.Has]
        omega
    · simp only [h]
      have ic := List.mem_range.1 mem
      have ib := good.bound i ic
      have ip := good.pos i ic
      have high' : base = (rgn.region i).base + (rgn.region i).size := by
        rw [high]
        refine add_eq_of_ne_zero (by omega) fun z => seam ⟨.inl (high.trans z), .inr ⟨i, ic, ?_⟩⟩
        rcases Nat.lt_or_ge ((rgn.region i).base + (rgn.region i).size) (2 ^ w) with h | h
        · rw [add_eq h] at z
          omega
        · omega
      have sum : (rgn.region i).size + size < 2 ^ w := by
        rcases Nat.lt_or_ge ((rgn.region i).size + size) (2 ^ w) with h | h
        · exact h
        · exact absurd ⟨.inr ⟨i, ic, by omega⟩, .inl (by omega)⟩ seam
      rw [add_eq sum]
      refine ⟨_, _, rfl, coalesceNext_spec hL sorted good ic ?_ ?_ sum ?_ (fun h => .inr ⟨i, ic, h⟩)
        (fun h => .inl ?_) seam fun x => ?_⟩
      · simp only
        omega
      · simp only
        omega
      · exact Nat.le_refl _
      · simp only at h
        omega
      · simp only [Property.Has]
        omega

/-- Below `2 ^ w` nothing meets across the end of the address space. -/
lemma noSeam_of_lt (lt : L < 2 ^ w) (good : Good w L rgn) (bound : base + size ≤ L) :
    NoSeam w rgn base size := by
  rintro ⟨-, top | ⟨i, ic, top⟩⟩
  · omega
  · have := good.bound i ic
    omega

/-! ## Freeing -/

/-- Freeing inside region `i` would leave a piece on both sides. -/
def Splits (rgn : Region) (i base size : Nat) : Prop :=
  (rgn.region i).base < base ∧ base + size < (rgn.region i).base + (rgn.region i).size

instance : Decidable (Splits rgn i base size) := inferInstanceAs (Decidable (_ ∧ _))

/-- The table once the piece before the range is cut off region `i`. -/
def cutBefore (rgn : Region) (i base : Nat) : Region :=
  rgn.set i ⟨(rgn.region i).base, base - (rgn.region i).base⟩

/-- There is a place for the piece behind the range. -/
def RoomBehind (w : Nat) (rgn : Region) (i base size : Nat) : Prop :=
  rgn.cnt < maxLmbRegions ∨ touch w (cutBefore rgn i base) (base + size)
    ((rgn.region i).base + (rgn.region i).size - (base + size)) (List.range rgn.cnt) ≠ .no

instance : Decidable (RoomBehind w rgn i base size) := inferInstanceAs (Decidable (_ ∨ _))

/-- Taking a range out of the region it belongs to takes away no other address. -/
lemma freeFrom_spec (lt : L < 2 ^ w) (good : Good w L rgn) (ic : i < rgn.cnt) (pos : 0 < size)
    (below : (rgn.region i).base ≤ base)
    (above : base + size ≤ (rgn.region i).base + (rgn.region i).size)
    (room : Splits rgn i base size → Sorted rgn ∧ RoomBehind w rgn i base size) :
    ∃ rgn' ret, freeFrom w rgn i base size = some (rgn', ret) ∧ Good w L rgn' ∧ 0 ≤ ret ∧
      ∀ x, Covered rgn x → ¬ (base ≤ x ∧ x < base + size) → Covered rgn' x := by
  have ib := good.bound i ic
  have ip := good.pos i ic
  rw [freeFrom]
  simp only [add_eq (show base + size < 2 ^ w from by omega),
    add_eq (show (rgn.region i).base + (rgn.region i).size < 2 ^ w from by omega)]
  -- what is left of region `i` keeps the addresses that are not freed
  have keep {q : Property} (hq : ∀ x, (rgn.region i).Has x → ¬ (base ≤ x ∧ x < base + size) →
      q.Has x) : ∀ x, Covered rgn x → ¬ (base ≤ x ∧ x < base + size) → Covered (rgn.set i q) x := by
    intro x cov out
    rw [covered_set ic]
    rcases (covered_split ic).1 cov with has | other
    · exact .inl (hq x has out)
    · exact .inr other
  by_cases front : (rgn.region i).base = base
  · by_cases back : (rgn.region i).base + (rgn.region i).size = base + size
    · rw [if_pos ⟨front, back⟩]
      refine ⟨_, _, rfl, good.remove, Int.le_refl 0, fun x cov out => ?_⟩
      rw [covered_remove ic]
      rcases (covered_split ic).1 cov with has | other
      · exact absurd ⟨by have := has.1; omega, by have := has.2; omega⟩ out
      · exact other
    · rw [if_neg (by tauto), if_pos front, sub_eq (by omega) (by omega)]
      refine ⟨_, _, rfl, good.set ?_ ?_ ?_, Int.le_refl 0, keep fun x has out => ?_⟩
      · simp only
        omega
      · simp only
        omega
      · simp only
        omega
      · simp only [Property.Has] at has ⊢
        omega
  · rw [if_neg (by tauto), if_neg front]
    by_cases back : (rgn.region i).base + (rgn.region i).size = base + size
    · rw [if_pos back, sub_eq (by omega) (by omega)]
      refine ⟨_, _, rfl, good.set ?_ ?_ ?_, Int.le_refl 0, keep fun x has out => ?_⟩
      · simp only
        omega
      · simp only
        omega
      · simp only
        omega
      · simp only [Property.Has] at has ⊢
        omega
    · rw [if_neg back, sub_eq (by omega) (by omega), sub_eq (by omega) (by omega)]
      obtain ⟨sorted, room⟩ := room ⟨by omega, by omega⟩
      have good1 : Good w L (cutBefore rgn i base) := good.set (by simp only; omega)
        (by simp only; omega) (by simp only; omega)
      have sorted1 : Sorted (cutBefore rgn i base) := by
        have same (j : Nat) : ((cutBefore rgn i base).region j).base = (rgn.region j).base := by
          by_cases ji : j = i
          · rw [ji, cutBefore, Region.set_self]
          · rw [cutBefore, Region.set_ne ji]
        intro j jc jc'
        rw [same, same]
        exact sorted j jc jc'
      obtain ⟨rgn', ret, eq, added⟩ := @addRegion_spec w L (cutBefore rgn i base)
        (base + size) ((rgn.region i).base + (rgn.region i).size - (base + size)) (Nat.le_of_lt lt)
        (by rw [cutBefore, Region.set_cnt]; omega) sorted1 (.inl good1) (by omega) (by omega)
        (by omega) (.inr (noSeam_of_lt lt good1 (by omega)))
      have ok : 0 ≤ ret := by
        by_contra neg
        obtain ⟨-, full, no⟩ := added.refused (by omega)
        rw [cutBefore, Region.set_cnt] at full
        rcases room with h | h
        · omega
        · exact h no
      refine ⟨rgn', ret, eq, added.good, ok, fun x cov out => ?_⟩
      rw [added.covered ok, cutBefore, covered_set ic]
      rcases (covered_split ic).1 cov with has | other
      · simp only [Property.Has] at has ⊢
        by_cases xb : x < base
        · exact .inl (.inl (by omega))
        · exact .inr (by omega)
      · exact .inl (.inr other)

end Imx.Lmb
