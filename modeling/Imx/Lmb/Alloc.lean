import Imx.Base.Align
import Imx.Base.Run
import Imx.Lmb.Table

/-!
# What the allocator hands out

The runs of the allocator and what a successful allocation guarantees. `State` carries the tables
with the set of addresses that are owned: reserved or allocated, and not freed since. `Ok` says
when an operation does what it is for; the allocator never checks it. Under it, `State.Inv` holds
along every run: the reserved table covers what is owned.
-/

namespace Imx.Lmb
open Imx.Base

variable {w k i x base size align maxAddr fuel lim : Nat} {lmb : Blocks} {res : Region}
variable {p : Property}

/-! ## Alignment -/

lemma mask_eq (kw : k < w) : x &&& (2 ^ w - 1 - sub w (2 ^ k) 1) = (x % 2 ^ w) / 2 ^ k * 2 ^ k := by
  have lt : 2 ^ k < 2 ^ w := Nat.pow_lt_pow_right (by omega) kw
  have pos : 0 < 2 ^ k := Nat.two_pow_pos k
  rw [sub_eq lt pos, show 2 ^ w - 1 - (2 ^ k - 1) = 2 ^ w - (2 ^ k - 1 + 1) from by omega]
  apply Nat.eq_of_testBit_eq
  intro j
  rw [Nat.testBit_and, Nat.testBit_two_pow_sub_succ (by omega), Nat.testBit_two_pow_sub_one,
    Nat.testBit_mul_two_pow, Nat.testBit_div_two_pow, Nat.testBit_mod_two_pow]
  by_cases kj : k ≤ j
  · rw [show j - k + k = j from by omega]
    simp [kj, Nat.not_lt.2 kj, Bool.and_comm]
  · simp [kj, show j < k from by omega]

lemma alignDown_eq (kw : k < w) (lt : x < 2 ^ w) : alignDown w x (2 ^ k) = x / 2 ^ k * 2 ^ k := by
  rw [alignDown, mask_eq kw, Nat.mod_eq_of_lt lt]

lemma alignUp_eq (kw : k < w) (lt : x + 2 ^ k - 1 < 2 ^ w) : alignUp w x (2 ^ k) = roundUp x (2 ^ k) := by
  have pos : 0 < 2 ^ k := Nat.two_pow_pos k
  have lt' : 2 ^ k < 2 ^ w := Nat.pow_lt_pow_right (by omega) kw
  rw [alignUp, mask_eq kw, sub_eq lt' pos, add_eq (by omega), Nat.mod_eq_of_lt (by omega), roundUp,
    show x + (2 ^ k - 1) = x + 2 ^ k - 1 from by omega]

/-! ## Searching one memory region -/

/-- A table of reservations: all of them end below `2 ^ w`, and there is one. -/
structure Ready (w : Nat) (res : Region) : Prop where
  good : Good w (2 ^ w - 1) res ∨ Dummy res
  one : 1 ≤ res.cnt
  sorted : Sorted res

/-- No region of the table has an address of a range that overlaps none. -/
lemma not_covered_of_overlaps_none (good : Good w (2 ^ w - 1) res ∨ Dummy res)
    (lt : base + size < 2 ^ w) (none : overlapsRegion w res base size = none) (x1 : base ≤ x)
    (x2 : x < base + size) : ¬ Covered res x := by
  rintro ⟨i, ic, h1, h2⟩
  rcases good with good | ⟨cnt, zero⟩
  · have ib := good.bound i ic
    have no := List.find?_eq_none.1 none i (List.mem_range.2 ic)
    rw [addrsOverlap, add_eq lt, add_eq (by omega)] at no
    simp only [Bool.and_eq_true, decide_eq_true_eq, not_and] at no
    omega
  · obtain rfl : i = 0 := by omega
    omega

/-- What the search in one memory region may return. -/
def Taken (w : Nat) (res : Region) (lmbbase size align lim : Nat) : Tried → Prop
  | .next => True
  | .done res' addr => (addr = 0 ∧ res' = res) ∨
      (lmbbase ≤ addr ∧ addr + size ≤ lim ∧ align ∣ addr ∧
        (∀ x, addr ≤ x → x < addr + size → ¬ Covered res x) ∧ Good w (2 ^ w - 1) res' ∧
        ∀ x, Covered res' x ↔ Covered res x ∨ (addr ≤ x ∧ x < addr + roundUp size align))

/-- The search goes down through multiples of `align` until one is free. -/
lemma tryLoop_spec {lmbbase : Nat} (ready : Ready w res) (kw : k < w) (pos : 0 < size)
    (dvd : 2 ^ k ∣ base) (top : base + roundUp size (2 ^ k) < 2 ^ w) (le : base + size ≤ lim)
    (enough : base < fuel) :
    ∃ tr, tryLoop w res lmbbase size (2 ^ k) fuel base = some tr ∧
      Taken w res lmbbase size (2 ^ k) lim tr := by
  have apos : 0 < 2 ^ k := Nat.two_pow_pos k
  have up := @le_roundUp size (2 ^ k) apos
  induction fuel generalizing base with
  | zero => omega
  | succ fuel ih =>
    rw [tryLoop]
    by_cases go : base ≠ 0 ∧ lmbbase ≤ base
    · rw [if_pos go]
      cases hit : overlapsRegion w res base size with
      | none =>
        have al : 2 ^ k ≤ base := Nat.le_of_dvd (by omega) dvd
        have sum : size + 2 ^ k - 1 < 2 ^ w := by
          have := @roundUp_lt size (2 ^ k) apos
          omega
        have rle := @roundUp_le size (2 ^ k)
        obtain ⟨res', ret, eq, added⟩ := @addRegion_spec w (2 ^ w - 1) res base
          (roundUp size (2 ^ k)) (by omega) ready.one ready.sorted ready.good (by omega) (by omega)
          (by omega) (by
            rcases ready.good with good | dummy
            · exact .inr (noSeam_of_lt (by omega) good (by omega))
            · exact .inl dummy)
        simp only [alignUp_eq kw sum, eq, Option.map_some]
        by_cases neg : ret < 0
        · refine ⟨_, rfl, ?_⟩
          rw [if_pos neg]
          exact .inl ⟨rfl, (added.refused neg).1⟩
        · refine ⟨_, rfl, ?_⟩
          rw [if_neg neg]
          exact .inr ⟨go.2, le, dvd, fun x h1 h2 =>
            not_covered_of_overlaps_none ready.good (by omega) hit h1 h2, added.good,
            added.covered (by omega)⟩
      | some j =>
        simp only
        by_cases low : (res.region j).base < size
        · exact ⟨_, if_pos low, trivial⟩
        · rw [if_neg low]
          -- the next multiple lies below the region that is in the way
          have yes := List.find?_some hit
          rw [addrsOverlap, add_eq (show base + size < 2 ^ w from by omega)] at yes
          simp only [Bool.and_eq_true, decide_eq_true_eq] at yes
          have lt : (res.region j).base < 2 ^ w := by omega
          have down : (res.region j).base - size < base := by omega
          rw [sub_eq lt (by omega), alignDown_eq kw (by omega)]
          have le' := Nat.div_mul_le_self ((res.region j).base - size) (2 ^ k)
          exact ih (Nat.dvd_mul_left ..) (by omega) (by omega) (by omega)
    · exact ⟨_, if_neg go, trivial⟩

/-- The first address tried in a memory region, and where the range from it ends. -/
lemma startBase_spec (kw : k < w) (pos : 0 < size) (bound : p.base + p.size ≤ 2 ^ w)
    (small : p.size < 2 ^ w) (mlt : maxAddr < 2 ^ w) (fit : maxAddr ≠ 0 → size ≤ maxAddr)
    (eq : startBase w p size (2 ^ k) maxAddr = some base) :
    2 ^ k ∣ base ∧ base + size ≤ p.base + p.size ∧ (maxAddr ≠ 0 → base + size ≤ maxAddr) := by
  rw [startBase] at eq
  by_cases sz : p.size < size
  · rw [if_pos sz] at eq
    contradiction
  · rw [if_neg sz] at eq
    by_cases any : maxAddr = 0
    · rw [if_pos any] at eq
      have diff : sub w (add w p.base p.size) size = p.base + p.size - size := by
        rcases Nat.lt_or_ge (p.base + p.size) (2 ^ w) with lt | ge
        · rw [add_eq lt, sub_eq lt (by omega)]
        · have top : p.base + p.size = 2 ^ w := by omega
          rw [add_top top, sub, Nat.zero_add, Nat.mod_eq_of_lt (by omega), top]
      rw [diff, alignDown_eq kw (by omega)] at eq
      obtain rfl := Option.some.inj eq
      have le := Nat.div_mul_le_self (p.base + p.size - size) (2 ^ k)
      exact ⟨Nat.dvd_mul_left .., by omega, fun h => absurd any h⟩
    · rw [if_neg any] at eq
      have fit := fit any
      by_cases below : p.base < maxAddr
      · rw [if_pos below] at eq
        -- the end of the region, or the last address if it is the end of the address space
        have stop : ∃ e, (if add w p.base p.size < p.base then 2 ^ w - 1 else add w p.base p.size) =
            e ∧ e ≤ p.base + p.size ∧ min e maxAddr = min (p.base + p.size) maxAddr := by
          rcases Nat.lt_or_ge (p.base + p.size) (2 ^ w) with lt | ge
          · rw [add_eq lt, if_neg (by omega)]
            exact ⟨_, rfl, Nat.le_refl _, rfl⟩
          · have top : p.base + p.size = 2 ^ w := by omega
            rw [add_top top, if_pos (by omega)]
            exact ⟨_, rfl, by omega, by omega⟩
        obtain ⟨e, ee, -, em⟩ := stop
        simp only [ee, em] at eq
        rw [sub_eq (by omega) (by omega), alignDown_eq kw (by omega)] at eq
        obtain rfl := Option.some.inj eq
        have le := Nat.div_mul_le_self (min (p.base + p.size) maxAddr - size) (2 ^ k)
        exact ⟨Nat.dvd_mul_left .., by omega, fun _ => by omega⟩
      · rw [if_neg below] at eq
        contradiction

/-! ## Runs -/

/-- The operations, with their arguments; `lmb_alloc` is `alloc` with `maxAddr` 0. -/
inductive Op where
  | add (base size : Nat)
  | reserve (base size : Nat)
  | free (base size : Nat)
  | alloc (size align maxAddr : Nat)
deriving DecidableEq

/-- The tables and the addresses that are owned. -/
structure State where
  lmb : Blocks
  owned : Nat → Prop

/-- After `lmb_init`. -/
def State.start : State := { lmb := init, owned := fun _ => False }

/-- The state after an operation: a successful reservation or allocation owns its range, a
successful `lmb_free` gives its range up. -/
def step (w : Nat) (s : State) : Op → State
  | .add base size =>
    match lmbAdd w s.lmb base size with
    | none => s
    | some (lmb, _) => { s with lmb }
  | .reserve base size =>
    match lmbReserve w s.lmb base size with
    | none => s
    | some (lmb, ret) =>
      { lmb, owned := fun x => s.owned x ∨ (0 ≤ ret ∧ base ≤ x ∧ x < base + size) }
  | .free base size =>
    match lmbFree w s.lmb base size with
    | none => s
    | some (lmb, ret) =>
      { lmb, owned := fun x => s.owned x ∧ ¬ (0 ≤ ret ∧ base ≤ x ∧ x < base + size) }
  | .alloc size align maxAddr =>
    match lmbAllocBase w s.lmb size align maxAddr with
    | none => s
    | some (lmb, addr) =>
      { lmb, owned := fun x => s.owned x ∨ (addr ≠ 0 ∧ addr ≤ x ∧ x < addr + size) }

/-- The arguments an operation may be given. -/
def Op.Valid (w : Nat) : Op → Prop
  | .add base size | .reserve base size | .free base size =>
    0 < size ∧ size < 2 ^ w ∧ base + size ≤ 2 ^ w
  | .alloc size align maxAddr =>
    0 < size ∧ size < 2 ^ w ∧ maxAddr < 2 ^ w ∧ ∃ k < w, align = 2 ^ k

instance {op : Op} : Decidable (op.Valid w) :=
  match op with
  | .add _ _ => inferInstanceAs (Decidable (_ ∧ _))
  | .reserve _ _ => inferInstanceAs (Decidable (_ ∧ _))
  | .free _ _ => inferInstanceAs (Decidable (_ ∧ _))
  | .alloc _ _ _ => inferInstanceAs (Decidable (_ ∧ _ ∧ _ ∧ _))

/-- When an operation does what it is for: a range is added to a sorted table that is not empty,
nothing ends at or meets across the end of the address space, a split leaves room for its second
piece, and an allocation below `maxAddr` fits there. -/
def Op.Sound (w : Nat) (lmb : Blocks) : Op → Prop
  | .add base size =>
    Sorted lmb.memory ∧ (Dummy lmb.memory ∨ NoSeam w lmb.memory base size)
  | .reserve base size =>
    base + size < 2 ^ w ∧ 1 ≤ lmb.reserved.cnt ∧ Sorted lmb.reserved
  | .free base size =>
    base + size < 2 ^ w ∧ ∀ i ∈ findRegion w lmb.reserved base size,
      Splits lmb.reserved i base size →
        Sorted lmb.reserved ∧ RoomBehind w lmb.reserved i base size
  | .alloc size align maxAddr =>
    1 ≤ lmb.reserved.cnt ∧ Sorted lmb.reserved ∧
      ∀ n < lmb.memory.cnt, ∀ base ∈ startBase w (lmb.memory.region n) size align maxAddr,
        (maxAddr ≠ 0 → size ≤ maxAddr) ∧ base + roundUp size align < 2 ^ w

instance {op : Op} : Decidable (op.Sound w lmb) :=
  match op with
  | .add _ _ => inferInstanceAs (Decidable (_ ∧ _))
  | .reserve _ _ => inferInstanceAs (Decidable (_ ∧ _))
  | .free _ _ => inferInstanceAs (Decidable (_ ∧ _))
  | .alloc _ _ _ => inferInstanceAs (Decidable (_ ∧ _ ∧ _))

/-- An operation of a run that keeps its promises. -/
def Ok (w : Nat) (s : State) (op : Op) : Prop := op.Valid w ∧ op.Sound w s.lmb

instance {s : State} {op : Op} : Decidable (Ok w s op) := inferInstanceAs (Decidable (_ ∧ _))

/-- What holds along a run: the reserved table covers the owned addresses. -/
structure State.Inv (w : Nat) (s : State) : Prop where
  one : 1 ≤ s.lmb.memory.cnt
  memory : Good w (2 ^ w) s.lmb.memory ∨ Dummy s.lmb.memory
  reserved : Good w (2 ^ w - 1) s.lmb.reserved ∨ Dummy s.lmb.reserved
  owned : ∀ x, s.owned x → Covered s.lmb.reserved x

lemma State.start_inv : State.start.Inv w where
  one := Nat.le_refl 1
  memory := .inr ⟨rfl, rfl⟩
  reserved := .inr ⟨rfl, rfl⟩
  owned _ h := h.elim

/-- What an allocation promises its caller. -/
structure Handed (w : Nat) (s : State) (lmb' : Blocks) (size align maxAddr addr : Nat) :
    Prop where
  aligned : align ∣ addr
  inside : ∃ i < s.lmb.memory.cnt, (s.lmb.memory.region i).base ≤ addr ∧
    addr + size ≤ (s.lmb.memory.region i).base + (s.lmb.memory.region i).size
  below : maxAddr ≠ 0 → addr + size ≤ maxAddr
  fresh : ∀ x, addr ≤ x → x < addr + size → ¬ s.owned x
  reserved : ∀ x, addr ≤ x → x < addr + size → lmbIsReserved w lmb' x = true

/-- A covered address is reported as reserved. -/
lemma lmbIsReserved_of_covered (good : Good w (2 ^ w - 1) lmb.reserved)
    (cov : Covered lmb.reserved x) : lmbIsReserved w lmb x = true := by
  obtain ⟨i, ic, h1, h2⟩ := cov
  have ib := good.bound i ic
  have ip := good.pos i ic
  refine List.any_eq_true.2 ⟨i, List.mem_range.2 ic, ?_⟩
  simp only [add_eq (show (lmb.reserved.region i).base + (lmb.reserved.region i).size < 2 ^ w from
    by omega), sub_eq (show (lmb.reserved.region i).base + (lmb.reserved.region i).size < 2 ^ w from
    by omega) (show 1 ≤ (lmb.reserved.region i).base + (lmb.reserved.region i).size from by omega),
    Bool.and_eq_true, decide_eq_true_eq]
  omega

section Steps

variable {s : State} (inv : s.Inv w)
include inv

/-- An allocation keeps its promises, or it returns 0 and changes nothing. -/
lemma State.Inv.alloc (ok : Ok w s (.alloc size align maxAddr)) :
    ∃ lmb' addr, lmbAllocBase w s.lmb size align maxAddr = some (lmb', addr) ∧
      lmb'.memory = s.lmb.memory ∧
      (addr = 0 ∧ lmb' = s.lmb ∨ Handed w s lmb' size align maxAddr addr ∧
        Good w (2 ^ w - 1) lmb'.reserved ∧
        ∀ x, Covered lmb'.reserved x ↔
          Covered s.lmb.reserved x ∨ (addr ≤ x ∧ x < addr + roundUp size align)) := by
  obtain ⟨⟨pos, -, mlt, k, kw, rfl⟩, one, sorted, start⟩ := ok
  have ready : Ready w s.lmb.reserved := ⟨inv.reserved, one, sorted⟩
  rw [lmbAllocBase]
  -- the loop goes over the memory regions from the last one down
  have loop (n : Nat) (nc : n ≤ s.lmb.memory.cnt) :
      ∃ lmb' addr, allocLoop w s.lmb size (2 ^ k) maxAddr n = some (lmb', addr) ∧
        lmb'.memory = s.lmb.memory ∧
        (addr = 0 ∧ lmb' = s.lmb ∨ Handed w s lmb' size (2 ^ k) maxAddr addr ∧
          Good w (2 ^ w - 1) lmb'.reserved ∧
          ∀ x, Covered lmb'.reserved x ↔
            Covered s.lmb.reserved x ∨ (addr ≤ x ∧ x < addr + roundUp size (2 ^ k))) := by
    induction n with
    | zero => exact ⟨_, _, rfl, rfl, .inl ⟨rfl, rfl⟩⟩
    | succ n ih =>
      rw [allocLoop]
      cases eq : startBase w (s.lmb.memory.region n) size (2 ^ k) maxAddr with
      | none => exact ih (by omega)
      | some base =>
        obtain ⟨fit, top⟩ := start n (by omega) base eq
        have big : size ≤ (s.lmb.memory.region n).size := by
          by_contra h
          rw [startBase, if_pos (by omega)] at eq
          contradiction
        have good : Good w (2 ^ w) s.lmb.memory := by
          rcases inv.memory with good | ⟨cnt, zero⟩
          · exact good
          · obtain rfl : n = 0 := by omega
            omega
        obtain ⟨dvd, le, max⟩ := startBase_spec kw pos (good.bound n (by omega))
          (good.small n (by omega)) mlt fit eq
        obtain ⟨tr, try', taken⟩ := @tryLoop_spec w k base size (base + 1) (base + size)
          s.lmb.reserved (s.lmb.memory.region n).base ready kw pos dvd top (Nat.le_refl _) (by omega)
        simp only [try']
        cases tr with
        | next => exact ih (by omega)
        | done res' addr =>
          refine ⟨_, _, rfl, rfl, ?_⟩
          rcases taken with ⟨rfl, rfl⟩ | ⟨lo, hi, al, free, good', cov⟩
          · exact .inl ⟨rfl, rfl⟩
          · refine .inr ⟨⟨al, ⟨n, by omega, lo, by omega⟩, fun m => ?_, ?_, ?_⟩, good', cov⟩
            · have := max m
              omega
            · intro x h1 h2 own
              exact free x h1 h2 (inv.owned x own)
            · intro x h1 h2
              refine lmbIsReserved_of_covered good' ((cov x).2 (.inr ⟨h1, ?_⟩))
              have := @le_roundUp size (2 ^ k) (Nat.two_pow_pos k)
              omega
  exact loop s.lmb.memory.cnt (Nat.le_refl _)

/-- Every operation of a run keeps the invariant. -/
lemma State.Inv.step {op : Op} (ok : Ok w s op) : (step w s op).Inv w := by
  cases op with
  | add base size =>
    obtain ⟨⟨pos, small, bound⟩, sorted, seam⟩ := ok
    obtain ⟨rgn', ret, eq, added⟩ := addRegion_spec (Nat.le_refl _) inv.one sorted inv.memory bound
      pos small seam
    simp only [Lmb.step, lmbAdd, eq, Option.map_some]
    exact ⟨added.cnt, .inl added.good, inv.reserved, inv.owned⟩
  | reserve base size =>
    obtain ⟨⟨pos, small, -⟩, lt, one, sorted⟩ := ok
    obtain ⟨rgn', ret, eq, added⟩ := @addRegion_spec w (2 ^ w - 1) s.lmb.reserved base size (by omega)
      one sorted inv.reserved (by omega) pos small (by
        rcases inv.reserved with good | dummy
        · exact .inr (noSeam_of_lt (by omega) good (by omega))
        · exact .inl dummy)
    simp only [Lmb.step, lmbReserve, eq, Option.map_some]
    refine ⟨inv.one, inv.memory, .inl added.good, fun x own => ?_⟩
    by_cases neg : ret < 0
    · obtain ⟨rfl, -⟩ := added.refused neg
      rcases own with old | ⟨h, -⟩
      · exact inv.owned x old
      · omega
    · rw [added.covered (by omega)]
      rcases own with old | ⟨-, new⟩
      · exact .inl (inv.owned x old)
      · exact .inr new
  | free base size =>
    obtain ⟨⟨pos, small, -⟩, lt, room⟩ := ok
    cases found : findRegion w s.lmb.reserved base size with
    | none =>
      simp only [Lmb.step, lmbFree, found]
      exact ⟨inv.one, inv.memory, inv.reserved, fun x own => inv.owned x own.1⟩
    | some i =>
      have ic : i < s.lmb.reserved.cnt := List.mem_range.1 (List.mem_of_find?_eq_some found)
      have yes := List.find?_some found
      simp only [add_eq lt, Bool.and_eq_true, decide_eq_true_eq] at yes
      have good : Good w (2 ^ w - 1) s.lmb.reserved := by
        rcases inv.reserved with good | ⟨cnt, zero⟩
        · exact good
        · obtain rfl : i = 0 := by omega
          have le := Nat.mod_le ((s.lmb.reserved.region 0).base + 0) (2 ^ w)
          rw [zero, add] at yes
          omega
      have ib := good.bound i ic
      rw [add_eq (by omega)] at yes
      obtain ⟨rgn', ret, eq, good', nonneg, keep⟩ := freeFrom_spec (by omega) good ic pos yes.1 yes.2
        (room i found)
      simp only [Lmb.step, lmbFree, found, eq, Option.map_some]
      refine ⟨inv.one, inv.memory, .inl good', fun x own => ?_⟩
      exact keep x (inv.owned x own.1) fun range => own.2 ⟨nonneg, range⟩
  | alloc size align maxAddr =>
    obtain ⟨lmb', addr, eq, mem, ⟨rfl, rfl⟩ | ⟨handed, good, cov⟩⟩ := inv.alloc ok
    · simp only [Lmb.step, eq]
      exact ⟨inv.one, inv.memory, inv.reserved, fun x own => inv.owned x (by simpa using own)⟩
    · simp only [Lmb.step, eq]
      refine ⟨by rw [mem]; exact inv.one, by rw [mem]; exact inv.memory, .inl good,
        fun x own => (cov x).2 ?_⟩
      obtain ⟨⟨-, -, -, k, -, rfl⟩, -⟩ := ok
      have up := @le_roundUp size (2 ^ k) (Nat.two_pow_pos k)
      rcases own with old | ⟨-, new⟩
      · exact .inl (inv.owned x old)
      · exact .inr ⟨new.1, by omega⟩

end Steps

/-- Memory handed out by the allocator is free: in every run of sound operations from `lmb_init`,
an allocation that returns an address other than 0 returns a multiple of `align` whose range lies
inside a memory region and below `maxAddr`, has no owned address, and is reserved afterwards. -/
theorem alloc_is_free {ops : List Op}
    (run : Along (Ok w) (step w) State.start (ops ++ [Op.alloc size align maxAddr])) :
    ∃ lmb' addr,
      lmbAllocBase w (ops.foldl (step w) State.start).lmb size align maxAddr = some (lmb', addr) ∧
      (addr ≠ 0 →
        Handed w (ops.foldl (step w) State.start) lmb' size align maxAddr addr) := by
  obtain ⟨before, ok, -⟩ := Along.append.1 run
  have inv : (ops.foldl (step w) State.start).Inv w :=
    before.invariant State.start_inv fun s op inv ok => inv.step ok
  obtain ⟨lmb', addr, eq, -, ⟨zero, -⟩ | ⟨handed, -⟩⟩ := inv.alloc ok
  · exact ⟨lmb', addr, eq, fun h => absurd zero h⟩
  · exact ⟨lmb', addr, eq, fun _ => handed⟩

/-- A run with a reservation, an allocation, and a reservation that is split by a free. -/
def sampleRun : List Op :=
  [.add 0x10000000 0x10000000, .reserve 0x1ff00000 0x100000, .alloc 0x3000 0x1000 0,
    .reserve 0x1fe00000 0x1000, .free 0x1ff80000 0x1000]

/-- An allocation after it, below the end of memory. -/
theorem alloc_is_free_after_split :
    ∃ lmb' addr,
      lmbAllocBase 32 (sampleRun.foldl (step 32) State.start).lmb 0x200000 0x100000 0x20000000 =
        some (lmb', addr) ∧
      (addr ≠ 0 → Handed 32 (sampleRun.foldl (step 32) State.start) lmb' 0x200000 0x100000
        0x20000000 addr) :=
  alloc_is_free (by decide)

/-- What has just been allocated is owned. -/
lemma step_alloc_owned {s : State} {addr : Nat}
    (eq : (lmbAllocBase w s.lmb size align maxAddr).map Prod.snd = some addr) (ne : addr ≠ 0)
    (pos : 0 < size) : (step w s (.alloc size align maxAddr)).owned addr := by
  obtain ⟨⟨lmb', addr'⟩, eq1, rfl⟩ := Option.map_eq_some_iff.1 eq
  simp only [step]
  rw [eq1]
  exact .inr ⟨ne, Nat.le_refl _, Nat.lt_add_of_pos_right pos⟩

/-- A run that leaves the reserved table empty. -/
def emptyingRun : List Op :=
  [.add 0x10000000 0x10000000, .reserve 0x18000000 0x1000, .free 0x18000000 0x1000]

/-- An allocation from an empty reserved table is forgotten: the next one returns the same
address, which is owned. -/
theorem alloc_hands_out_twice :
    (∀ op ∈ emptyingRun ++ [Op.alloc 0x1000 0x1000 0], op.Valid 32) ∧
    ∃ lmb' addr, lmbAllocBase 32 ((emptyingRun ++ [Op.alloc 0x1000 0x1000 0]).foldl (step 32)
        State.start).lmb 0x1000 0x1000 0 = some (lmb', addr) ∧ addr ≠ 0 ∧
      ((emptyingRun ++ [Op.alloc 0x1000 0x1000 0]).foldl (step 32) State.start).owned addr := by
  have second : (lmbAllocBase 32 ((emptyingRun ++ [Op.alloc 0x1000 0x1000 0]).foldl (step 32)
      State.start).lmb 0x1000 0x1000 0).map Prod.snd = some 0x1ffff000 := by
    decide
  refine ⟨by decide, ?_⟩
  obtain ⟨⟨lmb', addr⟩, eq, same⟩ := Option.map_eq_some_iff.1 second
  obtain rfl : addr = 0x1ffff000 := same
  refine ⟨lmb', _, eq, by decide, ?_⟩
  rw [List.foldl_append]
  exact @step_alloc_owned 32 0x1000 0x1000 0 (emptyingRun.foldl (step 32) State.start) 0x1ffff000
    (by decide) (by decide) (by decide)

end Imx.Lmb
