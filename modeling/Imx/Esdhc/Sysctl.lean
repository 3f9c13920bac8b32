import Mathlib.Algebra.Order.Ring.Int
import Mathlib.Tactic.Common

/-!
# The clock divider of the SD host controller

Model of `set_sysctl` of `drivers/mmc/fsl_esdhc.c`. A register is a `BitVec 32`; the clocks and the
two dividers are natural numbers, and the product with the requested clock is taken modulo `2 ^ 32`.
The board says whether the enable bits stand in the vendor register (`CONFIG_FSL_USDHC`).

The prescaler and the divider are chosen one after the other. `setSysctl_best` is that no other pair
of the hardware divides by less without a clock above the requested one.
-/

namespace Imx.Esdhc

/-- The lowest clock of the controller (C `cfg.f_min`, set by `fsl_esdhc_initialize`). -/
def fMin : Nat := 400000

/-- The registers that are written. -/
structure Regs where
  sysctl : BitVec 32
  vendorspec : BitVec 32
deriving DecidableEq, Repr

/-- C `SYSCTL_CLOCK_MASK`. -/
def sysctlClockMask : BitVec 32 := 0x0000fff0

/-- C `SYSCTL_CKEN`. -/
def sysctlCken : BitVec 32 := 0x00000008

/-- C `SYSCTL_PEREN`. -/
def sysctlPeren : BitVec 32 := 0x00000004

/-- C `VENDORSPEC_CKEN`. -/
def vendorspecCken : BitVec 32 := 0x00004000

/-- C `VENDORSPEC_PEREN`. -/
def vendorspecPeren : BitVec 32 := 0x00002000

/-- Clear the bits of a mask and set others (C `esdhc_clrsetbits32`). -/
def clrsetbits (reg clear set : BitVec 32) : BitVec 32 := (reg &&& ~~~clear) ||| set

/-- The loop over `pre_div`, at most `fuel` turns of it. -/
def preDivLoop (sdhcClk clock : Nat) : Nat → Nat → Nat
  | 0, preDiv => preDiv
  | fuel + 1, preDiv =>
    if preDiv < 256 then
      if sdhcClk / preDiv ≤ clock * 16 % 2 ^ 32 then preDiv
      else preDivLoop sdhcClk clock fuel (preDiv * 2)
    else preDiv

/-- The prescaler that is chosen. -/
def preDiv (sdhcClk clock : Nat) : Nat :=
  if sdhcClk / 16 > clock then preDivLoop sdhcClk clock 8 2 else 2

/-- The loop over `div`, at most `fuel` turns of it. -/
def divLoop (sdhcClk clock preDiv : Nat) : Nat → Nat → Nat
  | 0, div => div
  | fuel + 1, div =>
    if div ≤ 16 then
      if sdhcClk / (div * preDiv) ≤ clock then div else divLoop sdhcClk clock preDiv fuel (div + 1)
    else div

/-- The divider that is chosen. -/
def div (sdhcClk clock : Nat) : Nat := divLoop sdhcClk clock (preDiv sdhcClk clock) 17 1

/-- The clock that is asked for, raised to the lowest one. -/
def wanted (clock : Nat) : Nat := if clock < fMin then fMin else clock

/-- What `pre_div` is shifted by for its field. -/
def shift (ddrMode : Bool) : Nat := if ddrMode then 2 else 1

/-- The value of the two fields (C `clk`). -/
def clkBits (ddrMode : Bool) (preDiv div : Nat) : BitVec 32 :=
  BitVec.ofNat 32 ((preDiv >>> shift ddrMode) <<< 8 ||| (div - 1) <<< 4)

/-- Set the clock of the card (C `set_sysctl`). -/
def setSysctl (usdhc ddrMode : Bool) (sdhcClk clock : Nat) (regs : Regs) : Regs :=
  let clock := wanted clock
  let clk := clkBits ddrMode (preDiv sdhcClk clock) (div sdhcClk clock)
  if usdhc then
    let vendorspec := regs.vendorspec &&& ~~~vendorspecCken
    { sysctl := clrsetbits regs.sysctl sysctlClockMask clk
      vendorspec := vendorspec ||| (vendorspecPeren ||| vendorspecCken) }
  else
    let sysctl := clrsetbits (regs.sysctl &&& ~~~sysctlCken) sysctlClockMask clk
    { regs with sysctl := sysctl ||| (sysctlPeren ||| sysctlCken) }

/-! ## What the hardware divides by -/

/-- A prescaler and a divider of the hardware. -/
structure Divides (p d : Nat) : Prop where
  pre : ∃ k, 1 ≤ k ∧ k ≤ 8 ∧ p = 2 ^ k
  one : 1 ≤ d
  top : d ≤ 16

variable {s c p d p' d' : Nat}

/-- The prescaler leaves a clock that the divider can lower, and no smaller one does by 16. -/
structure Prescaled (s c p : Nat) : Prop where
  pre : ∃ k, 1 ≤ k ∧ k ≤ 8 ∧ p = 2 ^ k
  reach : s / (16 * p) ≤ c
  first : ∀ j, 1 ≤ j → 2 ^ j < p → 16 * c < s / 2 ^ j

lemma preDivLoop_spec {fuel k : Nat} (reach : s / 4096 ≤ c) (small : c < 2 ^ 28) (pos : 1 ≤ k)
    (le : k ≤ 8) (turns : k + fuel = 9) (first : ∀ j, 1 ≤ j → j < k → 16 * c < s / 2 ^ j) :
    Prescaled s c (preDivLoop s c fuel (2 ^ k)) := by
  have smaller : ∀ j, 1 ≤ j → 2 ^ j < 2 ^ k → 16 * c < s / 2 ^ j := fun j one lt =>
    first j one ((Nat.pow_lt_pow_iff_right (by decide)).mp lt)
  have wide : c * 16 % 2 ^ 32 = c * 16 := Nat.mod_eq_of_lt (by omega)
  induction fuel generalizing k with
  | zero => omega
  | succ fuel ih =>
    rw [preDivLoop, wide]
    obtain rfl | lt := Nat.eq_or_lt_of_le le
    case inl =>
      rw [if_neg (by decide)]
      exact ⟨⟨8, pos, le, rfl⟩, reach, smaller⟩
    case inr =>
      rw [if_pos (Nat.pow_lt_pow_right (by decide) lt)]
      by_cases fits : s / 2 ^ k ≤ c * 16
      case pos =>
        rw [if_pos fits]
        refine ⟨⟨k, pos, le, rfl⟩, ?_, smaller⟩
        rw [Nat.mul_comm, ← Nat.div_div_eq_div_mul]
        exact Nat.div_le_of_le_mul (by omega)
      case neg =>
        rw [if_neg fits, ← Nat.pow_succ]
        have first' : ∀ j, 1 ≤ j → j < k + 1 → 16 * c < s / 2 ^ j := fun j one lt => by
          obtain rfl | lt := Nat.eq_or_lt_of_le (Nat.le_of_lt_succ lt)
          · omega
          · exact first j one lt
        exact ih (by omega) lt (by omega) first' fun j one lt =>
          first' j one ((Nat.pow_lt_pow_iff_right (by decide)).mp lt)

/-- The prescaler that is chosen. -/
lemma preDiv_spec (reach : s / 4096 ≤ c) (small : c < 2 ^ 28) : Prescaled s c (preDiv s c) := by
  rw [preDiv]
  split
  case isTrue =>
    refine preDivLoop_spec (k := 1) reach small (by decide) (by decide) rfl fun j one lt => ?_
    omega
  case isFalse low =>
    refine ⟨⟨1, by decide, by decide, rfl⟩, by omega, fun j one lt => ?_⟩
    have none : j < 1 := (Nat.pow_lt_pow_iff_right (show 1 < 2 by decide)).mp lt
    omega

/-- The divider that is chosen is the first that lowers the clock far enough. -/
lemma divLoop_spec {d : Nat} (fuel : Nat) (reach : s / (16 * p) ≤ c) (one : 1 ≤ d) (le : d ≤ 16)
    (turns : d + fuel = 18) (first : ∀ e, 1 ≤ e → e < d → c < s / (e * p)) :
    let d' := divLoop s c p fuel d
    1 ≤ d' ∧ d' ≤ 16 ∧ s / (d' * p) ≤ c ∧ ∀ e, 1 ≤ e → e < d' → c < s / (e * p) := by
  induction fuel generalizing d with
  | zero => omega
  | succ fuel ih =>
    rw [divLoop, if_pos le]
    by_cases fits : s / (d * p) ≤ c
    case pos =>
      rw [if_pos fits]
      exact ⟨one, le, fits, first⟩
    case neg =>
      rw [if_neg fits]
      have ne : d ≠ 16 := fun eq => fits (by rw [eq]; exact reach)
      refine ih (by omega) (by omega) (by omega) fun e one lt => ?_
      obtain rfl | lt := Nat.eq_or_lt_of_le (Nat.le_of_lt_succ lt)
      · omega
      · exact first e one lt

/-- No pair of the hardware divides by less than the first divider behind the prescaler. A smaller
prescaler can only be the half, with the divider 16; then the chosen divider is at most 8. -/
lemma Prescaled.best (pre : Prescaled s c p) (high : 14 ≤ c)
    (first : ∀ e, 1 ≤ e → e < d → c < s / (e * p)) (other : Divides p' d')
    (fits : s / (p' * d') ≤ c) : p * d ≤ p' * d' := by
  obtain ⟨k, one, le, rfl⟩ := pre.pre
  obtain ⟨⟨j, one', le', rfl⟩, low, top⟩ := other
  by_contra! less
  obtain higher | same := Nat.lt_or_ge j k
  case inr =>
    -- the divider `2 ^ (j - k) * d'` comes to the same
    obtain ⟨i, rfl⟩ := Nat.exists_eq_add_of_le same
    have eq : 2 ^ (k + i) * d' = (2 ^ i * d') * 2 ^ k := by
      rw [Nat.pow_add]
      ac_rfl
    rw [eq] at fits less
    have lt : 2 ^ i * d' < d := Nat.lt_of_mul_lt_mul_right (Nat.mul_comm _ d ▸ less)
    have pos : 1 ≤ 2 ^ i * d' := Nat.mul_pos (Nat.two_pow_pos i) low
    exact absurd (first _ pos lt) (Nat.not_lt_of_le fits)
  case inl =>
    have behind := pre.first j one' (Nat.pow_lt_pow_right (by decide) higher)
    rw [← Nat.div_div_eq_div_mul] at fits
    have below : s / 2 ^ j < (c + 1) * d' := (Nat.div_lt_iff_lt_mul low).mp (Nat.lt_succ_of_le fits)
    have sixteen : d' = 16 := by
      by_contra ne
      have le := Nat.mul_le_mul_left (c + 1) (show d' ≤ 15 by omega)
      omega
    subst sixteen
    have half : k = j + 1 := by
      by_contra ne
      have behind' := pre.first (j + 1) (by omega) (Nat.pow_lt_pow_right (by decide) (by omega))
      rw [Nat.pow_succ, ← Nat.div_div_eq_div_mul] at behind'
      omega
    subst half
    rw [Nat.div_div_eq_div_mul] at fits
    rw [Nat.pow_succ, Nat.mul_assoc] at less
    have lt : 8 < d := by
      have lt := Nat.lt_of_mul_lt_mul_left less
      omega
    have eq : 8 * 2 ^ (j + 1) = 2 ^ j * 16 := by
      rw [Nat.pow_succ]
      omega
    have above := first 8 (by decide) lt
    rw [eq] at above
    omega

/-! ## The register -/

lemma Divides.fields (divides : Divides p d) (ddrMode : Bool) :
    (clkBits ddrMode p d).extractLsb' 8 8 = BitVec.ofNat 8 (p >>> shift ddrMode) ∧
      (clkBits ddrMode p d).extractLsb' 4 4 = BitVec.ofNat 4 (d - 1) ∧
      clkBits ddrMode p d &&& ~~~sysctlClockMask = 0#32 ∧
      p >>> shift ddrMode < 2 ^ 8 ∧ d - 1 < 2 ^ 4 := by
  have all : ∀ (ddrMode : Bool) (k : Fin 9) (d : Fin 17), 1 ≤ k.1 → 1 ≤ d.1 →
      (clkBits ddrMode (2 ^ k.1) d).extractLsb' 8 8 =
          BitVec.ofNat 8 (2 ^ k.1 >>> shift ddrMode) ∧
        (clkBits ddrMode (2 ^ k.1) d).extractLsb' 4 4 = BitVec.ofNat 4 (d - 1) ∧
        clkBits ddrMode (2 ^ k.1) d &&& ~~~sysctlClockMask = 0#32 ∧
        2 ^ k.1 >>> shift ddrMode < 2 ^ 8 ∧ d.1 - 1 < 2 ^ 4 := by decide
  obtain ⟨⟨k, pos, le, rfl⟩, one, top⟩ := divides
  exact all ddrMode ⟨k, by omega⟩ ⟨d, by omega⟩ pos one

lemma clrsetbits_clock (reg clk : BitVec 32) {t : BitVec 32} (pre : t.extractLsb' 8 8 = 0#8)
    (dvs : t.extractLsb' 4 4 = 0#4) :
    (clrsetbits reg sysctlClockMask clk ||| t).extractLsb' 8 8 = clk.extractLsb' 8 8 ∧
      (clrsetbits reg sysctlClockMask clk ||| t).extractLsb' 4 4 = clk.extractLsb' 4 4 := by
  have pre' : (~~~sysctlClockMask).extractLsb' 8 8 = 0#8 := by decide
  have dvs' : (~~~sysctlClockMask).extractLsb' 4 4 = 0#4 := by decide
  rw [clrsetbits, BitVec.extractLsb'_or, BitVec.extractLsb'_or, BitVec.extractLsb'_and,
    BitVec.extractLsb'_or, BitVec.extractLsb'_or, BitVec.extractLsb'_and, pre, pre', dvs, dvs',
    BitVec.and_zero, BitVec.zero_or, BitVec.or_zero, BitVec.and_zero, BitVec.zero_or,
    BitVec.or_zero]
  exact ⟨rfl, rfl⟩

/-- The bits beside the two fields, and the enable bits. -/
lemma clrsetbits_other (reg : BitVec 32) {clk c t : BitVec 32}
    (none : clk &&& ~~~sysctlClockMask = 0#32) (sets : t &&& ~~~sysctlClockMask = t)
    (within : c &&& ~~~t = 0#32) :
    (clrsetbits (reg &&& ~~~c) sysctlClockMask clk ||| t) &&& ~~~sysctlClockMask =
      reg &&& ~~~sysctlClockMask ||| t := by
  refine BitVec.eq_of_getLsbD_eq fun i lt => ?_
  have none := congrArg (·.getLsbD i) none
  have sets := congrArg (·.getLsbD i) sets
  have within := congrArg (·.getLsbD i) within
  simp only [clrsetbits, BitVec.getLsbD_and, BitVec.getLsbD_or, BitVec.getLsbD_not, lt,
    decide_true, Bool.true_and, BitVec.getLsbD_zero] at none sets within ⊢
  revert none sets within
  generalize reg.getLsbD i = r, clk.getLsbD i = k, c.getLsbD i = c, t.getLsbD i = t,
    sysctlClockMask.getLsbD i = m
  revert r k c t m
  decide

/-- The divider that is set is in range and does not overclock the card, none in range divides by
less, and its two values stand in their fields with the other bits as they were. -/
theorem setSysctl_best {sdhcClk clock : Nat} (reach : sdhcClk / 4096 ≤ max clock fMin)
    (small : max clock fMin < 2 ^ 28) (usdhc ddrMode : Bool) (regs : Regs) :
    ∃ p d, Divides p d ∧ sdhcClk / (p * d) ≤ max clock fMin ∧
      (∀ p' d', Divides p' d' → sdhcClk / (p' * d') ≤ max clock fMin → p * d ≤ p' * d') ∧
      let sysctl := (setSysctl usdhc ddrMode sdhcClk clock regs).sysctl
      (sysctl.extractLsb' 8 8).toNat = p >>> shift ddrMode ∧
        (sysctl.extractLsb' 4 4).toNat = d - 1 ∧
        sysctl &&& ~~~sysctlClockMask =
          if usdhc then regs.sysctl &&& ~~~sysctlClockMask
          else regs.sysctl &&& ~~~sysctlClockMask ||| (sysctlPeren ||| sysctlCken) := by
  have want : wanted clock = max clock fMin := by
    unfold wanted
    split <;> omega
  have high : 14 ≤ max clock fMin := by
    unfold fMin
    omega
  have pre := preDiv_spec reach small
  obtain ⟨one, top, fits, first⟩ :=
    divLoop_spec 17 pre.reach (Nat.le_refl 1) (by decide) rfl fun e one lt => by omega
  have divides : Divides (preDiv sdhcClk (max clock fMin)) (div sdhcClk (max clock fMin)) :=
    ⟨pre.pre, one, top⟩
  refine ⟨_, _, divides, Nat.mul_comm _ _ ▸ fits, fun p' d' => pre.best high first, ?_⟩
  obtain ⟨field, field', clear, lt, lt'⟩ := divides.fields ddrMode
  have val : (BitVec.ofNat 8 (preDiv sdhcClk (max clock fMin) >>> shift ddrMode)).toNat = _ :=
    Nat.mod_eq_of_lt lt
  have val' : (BitVec.ofNat 4 (div sdhcClk (max clock fMin) - 1)).toNat = _ := Nat.mod_eq_of_lt lt'
  unfold setSysctl
  rw [want]
  cases usdhc with
  | true =>
    obtain ⟨same, same'⟩ := clrsetbits_clock regs.sysctl
      (clkBits ddrMode (preDiv sdhcClk (max clock fMin)) (div sdhcClk (max clock fMin)))
      (t := 0#32) rfl rfl
    have other := clrsetbits_other regs.sysctl (c := 0#32) (t := 0#32) clear (by decide)
      (by decide)
    rw [BitVec.not_zero, BitVec.and_allOnes, BitVec.or_zero, BitVec.or_zero] at other
    rw [BitVec.or_zero, field] at same
    rw [BitVec.or_zero, field'] at same'
    simp only [if_true]
    rw [same, same']
    exact ⟨val, val', other⟩
  | false =>
    obtain ⟨same, same'⟩ := clrsetbits_clock (regs.sysctl &&& ~~~sysctlCken)
      (clkBits ddrMode (preDiv sdhcClk (max clock fMin)) (div sdhcClk (max clock fMin)))
      (t := sysctlPeren ||| sysctlCken) (by decide) (by decide)
    simp only [Bool.false_eq_true, if_false]
    rw [same, same', field, field']
    exact ⟨val, val', clrsetbits_other _ clear (by decide) (by decide)⟩

/-- A controller clock of 198 MHz and a card at 25 MHz. -/
theorem setSysctl_best_card : ∃ p d, Divides p d ∧ 198000000 / (p * d) ≤ 25000000 ∧
      (∀ p' d', Divides p' d' → 198000000 / (p' * d') ≤ 25000000 → p * d ≤ p' * d') ∧
      let sysctl := (setSysctl true false 198000000 25000000 ⟨0xffffffff, 0⟩).sysctl
      (sysctl.extractLsb' 8 8).toNat = p >>> shift false ∧
        (sysctl.extractLsb' 4 4).toNat = d - 1 ∧ sysctl &&& ~~~sysctlClockMask = 0xffff000f :=
  @setSysctl_best 198000000 25000000 (by decide) (by decide) true false ⟨0xffffffff, 0⟩

end Imx.Esdhc
