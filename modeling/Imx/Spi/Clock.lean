import Mathlib.Algebra.Order.Ring.Nat
import Mathlib.Data.Nat.Size
import Imx.Spi.Defs

/-!
# The clock of the SPI controller

`spi_cfg_mxc` of a controller with two dividers, a number up to 16 and a power of two up to 2^15.
The pair that is programmed has the least product that does not overclock the device, and there is
an error exactly where no pair is slow enough.
-/

namespace Imx.Spi
open Imx.Base

/-- One turn of `generic_fls`, on `x` and `r`. -/
def flsStep (k : Nat) (s : BitVec 32 × Nat) : BitVec 32 × Nat :=
  if s.1 &&& (BitVec.allOnes 32 <<< (32 - k)) = 0 then (s.1 <<< k, s.2 - k) else s

/-- C `generic_fls`. -/
def fls (x : BitVec 32) : Nat :=
  if x = 0 then 0
  else (flsStep 1 (flsStep 2 (flsStep 4 (flsStep 8 (flsStep 16 (x, 32)))))).2

/-- The registers `spi_cfg_mxc` writes. -/
structure Regs where
  ctrl : BitVec 32
  cfg : BitVec 32
  intr : BitVec 32
  stat : BitVec 32

/-- A bit of the configuration that is set for each chip select. -/
def putBit (cs : Nat) (pos : Nat) (bit : BitVec 32) (regConfig : BitVec 32) : BitVec 32 :=
  (regConfig &&& ~~~((1 : BitVec 32) <<< (cs + pos))) ||| (bit <<< (cs + pos))

/-- The dividers for a clock, none where the frequency is too low. -/
def dividers (clkSrc maxHz : BitVec 32) : Option (BitVec 32 × Nat) :=
  if maxHz < clkSrc then
    let preDiv := (clkSrc - 1) / maxHz
    let postDiv := fls preDiv
    if 4 < postDiv then
      let postDiv := postDiv - 4
      if 16 ≤ postDiv then none else some (preDiv >>> postDiv, postDiv)
    else
      some (preDiv, 0)
  else
    some (0, 0)

def spiCfgMxc (clkSrc : BitVec 32) (mxcs : Slave) (regs : Regs) (cs : Nat) : Int × Slave × Regs :=
  let regCtrl := cspictrlModeMask
  let regs := { regs with ctrl := regCtrl }
  let regCtrl := regCtrl ||| cspictrlEn
  let regs := { regs with ctrl := regCtrl }
  match dividers clkSrc mxcs.maxHz with
  | none => (-1, mxcs, regs)
  | some (preDiv, postDiv) =>
    let regCtrl := (regCtrl &&& ~~~cspictrlSelchan 3) ||| cspictrlSelchan (BitVec.ofNat 32 cs)
    let regCtrl := (regCtrl &&& ~~~cspictrlPrediv 0x0F) ||| cspictrlPrediv preDiv
    let regCtrl := (regCtrl &&& ~~~cspictrlPostdiv 0x0F) |||
      cspictrlPostdiv (BitVec.ofNat 32 postDiv)
    let ssPol : BitVec 32 := if mxcs.mode &&& spiCsHigh ≠ 0 then 1 else 0
    let sclkpol : BitVec 32 := if mxcs.mode &&& spiCpol ≠ 0 then 1 else 0
    let sclkctl : BitVec 32 := if mxcs.mode &&& spiCpol ≠ 0 then 1 else 0
    let sclkpha : BitVec 32 := if mxcs.mode &&& spiCpha ≠ 0 then 1 else 0
    let regConfig := putBit cs cspiconSspol ssPol regs.cfg
    let regConfig := putBit cs cspiconPol sclkpol regConfig
    let regConfig := putBit cs cspiconCtl sclkctl regConfig
    let regConfig := putBit cs cspiconPha sclkpha regConfig
    (0, { mxcs with ctrlReg := regCtrl, cfgReg := regConfig },
      ⟨regCtrl, regConfig, 0, cspictrlTc ||| cspictrlRxovf⟩)

/-- The dividers that are programmed. -/
def preDiv (reg : BitVec 32) : Nat := (getField 4 12 reg).toNat

def postDiv (reg : BitVec 32) : Nat := (getField 4 8 reg).toNat

/-- What the clock is divided by. -/
def divisor (pre post : Nat) : Nat := (pre + 1) * 2 ^ post

/-- A pair of dividers that does not overclock the device. -/
def Slow (clkSrc maxHz pre post : Nat) : Prop := clkSrc ≤ maxHz * divisor pre post

/-- The pair is slow enough, and no other one that is slow enough is faster. -/
structure Best (clkSrc maxHz pre post : Nat) : Prop where
  pre_le : pre ≤ 15
  post_le : post ≤ 15
  slow : Slow clkSrc maxHz pre post
  least : ∀ p q, p ≤ 15 → q ≤ 15 → Slow clkSrc maxHz p q → divisor pre post ≤ divisor p q

/-! ## The highest bit -/

variable {x : BitVec 32} {n k r : Nat}

/-- The highest bits are clear in a small number. -/
lemma high_eq_zero :
    x &&& (BitVec.allOnes 32 <<< (32 - k)) = 0 ↔ x.toNat < 2 ^ (32 - k) := by
  constructor
  · intro clear
    refine Nat.lt_pow_two_of_testBit _ fun i ge => ?_
    by_cases inside : i < 32
    case neg =>
      exact Nat.testBit_lt_two_pow
        (Nat.lt_of_lt_of_le x.isLt (Nat.pow_le_pow_right (by decide) (by omega)))
    case pos =>
      have bit : (x &&& (BitVec.allOnes 32 <<< (32 - k))).getLsbD i = false := by
        rw [clear]
        exact BitVec.getLsbD_zero
      have ones : (BitVec.allOnes 32 <<< (32 - k)).getLsbD i = true := by
        rw [BitVec.getLsbD_shiftLeft, BitVec.getLsbD_allOnes]
        have less : i - (32 - k) < 32 := by omega
        simp [inside, Nat.not_lt.2 ge, less]
      rw [BitVec.getLsbD_and, ones, Bool.and_true] at bit
      exact bit
  · intro lt
    refine BitVec.eq_of_getLsbD_eq fun i inside => ?_
    rw [BitVec.getLsbD_and, BitVec.getLsbD_shiftLeft]
    by_cases low : i < 32 - k
    case pos => simp [low]
    case neg =>
      have zero : x.getLsbD i = false := by
        rw [BitVec.getLsbD]
        exact Nat.testBit_lt_two_pow
          (Nat.lt_of_lt_of_le lt (Nat.pow_le_pow_right (by decide) (by omega)))
      simp [zero]

/-- `x` is the number of which the highest bit is looked for, shifted up, and has a bit among the
highest `k`. -/
structure Looks (n k : Nat) (s : BitVec 32 × Nat) : Prop where
  le : s.2 ≤ 32
  shifted : s.1.toNat = n * 2 ^ (32 - s.2)
  high : 2 ^ (32 - k) ≤ s.1.toNat

lemma Looks.step {s : BitVec 32 × Nat} (looks : Looks n (2 * k) s) (pos : 0 < n) (le : 2 * k ≤ 32) :
    Looks n k (flsStep k s) := by
  obtain ⟨x, r⟩ := s
  obtain ⟨r_le, shifted, high⟩ := looks
  dsimp only at r_le shifted high
  rw [flsStep]
  by_cases clear : x &&& (BitVec.allOnes 32 <<< (32 - k)) = 0
  case neg =>
    rw [if_neg clear]
    exact ⟨r_le, shifted, Nat.le_of_not_lt fun lt => clear (high_eq_zero.2 lt)⟩
  case pos =>
    have lt := high_eq_zero.1 clear
    have room : k ≤ r := by
      by_contra less
      have big : 2 ^ (32 - k) ≤ 2 ^ (32 - r) := Nat.pow_le_pow_right (by decide) (by omega)
      have le : 2 ^ (32 - r) ≤ n * 2 ^ (32 - r) := Nat.le_mul_of_pos_left _ pos
      omega
    have split : 2 ^ (32 - k) * 2 ^ k = 2 ^ 32 := by
      rw [← Nat.pow_add]
      congr 1
      omega
    have up : (x <<< k).toNat = x.toNat * 2 ^ k := by
      rw [BitVec.toNat_shiftLeft, Nat.shiftLeft_eq, Nat.mod_eq_of_lt]
      rw [← split]
      exact Nat.mul_lt_mul_of_pos_right lt (Nat.two_pow_pos k)
    rw [if_pos clear]
    refine ⟨?_, ?_, ?_⟩
    · dsimp only
      omega
    · dsimp only
      rw [up, shifted, Nat.mul_assoc, ← Nat.pow_add]
      congr 2
      omega
    · dsimp only
      have same : 2 ^ (32 - k) = 2 ^ (32 - 2 * k) * 2 ^ k := by
        rw [← Nat.pow_add]
        congr 1
        omega
      rw [up, same]
      exact Nat.mul_le_mul_right _ high

lemma fls_eq (x : BitVec 32) : fls x = x.toNat.size := by
  rw [fls]
  by_cases zero : x = 0
  case pos =>
    rw [if_pos zero, zero]
    rfl
  case neg =>
    have pos : 0 < x.toNat := Nat.pos_of_ne_zero fun eq => zero (BitVec.eq_of_toNat_eq eq)
    have start : Looks x.toNat 32 (x, 32) := ⟨Nat.le_refl _, (Nat.mul_one _).symm, pos⟩
    have halves := (start.step pos (k := 16) (by decide)).step pos (k := 8) (by decide)
    have bytes := (halves.step pos (k := 4) (by decide)).step pos (k := 2) (by decide)
    have looks := bytes.step pos (k := 1) (by decide)
    rw [if_neg zero]
    generalize flsStep 1 _ = s at looks ⊢
    obtain ⟨y, r⟩ := s
    obtain ⟨r_le, shifted, high⟩ := looks
    dsimp only at r_le shifted high ⊢
    have below := y.isLt
    have whole : 2 ^ r * 2 ^ (32 - r) = 2 ^ 32 := by
      rw [← Nat.pow_add]
      congr 1
      omega
    have lt : x.toNat < 2 ^ r := by
      refine Nat.lt_of_mul_lt_mul_right (a := 2 ^ (32 - r)) ?_
      rw [whole, ← shifted]
      exact below
    have r_pos : 0 < r := by
      refine Nat.pos_of_ne_zero fun eq => ?_
      rw [eq] at lt
      omega
    have ge : 2 ^ (r - 1) ≤ x.toNat := by
      refine Nat.le_of_mul_le_mul_right (c := 2 ^ (32 - r)) ?_ (Nat.two_pow_pos _)
      have half : 2 ^ (r - 1) * 2 ^ (32 - r) = 2 ^ 31 := by
        rw [← Nat.pow_add]
        congr 1
        omega
      rw [half, ← shifted]
      exact high
    have le := Nat.size_le.2 lt
    have gt := Nat.lt_size.2 ge
    omega

/-! ## The dividers -/

variable {clkSrc maxHz p q : Nat}

lemma divisor_pos (p q : Nat) : 0 < divisor p q :=
  Nat.mul_pos (Nat.succ_pos p) (Nat.two_pow_pos q)

/-- The quotient that is computed is below the divisors that are slow enough. -/
lemma slow_iff (pos : 0 < maxHz) (faster : maxHz < clkSrc) :
    Slow clkSrc maxHz p q ↔ (clkSrc - 1) / maxHz < divisor p q := by
  rw [Slow, Nat.div_lt_iff_lt_mul pos, Nat.mul_comm]
  omega

/-- A divisor that is not too fast is reached with the low bits dropped. -/
lemma lt_divisor_shift (x q : Nat) : x < divisor (x / 2 ^ q) q := by
  have lt := Nat.lt_mul_div_succ x (Nat.two_pow_pos q)
  rw [Nat.mul_comm] at lt
  exact lt

/-- With a smaller exponent the divisor is at most `2 ^ (e + 3)`. -/
lemma divisor_le_of_lt {e : Nat} (p_le : p ≤ 15) (lt : q < e) : divisor p q ≤ 2 ^ (e + 3) := by
  have exp : 2 ^ q ≤ 2 ^ (e - 1) := Nat.pow_le_pow_right (by decide) (by omega)
  have all : 2 ^ (e + 3) = 16 * 2 ^ (e - 1) := by
    rw [show e + 3 = 4 + (e - 1) by omega, Nat.pow_add]
  rw [divisor, all]
  exact Nat.mul_le_mul (by omega) exp

/-- The dividers computed from a quotient of more than four bits are the least above it. -/
lemma least_shift {x e : Nat} (ge : 2 ^ (e + 3) ≤ x) (p_le : p ≤ 15) (lt : x < divisor p q) :
    divisor (x / 2 ^ e) e ≤ divisor p q := by
  by_cases less : q < e
  case pos =>
    have le : divisor p q ≤ 2 ^ (e + 3) := divisor_le_of_lt p_le less
    omega
  case neg =>
    have split : divisor p q = (p + 1) * 2 ^ (q - e) * 2 ^ e := by
      rw [divisor, Nat.mul_assoc, ← Nat.pow_add]
      congr 2
      omega
    rw [split] at lt ⊢
    exact Nat.mul_le_mul_right _ ((Nat.div_lt_iff_lt_mul (Nat.two_pow_pos e)).2 lt)

lemma size_pos_le {x : Nat} (lt : 4 < x.size) : 2 ^ (x.size - 1) ≤ x := by
  refine Nat.lt_size.1 ?_
  omega

/-- What `dividers` computes, as numbers. -/
lemma dividers_eq (clkSrc maxHz : BitVec 32) (faster : maxHz < clkSrc) :
    dividers clkSrc maxHz =
      let x := (clkSrc.toNat - 1) / maxHz.toNat
      if x.size ≤ 4 then some (BitVec.ofNat 32 x, 0)
      else if 20 ≤ x.size then none
      else some (BitVec.ofNat 32 (x / 2 ^ (x.size - 4)), x.size - 4) := by
  have lt : maxHz.toNat < clkSrc.toNat := faster
  have less : (clkSrc - 1).toNat = clkSrc.toNat - 1 := by
    rw [BitVec.toNat_sub_of_le]
    · rfl
    · show 1 ≤ clkSrc.toNat
      omega
  have quotient : ((clkSrc - 1) / maxHz).toNat = (clkSrc.toNat - 1) / maxHz.toNat := by
    rw [BitVec.toNat_udiv, less]
  have self : (clkSrc - 1) / maxHz = BitVec.ofNat 32 ((clkSrc.toNat - 1) / maxHz.toNat) := by
    rw [← quotient, BitVec.ofNat_toNat, BitVec.setWidth_eq]
  rw [dividers, if_pos faster]
  dsimp only
  rw [fls_eq, quotient]
  generalize sized : ((clkSrc.toNat - 1) / maxHz.toNat).size = b
  by_cases small : b ≤ 4
  case pos => rw [if_neg (Nat.not_lt.2 small), if_pos small, self]
  case neg =>
    rw [if_pos (Nat.lt_of_not_le small), if_neg small]
    by_cases large : 20 ≤ b
    case pos => rw [if_pos large, if_pos (by omega)]
    case neg =>
      have shifted : ((clkSrc - 1) / maxHz) >>> (b - 4) =
          BitVec.ofNat 32 ((clkSrc.toNat - 1) / maxHz.toNat / 2 ^ (b - 4)) := by
        refine BitVec.eq_of_toNat_eq ?_
        rw [BitVec.toNat_ushiftRight, quotient, Nat.shiftRight_eq_div_pow, BitVec.toNat_ofNat,
          Nat.mod_eq_of_lt]
        rw [← quotient]
        exact Nat.lt_of_le_of_lt (Nat.div_le_self _ _) (BitVec.isLt _)
      rw [if_neg large, if_neg (by omega), shifted]

/-- The dividers are the best ones in range, and there are none where there is no pair in range. -/
lemma dividers_spec (clkSrc maxHz : BitVec 32) (pos : 0 < maxHz.toNat) :
    match dividers clkSrc maxHz with
    | some (p, q) => Best clkSrc.toNat maxHz.toNat p.toNat q
    | none => ∀ p q, p ≤ 15 → q ≤ 15 → ¬ Slow clkSrc.toNat maxHz.toNat p q := by
  by_cases faster : maxHz < clkSrc
  case neg =>
    have le : clkSrc.toNat ≤ maxHz.toNat := Nat.le_of_not_lt faster
    rw [dividers, if_neg faster]
    refine ⟨by decide, by decide, ?_, fun p q _ _ _ => divisor_pos p q⟩
    show clkSrc.toNat ≤ maxHz.toNat * 1
    rwa [Nat.mul_one]
  case pos =>
    have lt : maxHz.toNat < clkSrc.toNat := faster
    rw [dividers_eq clkSrc maxHz faster]
    dsimp only
    generalize quot : (clkSrc.toNat - 1) / maxHz.toNat = x
    have slow {p q : Nat} : Slow clkSrc.toNat maxHz.toNat p q ↔ x < divisor p q := by
      rw [slow_iff pos lt, quot]
    by_cases small : x.size ≤ 4
    case pos =>
      have x_lt : x < 16 := Nat.size_le.1 small
      have self : (BitVec.ofNat 32 x).toNat = x := Nat.mod_eq_of_lt (by omega)
      rw [if_pos small]
      dsimp only
      rw [self]
      have one : divisor x 0 = x + 1 := Nat.mul_one _
      refine ⟨Nat.le_of_lt_succ x_lt, by decide, ?_, fun p q _ _ h => ?_⟩
      · rw [slow, one]
        exact Nat.lt_succ_self x
      · rw [one]
        exact slow.1 h
    case neg =>
      have ge : 2 ^ (x.size - 4 + 3) ≤ x := by
        have ge := size_pos_le (Nat.lt_of_not_le small)
        rwa [show x.size - 1 = x.size - 4 + 3 by omega] at ge
      rw [if_neg small]
      by_cases large : 20 ≤ x.size
      case pos =>
        rw [if_pos large]
        intro p q p_le q_le h
        have le := divisor_le_of_lt (e := x.size - 4) p_le (by omega : q < x.size - 4)
        have lt := slow.1 h
        omega
      case neg =>
        have x_lt : x < 2 ^ 4 * 2 ^ (x.size - 4) := by
          have lt := Nat.lt_size_self x
          rwa [← Nat.pow_add, show 4 + (x.size - 4) = x.size by omega]
        have within : x / 2 ^ (x.size - 4) < 16 :=
          (Nat.div_lt_iff_lt_mul (Nat.two_pow_pos _)).2 x_lt
        have self : (BitVec.ofNat 32 (x / 2 ^ (x.size - 4))).toNat = x / 2 ^ (x.size - 4) :=
          Nat.mod_eq_of_lt (by omega)
        rw [if_neg large]
        dsimp only
        rw [self]
        refine ⟨Nat.le_of_lt_succ within, by omega, ?_, fun p q p_le _ h => ?_⟩
        · rw [slow]
          exact lt_divisor_shift x _
        · exact least_shift ge p_le (slow.1 h)

/-! ## The register -/

/-- The dividers are the ones that are put into the control register. -/
lemma programmed (reg : BitVec 32) {p : BitVec 32} {q : Nat} (p_le : p.toNat ≤ 15) (q_le : q ≤ 15) :
    let ctrl := (reg &&& ~~~cspictrlPrediv 0x0F) ||| cspictrlPrediv p
    let ctrl := (ctrl &&& ~~~cspictrlPostdiv 0x0F) ||| cspictrlPostdiv (BitVec.ofNat 32 q)
    preDiv ctrl = p.toNat ∧ postDiv ctrl = q := by
  have low (x : BitVec 32) (le : x.toNat ≤ 15) : (x &&& mask 4).toNat = x.toNat := by
    rw [BitVec.toNat_and]
    show x.toNat &&& 2 ^ 4 - 1 = x.toNat
    rw [Nat.and_two_pow_sub_one_eq_mod]
    exact Nat.mod_eq_of_lt (Nat.lt_succ_of_le le)
  have self : (BitVec.ofNat 32 q).toNat = q := Nat.mod_eq_of_lt (by omega)
  constructor
  · have kept := @getField_put_of_disjoint 4 12 4 8
      ((reg &&& ~~~field 4 12 (mask 4)) ||| field 4 12 p) (BitVec.ofNat 32 q)
      (by decide) (by decide) (.inr (by decide))
    have back := @getField_put 4 12 reg p (by decide)
    refine (congrArg BitVec.toNat (kept.trans back)).trans ?_
    exact low p p_le
  · have back := @getField_put 4 8 ((reg &&& ~~~field 4 12 (mask 4)) ||| field 4 12 p)
      (BitVec.ofNat 32 q) (by decide)
    refine (congrArg BitVec.toNat back).trans ?_
    rw [low _ (by rwa [self]), self]

/-- The divider is the best one that does not overclock the device, and there is an error exactly
where there is none. -/
theorem spiCfgMxc_best (clkSrc : BitVec 32) (mxcs : Slave) (regs : Regs) (cs : Nat)
    (pos : 0 < mxcs.maxHz.toNat) :
    let r := spiCfgMxc clkSrc mxcs regs cs
    (r.1 = 0 → r.2.2.ctrl = r.2.1.ctrlReg ∧
      Best clkSrc.toNat mxcs.maxHz.toNat (preDiv r.2.2.ctrl) (postDiv r.2.2.ctrl)) ∧
    (r.1 = -1 ↔ ∀ p q, p ≤ 15 → q ≤ 15 → ¬ Slow clkSrc.toNat mxcs.maxHz.toNat p q) ∧
    (r.1 = 0 ∨ r.1 = -1) := by
  have spec := dividers_spec clkSrc mxcs.maxHz pos
  rw [spiCfgMxc]
  cases eq : dividers clkSrc mxcs.maxHz with
  | none =>
    rw [eq] at spec
    exact ⟨fun h => (nomatch h), ⟨fun _ => spec, fun _ => rfl⟩, .inr rfl⟩
  | some pair =>
    obtain ⟨p, q⟩ := pair
    rw [eq] at spec
    refine ⟨fun _ => ⟨rfl, ?_⟩, ⟨fun h => (nomatch h), fun no => ?_⟩, .inl rfl⟩
    · obtain ⟨pre, post⟩ := programmed
        ((((cspictrlModeMask ||| cspictrlEn) &&& ~~~cspictrlSelchan 3) |||
          cspictrlSelchan (BitVec.ofNat 32 cs))) spec.pre_le spec.post_le
      rw [pre, post]
      exact spec
    · exact (no _ _ spec.pre_le spec.post_le spec.slow).elim

/-- A flash of 10 MHz, with a clock of 60 MHz: it is divided by 6. -/
theorem spiCfgMxc_best_flash :
    let r := spiCfgMxc 60000000 ⟨0, 0, -1, false, 10000000, 0⟩ ⟨0, 0, 0, 0⟩ 0
    preDiv r.2.2.ctrl = 5 ∧ postDiv r.2.2.ctrl = 0 ∧
      Best 60000000 10000000 (preDiv r.2.2.ctrl) (postDiv r.2.2.ctrl) :=
  ⟨by decide, by decide,
    ((spiCfgMxc_best 60000000 ⟨0, 0, -1, false, 10000000, 0⟩ ⟨0, 0, 0, 0⟩ 0 (by decide)).1
      (by decide)).2⟩

end Imx.Spi
