import Mathlib.Tactic.Common
import Mathlib.Tactic.IntervalCases

/-!
# Numbers on the screen of the bare-metal board

Model of `lcd_pow`, `lcd_show_num` and `lcd_show_xnum` of `bsp/lcd/lcdapi.c`. The calls of
`lcd_show_char` a number leads to are its cells, and a division by zero has no result. The weight of
a cell is a power of ten cut to 32 bits, which is wrong from 10^10 on and 0 from 10^32 on.
-/

namespace Imx.Bsp.Number

/-- A call of `lcd_show_char`. -/
structure Cell where
  x : Nat
  y : Nat
  num : Nat
  size : Nat
  mode : Nat
deriving DecidableEq

def lcdPow (m : Nat) : (n : Nat) → (result : Nat) → Nat
  | 0, result => result
  | n + 1, result => lcdPow m n (result * m % 2 ^ 32)

/-- The cell of a number that begins at `x`, `y`. -/
def cell (x y size mode t num : Nat) : Cell :=
  { x := (x + size / 2 * t) % 2 ^ 16, y, num, size, mode }

/-- The loop of both functions, which show a leading 0 as `lead`. -/
def showLoop (lead mode x y num len size : Nat) : (turns t : Nat) → Bool → Option (List Cell)
  | 0, _, _ => some []
  | turns + 1, t, enshow =>
    let weight := lcdPow 10 (len - t - 1) 1
    if weight = 0 then none
    else
      let temp := num / weight % 10
      let digit := cell x y size mode t (temp + 48)
      if enshow = false ∧ t < len - 1 then
        if temp = 0 then
          (showLoop lead mode x y num len size turns (t + 1) enshow).map
            (cell x y size mode t lead :: ·)
        else (showLoop lead mode x y num len size turns (t + 1) true).map (digit :: ·)
      else (showLoop lead mode x y num len size turns (t + 1) enshow).map (digit :: ·)

def lcdShowNum (x y num len size : Nat) : Option (List Cell) :=
  showLoop 32 0 x y num len size len 0 false

def lcdShowXnum (x y num len size mode : Nat) : Option (List Cell) :=
  showLoop (if mode &&& 0x80 ≠ 0 then 48 else 32) (mode &&& 0x01) x y num len size len 0 false

/-! ## The digits of a number -/

/-- The decimal digit of weight `10 ^ e`. -/
def digit (num e : Nat) : Nat := num / 10 ^ e % 10

/-- The digits of the cells up to `t` are 0, and it is not the last cell. -/
def Leading (num len t : Nat) : Prop := t < len - 1 ∧ ∀ s ≤ t, digit num (len - 1 - s) = 0

instance (num len t : Nat) : Decidable (Leading num len t) := inferInstanceAs (Decidable (_ ∧ _))

/-- What a cell should show. -/
def shown (lead mode x y num len size t : Nat) : Cell :=
  cell x y size mode t (if Leading num len t then lead else digit num (len - 1 - t) + 48)

/-- All cells are shown as they should be. -/
def Right (lead mode x y num len size : Nat) (cells : Option (List Cell)) : Prop :=
  cells = some ((List.range len).map (shown lead mode x y num len size))

/-- The weights beyond 32 bits do not show, as cut, a digit of the number. -/
def Narrow (num len : Nat) : Prop :=
  len ≤ 32 ∧ ∀ e, 10 ≤ e → e < len → num / (10 ^ e % 2 ^ 32) % 10 = 0

/-! ## The loops -/

lemma lcdPow_eq (m n result : Nat) (h : result < 2 ^ 32) :
    lcdPow m n result = result * m ^ n % 2 ^ 32 := by
  induction n generalizing result with
  | zero => rw [lcdPow, Nat.pow_zero, Nat.mul_one, Nat.mod_eq_of_lt h]
  | succ n ih =>
    rw [lcdPow, ih _ (Nat.mod_lt _ (by decide)), Nat.mod_mul_mod, Nat.mul_assoc, Nat.mul_comm m,
      ← Nat.pow_succ m]

lemma weight_eq (e : Nat) : lcdPow 10 e 1 = 10 ^ e % 2 ^ 32 := by
  rw [lcdPow_eq 10 e 1 (by decide), Nat.one_mul]

/-- A power of ten is cut to 0 from the 32nd on. -/
lemma weight_ne_zero {e : Nat} (h : e < 32) : 10 ^ e % 2 ^ 32 ≠ 0 := by
  interval_cases e <;> decide

variable {lead mode x y num len size : Nat}

/-- A number of 32 bits has ten digits. -/
lemma digit_eq_zero {e : Nat} (hnum : num < 2 ^ 32) (h : 10 ≤ e) : digit num e = 0 := by
  have hpow : 10 ^ 10 ≤ 10 ^ e := Nat.pow_le_pow_right (by decide) h
  rw [digit, Nat.div_eq_of_lt (by omega)]

/-- The digit the loop computes is the one of the number, where the weight is not cut wrongly. -/
lemma temp_eq {e : Nat} (hnum : num < 2 ^ 32) (h : Narrow num len) (he : e < len) :
    num / (10 ^ e % 2 ^ 32) % 10 = digit num e := by
  rcases Nat.lt_or_ge e 10 with hlt | hge
  · have hpow : 10 ^ e ≤ 10 ^ 9 := Nat.pow_le_pow_right (by decide) (by omega)
    rw [digit, @Nat.mod_eq_of_lt (10 ^ e) _ (by omega)]
  · rw [h.2 e hge he, digit_eq_zero hnum hge]

/-- The loop shows the rest of the cells, once a digit was shown or not. -/
lemma showLoop_eq (hnum : num < 2 ^ 32) (h : Narrow num len) {turns t : Nat} {enshow : Bool}
    (hlen : t + turns = len)
    (henshow : 0 < turns → (enshow = false ↔ ∀ s < t, digit num (len - 1 - s) = 0)) :
    showLoop lead mode x y num len size turns t enshow =
      some ((List.range' t turns).map (shown lead mode x y num len size)) := by
  induction turns generalizing t enshow with
  | zero => rfl
  | succ turns ih =>
    have hzero := henshow (Nat.succ_pos turns)
    have hsub : len - t - 1 = len - 1 - t := by omega
    have hnext : (∀ s < t + 1, digit num (len - 1 - s) = 0) ↔
        enshow = false ∧ digit num (len - 1 - t) = 0 := by
      rw [Nat.forall_lt_succ_right, hzero]
    have hlead : Leading num len t ↔
        t < len - 1 ∧ enshow = false ∧ digit num (len - 1 - t) = 0 := by
      rw [Leading, ← hnext]
      simp only [Nat.lt_succ_iff]
    rw [showLoop, weight_eq, if_neg (weight_ne_zero (by have := h.1; omega)),
      temp_eq hnum h (by omega), hsub, List.range'_succ, List.map_cons, shown]
    by_cases hcond : enshow = false ∧ t < len - 1
    · rw [if_pos hcond]
      by_cases hdigit : digit num (len - 1 - t) = 0
      · rw [if_pos hdigit, if_pos (hlead.2 ⟨hcond.2, hcond.1, hdigit⟩),
          ih (by omega) fun _ => hnext.trans (and_iff_left hdigit) |>.symm]
        rfl
      · rw [if_neg hdigit, if_neg fun hl => hdigit (hlead.1 hl).2.2,
          ih (by omega) fun _ => iff_of_false (by simp) fun hall => hdigit (hnext.1 hall).2]
        rfl
    · rw [if_neg hcond, if_neg fun hl => hcond ⟨(hlead.1 hl).2.1, (hlead.1 hl).1⟩,
        ih (by omega) fun hpos => ?_]
      · rfl
      · -- a digit was shown, as this is not the last cell
        have hshown : enshow ≠ false := fun hf => hcond ⟨hf, by omega⟩
        exact iff_of_false hshown fun hall => hshown (hnext.1 hall).1

/-- Cells that are right from a leading one on need weights that are not cut wrongly. -/
lemma narrow_of_right (hnum : num < 2 ^ 32) (hblank : lead = 32 ∨ lead = 48) {turns t : Nat}
    (hlen : t + turns = len) (hzero : ∀ s < t, digit num (len - 1 - s) = 0)
    (h : showLoop lead mode x y num len size turns t false =
      some ((List.range' t turns).map (shown lead mode x y num len size))) :
    ∀ e, 10 ≤ e → e < turns → 10 ^ e % 2 ^ 32 ≠ 0 ∧ num / (10 ^ e % 2 ^ 32) % 10 = 0 := by
  induction turns generalizing t with
  | zero => exact fun e _ he => absurd he (Nat.not_lt_zero e)
  | succ turns ih =>
    intro e hge he
    have hsub : len - t - 1 = turns := by omega
    have hsub' : len - 1 - t = turns := by omega
    have hdigit : digit num (len - 1 - t) = 0 := digit_eq_zero hnum (by omega)
    have hnext : ∀ s < t + 1, digit num (len - 1 - s) = 0 :=
      Nat.forall_lt_succ_right.2 ⟨hzero, hdigit⟩
    have hlead : Leading num len t := ⟨by omega, fun s hs => hnext s (by omega)⟩
    rw [showLoop, weight_eq, hsub, List.range'_succ, List.map_cons, shown, if_pos hlead] at h
    by_cases hw : 10 ^ turns % 2 ^ 32 = 0
    · rw [if_pos hw] at h
      exact absurd h (by simp)
    · rw [if_neg hw] at h
      simp only [true_and, show t < len - 1 by omega, if_true] at h
      by_cases htemp : num / (10 ^ turns % 2 ^ 32) % 10 = 0
      · rw [if_pos htemp] at h
        obtain ⟨rest, hrest, hcons⟩ := Option.map_eq_some_iff.1 h
        obtain rfl := (List.cons.inj hcons).2
        rcases Nat.lt_or_eq_of_le (Nat.le_of_lt_succ he) with hlt | rfl
        · exact ih (by omega) hnext hrest e hge hlt
        · exact ⟨hw, htemp⟩
      · rw [if_neg htemp] at h
        obtain ⟨rest, -, hcons⟩ := Option.map_eq_some_iff.1 h
        have hchar := congrArg Cell.num (List.cons.inj hcons).1
        simp only [cell] at hchar
        omega

/-- A loop over all cells is right exactly where the weights are. -/
lemma showLoop_right_iff (hnum : num < 2 ^ 32) (hblank : lead = 32 ∨ lead = 48) :
    Right lead mode x y num len size (showLoop lead mode x y num len size len 0 false) ↔
      Narrow num len := by
  rw [Right, List.range_eq_range']
  constructor
  · intro h
    have hw := narrow_of_right hnum hblank (Nat.zero_add len) (by simp) h
    refine ⟨?_, fun e hge he => (hw e hge he).2⟩
    by_contra hlen
    exact (hw 32 (by decide) (by omega)).1 (by decide)
  · intro h
    exact showLoop_eq hnum h (Nat.zero_add len) fun _ => by simp

/--
Both functions show the digits of a number exactly where no weight beyond 32 bits shows one it does
not have.
-/
theorem lcdShowNum_right_iff {x y num len size mode : Nat} (hnum : num < 2 ^ 32) :
    (Right 32 0 x y num len size (lcdShowNum x y num len size) ↔ Narrow num len) ∧
    (Right (if mode &&& 0x80 ≠ 0 then 48 else 32) (mode &&& 0x01) x y num len size
      (lcdShowXnum x y num len size mode) ↔ Narrow num len) := by
  refine ⟨showLoop_right_iff hnum (.inl rfl), showLoop_right_iff hnum ?_⟩
  split
  · exact .inr rfl
  · exact .inl rfl

/-- A number of three digits in four cells. -/
theorem lcdShowNum_right_iff_four :
    (Right 32 0 0 0 120 4 16 (lcdShowNum 0 0 120 4 16) ↔ Narrow 120 4) ∧
    (Right (if 0x80 &&& 0x80 ≠ 0 then 48 else 32) (0x80 &&& 0x01) 0 0 120 4 16
      (lcdShowXnum 0 0 120 4 16 0x80) ↔ Narrow 120 4) :=
  lcdShowNum_right_iff (by decide)

/-- Eleven cells show a digit of weight 10^10, and 33 cells divide by 0. -/
theorem lcdShowNum_not_right :
    ¬ Right 32 0 0 0 (2 ^ 32 - 1) 11 16 (lcdShowNum 0 0 (2 ^ 32 - 1) 11 16) ∧
    lcdShowNum 0 0 0 33 16 = none := by
  refine ⟨fun h => ?_, by decide⟩
  have hfirst := congrArg (Option.map fun cells => (cells.map Cell.num).head?) h
  exact absurd hfirst (by decide)

end Imx.Bsp.Number
