import Mathlib.Algebra.Order.Field.Rat
import Mathlib.Tactic.IntervalCases
import Mathlib.Tactic.Linarith
import Mathlib.Tactic.Ring

/-!
# The baud rate of the serial port

Model of `uart_set_baudrate` of `bsp/uart/uart.c`. A `uint32_t` is a number cut to 32 bits where it
could exceed them, and a division by zero has no result. The rate the search tests leaves out that
the numerator is divided before it is written; what is written is within the tolerance even so.
-/

namespace Imx.Bsp.Uart

def uartUbirIncMask : Nat := 0xFFFF

/-- The loops over the greatest divisor. -/
def divisorLoop (numerator denominator divisor : Nat) : Nat :=
  if denominator = 0 then divisor
  else divisorLoop denominator (numerator % denominator) denominator
termination_by denominator
decreasing_by exact Nat.mod_lt _ (Nat.pos_of_ne_zero ‹_›)

def div? (a b : Nat) : Option Nat := if b = 0 then none else some (a / b)

/-- `a - 1` as a `uint32_t`. -/
def decr (a : Nat) : Nat := (a + (2 ^ 32 - 1)) % 2 ^ 32

/-- The fraction brought into the range of the registers. -/
def scale (numerator denominator : Nat) : Option (Nat × Nat) :=
  if uartUbirIncMask * 7 < numerator ∨ uartUbirIncMask < denominator then do
    let m := decr numerator / (uartUbirIncMask * 7) + 1
    let n := decr denominator / uartUbirIncMask + 1
    let max := if n < m then m else n
    let numerator ← div? numerator max
    let denominator ← div? denominator max
    let numerator := if 0 = numerator then 1 else numerator
    let denominator := if 0 = denominator then 1 else denominator
    return (numerator, denominator)
  else some (numerator, denominator)

/-- The code of a divider. -/
def refFreqDiv : Nat → Nat
  | 1 => 0x05
  | 2 => 0x04
  | 3 => 0x03
  | 4 => 0x02
  | 5 => 0x01
  | 6 => 0x00
  | 7 => 0x06
  | _ => 0x05

/-- The rate that is compared with the one asked for. -/
def tested (clk numerator denominator : Nat) : Option Nat := do
  let divisor := divisorLoop clk ((numerator <<< 4) % 2 ^ 32) 1
  let tempNumerator ← div? clk divisor
  let tempDenominator ← div? ((numerator <<< 4) % 2 ^ 32) divisor
  div? ((tempNumerator * denominator) % 2 ^ 64) tempDenominator

/-- The fields of `UFCR`, `UBIR` and `UBMR` that are written. -/
structure Regs where
  rfdiv : Nat
  ubir : Nat
  ubmr : Nat
deriving DecidableEq

/-- What is written, if the rate is near enough. -/
def uartSetBaudrate (baudrate clk : Nat) : Option (Option Regs) := do
  let divisor := divisorLoop clk ((baudrate <<< 4) % 2 ^ 32) 1
  let numerator ← div? clk divisor
  let denominator ← div? ((baudrate <<< 4) % 2 ^ 32) divisor
  let (numerator, denominator) ← scale numerator denominator
  let divider := decr numerator / uartUbirIncMask + 1
  let baudDiff ← tested clk numerator denominator
  let baudDiff := if baudrate ≤ baudDiff then baudDiff - baudrate else baudrate - baudDiff
  if baudDiff < baudrate / 100 * 3 then
    let ubmr ← div? numerator divider
    return some
      { rfdiv := refFreqDiv divider % 2 ^ 3
        ubir := decr denominator % 2 ^ 16
        ubmr := decr ubmr % 2 ^ 16 }
  else return none

/-! ## The real rate -/

/-- The division a code of `RFDIV` stands for. -/
def divideBy (rfdiv : Nat) : Nat := if rfdiv = 6 then 7 else 6 - rfdiv

/-- The rate the registers give. -/
def realRate (clk : Nat) (r : Regs) : ℚ :=
  (clk * (r.ubir + 1) : ℚ) / (16 * divideBy r.rfdiv * (r.ubmr + 1))

/-- The registers hold a candidate of the search, each part of it whole. -/
structure Holds (r : Regs) (numerator denominator divider : Nat) : Prop where
  least : divider = (numerator - 1) / uartUbirIncMask + 1
  range : 1 ≤ divider ∧ divider ≤ 7
  rfdiv : r.rfdiv = refFreqDiv divider
  ubir : r.ubir + 1 = denominator ∧ r.ubir < 2 ^ 16
  ubmr : r.ubmr + 1 = numerator / divider ∧ r.ubmr < 2 ^ 16

/-- Its rate is within the tolerance of the one asked for. -/
def Near (baudrate clk : Nat) (r : Regs) : Prop :=
  |realRate clk r - baudrate| < (baudrate / 100 * 3 : Nat)

/-! ## No division by zero -/

/-- The loops end at the greatest common divisor. -/
lemma divisorLoop_gcd (n d : Nat) : divisorLoop n d n = Nat.gcd n d := by
  induction d using Nat.strong_induction_on generalizing n with
  | _ d ih =>
    rw [divisorLoop]
    by_cases hd : d = 0
    · rw [if_pos hd, hd, Nat.gcd_zero_right]
    · rw [if_neg hd, ih (n % d) (Nat.mod_lt n (Nat.pos_of_ne_zero hd)) d, Nat.gcd_comm d,
        ← Nat.gcd_rec, Nat.gcd_comm]

lemma divisorLoop_start {n d : Nat} (h : 0 < d) : divisorLoop n d 1 = Nat.gcd n d := by
  rw [divisorLoop, if_neg (by omega), divisorLoop_gcd, Nat.gcd_comm d, ← Nat.gcd_rec, Nat.gcd_comm]

lemma divisorLoop_zero (n : Nat) : divisorLoop n 0 1 = 1 := by
  rw [divisorLoop, if_pos rfl]

lemma div?_eq {a b : Nat} (h : 0 < b) : div? a b = some (a / b) := by
  rw [div?, if_neg (by omega)]

lemma decr_eq {a : Nat} (h : 0 < a) (hlt : a < 2 ^ 32) : decr a = a - 1 := by
  rw [decr]
  omega

lemma shiftLeft_eq {a : Nat} (h : 16 * a < 2 ^ 32) : (a <<< 4) % 2 ^ 32 = 16 * a := by
  rw [Nat.shiftLeft_eq, Nat.mod_eq_of_lt (by omega), Nat.mul_comm]

/-- The tested rate is the one before the numerator is divided, rounded down. -/
lemma tested_eq {clk numerator denominator : Nat} (hclk : clk < 2 ^ 32) (hn : 0 < numerator)
    (h16 : 16 * numerator < 2 ^ 32) (hd : denominator < 2 ^ 32) :
    tested clk numerator denominator = some (clk * denominator / (16 * numerator)) := by
  have hgpos : 0 < Nat.gcd clk (16 * numerator) := Nat.gcd_pos_of_pos_right _ (by omega)
  obtain ⟨a, ha⟩ := Nat.gcd_dvd_left clk (16 * numerator)
  obtain ⟨b, hb⟩ := Nat.gcd_dvd_right clk (16 * numerator)
  have hbpos : 0 < b := by
    rcases Nat.eq_zero_or_pos b with h0 | h0
    · rw [h0] at hb
      omega
    · exact h0
  have hadiv : clk / Nat.gcd clk (16 * numerator) = a :=
    Nat.div_eq_of_eq_mul_right hgpos ha
  have hbdiv : 16 * numerator / Nat.gcd clk (16 * numerator) = b :=
    Nat.div_eq_of_eq_mul_right hgpos hb
  have hale : a < 2 ^ 32 := by
    rw [← hadiv]
    exact lt_of_le_of_lt (Nat.div_le_self _ _) hclk
  have hprod : a * denominator < 2 ^ 64 := by
    calc a * denominator < 2 ^ 32 * 2 ^ 32 := Nat.mul_lt_mul'' hale hd
      _ = 2 ^ 64 := by norm_num
  have hcancel : ∀ g, 0 < g → clk = g * a → 16 * numerator = g * b →
      clk * denominator / (16 * numerator) = a * denominator / b := by
    intro g hg hga hgb
    rw [hga, hgb, Nat.mul_assoc, Nat.mul_div_mul_left _ _ hg]
  rw [tested, shiftLeft_eq h16, divisorLoop_start (by omega), div?_eq hgpos, div?_eq hgpos, hadiv,
    hbdiv]
  simp only [Option.bind_eq_bind, Option.bind_some]
  rw [Nat.mod_eq_of_lt hprod, div?_eq hbpos, hcancel _ hgpos ha hb]

/-! ## The candidate -/

/--
What the fraction becomes: both parts are divided by one number, unless one of them vanished. A
denominator that vanished leaves a large numerator.
-/
structure Scaled (N D num den : Nat) : Prop where
  num_range : 1 ≤ num ∧ num ≤ 458745
  den_le : den ≤ 65535
  den_pos : 0 < D → 1 ≤ den
  shape : 0 < D → num = 1 ∨ ∃ M, 0 < M ∧ num * M ≤ N ∧ N < (num + 1) * M ∧
    (den * M ≤ D ∨ den = 1 ∧ D < M ∧ 229372 ≤ num)

/-- The number a fraction is divided by is large enough for both parts. -/
lemma scaled_of_div {N D m n M : Nat} (hN : 0 < N) (hD : D < 2 ^ 32)
    (hm : m = (N - 1) / 458745 + 1) (hn : n = decr D / 65535 + 1) (hmM : m ≤ M) (hnM : n ≤ M)
    (hM : M = m ∨ M = n) :
    Scaled N D (if 0 = N / M then 1 else N / M) (if 0 = D / M then 1 else D / M) := by
  have hMpos : 0 < M := by omega
  have hN0 := Nat.zero_le (N / M)
  have hD0 := Nat.zero_le (D / M)
  have hNle : N / M ≤ 458745 := by
    refine Nat.div_le_of_le_mul ?_
    calc N ≤ m * 458745 := by omega
      _ ≤ M * 458745 := Nat.mul_le_mul_right _ hmM
  have hDle : D / M ≤ 65535 := by
    rcases Nat.eq_zero_or_pos D with h0 | hpos
    · rw [h0, Nat.zero_div]
      omega
    · rw [decr_eq hpos hD] at hn
      refine Nat.div_le_of_le_mul ?_
      calc D ≤ n * 65535 := by omega
        _ ≤ M * 65535 := Nat.mul_le_mul_right _ hnM
  constructor
  case num_range => split <;> omega
  case den_le => split <;> omega
  case den_pos =>
    intro _
    split <;> omega
  case shape =>
    intro hpos
    rw [decr_eq hpos hD] at hn
    by_cases hnum : 0 = N / M
    · exact .inl (if_pos hnum)
    · rw [if_neg hnum]
      refine .inr ⟨M, hMpos, Nat.div_mul_le_self N M, ?_, ?_⟩
      · rw [Nat.mul_comm]
        exact Nat.lt_mul_div_succ N hMpos
      · by_cases hden : 0 = D / M
        · have hlt : D < M := (Nat.div_eq_zero_iff_lt hMpos).1 hden.symm
          have hMm : M = m := by omega
          rw [if_pos hden]
          refine .inr ⟨rfl, hlt, (Nat.le_div_iff_mul_le hMpos).2 ?_⟩
          omega
        · rw [if_neg hden]
          exact .inl (Nat.div_mul_le_self D M)

/-- The fraction is brought into range without a division by zero. -/
lemma scale_spec {N D : Nat} (hN : 0 < N) (hN32 : N < 2 ^ 32) (hD : D < 2 ^ 32) :
    ∃ num den, scale N D = some (num, den) ∧ Scaled N D num den := by
  rw [scale]
  by_cases hout : uartUbirIncMask * 7 < N ∨ uartUbirIncMask < D
  · have hmax : ∀ m n : Nat, 0 < m → 0 < n → 0 < (if n < m then m else n) := by
      intro m n hm hn
      split <;> omega
    rw [if_pos hout]
    refine ⟨_, _, ?_, scaled_of_div (M := if decr D / uartUbirIncMask + 1 <
      decr N / (uartUbirIncMask * 7) + 1 then decr N / (uartUbirIncMask * 7) + 1
      else decr D / uartUbirIncMask + 1) hN hD rfl rfl ?_ ?_ ?_⟩
    · simp only [div?_eq (hmax _ _ (Nat.succ_pos _) (Nat.succ_pos _)), Option.bind_eq_bind,
        Option.bind_some, Option.pure_def]
    · rw [decr_eq hN hN32, uartUbirIncMask]
      split <;> omega
    · rw [uartUbirIncMask]
      split <;> omega
    · rw [decr_eq hN hN32, uartUbirIncMask]
      split <;> omega
  · simp only [uartUbirIncMask] at hout
    rw [if_neg (by simp only [uartUbirIncMask]; omega)]
    exact ⟨N, D, rfl, ⟨by omega, by omega⟩, by omega, id,
      fun _ => .inr ⟨1, by omega, by omega, by omega, .inl (by omega)⟩⟩

/-! ## The accuracy -/

/-- The divider splits the numerator into a part that fits the register. -/
lemma divider_spec {num d : Nat} (h1 : 1 ≤ num) (h7 : num ≤ 458745)
    (hd : d = (num - 1) / 65535 + 1) :
    (1 ≤ d ∧ d ≤ 7) ∧ (1 ≤ num / d ∧ num / d ≤ 65535) ∧ d * (num / d) ≤ num ∧
      num ≤ d * (num / d) + 6 ∧ (65536 ≤ num ∨ d * (num / d) = num) := by
  have hrange : 1 ≤ d ∧ d ≤ 7 := by omega
  obtain ⟨hlow, hhigh⟩ := hrange
  interval_cases d <;> omega

/-- The tolerance leaves room for what the division of the numerator loses. -/
lemma tolerance_room {baud num p : Nat} (hk : 1 ≤ baud / 100) (hbig : 65536 ≤ num)
    (hp : num ≤ p + 6) : baud * (num + 1) ≤ (baud + baud / 100 * 3) * p := by
  have h199 : baud ≤ 199 * (baud / 100) := by omega
  have hroom : 7 * baud ≤ baud / 100 * 3 * p := by
    calc 7 * baud ≤ 7 * (199 * (baud / 100)) := Nat.mul_le_mul_left 7 h199
      _ = baud / 100 * 1393 := by ring
      _ ≤ baud / 100 * (3 * p) := Nat.mul_le_mul_left _ (by omega)
      _ = baud / 100 * 3 * p := by ring
  calc baud * (num + 1) ≤ baud * (p + 7) := Nat.mul_le_mul_left baud (by omega)
    _ = baud * p + 7 * baud := by ring
    _ ≤ baud * p + baud / 100 * 3 * p := Nat.add_le_add_left hroom _
    _ = (baud + baud / 100 * 3) * p := by ring

/-- A fraction divided by one number is near enough. -/
lemma near_of_scaled {g N D M clk baud num den p : Nat} (hclk : clk = g * N)
    (hb : 16 * baud = g * D) (hbaud : 0 < baud) (hN : N < (num + 1) * M)
    (hden : den * M ≤ D) (hroom : baud * (num + 1) ≤ (baud + baud / 100 * 3) * p) :
    clk * den < (baud + baud / 100 * 3) * (16 * p) := by
  have hscaled : clk * den * M < 16 * (baud * (num + 1)) * M := by
    calc clk * den * M = g * N * (den * M) := by rw [hclk]; ring
      _ ≤ g * N * D := Nat.mul_le_mul_left _ hden
      _ = 16 * baud * N := by rw [hb]; ring
      _ < 16 * baud * ((num + 1) * M) := Nat.mul_lt_mul_of_pos_left hN (by omega)
      _ = 16 * (baud * (num + 1)) * M := by ring
  calc clk * den < 16 * (baud * (num + 1)) := Nat.lt_of_mul_lt_mul_right hscaled
    _ ≤ 16 * ((baud + baud / 100 * 3) * p) := Nat.mul_le_mul_left 16 hroom
    _ = (baud + baud / 100 * 3) * (16 * p) := by ring

/-- A denominator that vanished belongs to a slow rate, for which the numerator is large. -/
lemma near_of_vanished {g N D M clk baud num p : Nat} (hclk : clk = g * N) (h32 : clk < 2 ^ 32)
    (hb : 16 * baud = g * D) (hM : num * M ≤ N) (hN : N < (num + 1) * M) (hD : D < M)
    (hbig : 229372 ≤ num) (hp : num ≤ p + 6) (hg : 0 < g)
    (htest : clk < (baud + baud / 100 * 3) * (16 * num)) :
    clk < (baud + baud / 100 * 3) * (16 * p) := by
  have hlow : g * M * num ≤ clk := by
    calc g * M * num = g * (num * M) := by ring
      _ ≤ g * N := Nat.mul_le_mul_left g hM
      _ = clk := hclk.symm
  have hslow : 16 * baud * num ≤ clk := by
    refine le_trans (Nat.mul_le_mul_right num ?_) hlow
    rw [hb]
    exact Nat.mul_le_mul_left g (by omega)
  have h1171 : baud < 1171 := by
    have hge : 16 * baud * 229372 ≤ 16 * baud * num := Nat.mul_le_mul_left _ hbig
    omega
  generalize hA : (baud + baud / 100 * 3) * 16 = A at *
  have hgM : g * M < A := by
    refine Nat.lt_of_mul_lt_mul_right (a := num) (lt_of_le_of_lt hlow ?_)
    calc clk < (baud + baud / 100 * 3) * (16 * num) := htest
      _ = A * num := by rw [← hA]; ring
  have hup : clk < (A - 1) * (num + 1) := by
    calc clk = g * N := hclk
      _ < g * ((num + 1) * M) := Nat.mul_lt_mul_of_pos_left hN hg
      _ = g * M * (num + 1) := by ring
      _ ≤ (A - 1) * (num + 1) := Nat.mul_le_mul_right _ (by omega)
  obtain ⟨B, rfl⟩ : ∃ B, A = B + 1 := ⟨A - 1, by omega⟩
  calc clk < B * (num + 1) := by simpa using hup
    _ ≤ B * (p + 7) := Nat.mul_le_mul_left B (by omega)
    _ = B * p + 7 * B := by ring
    _ ≤ B * p + p := Nat.add_le_add_left (by omega) _
    _ = (B + 1) * p := by ring
    _ = (baud + baud / 100 * 3) * (16 * p) := by rw [← hA]; ring

/-- A rate that is not too high before the numerator is divided is not too high behind. -/
lemma Scaled.near {N D num den g clk baud p : Nat} (h : Scaled N D num den) (hg : 0 < g)
    (hclk : clk = g * N) (h32 : clk < 2 ^ 32) (hb : 16 * baud = g * D) (hk : 1 ≤ baud / 100)
    (hp : num ≤ p + 6) (hbig : 65536 ≤ num ∨ p = num)
    (htest : clk * den < (baud + baud / 100 * 3) * (16 * num)) :
    clk * den < (baud + baud / 100 * 3) * (16 * p) := by
  rcases hbig with hbig | rfl
  case inr => exact htest
  have hD : 0 < D := by
    rcases Nat.eq_zero_or_pos D with h0 | h0
    · rw [h0] at hb
      omega
    · exact h0
  obtain hone | ⟨M, hM, hle, hlt, hden | ⟨rfl, hDM, hlarge⟩⟩ := h.shape hD
  · omega
  · exact near_of_scaled hclk hb (by omega) hlt hden (tolerance_room hk hbig hp)
  · rw [Nat.mul_one] at htest ⊢
    exact near_of_vanished hclk h32 hb hle hlt hDM hlarge hp hg htest

/-- The rate of the registers from bounds on the product. -/
lemma near_of_bounds {clk baud d q den : Nat} {r : Regs} (hd : divideBy r.rfdiv = d)
    (hubir : r.ubir + 1 = den) (hubmr : r.ubmr + 1 = q) (hpos : 0 < d * q)
    (hlow : baud * (16 * (d * q)) < clk * den + baud / 100 * 3 * (16 * (d * q)))
    (hup : clk * den < (baud + baud / 100 * 3) * (16 * (d * q))) : Near baud clk r := by
  have hden : (r.ubir : ℚ) + 1 = den := by exact_mod_cast hubir
  have hq : (r.ubmr : ℚ) + 1 = q := by exact_mod_cast hubmr
  have hP : (0 : ℚ) < 16 * d * q := by
    have : (0 : ℚ) < (d * q : Nat) := by exact_mod_cast hpos
    push_cast at this
    linarith
  have hlow' : (baud : ℚ) * (16 * d * q) <
      clk * den + (baud / 100 * 3 : Nat) * (16 * d * q) := by
    rw [mul_assoc (16 : ℚ)]
    exact_mod_cast hlow
  have hup' : (clk : ℚ) * den < (baud + (baud / 100 * 3 : Nat)) * (16 * d * q) := by
    rw [mul_assoc (16 : ℚ)]
    exact_mod_cast hup
  rw [Near, realRate, hd, hden, hq, abs_sub_lt_iff]
  constructor
  · rw [sub_lt_iff_lt_add', div_lt_iff₀ hP]
    exact hup'
  · rw [sub_lt_comm, lt_div_iff₀ hP, sub_mul]
    linarith

/-- What the test says without the quotient, which is rounded down. -/
lemma bounds_of_test {clk baud den num p T : Nat} (hnum : 0 < num) (hpos : 0 < p) (hp : p ≤ num)
    (hT : (if baud ≤ clk * den / (16 * num) then clk * den / (16 * num) - baud
      else baud - clk * den / (16 * num)) < T) :
    baud * (16 * p) < clk * den + T * (16 * p) ∧ clk * den < (baud + T) * (16 * num) := by
  have hfloor := Nat.div_mul_le_self (clk * den) (16 * num)
  have hceil := Nat.lt_mul_div_succ (clk * den) (show 0 < 16 * num by omega)
  generalize clk * den / (16 * num) = r at *
  have hr : baud < r + T ∧ r + 1 ≤ baud + T := by
    split at hT <;> omega
  constructor
  · calc baud * (16 * p) < (r + T) * (16 * p) := Nat.mul_lt_mul_of_pos_right hr.1 (by omega)
      _ = r * (16 * p) + T * (16 * p) := by ring
      _ ≤ r * (16 * num) + T * (16 * p) :=
        Nat.add_le_add_right (Nat.mul_le_mul_left r (by omega)) _
      _ ≤ clk * den + T * (16 * p) := Nat.add_le_add_right hfloor _
  · calc clk * den < 16 * num * (r + 1) := hceil
      _ = (r + 1) * (16 * num) := Nat.mul_comm _ _
      _ ≤ (baud + T) * (16 * num) := Nat.mul_le_mul_right _ hr.2

/-- The fraction the search begins with, in lowest terms. -/
lemma exists_fraction (baud : Nat) {clk : Nat} (hclk : 0 < clk) :
    ∃ g N D, divisorLoop clk (16 * baud) 1 = g ∧ 0 < g ∧ 0 < N ∧ clk = g * N ∧
      16 * baud = g * D ∧ clk / g = N ∧ 16 * baud / g = D := by
  rcases Nat.eq_zero_or_pos (16 * baud) with h0 | hpos
  · rw [h0, divisorLoop_zero]
    exact ⟨1, clk, 0, rfl, by omega, hclk, by omega, rfl, Nat.div_one _, Nat.div_one _⟩
  · rw [divisorLoop_start hpos]
    have hg : 0 < Nat.gcd clk (16 * baud) := Nat.gcd_pos_of_pos_left _ hclk
    obtain ⟨N, hN⟩ := Nat.gcd_dvd_left clk (16 * baud)
    obtain ⟨D, hD⟩ := Nat.gcd_dvd_right clk (16 * baud)
    refine ⟨_, N, D, rfl, hg, ?_, hN, hD, Nat.div_eq_of_eq_mul_right hg hN,
      Nat.div_eq_of_eq_mul_right hg hD⟩
    rcases Nat.eq_zero_or_pos N with h0 | h0
    · rw [h0] at hN
      omega
    · exact h0

lemma refFreqDiv_spec {d : Nat} (h : 1 ≤ d ∧ d ≤ 7) :
    refFreqDiv d % 2 ^ 3 = refFreqDiv d ∧ divideBy (refFreqDiv d) = d := by
  obtain ⟨h1, h7⟩ := h
  interval_cases d <;> decide

/--
The search divides by no zero, and where it writes the registers they hold one candidate, whole and
with the code of its divider, and give a rate within the tolerance.
-/
theorem uartSetBaudrate_near {baud clk : Nat} (hclk : 0 < clk) (h32 : clk < 2 ^ 32)
    (hbaud : 16 * baud < 2 ^ 32) :
    ∃ written, uartSetBaudrate baud clk = some written ∧
      ∀ r, written = some r →
        (∃ numerator denominator divider, Holds r numerator denominator divider) ∧
          Near baud clk r := by
  obtain ⟨g, N, D, hloop, hg, hN, hclkN, hbD, hdivN, hdivD⟩ := exists_fraction baud hclk
  have hN32 : N < 2 ^ 32 := by
    rw [← hdivN]
    exact lt_of_le_of_lt (Nat.div_le_self _ _) h32
  have hD32 : D < 2 ^ 32 := by
    rw [← hdivD]
    exact lt_of_le_of_lt (Nat.div_le_self _ _) hbaud
  obtain ⟨num, den, hscale, h⟩ := scale_spec hN hN32 hD32
  obtain ⟨hn1, hn7⟩ := h.num_range
  have hden := h.den_le
  obtain ⟨hd, hq, hle, hlose, hbig⟩ := divider_spec hn1 hn7 rfl
  have hdivider : decr num / uartUbirIncMask + 1 = (num - 1) / 65535 + 1 := by
    rw [decr_eq hn1 (by omega), uartUbirIncMask]
  rw [uartSetBaudrate, shiftLeft_eq hbaud, hloop, div?_eq hg, div?_eq hg, hdivN, hdivD]
  simp only [Option.bind_eq_bind, Option.bind_some, hscale,
    tested_eq h32 hn1 (show 16 * num < 2 ^ 32 by omega) (show den < 2 ^ 32 by omega), hdivider,
    div?_eq hd.1, Option.pure_def]
  generalize hdv : (num - 1) / 65535 + 1 = d at *
  by_cases htest : (if baud ≤ clk * den / (16 * num) then clk * den / (16 * num) - baud
      else baud - clk * den / (16 * num)) < baud / 100 * 3
  case neg => exact ⟨none, if_neg htest, nofun⟩
  case pos =>
    refine ⟨_, if_pos htest, fun r hr => ?_⟩
    obtain rfl := Option.some.inj hr
    have hden1 := h.den_pos (by
      rcases Nat.eq_zero_or_pos D with h0 | h0
      · rw [h0] at hbD
        omega
      · exact h0)
    have hpos : 0 < d * (num / d) := Nat.mul_pos hd.1 hq.1
    obtain ⟨hlow, hup⟩ := bounds_of_test hn1 hpos hle htest
    have hcode := refFreqDiv_spec hd
    have hubir : decr den % 2 ^ 16 + 1 = den := by
      rw [decr_eq hden1 (by omega)]
      omega
    have hubmr : decr (num / d) % 2 ^ 16 + 1 = num / d := by
      rw [decr_eq hq.1 (by omega)]
      omega
    refine ⟨⟨num, den, d, hdv.symm, hd, hcode.1, ⟨hubir, Nat.mod_lt _ (by decide)⟩, hubmr,
      Nat.mod_lt _ (by decide)⟩, ?_⟩
    refine near_of_bounds ?_ hubir hubmr hpos hlow ?_
    · rw [hcode.1, hcode.2]
    · exact h.near hg hclkN h32 hbD (by omega) hlose hbig hup

/-- 115200 baud from 80 MHz. -/
theorem uartSetBaudrate_near_115200 :
    ∃ written, uartSetBaudrate 115200 80000000 = some written ∧
      ∀ r, written = some r →
        (∃ numerator denominator divider, Holds r numerator denominator divider) ∧
          Near 115200 80000000 r :=
  uartSetBaudrate_near (by decide) (by decide) (by decide)

end Imx.Bsp.Uart
