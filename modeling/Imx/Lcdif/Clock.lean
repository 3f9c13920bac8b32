import Mathlib.Algebra.Order.Field.Rat
import Mathlib.Algebra.Order.Ring.Int
import Mathlib.Order.Bounds.Basic
import Mathlib.Tactic.FieldSimp
import Mathlib.Tactic.Linarith
import Mathlib.Tactic.NormNum
import Mathlib.Tactic.Push

/-!
# The pixel clock

Model of `mxs_set_lcdclk` and of `enable_pll_video` of `arch/arm/cpu/armv7/mx6/clock.c`. A `u32` is
a natural number. Every product is taken modulo `2 ^ 32`, and a flag that goes along says whether
none has wrapped so far. Of the registers only the fields that are set are kept.

The rates of the PLL are looked through for the lowest one in range, and the part of it that is no
multiple of the crystal goes into a fraction. `mxsSetLcdclk_iff` is when the clock is the one asked
for: the product for the fraction wraps unless that part is at most 4294 kHz.
-/

namespace Imx.Lcdif

/-- The chips that are told apart (C `is_cpu_type`). -/
inductive CpuType where
  | mx6sx | mx6ul | mx6ull | mx6sl | mx6sll | other
deriving DecidableEq, Repr

/-- What is set for the clock: the fields of the PLL and the two dividers behind it. -/
structure Setting where
  pllDiv : Nat
  pllNum : Nat
  pllDenom : Nat
  postDiv : Nat
  pred : Nat
  postd : Nat
deriving DecidableEq, Repr

/-- How the function ends. -/
inductive Outcome where
  /-- This chip not support lcd! -/
  | unsupported
  /-- Can't change clocks when clock not from pre-mux -/
  | fixed
  /-- Fail to set rate -/
  | fail
  /-- There is no such display. -/
  | none
  /-- The PLL is set up, and it has locked or has not. -/
  | program (setting : Setting) (locked : Bool)
deriving DecidableEq, Repr

/-- The board, the display asked for and the state of the clock module. -/
structure Board where
  cpu : CpuType
  /-- C `base_addr == LCDIF1_BASE_ADDR` -/
  lcdif1 : Bool
  cscdr2 : BitVec 32
  /-- The PLL locks in time. -/
  locks : Bool
deriving DecidableEq, Repr

/-- The crystal in kHz (C `hck`). -/
def hck : Nat := 24000

/-- The lowest rate of the PLL in kHz. -/
def min : Nat := hck * 27

/-- The highest rate of the PLL in kHz. -/
def max : Nat := hck * 54

/-- A product of two `u32`, and whether none has wrapped so far. -/
def mul (a b : Nat) (fits : Bool) : Nat × Bool := (a * b % 2 ^ 32, fits && decide (a * b < 2 ^ 32))

/-- The loop over `post_div`, at most `fuel` turns of it: what it ends with and the frequency. -/
def postDivLoop (temp freq : Nat) : Nat → Nat → Bool → (Nat × Nat) × Bool
  | 0, postDiv, fits => ((postDiv, freq), fits)
  | fuel + 1, postDiv, fits =>
    if postDiv ≤ 4 then
      let (product, fits) := mul temp postDiv fits
      if product > min then
        let (freq, fits) := mul freq postDiv fits
        ((postDiv, freq), fits)
      else postDivLoop temp freq fuel (postDiv * 2) fits
    else ((postDiv, freq), fits)

/-- The lowest rate found so far, 0 for none, and its dividers. -/
structure Best where
  best : Nat
  pred : Nat
  postd : Nat
deriving DecidableEq, Repr

/-- A turn of the loops over the two dividers. -/
def choose (freq : Nat) (s : Best × Bool) (ij : Nat × Nat) : Best × Bool :=
  let (b, fits) := s
  let (temp, fits) := mul freq ij.1 fits
  let (temp, fits) := mul temp ij.2 fits
  if temp > max ∨ temp < min then (b, fits)
  else if b.best = 0 ∨ temp < b.best then (⟨temp, ij.1, ij.2⟩, fits)
  else (b, fits)

/-- The values of the two dividers, in the order of the loops. -/
def dividers : List (Nat × Nat) :=
  (List.range' 1 8).flatMap fun i => (List.range' 1 8).map fun j => (i, j)

/-- The loops over the two dividers. -/
def search (freq : Nat) (fits : Bool) : Best × Bool :=
  dividers.foldl (choose freq) (⟨0, 1, 1⟩, fits)

/-- Set up the PLL (C `enable_pll_video`): the fields written, unless the post divider is wrong. -/
def enablePllVideo (pllDiv pllNum pllDenom postDiv pred postd : Nat) (locks : Bool) : Outcome :=
  if postDiv = 1 ∨ postDiv = 2 ∨ postDiv = 4 then
    .program ⟨pllDiv, pllNum, pllDenom, postDiv, pred, postd⟩ locks
  else .none

/-- The search for the dividers and the fraction, and what is set with them. -/
def setRate (b : Board) (postDiv freq : Nat) (fits : Bool) : Outcome × Bool :=
  let (s, fits) := search freq fits
  if s.best = 0 then (.fail, fits)
  else
    let pllDiv := s.best / hck
    let pllDenom := 1000000
    let (whole, fits) := mul hck pllDiv fits
    let (part, fits) := mul (s.best - whole) pllDenom fits
    let pllNum := part / hck
    if b.lcdif1 ∨ b.cpu = .mx6sx then
      (enablePllVideo pllDiv pllNum pllDenom postDiv s.pred s.postd b.locks, fits)
    else (.none, fits)

/-- The clock comes from the pre-mux, or the chip has none. -/
def Board.premux (b : Board) : Bool :=
  if b.cpu ≠ .mx6sl then
    if b.lcdif1 then b.cscdr2 &&& 0x00000e00 = 0
    else if b.cpu = .mx6sx then b.cscdr2 &&& 0x00000007 = 0
    else true
  else true

/-- Set the clock of a display to a frequency in kHz (C `mxs_set_lcdclk`), and whether no product
wraps. -/
def mxsSetLcdclk (b : Board) (freq : Nat) : Outcome × Bool :=
  if b.cpu = .other then (.unsupported, true)
  else if !b.premux then (.fixed, true)
  else
    let (temp, fits) := mul freq 8 true
    let (temp, fits) := mul temp 8 fits
    if temp < min then
      let ((postDiv, freq), fits) := postDivLoop temp freq 3 2 fits
      if postDiv > 4 then (.fail, fits) else setRate b postDiv freq fits
    else setRate b 1 freq fits

/-! ## Products -/

variable {freq k a b i j : Nat} {fits : Bool}

lemma mul_eq (lt : a * b < 2 ^ 32) : mul a b fits = (a * b, fits) := by
  rw [mul, Nat.mod_eq_of_lt lt, decide_eq_true lt, Bool.and_true]

lemma mul_exact (all : (mul a b fits).2 = true) : fits = true ∧ a * b < 2 ^ 32 := by
  simpa [mul] using all

/-- A pair of dividers. -/
def Divider (ij : Nat × Nat) : Prop := (1 ≤ ij.1 ∧ ij.1 ≤ 8) ∧ 1 ≤ ij.2 ∧ ij.2 ≤ 8

lemma mem_dividers {ij : Nat × Nat} : ij ∈ dividers ↔ Divider ij := by
  obtain ⟨i, j⟩ := ij
  simp [dividers, Divider]
  omega

/-- A rate of the PLL in its range. -/
def InRange (rate : Nat) : Prop := min ≤ rate ∧ rate ≤ max

/-! ## The search -/

/-- What has been found among some pairs: the lowest rate in range, or none. -/
def Found (freq : Nat) (ijs : List (Nat × Nat)) (b : Best) : Prop :=
  (b.best = 0 ∧ ∀ ij ∈ ijs, ¬ InRange (freq * ij.1 * ij.2)) ∨
    ((b.pred, b.postd) ∈ ijs ∧ b.best = freq * b.pred * b.postd ∧ InRange b.best ∧
      ∀ ij ∈ ijs, InRange (freq * ij.1 * ij.2) → b.best ≤ freq * ij.1 * ij.2)

lemma Found.skip {ijs : List (Nat × Nat)} {b : Best} {ij : Nat × Nat} (found : Found freq ijs b)
    (high : InRange (freq * ij.1 * ij.2) → b.best ≠ 0 ∧ b.best ≤ freq * ij.1 * ij.2) :
    Found freq (ijs ++ [ij]) b := by
  obtain ⟨zero, none⟩ | ⟨mem, eq, range, least⟩ := found
  · refine .inl ⟨zero, fun ij' mem range => ?_⟩
    obtain mem | mem := List.mem_append.mp mem
    · exact none ij' mem range
    · obtain rfl := List.mem_singleton.mp mem
      exact (high range).1 zero
  · refine .inr ⟨List.mem_append_left _ mem, eq, range, fun ij' mem range => ?_⟩
    obtain mem | mem := List.mem_append.mp mem
    · exact least ij' mem range
    · obtain rfl := List.mem_singleton.mp mem
      exact (high range).2

lemma Found.take {ijs : List (Nat × Nat)} {b : Best} {ij : Nat × Nat} (found : Found freq ijs b)
    (range : InRange (freq * ij.1 * ij.2)) (low : b.best = 0 ∨ freq * ij.1 * ij.2 < b.best) :
    Found freq (ijs ++ [ij]) ⟨freq * ij.1 * ij.2, ij.1, ij.2⟩ := by
  refine .inr ⟨List.mem_append_right _ List.mem_cons_self, rfl, range, fun ij' mem range' => ?_⟩
  obtain mem | mem := List.mem_append.mp mem
  · obtain ⟨-, none⟩ | ⟨-, -, range, least⟩ := found
    · exact absurd range' (none ij' mem)
    · have le := least ij' mem range'
      have pos := range.1
      unfold min hck at pos
      dsimp only
      omega
  · obtain rfl := List.mem_singleton.mp mem
    exact Nat.le_refl _

lemma choose_found (fits : Bool) {ijs : List (Nat × Nat)} {b : Best} {ij : Nat × Nat}
    (small : freq * 64 < 2 ^ 32) (divider : Divider ij) (found : Found freq ijs b) :
    ∃ b', choose freq (b, fits) ij = (b', fits) ∧ Found freq (ijs ++ [ij]) b' := by
  have le : freq * ij.1 ≤ freq * 8 := Nat.mul_le_mul_left freq divider.1.2
  have le' : freq * ij.1 * ij.2 ≤ freq * 8 * 8 := Nat.mul_le_mul le divider.2.2
  have first : mul freq ij.1 fits = (freq * ij.1, fits) := mul_eq (by omega)
  have second : mul (freq * ij.1) ij.2 fits = (freq * ij.1 * ij.2, fits) := mul_eq (by omega)
  unfold choose
  dsimp only
  rw [first]
  dsimp only
  rw [second]
  dsimp only
  split_ifs with out low
  · refine ⟨b, rfl, found.skip fun range => absurd out ?_⟩
    rw [not_or, Nat.not_lt, Nat.not_lt]
    exact ⟨range.2, range.1⟩
  · rw [not_or, Nat.not_lt, Nat.not_lt] at out
    exact ⟨_, rfl, found.take ⟨out.2, out.1⟩ low⟩
  · rw [not_or, Nat.not_lt] at low
    exact ⟨b, rfl, found.skip fun _ => low⟩

lemma search_found (fits : Bool) (small : freq * 64 < 2 ^ 32) :
    ∃ b, search freq fits = (b, fits) ∧ Found freq dividers b := by
  have run : ∀ (ijs' ijs : List (Nat × Nat)) (b : Best), (∀ ij ∈ ijs', Divider ij) →
      Found freq ijs b → ∃ b', ijs'.foldl (choose freq) (b, fits) = (b', fits) ∧
        Found freq (ijs ++ ijs') b' := fun ijs' => by
    induction ijs' with
    | nil => exact fun ijs b _ found => ⟨b, rfl, by rwa [List.append_nil]⟩
    | cons ij ijs' ih =>
      intro ijs b all found
      obtain ⟨b', eq, found'⟩ := choose_found fits small (all ij List.mem_cons_self) found
      obtain ⟨b'', eq', found''⟩ :=
        ih _ b' (fun ij' mem => all ij' (List.mem_cons_of_mem ij mem)) found'
      refine ⟨b'', by rw [List.foldl_cons, eq, eq'], ?_⟩
      rwa [List.append_assoc] at found''
  obtain ⟨b, eq, found⟩ := run dividers [] ⟨0, 1, 1⟩ (fun _ mem => mem_dividers.mp mem)
    (.inl ⟨rfl, fun _ mem => absurd mem List.not_mem_nil⟩)
  rw [List.nil_append] at found
  exact ⟨b, eq, found⟩

lemma choose_exact {s : Best × Bool} {ij : Nat × Nat} (all : (choose freq s ij).2 = true) :
    s.2 = true := by
  unfold choose at all
  dsimp only at all
  have both : (mul (mul freq ij.1 s.2).1 ij.2 (mul freq ij.1 s.2).2).2 = true := by
    split_ifs at all <;> exact all
  exact (mul_exact (mul_exact both).1).1

lemma search_exact (all : (search freq fits).2 = true) : fits = true := by
  have run : ∀ (ijs : List (Nat × Nat)) (s : Best × Bool), (ijs.foldl (choose freq) s).2 = true →
      s.2 = true := fun ijs => by
    induction ijs with
    | nil => exact fun s all => all
    | cons ij ijs ih => exact fun s all => choose_exact (ih _ all)
  exact run _ _ all

/-! ## The fraction -/

/-- What is wanted of a setting: the fields are in range and the rate is off by less than 1 kHz. -/
structure Setting.Right (s : Setting) (freq : Nat) : Prop where
  low : 27 ≤ s.pllDiv
  high : s.pllDiv ≤ 54
  fraction : s.pllNum < s.pllDenom
  post : s.postDiv = 1 ∨ s.postDiv = 2 ∨ s.postDiv = 4
  divider : Divider (s.pred, s.postd)
  near : |24000 * ((s.pllDiv : ℚ) + s.pllNum / s.pllDenom) / (s.postDiv * s.pred * s.postd) - freq|
    < 1

/-- The fraction rounds down by less than a millionth of the crystal. -/
lemma near {rate n : Nat} (eq : rate = freq * n) (pos : 0 < n) :
    |24000 * ((rate / hck : Nat) + ((rate % hck * 1000000 / hck : Nat) : ℚ) / 1000000) / n - freq| <
      1 := by
  have whole : hck * (rate / hck) + rate % hck = rate := Nat.div_add_mod rate hck
  have part := Nat.div_add_mod (rate % hck * 1000000) hck
  have rest := Nat.mod_lt (rate % hck * 1000000) (show 0 < hck by decide)
  generalize rate % hck * 1000000 % hck = r at *
  generalize rate % hck * 1000000 / hck = num at *
  generalize rate / hck = div at *
  generalize rate % hck = m at *
  unfold hck at *
  have pos' : (0 : ℚ) < n := by exact_mod_cast pos
  have one : (1 : ℚ) ≤ n := by exact_mod_cast pos
  have rate' : (freq : ℚ) * n = 24000 * div + m := by exact_mod_cast (whole.trans eq).symm
  have part' : (24000 : ℚ) * num + r = m * 1000000 := by exact_mod_cast part
  have rest' : (r : ℚ) < 24000 := by exact_mod_cast rest
  have low : (0 : ℚ) ≤ r := r.cast_nonneg
  have freq' : (freq : ℚ) = (24000 * div + m) / n := by
    rw [← rate']
    field_simp
  rw [freq', ← sub_div, abs_lt, div_lt_iff₀ pos', lt_div_iff₀ pos']
  constructor <;> linarith

/-! ## The rates that can be reached -/

/-- The least divider behind the PLL with which a frequency can be reached. -/
def leastPost (freq : Nat) : Nat := if min ≤ freq * 64 then 1 else if min ≤ freq * 128 then 2 else 4

/-- The rates of the PLL in range from which the frequency is reached with that divider. -/
def rates (freq : Nat) : Set Nat :=
  {rate | InRange rate ∧ ∃ ij, Divider ij ∧ rate = freq * leastPost freq * ij.1 * ij.2}

/-- The powers of two are among the products of the dividers, and the range spans an octave. -/
lemma exists_inRange (low : min ≤ freq * 64) (high : freq ≤ max) :
    ∃ ij, Divider ij ∧ InRange (freq * ij.1 * ij.2) := by
  by_contra! none
  have divider : ∀ i j, 1 ≤ i → i ≤ 8 → 1 ≤ j → j ≤ 8 → ¬ InRange (freq * i * j) :=
    fun i j a b c d => none (i, j) ⟨⟨a, b⟩, c, d⟩
  have one := divider 1 1 (by decide) (by decide) (by decide) (by decide)
  have two := divider 2 1 (by decide) (by decide) (by decide) (by decide)
  have four := divider 4 1 (by decide) (by decide) (by decide) (by decide)
  have eight := divider 8 1 (by decide) (by decide) (by decide) (by decide)
  have next := divider 8 2 (by decide) (by decide) (by decide) (by decide)
  have next' := divider 8 4 (by decide) (by decide) (by decide) (by decide)
  have last := divider 8 8 (by decide) (by decide) (by decide) (by decide)
  unfold InRange min max hck at *
  omega

/-- No combination of the dividers puts the PLL in its range. -/
def Unreachable (freq : Nat) : Prop :=
  ∀ p ij, p = 1 ∨ p = 2 ∨ p = 4 → Divider ij → ¬ InRange (freq * p * ij.1 * ij.2)

lemma unreachable_low (low : freq * 256 < min) : Unreachable freq := by
  intro p ij post divider range
  have le : freq * p ≤ freq * 4 := Nat.mul_le_mul_left freq (by omega)
  have le' : freq * p * ij.1 ≤ freq * 4 * 8 := Nat.mul_le_mul le divider.1.2
  have le'' : freq * p * ij.1 * ij.2 ≤ freq * 4 * 8 * 8 := Nat.mul_le_mul le' divider.2.2
  have high := range.1
  omega

lemma unreachable_high (high : max < freq) : Unreachable freq := by
  intro p ij post divider range
  have le : freq * 1 ≤ freq * p := Nat.mul_le_mul_left freq (by omega)
  have le' : freq * 1 * 1 ≤ freq * p * ij.1 := Nat.mul_le_mul le divider.1.1
  have le'' : freq * 1 * 1 * 1 ≤ freq * p * ij.1 * ij.2 := Nat.mul_le_mul le' divider.2.1
  have low := range.2
  omega

/-- What is wanted of a call: no product wraps, a setting is right, and the call fails only when the
frequency cannot be reached. -/
structure Meets (freq : Nat) (r : Outcome × Bool) : Prop where
  fits : r.2 = true
  right : ∀ s locked, r.1 = .program s locked → s.Right freq
  fails : r.1 = .fail → Unreachable freq

lemma setRate_exact {board : Board} {p : Nat} (all : (setRate board p freq fits).2 = true) :
    fits = true := by
  unfold setRate at all
  dsimp only at all
  split_ifs at all
  · exact search_exact all
  · exact search_exact (mul_exact (mul_exact all).1).1
  · exact search_exact (mul_exact (mul_exact all).1).1

lemma leastPost_cases (freq : Nat) : (leastPost freq = 1 ∧ min ≤ freq * 64) ∨
    (leastPost freq = 2 ∧ freq * 64 < min ∧ min ≤ freq * 128) ∨
    (leastPost freq = 4 ∧ freq * 128 < min) := by
  unfold leastPost
  split_ifs with one two
  · exact .inl ⟨rfl, one⟩
  · exact .inr (.inl ⟨rfl, Nat.lt_of_not_le one, two⟩)
  · exact .inr (.inr ⟨rfl, Nat.lt_of_not_le two⟩)

/-- The search finds a rate unless there is none. -/
lemma unreachable_of_none (low : min ≤ freq * leastPost freq * 64)
    (none : ∀ ij ∈ dividers, ¬ InRange (freq * leastPost freq * ij.1 * ij.2)) :
    Unreachable freq := by
  have high : max < freq * leastPost freq := by
    by_contra! le
    obtain ⟨ij, divider, range⟩ := exists_inRange low le
    exact none ij (mem_dividers.mpr divider) range
  obtain ⟨post, -⟩ | ⟨post, less, -⟩ | ⟨post, less⟩ := leastPost_cases freq
  · rw [post, Nat.mul_one] at high
    exact unreachable_high high
  all_goals
    rw [post] at high
    unfold min max hck at *
    omega

/-- The fraction is right when its product does not wrap. -/
lemma program_right {rate p i j : Nat} {locks locked : Bool} {s : Setting} (range : InRange rate)
    (post : p = 1 ∨ p = 2 ∨ p = 4) (divider : Divider (i, j)) (eq : rate = freq * p * i * j)
    (set : enablePllVideo (rate / hck) (rate % hck * 1000000 / hck) 1000000 p i j locks =
      .program s locked) : s.Right freq := by
  rw [enablePllVideo, if_pos post, Outcome.program.injEq] at set
  obtain ⟨rfl, -⟩ := set
  have product : rate = freq * (p * i * j) := by
    rw [eq]
    ac_rfl
  have pos : 0 < p * i * j :=
    Nat.mul_pos (Nat.mul_pos (by omega) divider.1.1) divider.2.1
  have close := near product pos
  unfold InRange min max hck at range
  have less := Nat.mod_lt rate (show 0 < hck by decide)
  refine ⟨?_, ?_, ?_, post, divider, ?_⟩
  · exact (Nat.le_div_iff_mul_le (by decide)).mpr (by unfold hck; omega)
  · exact Nat.div_le_of_le_mul (by unfold hck; omega)
  · show rate % hck * 1000000 / hck < 1000000
    refine Nat.div_lt_of_lt_mul ?_
    unfold hck at *
    omega
  · push_cast at close ⊢
    exact close

/-- The search with the divider behind the PLL that is needed. -/
lemma setRate_iff (board : Board) (freq : Nat)
    (small : freq * leastPost freq * 64 < 2 ^ 32)
    (low : min ≤ freq * leastPost freq * 64) :
    Meets freq (setRate board (leastPost freq) (freq * leastPost freq) true) ↔
      ∀ rate, IsLeast (rates freq) rate → rate % hck ≤ 4294 := by
  obtain ⟨s, eq, found⟩ := search_found true small
  have post : leastPost freq = 1 ∨ leastPost freq = 2 ∨ leastPost freq = 4 := by
    unfold leastPost
    split_ifs <;> simp
  unfold setRate
  rw [eq]
  dsimp only
  obtain ⟨zero, none⟩ | ⟨mem, best, range, least⟩ := found
  case inl =>
    rw [if_pos zero]
    refine ⟨fun _ rate is => ?_, fun _ => ⟨rfl, nofun, fun _ => unreachable_of_none low none⟩⟩
    obtain ⟨range, ij, divider, rfl⟩ := is.1
    exact absurd range (none ij (mem_dividers.mpr divider))
  case inr =>
    have divider := mem_dividers.mp mem
    have is : IsLeast (rates freq) s.best :=
      ⟨⟨range, _, divider, best⟩, fun rate ⟨range', ij, divider', eq'⟩ => by
        rw [eq'] at range' ⊢
        exact least ij (mem_dividers.mpr divider') range'⟩
    have unique : (∀ rate, IsLeast (rates freq) rate → rate % hck ≤ 4294) ↔
        s.best % hck ≤ 4294 :=
      ⟨fun all => all _ is, fun le rate is' => is'.unique is ▸ le⟩
    have split := Nat.div_add_mod s.best hck
    have top : s.best ≤ 1296000 := range.2
    have whole : mul hck (s.best / hck) true = (hck * (s.best / hck), true) := mul_eq (by omega)
    have rest : s.best - hck * (s.best / hck) = s.best % hck := by omega
    have some : s.best ≠ 0 := by
      have low := range.1
      unfold min hck at low
      omega
    rw [unique, if_neg some, whole]
    dsimp only
    rw [rest]
    by_cases le : s.best % hck ≤ 4294
    case pos =>
      have part : mul (s.best % hck) 1000000 true = (s.best % hck * 1000000, true) :=
        mul_eq (by omega)
      rw [part]
      dsimp only
      refine ⟨fun _ => le, fun _ => ?_⟩
      split_ifs
      · refine ⟨rfl, fun s' locked set => program_right range post divider best set, fun fail => ?_⟩
        rw [enablePllVideo, if_pos post] at fail
        cases fail
      · exact ⟨rfl, nofun, nofun⟩
    case neg =>
      refine ⟨fun meets => ?_, fun le' => absurd le' le⟩
      have all : (mul (s.best % hck) 1000000 true).2 = true := by
        have fits := meets.fits
        split_ifs at fits <;> exact fits
      have lt := (mul_exact all).2
      omega

/-! ## The whole call -/

lemma postDivLoop_exact {temp : Nat} {fuel p : Nat}
    (all : (postDivLoop temp freq fuel p fits).2 = true) : fits = true := by
  induction fuel generalizing p fits with
  | zero => exact all
  | succ fuel ih =>
    rw [postDivLoop] at all
    dsimp only at all
    split_ifs at all
    · exact (mul_exact (mul_exact all).1).1
    · exact (mul_exact (ih all)).1
    · exact all

/-- The divider behind the PLL that the loop ends with. -/
lemma postDivLoop_eq (low : freq * 64 < min) :
    postDivLoop (freq * 64) freq 3 2 true =
      if min ≤ freq * 256 then ((leastPost freq, freq * leastPost freq), true)
      else ((8, freq), true) := by
  have low' := low
  unfold min hck at low'
  have two : mul (freq * 64) 2 true = (freq * 64 * 2, true) := mul_eq (by omega)
  have four : mul (freq * 64) 4 true = (freq * 64 * 4, true) := mul_eq (by omega)
  have two' : mul freq 2 true = (freq * 2, true) := mul_eq (by omega)
  have four' : mul freq 4 true = (freq * 4, true) := mul_eq (by omega)
  rw [postDivLoop, if_pos (by decide), two]
  dsimp only
  obtain ⟨post, reach⟩ | ⟨post, -, reach⟩ | ⟨post, less⟩ := leastPost_cases freq
  · omega
  · unfold min hck at *
    rw [if_pos (by omega), two', if_pos (by omega), post]
  · unfold min hck at *
    rw [if_neg (by omega), postDivLoop, if_pos (by decide), four]
    dsimp only
    by_cases reach : 24000 * 27 ≤ freq * 256
    case pos =>
      unfold min hck
      rw [if_pos (by omega), four', if_pos reach, post]
    case neg =>
      unfold min hck
      rw [if_neg (by omega), if_neg reach]
      rfl

/-- The clock is right exactly when the frequency is below 2 ^ 26 kHz and the part of the rate that
is no multiple of the crystal is at most 4294 kHz. -/
theorem mxsSetLcdclk_iff (board : Board) (freq : Nat) :
    Meets freq (mxsSetLcdclk board freq) ↔
      (board.cpu ≠ .other → board.premux = true →
        freq < 2 ^ 26 ∧ ∀ rate, IsLeast (rates freq) rate → rate % hck ≤ 4294) := by
  unfold mxsSetLcdclk
  by_cases other : board.cpu = .other
  case pos =>
    rw [if_pos other]
    exact ⟨fun _ known => absurd other known, fun _ => ⟨rfl, nofun, nofun⟩⟩
  case neg =>
    rw [if_neg other]
    cases premux : board.premux with
    | false =>
      rw [if_pos (by decide)]
      exact ⟨fun _ _ => nofun, fun _ => ⟨rfl, nofun, nofun⟩⟩
    | true =>
      rw [if_neg (by decide)]
      by_cases big : 2 ^ 26 ≤ freq
      case pos =>
        refine ⟨fun meets => ?_, fun cond => absurd (cond other rfl).1 (Nat.not_lt_of_le big)⟩
        have fits := meets.fits
        dsimp only at fits
        have both : (mul (mul freq 8 true).1 8 (mul freq 8 true).2).2 = true := by
          split_ifs at fits
          · exact postDivLoop_exact fits
          · exact postDivLoop_exact (setRate_exact fits)
          · exact setRate_exact fits
        obtain ⟨one, two⟩ := mul_exact both
        have small := (mul_exact one).2
        rw [mul_eq small] at two
        dsimp only at two
        omega
      case neg =>
        have one : mul freq 8 true = (freq * 8, true) := mul_eq (by omega)
        have two : mul (freq * 8) 8 true = (freq * 8 * 8, true) := mul_eq (by omega)
        rw [one]
        dsimp only
        rw [two]
        dsimp only
        rw [Nat.mul_assoc]
        have same : (board.cpu ≠ .other → true = true →
            freq < 2 ^ 26 ∧ ∀ rate, IsLeast (rates freq) rate → rate % hck ≤ 4294) ↔
              ∀ rate, IsLeast (rates freq) rate → rate % hck ≤ 4294 :=
          ⟨fun cond => (cond other rfl).2, fun all _ _ => ⟨Nat.lt_of_not_le big, all⟩⟩
        rw [same]
        by_cases low : freq * (8 * 8) < min
        case pos =>
          have low' : freq * (8 * 8) < 648000 := low
          rw [if_pos low, postDivLoop_eq low]
          by_cases reach : min ≤ freq * 256
          case pos =>
            rw [if_pos reach]
            dsimp only
            obtain ⟨post, high⟩ | ⟨post, less, reach'⟩ | ⟨post, less⟩ := leastPost_cases freq
            · omega
            all_goals
              rw [if_neg (by omega)]
              exact setRate_iff board freq (by rw [post]; omega) (by rw [post]; omega)
          case neg =>
            rw [if_neg reach]
            dsimp only
            rw [if_pos (by decide)]
            have none := unreachable_low (Nat.lt_of_not_le reach)
            refine ⟨fun _ rate is => ?_, fun _ => ⟨rfl, nofun, fun _ => none⟩⟩
            obtain ⟨range, ij, divider, rfl⟩ := is.1
            obtain ⟨post, -⟩ | ⟨post, -⟩ | ⟨post, -⟩ := leastPost_cases freq
            all_goals exact absurd range (none _ ij (by simp [post]) divider)
        case neg =>
          rw [if_neg low]
          have post : leastPost freq = 1 := if_pos (Nat.le_of_not_lt low)
          have iff := setRate_iff board freq (by rw [post]; omega) (by rw [post]; omega)
          rw [post, Nat.mul_one] at iff
          exact iff

/-- A display at 33 MHz. -/
theorem not_mxsSetLcdclk_display :
    ¬ Meets 33000 (mxsSetLcdclk ⟨.mx6ul, true, 0, true⟩ 33000) := by
  intro meets
  have fits := meets.fits
  revert fits
  decide

end Imx.Lcdif
