import Imx.Base.Fuel
import Mathlib.Tactic.Linarith
import Mathlib.Tactic.Ring

/-!
# The screen of the bare-metal board

Model of `lcd_draw_point` and `lcd_fill` of `bsp/lcd/lcd.c`. A `uint16_t` is a number cut to its
width where it could exceed it, and so is an address. The loops count in 16 bits and need not end;
they are run with a count of the turns they may take.
-/

namespace Imx.Bsp.Lcd

open Imx.Base

/-- The fields of `tft_lcd` that drawing uses. -/
structure TftLcd where
  height : Nat
  width : Nat
  buf : Nat
  forecolor : Nat
  backcolor : Nat
deriving DecidableEq

/-- What `lcd_init` sets `tft_lcd.pixel_size` to. -/
def pixelSize : Nat := 4

/-- A write of a colour to the frame buffer. -/
structure Write where
  address : Nat
  color : Nat
deriving DecidableEq

variable (lcd : TftLcd)

def address (x y : Nat) : Nat :=
  (lcd.buf + pixelSize * (lcd.width * y + x) % 2 ^ 32) % 2 ^ 32

def lcdDrawPoint (x y color : Nat) : Write := ⟨address lcd x y, color⟩

/-- The loop over `x`. -/
def fillRow (x1 y color : Nat) : (turns x : Nat) → Option (List Write)
  | 0, _ => none
  | turns + 1, x =>
    if x ≤ x1 then
      (fillRow x1 y color turns ((x + 1) % 2 ^ 16)).map (lcdDrawPoint lcd x y color :: ·)
    else some []

/-- The loop over `y`. -/
def fillRows (x0 x1 y1 color : Nat) : (turns y : Nat) → Option (List Write)
  | 0, _ => none
  | turns + 1, y =>
    if y ≤ y1 then
      (fillRow lcd x1 y color turns x0).bind fun row =>
        (fillRows x0 x1 y1 color turns ((y + 1) % 2 ^ 16)).map (row ++ ·)
    else some []

def lcdFill (x0 y0 x1 y1 color turns : Nat) : Option (List Write) :=
  let x1 := if lcd.width < x1 then lcd.width else x1
  let y1 := if lcd.height < y1 then lcd.height else y1
  fillRows lcd x0 x1 y1 color turns y0

/-! ## The rectangle -/

/-- A rectangle with both corners in 16 bits, on a screen of 1 to 65535 pixels each way. -/
structure Sizes (lcd : TftLcd) (x0 y0 x1 y1 : Nat) : Prop where
  width : 1 ≤ lcd.width ∧ lcd.width < 2 ^ 16
  height : 1 ≤ lcd.height ∧ lcd.height < 2 ^ 16
  first : x0 < 2 ^ 16 ∧ y0 < 2 ^ 16
  last : x1 < 2 ^ 16 ∧ y1 < 2 ^ 16

/-- A pixel of the rectangle. -/
def Inside (x0 y0 x1 y1 x y : Nat) : Prop := x0 ≤ x ∧ x ≤ x1 ∧ y0 ≤ y ∧ y ≤ y1

/-- A pixel of the screen. -/
def Visible (x y : Nat) : Prop := x < lcd.width ∧ y < lcd.height

/-- The fill ends, and what it writes is the colour to the visible pixels of the rectangle. -/
def Right (x0 y0 x1 y1 color : Nat) : Prop :=
  ∃ ws, Gives (lcdFill lcd x0 y0 x1 y1 color) ws ∧
    ∀ w, w ∈ ws ↔
      ∃ x y, Inside x0 y0 x1 y1 x y ∧ Visible lcd x y ∧ w = ⟨address lcd x y, color⟩

/-- Both counters get beyond the last pixel. -/
def Ends (y0 x1 y1 : Nat) : Prop :=
  ¬ (lcd.height = 65535 ∧ y1 = 65535) ∧
    ¬ (lcd.width = 65535 ∧ x1 = 65535 ∧ y0 ≤ y1 ∧ y0 ≤ lcd.height)

/-- What is drawn in the column or the row beyond the screen lies on visible pixels. -/
def Covered (x0 y0 x1 y1 : Nat) : Prop :=
  ∀ x y, Inside x0 y0 x1 y1 x y → x ≤ lcd.width → y ≤ lcd.height → ¬ Visible lcd x y →
    ∃ x' y', Inside x0 y0 x1 y1 x' y' ∧ Visible lcd x' y' ∧ address lcd x' y' = address lcd x y

/-- The frame buffer with one more row and one more pixel has its own addresses. -/
def Fits : Prop := pixelSize * (lcd.width * (lcd.height + 1) + 1) ≤ 2 ^ 32

instance : Decidable (Fits lcd) := inferInstanceAs (Decidable (_ ≤ _))

/-- The rectangle is on the screen, unless its first corner is beyond its last one or the screen. -/
def OnScreen (x0 y0 x1 y1 : Nat) : Prop :=
  x0 ≤ x1 → x0 ≤ lcd.width → y0 ≤ y1 → y0 ≤ lcd.height → x1 < lcd.width ∧ y1 < lcd.height

variable {lcd} {x0 x1 y0 y1 color : Nat}

/-! ## The loops -/

/-- The writes of a row. -/
def row (lcd : TftLcd) (x0 x1 y color : Nat) : List Write :=
  (List.range' x0 (x1 + 1 - x0)).map fun x => lcdDrawPoint lcd x y color

/-- A row that ends before the counter does. -/
lemma fillRow_gives {x y n : Nat} (hn : x1 + 1 - x = n) (hend : x1 < 65535 ∨ x1 < x) :
    Gives (fun turns => fillRow lcd x1 y color turns x) (row lcd x x1 y color) := by
  induction n generalizing x with
  | zero =>
    refine gives_of_succ fun k => ?_
    rw [fillRow, if_neg (by omega), row, hn]
    rfl
  | succ n ih =>
    have hrest := ih (x := (x + 1) % 2 ^ 16) (by omega) (by omega)
    have hrow : row lcd x x1 y color =
        lcdDrawPoint lcd x y color :: row lcd ((x + 1) % 2 ^ 16) x1 y color := by
      have hwrap : (x + 1) % 2 ^ 16 = x + 1 := Nat.mod_eq_of_lt (by omega)
      rw [row, row, hn, hwrap, show x1 + 1 - (x + 1) = n by omega, List.range'_succ, List.map_cons]
    rw [hrow]
    refine Gives.succ (hrest.map (lcdDrawPoint lcd x y color :: ·)) fun k => ?_
    rw [fillRow, if_pos (by omega)]

/-- A row up to the largest number does not end. -/
lemma fillRow_none {x y : Nat} (hx : x < 2 ^ 16) (turns : Nat) :
    fillRow lcd 65535 y color turns x = none := by
  induction turns generalizing x with
  | zero => rfl
  | succ turns ih =>
    rw [fillRow, if_pos (by omega), ih (Nat.mod_lt _ (by decide))]
    rfl

/-- The rows end where the counter does not and each of them does. -/
lemma fillRows_gives {y n : Nat} (hn : y1 + 1 - y = n) (hend : y1 < 65535)
    (hrow : y ≤ y1 → x1 < 65535 ∨ x1 < x0) :
    Gives (fun turns => fillRows lcd x0 x1 y1 color turns y)
      ((List.range' y (y1 + 1 - y)).flatMap fun y => row lcd x0 x1 y color) := by
  induction n generalizing y with
  | zero =>
    refine gives_of_succ fun k => ?_
    rw [fillRows, if_neg (by omega), hn]
    rfl
  | succ n ih =>
    have hwrap : (y + 1) % 2 ^ 16 = y + 1 := Nat.mod_eq_of_lt (by omega)
    have hrest := ih (y := y + 1) (by omega) fun _ => hrow (by omega)
    have hfirst := @fillRow_gives lcd x1 color x0 y _ rfl (hrow (by omega))
    rw [hn, List.range'_succ, List.flatMap_cons, show n = y1 + 1 - (y + 1) by omega]
    refine Gives.succ (Gives.bind
      (h := fun k r => (fillRows lcd x0 x1 y1 color k (y + 1)).map (r ++ ·))
      hfirst (hrest.map (row lcd x0 x1 y color ++ ·))) fun k => ?_
    rw [fillRows, if_pos (by omega), hwrap]

/-- Rows up to the largest number do not end, and neither do rows of which one does not. -/
lemma fillRows_none {y : Nat} (hx : x0 < 2 ^ 16) (hy : y < 2 ^ 16)
    (hend : y1 = 65535 ∨ x1 = 65535 ∧ y ≤ y1) (turns : Nat) :
    fillRows lcd x0 x1 y1 color turns y = none := by
  induction turns generalizing y with
  | zero => rfl
  | succ turns ih =>
    rw [fillRows, if_pos (by omega)]
    rcases hend with rfl | ⟨rfl, -⟩
    · rw [ih (Nat.mod_lt _ (by decide)) (.inl rfl)]
      cases fillRow lcd x1 y color turns x0 <;> rfl
    · rw [fillRow_none hx]
      rfl

/-! ## The fill -/

lemma clamp_eq (a b : Nat) : (if a < b then a else b) = min b a := by
  split <;> omega

/-- What a fill that ends writes. -/
lemma lcdFill_gives (h : Sizes lcd x0 y0 x1 y1) (hend : Ends lcd y0 x1 y1) :
    ∃ ws, Gives (lcdFill lcd x0 y0 x1 y1 color) ws ∧ ∀ w, w ∈ ws ↔
      ∃ x y, Inside x0 y0 (min x1 lcd.width) (min y1 lcd.height) x y ∧
        w = ⟨address lcd x y, color⟩ := by
  obtain ⟨hwidth, hheight, hfirst, hlast⟩ := h
  obtain ⟨hy, hx⟩ := hend
  refine ⟨_, (@fillRows_gives lcd x0 (min x1 lcd.width) (min y1 lcd.height) color y0 _ rfl ?_
    ?_).congr fun k => ?_, fun w => ?_⟩
  · omega
  · intro hle
    omega
  · rw [lcdFill, clamp_eq, clamp_eq]
  · simp only [List.mem_flatMap, row, List.mem_map, List.mem_range'_1, lcdDrawPoint, Inside]
    constructor
    · rintro ⟨y, hy, x, hx, rfl⟩
      exact ⟨x, y, by omega, rfl⟩
    · rintro ⟨x, y, hxy, rfl⟩
      exact ⟨y, by omega, x, by omega, rfl⟩

/-- A fill whose counters do not get beyond the last pixel does not end. -/
lemma lcdFill_not_gives (h : Sizes lcd x0 y0 x1 y1) (hend : ¬ Ends lcd y0 x1 y1)
    {ws : List Write} : ¬ Gives (lcdFill lcd x0 y0 x1 y1 color) ws := by
  rintro ⟨n, hn⟩
  have hgives := hn n (Nat.le_refl n)
  have hlast := h.last
  have hscreen := h.width
  have hscreen' := h.height
  rw [lcdFill, clamp_eq, clamp_eq, fillRows_none h.first.1 h.first.2] at hgives
  · exact absurd hgives (by simp)
  · rw [Ends] at hend
    omega

/-- A fill is right exactly where it ends, and what it draws beyond the screen is covered. -/
lemma right_iff_covered (h : Sizes lcd x0 y0 x1 y1) :
    Right lcd x0 y0 x1 y1 color ↔ Ends lcd y0 x1 y1 ∧ Covered lcd x0 y0 x1 y1 := by
  by_cases hend : Ends lcd y0 x1 y1
  case neg =>
    refine iff_of_false ?_ fun hr => hend hr.1
    rintro ⟨ws, hgives, -⟩
    exact lcdFill_not_gives h hend hgives
  case pos =>
    obtain ⟨ws, hgives, hws⟩ := @lcdFill_gives lcd x0 x1 y0 y1 color h hend
    rw [and_iff_right hend]
    constructor
    · rintro ⟨ws', hgives', hws'⟩ x y hin hx hy -
      obtain rfl := hgives.unique hgives'
      have hmem := (hws _).2 ⟨x, y, ⟨hin.1, le_min hin.2.1 hx, hin.2.2.1, le_min hin.2.2.2 hy⟩, rfl⟩
      obtain ⟨x', y', hin', hvis', heq⟩ := (hws' _).1 hmem
      exact ⟨x', y', hin', hvis', (congrArg Write.address heq).symm⟩
    · intro hcov
      refine ⟨ws, hgives, fun w => (hws w).trans ?_⟩
      constructor
      · rintro ⟨x, y, ⟨hx0, hx1, hy0, hy1⟩, rfl⟩
        have hin : Inside x0 y0 x1 y1 x y := ⟨hx0, by omega, hy0, by omega⟩
        by_cases hvis : Visible lcd x y
        · exact ⟨x, y, hin, hvis, rfl⟩
        · obtain ⟨x', y', hin', hvis', haddr⟩ := hcov x y hin (by omega) (by omega) hvis
          exact ⟨x', y', hin', hvis', by rw [haddr]⟩
      · rintro ⟨x, y, hin, hvis, rfl⟩
        refine ⟨x, y, ?_, rfl⟩
        obtain ⟨hx, hy⟩ := hvis
        obtain ⟨hx0, hx1, hy0, hy1⟩ := hin
        exact ⟨hx0, by omega, hy0, by omega⟩

/-- In a frame buffer that fits, pixels up to one behind it have addresses of their own. -/
lemma address_inj (hfits : Fits lcd) {x y x' y' : Nat}
    (h : lcd.width * y + x ≤ lcd.width * (lcd.height + 1))
    (h' : lcd.width * y' + x' ≤ lcd.width * (lcd.height + 1))
    (he : address lcd x' y' = address lcd x y) : lcd.width * y' + x' = lcd.width * y + x := by
  simp only [Fits, address, pixelSize] at *
  omega

/-- Where the frame buffer fits, only a rectangle on the screen is covered. -/
lemma covered_iff_onScreen (hfits : Fits lcd) :
    Covered lcd x0 y0 x1 y1 ↔ OnScreen lcd x0 y0 x1 y1 := by
  constructor
  · intro hcov hx hxw hy hyh
    by_contra hout
    have hle : ∀ y ≤ lcd.height, ∀ x ≤ lcd.width,
        lcd.width * y + x ≤ lcd.width * (lcd.height + 1) := by
      intro y hyle x hxle
      have := Nat.mul_le_mul_left lcd.width hyle
      rw [Nat.mul_succ]
      omega
    by_cases hlow : lcd.height ≤ y1
    · -- the row below the screen is behind all visible pixels
      obtain ⟨x', y', -, ⟨hx', hy'⟩, haddr⟩ := hcov x0 lcd.height
        ⟨Nat.le_refl _, hx, hyh, hlow⟩ hxw (Nat.le_refl _) fun hvis => Nat.lt_irrefl _ hvis.2
      have heq := address_inj hfits (hle lcd.height (Nat.le_refl _) x0 hxw)
        (hle y' (by omega) x' (by omega)) haddr
      have := Nat.mul_le_mul_left lcd.width (show y' + 1 ≤ lcd.height by omega)
      rw [Nat.mul_succ] at this
      omega
    · -- the pixel behind the last row of the rectangle is behind all of it
      obtain ⟨x', y', hin, ⟨hx', hy'⟩, haddr⟩ := hcov lcd.width y1
        ⟨hxw, by omega, hy, Nat.le_refl _⟩ (Nat.le_refl _) (by omega)
        fun hvis => Nat.lt_irrefl _ hvis.1
      have heq := address_inj hfits (hle y1 (by omega) lcd.width (Nat.le_refl _))
        (hle y' (by omega) x' (by omega)) haddr
      have := Nat.mul_le_mul_left lcd.width hin.2.2.2
      omega
  · intro hon x y hin hx hy hvis
    obtain ⟨hx0, hx1, hy0, hy1⟩ := hin
    have hinside := hon (by omega) (by omega) (by omega) (by omega)
    exact absurd ⟨by omega, by omega⟩ hvis

/--
A fill is right exactly where its counters get beyond the last pixel, and what it draws in the
column or the row beyond the screen lies on pixels of the rectangle; where the frame buffer fits,
nothing is drawn there.
-/
theorem lcdFill_right_iff {lcd : TftLcd} {x0 y0 x1 y1 : Nat} (color : Nat)
    (h : Sizes lcd x0 y0 x1 y1) :
    (Right lcd x0 y0 x1 y1 color ↔ Ends lcd y0 x1 y1 ∧ Covered lcd x0 y0 x1 y1) ∧
    (Fits lcd → (Covered lcd x0 y0 x1 y1 ↔ OnScreen lcd x0 y0 x1 y1)) :=
  ⟨right_iff_covered h, covered_iff_onScreen⟩

/-- A screen of 8 by 4 pixels. -/
def small : TftLcd := { height := 4, width := 8, buf := 0x89000000, forecolor := 0, backcolor := 0 }

lemma small_sizes {x0 y0 x1 y1 : Nat} (h : x0 < 8 ∧ y0 < 8 ∧ x1 < 9 ∧ y1 < 8) :
    Sizes small x0 y0 x1 y1 :=
  ⟨by decide, by decide, by omega, by omega⟩

/-- A corner of the screen. -/
theorem lcdFill_right_iff_corner :
    (Right small 6 2 7 3 0xFF ↔ Ends small 2 7 3 ∧ Covered small 6 2 7 3) ∧
    (Covered small 6 2 7 3 ↔ OnScreen small 6 2 7 3) :=
  ⟨(lcdFill_right_iff 0xFF (small_sizes (by decide))).1,
    (lcdFill_right_iff 0xFF (small_sizes (by decide))).2 (by decide)⟩

/-- A rectangle that ends one column beyond the screen. -/
theorem lcdFill_not_right :
    ¬ ∀ lcd x0 y0 x1 y1 color, Sizes lcd x0 y0 x1 y1 → Right lcd x0 y0 x1 y1 color := by
  intro h
  have hright := h small 6 2 8 2 0xFF (small_sizes (by decide))
  have hcov := ((right_iff_covered (small_sizes (by decide))).1 hright).2
  have hon := (covered_iff_onScreen (by decide)).1 hcov
  exact absurd (hon (by decide) (by decide) (by decide) (by decide)) (by decide)

end Imx.Bsp.Lcd
