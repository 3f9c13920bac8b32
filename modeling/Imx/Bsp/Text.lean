import Imx.Bsp.Lcd
import Imx.Bsp.Number

/-!
# Strings on the screen of the bare-metal board

Model of `lcd_show_char` and `lcd_show_string` of `bsp/lcd/lcdapi.c`. Coordinates are `u16`; the
column a string begins at is kept in a `u8`. The calls of `lcd_show_char` a string leads to are its
cells. The font is a parameter: the byte of a size, a character and a place.
-/

namespace Imx.Bsp.Text

open Lcd Number

/-! ## One character -/

/-- A call of `lcd_draw_point`. -/
structure Dot where
  x : Nat
  y : Nat
  color : Nat
deriving DecidableEq

/-- The dot of the highest bit of `temp`, if there is one. -/
def dot (lcd : TftLcd) (mode temp x y : Nat) : List Dot :=
  if temp &&& 0x80 ≠ 0 then [⟨x, y, lcd.forecolor⟩]
  else if mode = 0 then [⟨x, y, lcd.backcolor⟩]
  else []

/-- The loop over the bits of a byte: its dots, and where it ends unless the function returns. -/
def bitLoop (lcd : TftLcd) (size mode y0 : Nat) :
    (turns temp x y : Nat) → List Dot × Option (Nat × Nat)
  | 0, _, x, y => ([], some (x, y))
  | turns + 1, temp, x, y =>
    let dots := dot lcd mode temp x y
    let temp := (temp <<< 1) % 2 ^ 8
    let y := (y + 1) % 2 ^ 16
    if lcd.height ≤ y then (dots, none)
    else if (2 ^ 32 + y - y0) % 2 ^ 32 = size then
      let x := (x + 1) % 2 ^ 16
      if lcd.width ≤ x then (dots, none) else (dots, some (x, y0))
    else
      let (rest, place) := bitLoop lcd size mode y0 turns temp x y
      (dots ++ rest, place)

/-- The loop over the bytes of a character, of which `turns` are left. -/
def byteLoop (lcd : TftLcd) (byte : Nat → Nat) (size mode y0 : Nat) :
    (turns t x y : Nat) → List Dot
  | 0, _, _, _ => []
  | turns + 1, t, x, y =>
    match bitLoop lcd size mode y0 8 (byte t) x y with
    | (dots, none) => dots
    | (dots, some (x, y)) => dots ++ byteLoop lcd byte size mode y0 turns (t + 1) x y

/-- The sizes of the fonts. -/
def fontSizes : List Nat := [12, 16, 24, 32]

def lcdShowChar (lcd : TftLcd) (font : Nat → Nat → Nat → Nat) (c : Cell) : List Dot :=
  let csize := ((c.size / 8 + if c.size % 8 ≠ 0 then 1 else 0) * (c.size / 2)) % 2 ^ 8
  let num := (c.num + 2 ^ 8 - 32) % 2 ^ 8
  if c.size ∈ fontSizes then byteLoop lcd (font c.size num) c.size c.mode c.y csize 0 c.x c.y
  else []

/-! ## A string -/

/-- Between a blank and a tilde. -/
def printable (p : Nat) : Bool := p ≤ 126 && 32 ≤ p

/-- The loop over the string, up to the column `width` and the row `height`. -/
def stringLoop (size width height x0 : Nat) : List Nat → (x y : Nat) → List Cell
  | [], _, _ => []
  | p :: ps, x, y =>
    if printable p then
      let (x, y) := if width ≤ x then (x0, (y + size) % 2 ^ 16) else (x, y)
      if height ≤ y then []
      else ⟨x, y, p, size, 0⟩ :: stringLoop size width height x0 ps ((x + size / 2) % 2 ^ 16) y
    else []

def lcdShowString (x y width height size : Nat) (p : List Nat) : List Cell :=
  stringLoop size ((width + x) % 2 ^ 16) ((height + y) % 2 ^ 16) (x % 2 ^ 8) p x y

/-! ## Boxes -/

/-- The cells of a line, and the lines, that begin inside the box. -/
def ceilDiv (a b : Nat) : Nat := (a + b - 1) / b

/-- The `i`-th cell of a box. -/
def boxCell (x y width size i p : Nat) : Cell :=
  let c := ceilDiv width (size / 2)
  ⟨x + i % c * (size / 2), y + i / c * size, p, size, 0⟩

/-- The characters before the first one that cannot be shown. -/
def text (p : List Nat) : List Nat := p.takeWhile printable

/-- As many characters as the box has cells are shown, each in its own. -/
def Right (x y width height size : Nat) (p : List Nat) : Prop :=
  lcdShowString x y width height size p =
    ((text p).take (ceilDiv width (size / 2) * ceilDiv height size)).mapIdx
      (boxCell x y width size)

instance (x y width height size : Nat) (p : List Nat) : Decidable (Right x y width height size p) :=
  inferInstanceAs (Decidable (_ = _))

/-- A box in 16 bits and a font that there is. -/
structure Sizes (x y width height size : Nat) : Prop where
  size : size ∈ fontSizes
  right : x + width < 2 ^ 16
  bottom : y + height < 2 ^ 16

/--
The text of length `n` fits on the first line, or the box is empty, or the ends of its lines and, if
the text gets there, its lower end are in 16 bits and a second line begins in 8 bits.
-/
def Laid (x y width height size n : Nat) : Prop :=
  let c := ceilDiv width (size / 2)
  let l := ceilDiv height size
  n ≤ c ∨ (0 < width ∧ height = 0) ∨
    (0 < width ∧ 0 < height ∧ x + c * (size / 2) < 2 ^ 16 ∧ (l = 1 ∨ x < 2 ^ 8) ∧
      (n ≤ c * l ∨ y + l * size < 2 ^ 16)) ∨
    (width = 0 ∧ y + size < 2 ^ 16 ∧ height ≤ size)

/-! ## Dots on the screen -/

variable {lcd : TftLcd} {size mode y0 : Nat}

lemma dot_mem {temp x y : Nat} {d : Dot} (h : d ∈ dot lcd mode temp x y) : d.x = x ∧ d.y = y := by
  rw [dot] at h
  split at h
  · obtain rfl := List.mem_singleton.1 h
    exact ⟨rfl, rfl⟩
  · split at h
    · obtain rfl := List.mem_singleton.1 h
      exact ⟨rfl, rfl⟩
    · exact absurd h (by simp)

/-- A byte is drawn on the screen, and ends there unless the function returns. -/
lemma bitLoop_visible (hy0 : y0 < lcd.height) (turns : Nat) {temp x y : Nat}
    (h : Visible lcd x y) :
    (∀ d ∈ (bitLoop lcd size mode y0 turns temp x y).1, Visible lcd d.x d.y) ∧
      ∀ x' y', (bitLoop lcd size mode y0 turns temp x y).2 = some (x', y') → Visible lcd x' y' := by
  induction turns generalizing temp x y with
  | zero =>
    refine ⟨by simp [bitLoop], fun x' y' hp => ?_⟩
    obtain ⟨rfl, rfl⟩ := Prod.mk.inj (Option.some.inj hp)
    exact h
  | succ turns ih =>
    have hdots : ∀ d ∈ dot lcd mode temp x y, Visible lcd d.x d.y := by
      intro d hd
      obtain ⟨hx, hy⟩ := dot_mem hd
      rw [hx, hy]
      exact h
    rw [bitLoop]
    by_cases hheight : lcd.height ≤ (y + 1) % 2 ^ 16
    · simp only [if_pos hheight]
      exact ⟨hdots, fun _ _ hp => absurd hp (by simp)⟩
    · simp only [if_neg hheight]
      by_cases hcol : (2 ^ 32 + (y + 1) % 2 ^ 16 - y0) % 2 ^ 32 = size
      · simp only [if_pos hcol]
        by_cases hwidth : lcd.width ≤ (x + 1) % 2 ^ 16
        · simp only [if_pos hwidth]
          exact ⟨hdots, fun _ _ hp => absurd hp (by simp)⟩
        · simp only [if_neg hwidth]
          refine ⟨hdots, fun x' y' hp => ?_⟩
          obtain ⟨rfl, rfl⟩ := Prod.mk.inj (Option.some.inj hp)
          exact ⟨Nat.lt_of_not_le hwidth, hy0⟩
      · simp only [if_neg hcol]
        obtain ⟨hrest, hplace⟩ := @ih ((temp <<< 1) % 2 ^ 8) x ((y + 1) % 2 ^ 16)
          ⟨h.1, Nat.lt_of_not_le hheight⟩
        refine ⟨fun d hd => ?_, hplace⟩
        rcases List.mem_append.1 hd with hd | hd
        · exact hdots d hd
        · exact hrest d hd

/-- A character that begins on the screen is drawn on it. -/
lemma byteLoop_visible (byte : Nat → Nat) (hy0 : y0 < lcd.height) (turns : Nat) {t x y : Nat}
    (h : Visible lcd x y) :
    ∀ d ∈ byteLoop lcd byte size mode y0 turns t x y, Visible lcd d.x d.y := by
  induction turns generalizing t x y with
  | zero => simp [byteLoop]
  | succ turns ih =>
    obtain ⟨hdots, hplace⟩ := @bitLoop_visible lcd size mode y0 hy0 8 (byte t) x y h
    rw [byteLoop]
    split
    case h_1 dots heq =>
      rw [heq] at hdots
      exact hdots
    case h_2 dots x' y' heq =>
      rw [heq] at hdots hplace
      intro d hd
      rcases List.mem_append.1 hd with hd | hd
      · exact hdots d hd
      · exact ih (hplace x' y' rfl) d hd

lemma lcdShowChar_visible (font : Nat → Nat → Nat → Nat) {c : Cell} (h : Visible lcd c.x c.y) :
    ∀ d ∈ lcdShowChar lcd font c, Visible lcd d.x d.y := by
  rw [lcdShowChar]
  split
  · exact byteLoop_visible _ h.2 _ h
  · simp

/-! ## Lines -/

variable {width height x0 : Nat}

/-- A place is before the end of a line if it begins inside. -/
lemma lt_ceilDiv {a b k : Nat} (hb : 0 < b) : k < ceilDiv a b ↔ k * b < a := by
  rw [ceilDiv, Nat.lt_iff_add_one_le, Nat.le_div_iff_mul_le hb, Nat.succ_mul]
  omega

lemma le_ceilDiv_mul {a b : Nat} (hb : 0 < b) : a ≤ ceilDiv a b * b := by
  by_contra h
  exact Nat.lt_irrefl _ ((lt_ceilDiv hb).2 (Nat.lt_of_not_le h))

/-- Only what can be shown is looked at. -/
lemma stringLoop_text (p : List Nat) (x y : Nat) :
    stringLoop size width height x0 p x y = stringLoop size width height x0 (text p) x y := by
  induction p generalizing x y with
  | nil => rfl
  | cons c p ih =>
    by_cases hc : printable c = true
    · rw [text, List.takeWhile_cons_of_pos hc, stringLoop, stringLoop, if_pos hc, if_pos hc]
      simp only [ih, text]
    · rw [text, List.takeWhile_cons_of_neg hc]
      exact if_neg hc

/-- Characters that stay on their line. -/
lemma stringLoop_row {x y : Nat} {a b : List Nat} (ha : ∀ p ∈ a, printable p = true) (k : Nat)
    (hfit : ∀ j < k + a.length, x + j * (size / 2) < width) (hwidth : width < 2 ^ 16)
    (hheight : y < height) :
    stringLoop size width height x0 (a ++ b) ((x + k * (size / 2)) % 2 ^ 16) y =
      (a.mapIdx fun j p => ⟨x + (k + j) * (size / 2), y, p, size, 0⟩) ++
        stringLoop size width height x0 b ((x + (k + a.length) * (size / 2)) % 2 ^ 16) y := by
  induction a generalizing k with
  | nil => rfl
  | cons p a ih =>
    have hk := hfit k (by simp)
    have hx : (x + k * (size / 2)) % 2 ^ 16 = x + k * (size / 2) := Nat.mod_eq_of_lt (by omega)
    have hnext : x + k * (size / 2) + size / 2 = x + (k + 1) * (size / 2) := by
      rw [Nat.succ_mul, Nat.add_assoc]
    have hrest := ih (fun p hp => ha p (List.mem_cons_of_mem _ hp)) (k + 1)
      fun j hj => hfit j (by rw [List.length_cons]; omega)
    rw [List.cons_append, stringLoop, if_pos (ha p List.mem_cons_self)]
    simp only [hx, if_neg (Nat.not_le.2 hk), if_neg (Nat.not_le.2 hheight), hnext, hrest]
    rw [List.mapIdx_cons, List.cons_append, List.length_cons]
    simp only [Nat.add_zero, Nat.add_assoc, Nat.add_comm 1]

/-- A character that begins a line. -/
lemma stringLoop_newline {x y : Nat} {p : Nat} {b : List Nat} (hp : printable p = true)
    (hx : width ≤ x) (hx0 : x0 < width) :
    stringLoop size width height x0 (p :: b) x y =
      if height ≤ (y + size) % 2 ^ 16 then []
      else stringLoop size width height x0 (p :: b) x0 ((y + size) % 2 ^ 16) := by
  rw [stringLoop, stringLoop, if_pos hp, if_pos hp]
  simp only [if_pos hx, if_neg (Nat.not_le.2 hx0)]
  split <;> rfl

/-! ## A box -/

variable {x y : Nat}

/-- The loop in a box. -/
def boxLoop (x y width height size : Nat) (ts : List Nat) (row : Nat) : List Cell :=
  stringLoop size (x + width) (y + height) (x % 2 ^ 8) ts x (y + row * size)

/-- The cell of a character, counted from the start of a line. -/
def lineCell (x y width size row i p : Nat) : Cell :=
  ⟨x + i % ceilDiv width (size / 2) * (size / 2),
    y + (row + i / ceilDiv width (size / 2)) * size, p, size, 0⟩

lemma Sizes.range (h : Sizes x y width height size) : 12 ≤ size ∧ size ≤ 32 := by
  have := h.size
  simp only [fontSizes, List.mem_cons, List.not_mem_nil, or_false] at this
  omega

lemma Sizes.half_pos (h : Sizes x y width height size) : 0 < size / 2 := by
  have := h.range
  omega

/-- The first line of what is left, up to its end. -/
lemma boxLoop_row (h : Sizes x y width height size) {a b : List Nat} {row : Nat}
    (ha : ∀ p ∈ a, printable p = true) (hlen : a.length ≤ ceilDiv width (size / 2))
    (hrow : row < ceilDiv height size) :
    boxLoop x y width height size (a ++ b) row =
      (a.mapIdx fun j p => ⟨x + j * (size / 2), y + row * size, p, size, 0⟩) ++
        stringLoop size (x + width) (y + height) (x % 2 ^ 8) b
          ((x + a.length * (size / 2)) % 2 ^ 16) (y + row * size) := by
  have hsize := h.range
  have hright := h.right
  have hin := (lt_ceilDiv (by omega)).1 hrow
  have hloop := @stringLoop_row size (x + width) (y + height) (x % 2 ^ 8) x (y + row * size) a b
    ha 0 (fun j hj => by
      have := (lt_ceilDiv h.half_pos).1 (show j < ceilDiv width (size / 2) by omega)
      omega) h.right (by omega)
  simp only [Nat.zero_mul, Nat.add_zero, Nat.zero_add, Nat.mod_eq_of_lt (show x < 2 ^ 16 by omega)]
    at hloop
  exact hloop

/-- The cells of a line have the number of their column. -/
lemma lineCell_row {a : List Nat} {row : Nat} (hlen : a.length ≤ ceilDiv width (size / 2)) :
    (a.mapIdx fun j p => (⟨x + j * (size / 2), y + row * size, p, size, 0⟩ : Cell)) =
      a.mapIdx (lineCell x y width size row) := by
  refine List.mapIdx_eq_mapIdx_iff.2 fun i hi => ?_
  have hi' : i < ceilDiv width (size / 2) := by omega
  rw [lineCell, Nat.mod_eq_of_lt hi', Nat.div_eq_of_lt hi', Nat.add_zero]

/-- The cells of the lines below count from the next line. -/
lemma lineCell_next {a b : List Nat} {row : Nat} (hlen : a.length = ceilDiv width (size / 2))
    (hpos : 0 < ceilDiv width (size / 2)) :
    (a ++ b).mapIdx (lineCell x y width size row) =
      a.mapIdx (lineCell x y width size row) ++ b.mapIdx (lineCell x y width size (row + 1)) := by
  rw [List.mapIdx_append]
  congr 1
  refine List.mapIdx_eq_mapIdx_iff.2 fun i hi => ?_
  rw [lineCell, lineCell, hlen, Nat.add_mod_right, Nat.add_div_right _ hpos, Nat.add_assoc row,
    Nat.add_comm 1]

/-- A line that is full is followed by the first character of the next. -/
lemma boxLoop_newline (h : Sizes x y width height size) {p : Nat} {b : List Nat} {row : Nat}
    (hp : printable p = true) (hwidth : 0 < width)
    (hend : x + ceilDiv width (size / 2) * (size / 2) < 2 ^ 16) :
    stringLoop size (x + width) (y + height) (x % 2 ^ 8) (p :: b)
        ((x + ceilDiv width (size / 2) * (size / 2)) % 2 ^ 16) (y + row * size) =
      if y + height ≤ (y + (row + 1) * size) % 2 ^ 16 then []
      else stringLoop size (x + width) (y + height) (x % 2 ^ 8) (p :: b) (x % 2 ^ 8)
        ((y + (row + 1) * size) % 2 ^ 16) := by
  have hle := @le_ceilDiv_mul width (size / 2) h.half_pos
  rw [Nat.mod_eq_of_lt hend, stringLoop_newline hp (by omega) (by omega), Nat.succ_mul,
    Nat.add_assoc]

/-! ## Texts -/

/-- What is left of a text is split behind a line. -/
lemma exists_line {ts : List Nat} {c : Nat} (h : c < ts.length) :
    ∃ a q b, ts = a ++ q :: b ∧ a.length = c := by
  refine ⟨ts.take c, ts[c], ts.drop (c + 1), ?_, List.length_take_of_le h.le⟩
  rw [List.getElem_cons_drop, List.take_append_drop]

lemma take_line {a b : List Nat} {c : Nat} (ha : a.length = c) (n : Nat) :
    (a ++ b).take (c * (n + 1)) = a ++ b.take (c * n) := by
  rw [← ha, Nat.mul_succ, Nat.add_comm, List.take_length_add_append]

/-- A text that ends on its line. -/
lemma boxLoop_short (h : Sizes x y width height size) {row : Nat} {ts : List Nat}
    (hts : ∀ p ∈ ts, printable p = true) (hshort : ts.length ≤ ceilDiv width (size / 2))
    (hrow : row < ceilDiv height size) :
    boxLoop x y width height size ts row = ts.mapIdx (lineCell x y width size row) := by
  have hloop := boxLoop_row (b := []) h hts hshort hrow
  rwa [List.append_nil, stringLoop, List.append_nil, lineCell_row hshort] at hloop

/-- A text that goes on behind its line. -/
lemma boxLoop_long (h : Sizes x y width height size) (hwidth : 0 < width) {row : Nat}
    {a b : List Nat} {q : Nat} (hts : ∀ p ∈ a ++ q :: b, printable p = true)
    (ha : a.length = ceilDiv width (size / 2)) (hrow : row < ceilDiv height size)
    (hend : x + ceilDiv width (size / 2) * (size / 2) < 2 ^ 16) :
    boxLoop x y width height size (a ++ q :: b) row =
      a.mapIdx (lineCell x y width size row) ++
        if y + height ≤ (y + (row + 1) * size) % 2 ^ 16 then []
        else stringLoop size (x + width) (y + height) (x % 2 ^ 8) (q :: b) (x % 2 ^ 8)
          ((y + (row + 1) * size) % 2 ^ 16) := by
  rw [boxLoop_row h (fun p hp => hts p (List.mem_append_left _ hp)) ha.le hrow, lineCell_row ha.le,
    ha, boxLoop_newline h (hts q (by simp)) hwidth hend]

/-- A line that is not the last one is followed by the next one in the same column. -/
lemma boxLoop_next (h : Sizes x y width height size) (hwidth : 0 < width) {row : Nat}
    {a b : List Nat} {q : Nat} (hts : ∀ p ∈ a ++ q :: b, printable p = true)
    (ha : a.length = ceilDiv width (size / 2)) (hrow : row + 1 < ceilDiv height size)
    (hend : x + ceilDiv width (size / 2) * (size / 2) < 2 ^ 16) (hcol : x < 2 ^ 8) :
    boxLoop x y width height size (a ++ q :: b) row =
      a.mapIdx (lineCell x y width size row) ++
        boxLoop x y width height size (q :: b) (row + 1) := by
  have hsize := h.range
  have hbottom := h.bottom
  have hin := (lt_ceilDiv (show 0 < size by omega)).1 hrow
  rw [boxLoop_long h hwidth hts ha (by omega) hend, Nat.mod_eq_of_lt hcol,
    Nat.mod_eq_of_lt (show y + (row + 1) * size < 2 ^ 16 by omega), if_neg (by omega), boxLoop,
    Nat.mod_eq_of_lt hcol]

/-- The lines of a box, from one of them on, get the characters of their cells. -/
lemma boxLoop_eq (h : Sizes x y width height size) (hwidth : 0 < width) {n row : Nat}
    {ts : List Nat} (hts : ∀ p ∈ ts, printable p = true) (hn : row + (n + 1) = ceilDiv height size)
    (hx : ceilDiv width (size / 2) < ts.length →
      x + ceilDiv width (size / 2) * (size / 2) < 2 ^ 16 ∧ (0 < n → x < 2 ^ 8))
    (hy : ceilDiv width (size / 2) * (n + 1) < ts.length →
      y + ceilDiv height size * size < 2 ^ 16) :
    boxLoop x y width height size ts row =
      (ts.take (ceilDiv width (size / 2) * (n + 1))).mapIdx (lineCell x y width size row) := by
  have hsize := h.range
  have hc : 0 < ceilDiv width (size / 2) := (lt_ceilDiv h.half_pos).2 (by omega)
  have hl := @le_ceilDiv_mul height size (by omega)
  induction n generalizing row ts with
  | zero =>
    rcases Nat.lt_or_ge (ceilDiv width (size / 2)) ts.length with hlong | hshort
    · obtain ⟨a, q, b, rfl, ha⟩ := exists_line hlong
      have hlow := hy (by rwa [Nat.zero_add, Nat.mul_one])
      rw [boxLoop_long h hwidth hts ha (by omega) (hx hlong).1,
        show row + 1 = ceilDiv height size by omega, Nat.mod_eq_of_lt hlow, if_pos (by omega),
        List.append_nil, Nat.zero_add, Nat.mul_one, ← ha, List.take_left]
    · rw [boxLoop_short h hts hshort (by omega), Nat.zero_add, Nat.mul_one,
        List.take_of_length_le hshort]
  | succ n ih =>
    rcases Nat.lt_or_ge (ceilDiv width (size / 2)) ts.length with hlong | hshort
    · obtain ⟨a, q, b, rfl, ha⟩ := exists_line hlong
      obtain ⟨hend, hcol⟩ := hx hlong
      have hcol' := hcol (Nat.succ_pos n)
      rw [boxLoop_next h hwidth hts ha (by omega) hend hcol',
        ih (fun p hp => hts p (List.mem_append_right _ hp)) (by omega)
          (fun _ => ⟨hend, fun _ => hcol'⟩) fun hleft => hy (by
            rw [List.length_append, ha, Nat.mul_succ]
            omega),
        ← lineCell_next ha hc, take_line ha (n + 1)]
    · have hall : ts.length ≤ ceilDiv width (size / 2) * (n + 1 + 1) := by
        rw [Nat.mul_succ]
        omega
      rw [boxLoop_short h hts hshort (by omega), List.take_of_length_le hall]

/-! ## Beyond 16 bits -/

/-- A character that is shown at once. -/
lemma stringLoop_cons {q : Nat} {b : List Nat} (hq : printable q = true) (hx : x < width)
    (hy : y < height) :
    stringLoop size width height x0 (q :: b) x y =
      ⟨x, y, q, size, 0⟩ ::
        stringLoop size width height x0 b ((x + size / 2) % 2 ^ 16) y := by
  rw [stringLoop, if_pos hq]
  simp only [if_neg (Nat.not_le.2 hx), if_neg (Nat.not_le.2 hy)]

/-- In a box that gets what it should, the cell behind the first line begins the second. -/
lemma cell_of_eq {ts : List Nat} {pre rest : List Cell} {z : Cell}
    (hc : 0 < ceilDiv width (size / 2)) (hpre : pre.length = ceilDiv width (size / 2))
    (h : pre ++ z :: rest = ts.mapIdx (lineCell x y width size 0)) : z.x = x ∧ z.y = y + size := by
  have hcell := congrArg (fun cells => cells[ceilDiv width (size / 2)]?) h
  simp only [← hpre, List.getElem?_append_right (Nat.le_refl _), Nat.sub_self,
    List.getElem?_cons_zero, List.getElem?_mapIdx] at hcell
  obtain ⟨q, -, rfl⟩ := Option.map_eq_some_iff.1 hcell.symm
  simp only [lineCell, hpre, Nat.mod_self, Nat.div_self hc]
  omega

/-- A line whose end is beyond 16 bits is not followed by the next one. -/
lemma not_right_of_end (h : Sizes x y width height size) (hheight : 0 < height) {ts us : List Nat}
    (hts : ∀ p ∈ ts, printable p = true) (hlong : ceilDiv width (size / 2) < ts.length)
    (hwidth : 0 < width) (hend : 2 ^ 16 ≤ x + ceilDiv width (size / 2) * (size / 2)) :
    boxLoop x y width height size ts 0 ≠ us.mapIdx (lineCell x y width size 0) := by
  intro heq
  have hsize := h.range
  have hright := h.right
  have hc : 0 < ceilDiv width (size / 2) := (lt_ceilDiv h.half_pos).2 (by omega)
  have hlast := (lt_ceilDiv h.half_pos).1 (show ceilDiv width (size / 2) - 1 <
    ceilDiv width (size / 2) by omega)
  rw [Nat.sub_mul, Nat.one_mul] at hlast
  obtain ⟨a, q, b, rfl, ha⟩ := exists_line hlong
  rw [boxLoop_row h (fun p hp => hts p (List.mem_append_left _ hp)) ha.le
    ((lt_ceilDiv (by omega)).2 (by omega)), ha,
    stringLoop_cons (hts q (by simp)) (by omega) (by omega)] at heq
  have hcell := (cell_of_eq hc (by rw [List.length_mapIdx, ha]) heq).2
  simp only at hcell
  omega

/-- A second line does not begin beyond 8 bits. -/
lemma not_right_of_column (h : Sizes x y width height size) {ts us : List Nat}
    (hts : ∀ p ∈ ts, printable p = true) (hlong : ceilDiv width (size / 2) < ts.length)
    (hwidth : 0 < width) (hend : x + ceilDiv width (size / 2) * (size / 2) < 2 ^ 16)
    (hlines : 1 < ceilDiv height size) (hcol : 2 ^ 8 ≤ x) :
    boxLoop x y width height size ts 0 ≠ us.mapIdx (lineCell x y width size 0) := by
  intro heq
  have hsize := h.range
  have hbottom := h.bottom
  have hc : 0 < ceilDiv width (size / 2) := (lt_ceilDiv h.half_pos).2 (by omega)
  have hin := (lt_ceilDiv (show 0 < size by omega)).1 hlines
  obtain ⟨a, q, b, rfl, ha⟩ := exists_line hlong
  rw [boxLoop_long h hwidth hts ha (by omega) hend, Nat.zero_add,
    Nat.mod_eq_of_lt (show y + 1 * size < 2 ^ 16 by omega), if_neg (by omega),
    stringLoop_cons (hts q (by simp)) (by omega) (by omega)] at heq
  have hcell := (cell_of_eq hc (by rw [List.length_mapIdx, ha]) heq).1
  simp only at hcell
  omega

/-- A text that gets to a lower end beyond 16 bits goes on above the box. -/
lemma boxLoop_wraps (h : Sizes x y width height size) (hwidth : 0 < width) (hheight : 0 < height)
    (hend : x + ceilDiv width (size / 2) * (size / 2) < 2 ^ 16)
    (hlow : 2 ^ 16 ≤ y + ceilDiv height size * size) {n row : Nat} {ts : List Nat}
    (hts : ∀ p ∈ ts, printable p = true) (hn : row + (n + 1) = ceilDiv height size)
    (hcol : 0 < n → x < 2 ^ 8) (hlong : ceilDiv width (size / 2) * (n + 1) < ts.length) :
    ceilDiv width (size / 2) * (n + 1) < (boxLoop x y width height size ts row).length := by
  have hsize := h.range
  have hbottom := h.bottom
  have hfirst : ceilDiv width (size / 2) < ts.length := by
    rw [Nat.mul_succ] at hlong
    omega
  induction n generalizing row ts with
  | zero =>
    have hlast := (lt_ceilDiv (show 0 < size by omega)).1
      (show ceilDiv height size - 1 < ceilDiv height size by omega)
    rw [Nat.sub_mul, Nat.one_mul] at hlast
    obtain ⟨a, q, b, rfl, ha⟩ := exists_line hfirst
    rw [boxLoop_long h hwidth hts ha (by omega) hend, show row + 1 = ceilDiv height size by omega,
      if_neg (by omega), stringLoop_cons (hts q (by simp)) (by omega) (by omega)]
    simp [ha]
  | succ n ih =>
    obtain ⟨a, q, b, rfl, ha⟩ := exists_line hfirst
    have hleft : ceilDiv width (size / 2) * (n + 1) < (q :: b).length := by
      rw [List.length_append, ha, Nat.mul_succ] at hlong
      omega
    have hfirst' : ceilDiv width (size / 2) < (q :: b).length := by
      rw [Nat.mul_succ] at hleft
      omega
    have hrest := @ih (row + 1) (q :: b) (fun p hp => hts p (List.mem_append_right _ hp))
      (by omega) (fun _ => hcol (Nat.succ_pos n)) hleft hfirst'
    rw [boxLoop_next h hwidth hts ha (by omega) hend (hcol (Nat.succ_pos n)), List.length_append,
      List.length_mapIdx, ha, Nat.mul_succ]
    omega

/-! ## Strings -/

lemma text_printable (p : List Nat) : ∀ q ∈ text p, printable q = true :=
  List.all_eq_true.1 List.all_takeWhile

/-- A string is shown as the loop in its box shows its text. -/
lemma right_iff_boxLoop (h : Sizes x y width height size) (p : List Nat) :
    Right x y width height size p ↔ boxLoop x y width height size (text p) 0 =
      ((text p).take (ceilDiv width (size / 2) * ceilDiv height size)).mapIdx
        (lineCell x y width size 0) := by
  have hright := h.right
  have hbottom := h.bottom
  have hcell : boxCell x y width size = lineCell x y width size 0 := by
    funext i q
    rw [boxCell, lineCell, Nat.zero_add]
  rw [Right, lcdShowString, stringLoop_text, hcell, boxLoop, Nat.zero_mul, Nat.add_zero,
    Nat.mod_eq_of_lt (show width + x < 2 ^ 16 by omega),
    Nat.mod_eq_of_lt (show height + y < 2 ^ 16 by omega), Nat.add_comm width, Nat.add_comm height]

/-- A box without columns. -/
lemma right_iff_of_width (h : Sizes x y 0 height size) (p : List Nat) :
    Right x y 0 height size p ↔ (text p).length = 0 ∨ y + size < 2 ^ 16 ∧ height ≤ size := by
  have hsize := h.range
  have hbottom := h.bottom
  have hzero : ceilDiv 0 (size / 2) = 0 := Nat.div_eq_of_lt (by omega)
  rw [right_iff_boxLoop h, hzero, Nat.zero_mul, List.take_zero, List.mapIdx_nil, boxLoop]
  have hts := text_printable p
  cases htext : text p with
  | nil => simp [stringLoop]
  | cons q b =>
    rw [htext] at hts
    rw [stringLoop, if_pos (hts q List.mem_cons_self)]
    simp only [Nat.add_zero, Nat.le_refl, if_true, Nat.zero_mul, List.length_cons,
      Nat.succ_ne_zero, false_or]
    split
    · exact iff_of_true rfl (by omega)
    · exact iff_of_false (by simp) (by omega)

/-- A box without rows. -/
lemma right_of_height (h : Sizes x y width 0 size) (hwidth : 0 < width) (p : List Nat) :
    Right x y width 0 size p := by
  have hsize := h.range
  have hzero : ceilDiv 0 size = 0 := Nat.div_eq_of_lt (by omega)
  rw [right_iff_boxLoop h, hzero, Nat.mul_zero, List.take_zero, List.mapIdx_nil, boxLoop]
  have hts := text_printable p
  cases htext : text p with
  | nil => rfl
  | cons q b =>
    rw [htext] at hts
    rw [stringLoop, if_pos (hts q List.mem_cons_self)]
    simp only [if_neg (Nat.not_le.2 (show x < x + width by omega)), Nat.zero_mul, Nat.add_zero,
      Nat.le_refl, if_true]

/-- A box with columns and rows. -/
lemma right_iff_of_pos (h : Sizes x y width height size) (hwidth : 0 < width) (hheight : 0 < height)
    (p : List Nat) :
    Right x y width height size p ↔
      (text p).length ≤ ceilDiv width (size / 2) ∨
        x + ceilDiv width (size / 2) * (size / 2) < 2 ^ 16 ∧
          (ceilDiv height size = 1 ∨ x < 2 ^ 8) ∧
          ((text p).length ≤ ceilDiv width (size / 2) * ceilDiv height size ∨
            y + ceilDiv height size * size < 2 ^ 16) := by
  have hsize := h.range
  have hts := text_printable p
  have hl : 0 < ceilDiv height size := (lt_ceilDiv (by omega)).2 (by omega)
  obtain ⟨n, hn⟩ : ∃ n, ceilDiv height size = n + 1 := ⟨ceilDiv height size - 1, by omega⟩
  rw [right_iff_boxLoop h]
  constructor
  · intro heq
    by_contra hnot
    rw [not_or, Nat.not_le] at hnot
    obtain ⟨hlong, hnot⟩ := hnot
    by_cases hend : x + ceilDiv width (size / 2) * (size / 2) < 2 ^ 16
    case neg => exact not_right_of_end h hheight hts hlong hwidth (Nat.le_of_not_lt hend) heq
    by_cases hcol : ceilDiv height size = 1 ∨ x < 2 ^ 8
    case neg => exact not_right_of_column h hts hlong hwidth hend (by omega) (by omega) heq
    -- the text gets to the lower end, which wraps
    have hlow : ceilDiv width (size / 2) * (n + 1) < (text p).length ∧
        2 ^ 16 ≤ y + ceilDiv height size * size := by
      rw [← hn]
      by_contra hfits
      exact hnot ⟨hend, hcol, by omega⟩
    have hwraps := boxLoop_wraps h hwidth hheight hend hlow.2 hts
      (show 0 + (n + 1) = ceilDiv height size by omega) (by omega) hlow.1
    rw [heq, List.length_mapIdx, List.length_take, hn] at hwraps
    omega
  · intro hlaid
    have hmul : ceilDiv width (size / 2) ≤ ceilDiv width (size / 2) * (n + 1) :=
      Nat.le_mul_of_pos_right _ (Nat.succ_pos n)
    rw [hn] at hlaid ⊢
    refine boxLoop_eq h hwidth hts (by omega) (fun hlong => ?_) fun hlong => ?_
    · omega
    · rw [hn]
      omega

/--
A string is laid out in its box exactly where it fits on the first line or the box is empty, or no
end of a line or of the box wraps and its lines begin in 8 bits. A character that begins on the
screen is always drawn on it.
-/
theorem lcdShowString_right_iff {x y width height size : Nat} (p : List Nat)
    (h : Sizes x y width height size) :
    (Right x y width height size p ↔ Laid x y width height size (text p).length) ∧
    ∀ (lcd : TftLcd) (font : Nat → Nat → Nat → Nat) (c : Cell), Visible lcd c.x c.y →
      ∀ d ∈ lcdShowChar lcd font c, Visible lcd d.x d.y := by
  refine ⟨?_, fun lcd font c h => lcdShowChar_visible font h⟩
  rw [Laid]
  rcases Nat.eq_zero_or_pos width with rfl | hwidth
  · have hsize := h.range
    have hzero : ceilDiv 0 (size / 2) = 0 := Nat.div_eq_of_lt (by omega)
    rw [right_iff_of_width h, hzero]
    omega
  · rcases Nat.eq_zero_or_pos height with rfl | hheight
    · exact iff_of_true (right_of_height h hwidth p) (.inr (.inl ⟨hwidth, rfl⟩))
    · rw [right_iff_of_pos h hwidth hheight]
      simp only [hwidth, hheight, hheight.ne', hwidth.ne', true_and, and_false, false_or,
        false_and, or_false]

/-- Two letters in a box of two columns, and a dot of the first one. -/
theorem lcdShowString_right_iff_two :
    (Right 10 20 16 16 16 [65, 66, 0] ↔ Laid 10 20 16 16 16 (text [65, 66, 0]).length) ∧
    ∀ d ∈ lcdShowChar Lcd.small (fun _ _ _ => 0xFF) ⟨7, 3, 65, 16, 0⟩, Visible Lcd.small d.x d.y :=
  (lcdShowString_right_iff [65, 66, 0] ⟨by decide, by decide, by decide⟩).imp_right fun visible =>
    visible Lcd.small _ ⟨7, 3, 65, 16, 0⟩ ⟨by decide, by decide⟩

/-- A second line of a box at column 256 begins at column 0. -/
theorem lcdShowString_not_right :
    ¬ ∀ x y width height size p, Sizes x y width height size → Right x y width height size p := by
  intro h
  have hright := h 256 0 8 32 16 [65, 66] ⟨by decide, by decide, by decide⟩
  exact absurd hright (by decide)

end Imx.Bsp.Text
