import Imx.Base.Fuel
import Mathlib.Tactic.Linarith
import Mathlib.Tactic.Ring

/-!
# Lines on the screen of the bare-metal board

Model of `lcd_draw_line` of `bsp/lcd/lcdapi.c`. All variables of the function are `uint32_t`, the
counter of its loop `u16`, and a point is cut to 16 bits where it is drawn. The increments are
unsigned, so that a line can only go right and down; the loop is run with a count of the turns it
may take.
-/

namespace Imx.Bsp.Line

open Imx.Base

/-- A point that is drawn. -/
abbrev Point := Nat × Nat

/-- What stays the same in the loop. -/
structure Slope where
  distance : Nat
  deltaX : Nat
  deltaY : Nat
  incx : Nat
  incy : Nat
deriving DecidableEq

/-- What the loop changes. -/
structure Cursor where
  t : Nat
  xerr : Nat
  yerr : Nat
  uRow : Nat
  uCol : Nat
deriving DecidableEq

/-- The direction of one coordinate, and how far it goes. -/
def direction (delta : Nat) : Nat × Nat :=
  if 0 < delta then (1, delta)
  else if delta = 0 then (0, delta)
  else (2 ^ 32 - 1, (2 ^ 32 - delta) % 2 ^ 32)

/-- The accumulator and the coordinate of one axis behind a turn. -/
def advance (distance delta inc err pos : Nat) : Nat × Nat :=
  let err := (err + delta) % 2 ^ 32
  if distance < err then (err - distance, (pos + inc) % 2 ^ 32) else (err, pos)

/-- The body of the loop behind the point it draws. -/
def next (l : Slope) (s : Cursor) : Cursor :=
  let (xerr, uRow) := advance l.distance l.deltaX l.incx s.xerr s.uRow
  let (yerr, uCol) := advance l.distance l.deltaY l.incy s.yerr s.uCol
  { t := (s.t + 1) % 2 ^ 16, xerr, yerr, uRow, uCol }

def point (s : Cursor) : Point := (s.uRow % 2 ^ 16, s.uCol % 2 ^ 16)

def lineLoop (l : Slope) : (turns : Nat) → Cursor → Option (List Point)
  | 0, _ => none
  | turns + 1, s =>
    if s.t ≤ (l.distance + 1) % 2 ^ 32 then (lineLoop l turns (next l s)).map (point s :: ·)
    else some []

def slope (x1 y1 x2 y2 : Nat) : Slope :=
  let (incx, deltaX) := direction ((2 ^ 32 + x2 - x1) % 2 ^ 32)
  let (incy, deltaY) := direction ((2 ^ 32 + y2 - y1) % 2 ^ 32)
  { distance := if deltaY < deltaX then deltaX else deltaY, deltaX, deltaY, incx, incy }

def lcdDrawLine (x1 y1 x2 y2 turns : Nat) : Option (List Point) :=
  lineLoop (slope x1 y1 x2 y2) turns { t := 0, xerr := 0, yerr := 0, uRow := x1, uCol := y1 }

/-! ## Connected paths -/

/-- Between two numbers. -/
def Between (a b c : Nat) : Prop := min a b ≤ c ∧ c ≤ max a b

/-- At most one apart. -/
def Near (a b : Nat) : Prop := a ≤ b + 1 ∧ b ≤ a + 1

/-- The line ends, and what it draws is a connected path between its endpoints. -/
structure Path (x1 y1 x2 y2 : Nat) (ps : List Point) : Prop where
  box : ∀ p ∈ ps, Between x1 x2 p.1 ∧ Between y1 y2 p.2
  first : ps.head? = some (x1, y1)
  last : ps.getLast? = some (x2, y2)
  connected : ∀ i p q, ps[i]? = some p → ps[i + 1]? = some q → Near p.1 q.1 ∧ Near p.2 q.2

def Right (x1 y1 x2 y2 : Nat) : Prop :=
  ∃ ps, Gives (lcdDrawLine x1 y1 x2 y2) ps ∧ Path x1 y1 x2 y2 ps

/-- The line goes right and down, and not too far. -/
def Forward (x1 y1 x2 y2 : Nat) : Prop :=
  x1 ≤ x2 ∧ y1 ≤ y2 ∧ x2 - x1 < 65534 ∧ y2 - y1 < 65534

/-! ## One axis -/

/--
What an axis has accumulated after `t` turns, `k` of which were steps: the rest is what is left of
the `t`-fold of its length, and from the first turn on it is not 0. An axis without a length stands
still.
-/
structure Axis (D d t err k : Nat) : Prop where
  sum : err + D * k = t * d
  le : err ≤ D
  pos : 0 < d → 0 < t → 0 < err
  still : d = 0 → k = 0

variable {D d t err k : Nat}

lemma Axis.zero (D d : Nat) : Axis D d 0 0 0 :=
  ⟨by simp, Nat.zero_le D, fun _ h => absurd h (by omega), fun _ => rfl⟩

/-- A turn of an axis steps once or not. -/
lemma Axis.advance (h : Axis D d t err k) (hd : d ≤ D) (hD : D < 2 ^ 16) {p inc : Nat}
    (hp : p + k + 1 < 2 ^ 32) (hinc : 0 < d → inc = 1) :
    ∃ err' k', advance D d inc err (p + k) = (err', p + k') ∧ Axis D d (t + 1) err' k' ∧
      k ≤ k' ∧ k' ≤ k + 1 := by
  obtain ⟨hsum, hle, hpos, hstill⟩ := h
  rw [Line.advance, Nat.mod_eq_of_lt (show err + d < 2 ^ 32 by omega)]
  by_cases hstep : D < err + d
  · have hinc1 : inc = 1 := hinc (by omega)
    refine ⟨err + d - D, k + 1, ?_, ⟨?_, by omega, fun _ _ => by omega, fun h0 => by omega⟩,
      by omega, Nat.le_refl _⟩
    · simp only [if_pos hstep, hinc1]
      rw [Nat.mod_eq_of_lt (by omega), Nat.add_assoc]
    · rw [Nat.mul_succ, Nat.succ_mul, ← hsum]
      omega
  · refine ⟨err + d, k, ?_, ⟨?_, by omega, fun _ _ => by omega, hstill⟩, Nat.le_refl _, by omega⟩
    · simp only [if_neg hstep]
    · rw [Nat.succ_mul, ← hsum]
      omega

/-- No axis gets beyond its end. -/
lemma Axis.steps_le (h : Axis D d t err k) (hd : d ≤ D) (ht : t ≤ D + 1) : k ≤ d := by
  obtain ⟨hsum, hle, hpos, hstill⟩ := h
  rcases Nat.eq_zero_or_pos d with hd0 | hdpos
  · exact (hstill hd0).le.trans (Nat.zero_le d)
  · by_contra hk
    have hmul : D * (d + 1) ≤ D * k := Nat.mul_le_mul_left D (by omega)
    have htd : t * d ≤ (D + 1) * d := Nat.mul_le_mul_right d ht
    rw [Nat.mul_succ] at hmul
    rw [Nat.succ_mul] at htd
    rcases Nat.eq_zero_or_pos t with rfl | htpos
    · omega
    · have := hpos hdpos htpos
      omega

/-- After the last turn that draws, every axis is at its end. -/
lemma Axis.steps_eq (h : Axis D d (D + 1) err k) (hd : d ≤ D) : k = d := by
  have hle := h.steps_le hd (Nat.le_refl _)
  obtain ⟨hsum, herr, hpos, hstill⟩ := h
  rcases Nat.eq_zero_or_pos d with hd0 | hdpos
  · rw [hstill hd0, hd0]
  · by_contra hk
    have hmul : D * (k + 1) ≤ D * d := Nat.mul_le_mul_left D (by omega)
    rw [Nat.mul_succ] at hmul
    rw [Nat.succ_mul] at hsum
    omega

/-! ## A line right and down -/

variable {l : Slope} {x1 y1 x2 y2 : Nat}

/-- The variables at the start of the loop. -/
def start (x1 y1 : Nat) : Cursor := { t := 0, xerr := 0, yerr := 0, uRow := x1, uCol := y1 }

lemma direction_snd (delta : Nat) : (direction delta).2 = delta := by
  rw [direction]
  split
  · rfl
  · split
    · rfl
    · omega

lemma direction_fst {delta : Nat} (h : 0 < delta) : (direction delta).1 = 1 := by
  rw [direction, if_pos h]

lemma slope_deltaX : (slope x1 y1 x2 y2).deltaX = (2 ^ 32 + x2 - x1) % 2 ^ 32 := direction_snd _

lemma slope_deltaY : (slope x1 y1 x2 y2).deltaY = (2 ^ 32 + y2 - y1) % 2 ^ 32 := direction_snd _

lemma slope_distance : (slope x1 y1 x2 y2).distance =
    max ((2 ^ 32 + x2 - x1) % 2 ^ 32) ((2 ^ 32 + y2 - y1) % 2 ^ 32) := by
  rw [← @slope_deltaX x1 y1 x2 y2, ← @slope_deltaY x1 y1 x2 y2]
  simp only [slope]
  split <;> omega

/-- What the slope of a line right and down is. -/
structure Steep (l : Slope) (x1 y1 x2 y2 : Nat) : Prop where
  deltaX : l.deltaX = x2 - x1
  deltaY : l.deltaY = y2 - y1
  leX : l.deltaX ≤ l.distance
  leY : l.deltaY ≤ l.distance
  incx : 0 < l.deltaX → l.incx = 1
  incy : 0 < l.deltaY → l.incy = 1
  short : l.distance < 65534

lemma steep_of_forward (h : Forward x1 y1 x2 y2) :
    Steep (slope x1 y1 x2 y2) x1 y1 x2 y2 := by
  obtain ⟨hx, hy, hdx, hdy⟩ := h
  have hdX : (2 ^ 32 + x2 - x1) % 2 ^ 32 = x2 - x1 := by omega
  have hdY : (2 ^ 32 + y2 - y1) % 2 ^ 32 = y2 - y1 := by omega
  refine ⟨slope_deltaX.trans hdX, slope_deltaY.trans hdY, ?_, ?_, fun hpos => ?_,
    fun hpos => ?_, ?_⟩
  · rw [slope_deltaX, slope_distance]
    exact le_max_left _ _
  · rw [slope_deltaY, slope_distance]
    exact le_max_right _ _
  · rw [slope_deltaX] at hpos
    exact direction_fst hpos
  · rw [slope_deltaY] at hpos
    exact direction_fst hpos
  · rw [slope_distance, hdX, hdY]
    omega

/-- Where the cursor is after `t` turns, `i` steps right and `j` down. -/
structure At (l : Slope) (x1 y1 t : Nat) (s : Cursor) (i j : Nat) : Prop where
  uRow : s.uRow = x1 + i
  uCol : s.uCol = y1 + j
  right : Axis l.distance l.deltaX t s.xerr i
  down : Axis l.distance l.deltaY t s.yerr j

/-- A turn takes each coordinate a step or not. -/
lemma At.next {s : Cursor} {i j : Nat} (h : At l x1 y1 t s i j) (hl : Steep l x1 y1 x2 y2)
    (h1 : x1 < 2 ^ 16 ∧ y1 < 2 ^ 16) (h2 : x2 < 2 ^ 16 ∧ y2 < 2 ^ 16) (ht : t ≤ l.distance + 1) :
    ∃ i' j', At l x1 y1 (t + 1) (next l s) i' j' ∧ i ≤ i' ∧ i' ≤ i + 1 ∧ j ≤ j' ∧ j' ≤ j + 1 := by
  have hi := h.right.steps_le hl.leX ht
  have hj := h.down.steps_le hl.leY ht
  have hX := hl.deltaX
  have hY := hl.deltaY
  have hD := hl.short
  obtain ⟨xerr, i', hx, hright, hi0, hi1⟩ :=
    h.right.advance hl.leX (by omega) (p := x1) (by omega) hl.incx
  obtain ⟨yerr, j', hy, hdown, hj0, hj1⟩ :=
    h.down.advance hl.leY (by omega) (p := y1) (by omega) hl.incy
  refine ⟨i', j', ?_, hi0, hi1, hj0, hj1⟩
  simp only [Line.next, h.uRow, h.uCol, hx, hy]
  exact ⟨rfl, rfl, hright, hdown⟩

/-- The cursor of every turn that draws. -/
lemma exists_at (hl : Steep l x1 y1 x2 y2) (h1 : x1 < 2 ^ 16 ∧ y1 < 2 ^ 16)
    (h2 : x2 < 2 ^ 16 ∧ y2 < 2 ^ 16) (ht : t ≤ l.distance + 1) :
    ∃ i j, At l x1 y1 t ((next l)^[t] (start x1 y1)) i j := by
  induction t with
  | zero => exact ⟨0, 0, rfl, rfl, Axis.zero _ _, Axis.zero _ _⟩
  | succ t ih =>
    obtain ⟨i, j, hat⟩ := ih (by omega)
    obtain ⟨i', j', hat', -⟩ := hat.next hl h1 h2 (by omega)
    rw [Function.iterate_succ_apply']
    exact ⟨i', j', hat'⟩

/-- The point drawn at a cursor. -/
lemma At.point {s : Cursor} {i j : Nat} (h : At l x1 y1 t s i j) (hl : Steep l x1 y1 x2 y2)
    (h2 : x2 < 2 ^ 16 ∧ y2 < 2 ^ 16) (hxy : x1 ≤ x2 ∧ y1 ≤ y2) (ht : t ≤ l.distance + 1) :
    point s = (x1 + i, y1 + j) ∧ x1 + i ≤ x2 ∧ y1 + j ≤ y2 := by
  have hi := h.right.steps_le hl.leX ht
  have hj := h.down.steps_le hl.leY ht
  have hX := hl.deltaX
  have hY := hl.deltaY
  rw [Line.point, h.uRow, h.uCol, Nat.mod_eq_of_lt (by omega), Nat.mod_eq_of_lt (by omega)]
  exact ⟨rfl, by omega, by omega⟩

/-- The points of a line. -/
def points (l : Slope) (s : Cursor) (n : Nat) : List Point :=
  (List.range n).map fun t => point ((next l)^[t] s)

/-- A loop that ends draws a point in each turn. -/
lemma lineLoop_gives (n : Nat) {s : Cursor} (hs : s.t + n = l.distance + 2)
    (hl : l.distance < 65534) : Gives (fun turns => lineLoop l turns s) (points l s n) := by
  have hbound : (l.distance + 1) % 2 ^ 32 = l.distance + 1 := Nat.mod_eq_of_lt (by omega)
  induction n generalizing s with
  | zero =>
    refine gives_of_succ fun k => ?_
    rw [lineLoop, hbound, if_neg (by omega)]
    rfl
  | succ n ih =>
    have ht : (next l s).t = s.t + 1 := Nat.mod_eq_of_lt (by omega)
    have hrest := ih (s := next l s) (by omega)
    have hpoints : points l s (n + 1) = point s :: points l (next l s) n := by
      rw [points, points, List.range_succ_eq_map, List.map_cons, List.map_map]
      rfl
    rw [hpoints]
    refine Gives.succ (hrest.map (point s :: ·)) fun k => ?_
    rw [lineLoop, hbound, if_pos (by omega)]

/-- A loop whose counter does not get beyond its bound does not end. -/
lemma lineLoop_none (hl : 65535 ≤ (l.distance + 1) % 2 ^ 32) {s : Cursor} (hs : s.t < 2 ^ 16)
    (turns : Nat) : lineLoop l turns s = none := by
  induction turns generalizing s with
  | zero => rfl
  | succ turns ih =>
    rw [lineLoop, if_pos (by omega), ih (Nat.mod_lt _ (by decide))]
    rfl

/-- The points of a line right and down are a path. -/
lemma points_path (hl : Steep l x1 y1 x2 y2) (h1 : x1 < 2 ^ 16 ∧ y1 < 2 ^ 16)
    (h2 : x2 < 2 ^ 16 ∧ y2 < 2 ^ 16) (hxy : x1 ≤ x2 ∧ y1 ≤ y2) :
    Path x1 y1 x2 y2 (points l (start x1 y1) (l.distance + 2)) := by
  have hat := fun t ht => @exists_at t l x1 y1 x2 y2 hl h1 h2 ht
  constructor
  case box =>
    intro p hp
    obtain ⟨t, ht, rfl⟩ := List.mem_map.1 hp
    rw [List.mem_range] at ht
    obtain ⟨i, j, h⟩ := hat t (by omega)
    obtain ⟨hpoint, hi, hj⟩ := h.point hl h2 hxy (by omega)
    rw [hpoint]
    simp only [Between]
    omega
  case first =>
    rw [points, List.range_succ_eq_map, List.map_cons, List.head?_cons]
    simp only [Function.iterate_zero, id_eq, point, start, Nat.mod_eq_of_lt h1.1,
      Nat.mod_eq_of_lt h1.2]
  case last =>
    obtain ⟨i, j, h⟩ := hat (l.distance + 1) (Nat.le_refl _)
    have hi := h.right.steps_eq hl.leX
    have hj := h.down.steps_eq hl.leY
    have hX := hl.deltaX
    have hY := hl.deltaY
    obtain ⟨hpoint, -, -⟩ := h.point hl h2 hxy (Nat.le_refl _)
    rw [points, List.range_succ, List.map_append, List.map_cons, List.map_nil,
      List.getLast?_concat, hpoint]
    rw [show x1 + i = x2 by omega, show y1 + j = y2 by omega]
  case connected =>
    intro t p q hp hq
    simp only [points, List.getElem?_map, Option.map_eq_some_iff] at hp hq
    obtain ⟨t', ht', rfl⟩ := hp
    obtain ⟨u, hu, rfl⟩ := hq
    obtain ⟨ht, rfl⟩ := List.getElem?_eq_some_iff.1 ht'
    obtain ⟨hu', rfl⟩ := List.getElem?_eq_some_iff.1 hu
    rw [List.length_range] at ht hu'
    rw [List.getElem_range, List.getElem_range]
    obtain ⟨i, j, h⟩ := hat t (by omega)
    obtain ⟨i', j', h', hi, hi', hj, hj'⟩ := h.next hl h1 h2 (by omega)
    obtain ⟨hpoint, -, -⟩ := h.point hl h2 hxy (by omega)
    obtain ⟨hpoint', -, -⟩ := h'.point hl h2 hxy (by omega)
    rw [Function.iterate_succ_apply', hpoint, hpoint']
    simp only [Near]
    omega

/-- A line that goes left or up, or too far, is not right. -/
lemma not_right_of_not_forward (h1 : x1 < 2 ^ 16 ∧ y1 < 2 ^ 16) (h2 : x2 < 2 ^ 16 ∧ y2 < 2 ^ 16)
    (h : ¬ Forward x1 y1 x2 y2) : ¬ Right x1 y1 x2 y2 := by
  rintro ⟨ps, hgives, hpath⟩
  obtain ⟨n, hn⟩ := hgives
  have hdist := @slope_distance x1 y1 x2 y2
  by_cases hone : (slope x1 y1 x2 y2).distance = 2 ^ 32 - 1
  · -- one step left or up: the bound is 0, and only the first point is drawn
    have hps : ps = [point (start x1 y1)] := by
      have hrun := hn (n + 2) (by omega)
      rw [lcdDrawLine, lineLoop, hone, if_pos (by simp), lineLoop, hone,
        if_neg (by simp [next])] at hrun
      exact (Option.some.inj hrun).symm
    have hlast := hpath.last
    rw [hps] at hlast
    simp only [List.getLast?_singleton, Option.some.injEq, point, start, Prod.mk.injEq] at hlast
    omega
  · have hnone := hn n (Nat.le_refl n)
    rw [Forward] at h
    rw [lcdDrawLine, lineLoop_none (by omega) (Nat.two_pow_pos 16)] at hnone
    exact absurd hnone (by simp)

/-- A line is right exactly where it goes right and down, and not too far. -/
theorem lcdDrawLine_right_iff {x1 y1 x2 y2 : Nat} (h1 : x1 < 2 ^ 16 ∧ y1 < 2 ^ 16)
    (h2 : x2 < 2 ^ 16 ∧ y2 < 2 ^ 16) : Right x1 y1 x2 y2 ↔ Forward x1 y1 x2 y2 := by
  constructor
  · intro hright
    by_contra hnot
    exact not_right_of_not_forward h1 h2 hnot hright
  · intro h
    have hl := steep_of_forward h
    have hgives := @lineLoop_gives (slope x1 y1 x2 y2) _ (start x1 y1) (Nat.zero_add _) hl.short
    exact ⟨_, hgives, points_path hl h1 h2 ⟨h.1, h.2.1⟩⟩

/-- A line of slope one third. -/
theorem lcdDrawLine_right_iff_third : Right 0 0 3 1 ↔ Forward 0 0 3 1 :=
  lcdDrawLine_right_iff (by decide) (by decide)

/-- A line to the left. -/
theorem lcdDrawLine_not_right :
    ¬ ∀ x1 y1 x2 y2, x1 < 65535 → y1 < 65535 → x2 < 65535 → y2 < 65535 → Right x1 y1 x2 y2 := by
  intro h
  refine @not_right_of_not_forward 2 0 0 0 (by decide) (by decide)
    ?_ (h 2 0 0 0 (by decide) (by decide) (by decide) (by decide))
  rintro ⟨hx, -⟩
  exact absurd hx (by decide)

end Imx.Bsp.Line
