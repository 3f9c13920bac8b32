import Mathlib.Algebra.Order.BigOperators.Group.List
import Mathlib.Algebra.Order.Ring.Int
import Mathlib.Tactic.Common
import Mathlib.Tactic.IntervalCases

/-!
# Dates

Model of `drivers/rtc/date.c`. An `int` is an integer, cut to 32 bits where it is assigned; `w` is
the width of an `unsigned long`. `seconds` counts the seconds of the Gregorian calendar from the
beginning of 1970; both directions of the code compute it and its inverse, as long as it has 31
bits.
-/

namespace Imx.Rtc

structure RtcTime where
  sec : Int
  min : Int
  hour : Int
  mday : Int
  mon : Int
  year : Int
  wday : Int
  yday : Int
  isdst : Int

def secday : Int := 86400

/-- C `STARTOFTIME`. -/
def startoftime : Int := 1970

def leapyear (year : Int) : Bool := year.tmod 4 = 0

def daysInYear (a : Int) : Int := if leapyear a then 366 else 365

def monthDays : List Int := [31, 28, 31, 30, 31, 30, 31, 31, 30, 31, 30, 31]

/-- `MonthOffset`. -/
def monthOffset : List Int := [0, 31, 59, 90, 120, 151, 181, 212, 243, 273, 304, 334]

/-- An assignment to an `int`. -/
def int (x : Int) : Int := Int.bmod x (2 ^ 32)

/-- The weekday is set, where the Gregorian calendar is in use. The error is `-EINVAL`. -/
def rtcCalcWeekday (tm : RtcTime) : Int × RtcTime :=
  if tm.year < 1753 then
    (-22, tm)
  else
    let lastYear := tm.year - 1
    -- Number of leap corrections to apply up to end of last year
    let leapsToDate := lastYear.tdiv 4 - lastYear.tdiv 100 + lastYear.tdiv 400
    let day :=
      if tm.year.tmod 4 = 0 ∧ (tm.year.tmod 100 ≠ 0 ∨ tm.year.tmod 400 = 0) ∧ tm.mon > 2 then 1
      else 0
    let day := day + (lastYear * 365 + leapsToDate + monthOffset.getD (tm.mon - 1).toNat 0 + tm.mday)
    (0, { tm with wday := day.tmod 7 })

/-- Number of years in days. -/
def yearLoop (i day : Int) : Int × Int :=
  if daysInYear i ≤ day then yearLoop (i + 1) (day - daysInYear i) else (i, day)
termination_by day.toNat
decreasing_by
  have pos : 0 < daysInYear i := by
    rw [daysInYear]
    split <;> decide
  omega

/-- Number of months in days left, without a result where the table ends. -/
def monthLoop : List Int → Int → Int → Option (Int × Int)
  | [], _, _ => none
  | days :: months, i, day => if days ≤ day then monthLoop months (i + 1) (day - days) else some (i, day)

def rtcToTm (tim : Int) : Option (Int × RtcTime) :=
  let day := tim.tdiv secday
  let hms := tim.tmod secday
  let (year, day) := yearLoop startoftime day
  let months := if leapyear year then monthDays.set 1 29 else monthDays
  match monthLoop months 1 day with
  | none => none
  | some (mon, day) =>
    some (rtcCalcWeekday {
      hour := hms.tdiv 3600
      min := (hms.tmod 3600).tdiv 60
      sec := (hms.tmod 3600).tmod 60
      year := year
      mon := mon
      mday := day + 1
      wday := 0
      yday := 0
      isdst := 0 })

/-- Gauss: the year begins with March. -/
def rtcMktime (w : Nat) (tm : RtcTime) : Int :=
  let (mon, year) := if 0 ≥ tm.mon - 2 then (tm.mon - 2 + 12, tm.year - 1) else (tm.mon - 2, tm.year)
  let days := int (((year.tdiv 4 - year.tdiv 100 + year.tdiv 400 + (367 * mon).tdiv 12 + tm.mday) +
    year * 365 - 719499) % 2 ^ w)
  let hours := int (days * 24 + tm.hour)
  int ((hours * 60 + tm.min) * 60 + tm.sec) % 2 ^ w

/-! ## The calendar -/

/-- A leap year of the Gregorian calendar. -/
def IsLeap (year : Int) : Prop := year % 4 = 0 ∧ (year % 100 ≠ 0 ∨ year % 400 = 0)

instance (year : Int) : Decidable (IsLeap year) := inferInstanceAs (Decidable (_ ∧ _))

/-- The length of a month. -/
def monthLength (year mon : Int) : Int :=
  if mon = 2 then (if IsLeap year then 29 else 28)
  else if mon = 4 ∨ mon = 6 ∨ mon = 9 ∨ mon = 11 then 30
  else 31

/-- A date and a time of day. -/
structure Valid (tm : RtcTime) : Prop where
  mon : 1 ≤ tm.mon ∧ tm.mon ≤ 12
  mday : 1 ≤ tm.mday ∧ tm.mday ≤ monthLength tm.year tm.mon
  hour : 0 ≤ tm.hour ∧ tm.hour < 24
  min : 0 ≤ tm.min ∧ tm.min < 60
  sec : 0 ≤ tm.sec ∧ tm.sec < 60

/-- The days of the months before a month. -/
def daysBefore (year : Int) : Nat → Int
  | 0 => 0
  | n + 1 => daysBefore year n + monthLength year (n + 1)

/-- The days from the beginning of 1970 to the beginning of a year. -/
def newYear (year : Int) : Int :=
  365 * (year - 1970) + ((year - 1) / 4 - (year - 1) / 100 + (year - 1) / 400 - 477)

/-- The days from the beginning of 1970. -/
def days (tm : RtcTime) : Int :=
  newYear tm.year + daysBefore tm.year (tm.mon - 1).toNat + (tm.mday - 1)

/-- The seconds from the beginning of 1970. -/
def seconds (tm : RtcTime) : Int := ((days tm * 24 + tm.hour) * 60 + tm.min) * 60 + tm.sec

variable {tm : RtcTime} {y i r k x : Int} {w : Nat}

/-! ## Years -/

lemma leapyear_iff (pos : 0 ≤ y) : leapyear y = true ↔ y % 4 = 0 := by
  rw [leapyear, Int.tmod_eq_emod_of_nonneg pos, decide_eq_true_iff]

lemma daysInYear_eq (pos : 0 ≤ y) : daysInYear y = if y % 4 = 0 then 366 else 365 := by
  rw [daysInYear]
  exact if_congr (leapyear_iff pos) rfl rfl

/-- Before 2100 every fourth year is a leap year. -/
lemma isLeap_iff (low : 1970 ≤ y) (high : y < 2100) : IsLeap y ↔ y % 4 = 0 := by
  unfold IsLeap
  omega

lemma newYear_succ (low : 1970 ≤ y) (high : y < 2100) :
    newYear (y + 1) = newYear y + daysInYear y := by
  rw [daysInYear_eq (by omega), newYear, newYear]
  split <;> omega

/-- The loop ends in the year the day is in. -/
lemma yearLoop_eq {n : Nat} (low : 1970 ≤ y - n) (high : y < 2100) (pos : 0 ≤ r)
    (lt : r < daysInYear y) : yearLoop (y - n) (newYear y - newYear (y - n) + r) = (y, r) := by
  induction n with
  | zero =>
    rw [Int.natCast_zero, Int.sub_zero, Int.sub_self, Int.zero_add, yearLoop, if_neg (by omega)]
  | succ n ih =>
    have next : y - (n + 1 : Nat) + 1 = y - n := by omega
    have rest := ih (by omega)
    have step := newYear_succ low (by omega)
    rw [next] at step
    have behind : newYear (y - n) ≤ newYear y := by
      have bound : ∀ m : Nat, 1970 ≤ y - m → newYear (y - m) ≤ newYear y := by
        intro m
        induction m with
        | zero => exact fun _ => Int.le_of_eq (by rw [Int.natCast_zero, Int.sub_zero])
        | succ m im =>
          intro low'
          have step' := newYear_succ low' (by omega)
          have before := im (by omega)
          have same : y - (m + 1 : Nat) + 1 = y - m := by omega
          rw [same] at step'
          have some : 0 ≤ daysInYear (y - (m + 1 : Nat)) := by
            rw [daysInYear]
            split <;> decide
          omega
      exact bound n (by omega)
    rw [yearLoop, if_pos (by omega), next, ← rest]
    congr 1
    omega

/-- Every day is in a year. -/
lemma exists_year (n : Nat) (few : n < 40000) :
    ∃ y r, 1970 ≤ y ∧ y < 2090 ∧ 0 ≤ r ∧ r < daysInYear y ∧ (n : Int) = newYear y + r := by
  induction n with
  | zero => exact ⟨1970, 0, by decide, by decide, by decide, by decide, by decide⟩
  | succ n ih =>
    obtain ⟨y, r, low, high, pos, lt, eq⟩ := ih (by omega)
    by_cases last : r + 1 < daysInYear y
    case pos => exact ⟨y, r + 1, low, high, by omega, last, by omega⟩
    case neg =>
      have next := newYear_succ low (by omega)
      refine ⟨y + 1, 0, by omega, ?_, Int.le_refl 0, ?_, by omega⟩
      · unfold newYear at next eq
        omega
      · rw [daysInYear]
        split <;> decide

/-! ## Months -/

/-- The lengths of the first months of a year. -/
def lengths (year : Int) (n : Nat) : List Int :=
  (List.range n).map fun m : Nat => monthLength year (m + 1)

lemma lengths_eq (low : 1970 ≤ y) (high : y < 2100) :
    (if leapyear y then monthDays.set 1 29 else monthDays) = lengths y 12 := by
  have leap : leapyear y = true ↔ IsLeap y := by
    rw [leapyear_iff (by omega), isLeap_iff low high]
  by_cases h : IsLeap y
  case pos =>
    rw [if_pos (leap.2 h)]
    simp [lengths, monthDays, monthLength, List.range_succ, h]
  case neg =>
    rw [if_neg fun true_ => h (leap.1 true_)]
    simp [lengths, monthDays, monthLength, List.range_succ, h]

lemma monthLength_pos : 0 < monthLength y x := by
  unfold monthLength
  split_ifs <;> decide

/-- The days of the months in front. -/
lemma sum_lengths {n : Nat} :
    (lengths y n).sum = daysBefore y n := by
  induction n with
  | zero => rfl
  | succ n ih =>
    rw [lengths, List.range_succ, List.map_append, List.sum_append, List.map_singleton,
      List.sum_singleton, daysBefore, ← ih, lengths]

lemma sum_year (low : 1970 ≤ y) (high : y < 2100) : (lengths y 12).sum = daysInYear y := by
  rw [← lengths_eq low high, daysInYear]
  split <;> rfl

/-- The loop passes over the months in front. -/
lemma monthLoop_append {front rest : List Int} {length : Int} (some : ∀ d ∈ front, 0 < d)
    (pos : 0 ≤ k) (lt : k < length) :
    monthLoop (front ++ length :: rest) i (front.sum + k) = .some (i + front.length, k) := by
  induction front generalizing i with
  | nil =>
    rw [List.nil_append, List.sum_nil, Int.zero_add, monthLoop, if_neg (Int.not_le.2 lt),
      List.length_nil, Int.natCast_zero, Int.add_zero]
  | cons d front ih =>
    obtain ⟨first, some⟩ := List.forall_mem_cons.1 some
    have sum : 0 ≤ front.sum := List.sum_nonneg fun d mem => Int.le_of_lt (some d mem)
    have passed : d + front.sum + k - d = front.sum + k := by omega
    rw [List.cons_append, List.sum_cons, monthLoop, if_pos (by omega), passed, ih some,
      List.length_cons]
    congr 2
    omega

lemma monthLoop_eq {n : Nat} (twelve : n < 12) (pos : 0 ≤ k) (lt : k < monthLength y (n + 1)) :
    monthLoop (lengths y 12) 1 (daysBefore y n + k) = some ((n : Int) + 1, k) := by
  obtain ⟨m, eq⟩ : ∃ m, 12 = n + (m + 1) := ⟨11 - n, by omega⟩
  have parts : lengths y 12 = lengths y n ++ monthLength y (n + 1) ::
      (List.range m).map fun i : Nat => monthLength y ((n + (i + 1) : Nat) + 1) := by
    rw [lengths, eq, List.range_add, List.map_append, List.range_succ_eq_map, List.map_cons,
      List.map_cons, List.map_map, List.map_map]
    rfl
  have all : ∀ d ∈ lengths y n, 0 < d := by
    intro d mem
    obtain ⟨_, _, rfl⟩ := List.mem_map.1 mem
    exact monthLength_pos
  rw [parts, ← sum_lengths, monthLoop_append all pos lt, lengths, List.length_map,
    List.length_range]
  congr 2
  omega

/-- Every day of a year is in a month. -/
lemma exists_month {n : Nat} (pos : 0 ≤ r)
    (lt : r < (lengths y n).sum) :
    ∃ m < n, ∃ k, 0 ≤ k ∧ k < monthLength y (m + 1) ∧ r = daysBefore y m + k := by
  induction n with
  | zero => exact absurd (Int.lt_of_le_of_lt pos lt) (Int.lt_irrefl 0)
  | succ n ih =>
    rw [sum_lengths, daysBefore] at lt
    by_cases last : r < daysBefore y n
    case pos =>
      obtain ⟨m, less, found⟩ := ih (by rw [sum_lengths]; exact last)
      exact ⟨m, Nat.lt_succ_of_lt less, found⟩
    case neg => exact ⟨n, Nat.lt_succ_self n, r - daysBefore y n, by omega, by omega, by omega⟩

/-! ## Both directions -/

lemma int_eq (low : -2 ^ 31 ≤ x) (high : x < 2 ^ 31) : int x = x := by
  unfold int
  exact Int.bmod_eq_of_le (by omega) (by omega)

/-- An `unsigned long` that is assigned to an `int`. -/
lemma int_emod (wide : 32 ≤ w) : int (x % 2 ^ w) = int x := by
  obtain ⟨k, rfl⟩ := Nat.exists_eq_add_of_le wide
  unfold int
  rw [Int.bmod_def, Int.bmod_def]
  have dvd : ((2 ^ 32 : Nat) : Int) ∣ 2 ^ (32 + k) := ⟨2 ^ k, by rw [pow_add]; rfl⟩
  rw [Int.emod_emod_of_dvd x dvd]

/-- The leap days up to the end of a year. -/
lemma leaps_eq : y / 4 - y / 100 + y / 400 =
    (y - 1) / 4 - (y - 1) / 100 + (y - 1) / 400 + if IsLeap y then 1 else 0 := by
  by_cases leap : IsLeap y
  case pos =>
    rw [if_pos leap]
    unfold IsLeap at leap
    omega
  case neg =>
    rw [if_neg leap]
    unfold IsLeap at leap
    omega

/-- The days before a month are those of a common year, and from March on the leap day. -/
lemma daysBefore_eq (mon : 1 ≤ x ∧ x ≤ 12) :
    daysBefore y (x - 1).toNat =
      monthOffset.getD (x - 1).toNat 0 + if IsLeap y ∧ x > 2 then 1 else 0 := by
  obtain ⟨one, twelve⟩ := mon
  by_cases leap : IsLeap y <;> interval_cases x <;>
    simp [daysBefore, monthLength, leap, monthOffset]

/-- The table of the month starts as a formula. -/
lemma monthOffset_eq (mon : 1 ≤ x ∧ x ≤ 12) :
    monthOffset.getD (x - 1).toNat 0 =
      if 0 ≥ x - 2 then 367 * (x - 2 + 12) / 12 - 336 else 367 * (x - 2) / 12 + 29 := by
  obtain ⟨one, twelve⟩ := mon
  interval_cases x <;> rfl

/-- The formula counts the days. -/
lemma days_eq (mon : 1 ≤ tm.mon ∧ tm.mon ≤ 12) :
    days tm =
      if 0 ≥ tm.mon - 2 then
        ((tm.year - 1) / 4 - (tm.year - 1) / 100 + (tm.year - 1) / 400 +
          367 * (tm.mon - 2 + 12) / 12 + tm.mday) + (tm.year - 1) * 365 - 719499
      else
        (tm.year / 4 - tm.year / 100 + tm.year / 400 + 367 * (tm.mon - 2) / 12 + tm.mday) +
          tm.year * 365 - 719499 := by
  have leaps := @leaps_eq tm.year
  rw [days, newYear, daysBefore_eq mon, monthOffset_eq mon]
  generalize (tm.year - 1) / 4 - (tm.year - 1) / 100 + (tm.year - 1) / 400 = before at *
  generalize tm.year / 4 - tm.year / 100 + tm.year / 400 = behind at *
  by_cases early : 0 ≥ tm.mon - 2
  · rw [if_pos early, if_pos early, if_neg (by omega)]
    omega
  · rw [if_neg early, if_neg early]
    by_cases leap : IsLeap tm.year
    · rw [if_pos leap] at leaps
      rw [if_pos ⟨leap, by omega⟩]
      omega
    · rw [if_neg leap] at leaps
      rw [if_neg fun past => leap past.1]
      omega

lemma daysBefore_nonneg {n : Nat} : 0 ≤ daysBefore y n := by
  induction n with
  | zero => exact Int.le_refl 0
  | succ n ih =>
    have pos : 0 < monthLength y (n + 1) := monthLength_pos
    rw [daysBefore]
    omega

lemma daysBefore_mono {n m : Nat} (le : n ≤ m) : daysBefore y n ≤ daysBefore y m := by
  induction le with
  | refl => exact Int.le_refl _
  | @step m le ih =>
    have pos : 0 < monthLength y (m + 1) := monthLength_pos
    rw [daysBefore]
    omega

lemma days_nonneg (low : 1970 ≤ tm.year) (pos : 1 ≤ tm.mday) : 0 ≤ days tm := by
  have before : 0 ≤ daysBefore tm.year (tm.mon - 1).toNat := daysBefore_nonneg
  rw [days, newYear]
  omega

/-- The weekday follows from the number of days. -/
lemma rtcCalcWeekday_eq (mon : 1 ≤ tm.mon ∧ tm.mon ≤ 12) (low : 1970 ≤ tm.year)
    (pos : 1 ≤ tm.mday) :
    rtcCalcWeekday tm = (0, { tm with wday := (4 + days tm) % 7 }) := by
  have past : (tm.year.tmod 4 = 0 ∧ (tm.year.tmod 100 ≠ 0 ∨ tm.year.tmod 400 = 0) ∧ tm.mon > 2) ↔
      IsLeap tm.year ∧ tm.mon > 2 := by
    rw [Int.tmod_eq_emod_of_nonneg (by omega), Int.tmod_eq_emod_of_nonneg (by omega),
      Int.tmod_eq_emod_of_nonneg (by omega), ← and_assoc, IsLeap]
  have day : (if IsLeap tm.year ∧ tm.mon > 2 then 1 else 0) +
      ((tm.year - 1) * 365 + ((tm.year - 1) / 4 - (tm.year - 1) / 100 + (tm.year - 1) / 400) +
        monthOffset.getD (tm.mon - 1).toNat 0 + tm.mday) = days tm + 719163 := by
    rw [days, newYear, daysBefore_eq mon]
    omega
  have some := days_nonneg low pos
  rw [rtcCalcWeekday, if_neg (by omega)]
  dsimp only
  rw [if_congr past rfl rfl, Int.tdiv_eq_ediv_of_nonneg (by omega),
    Int.tdiv_eq_ediv_of_nonneg (by omega), Int.tdiv_eq_ediv_of_nonneg (by omega), day,
    Int.tmod_eq_emod_of_nonneg (by omega)]
  congr 2
  omega

/-- A date that can be told in 31 bits. -/
structure InRange (tm : RtcTime) : Prop extends Valid tm where
  low : 1970 ≤ tm.year
  high : seconds tm < 2 ^ 31

lemma InRange.days_lt (range : InRange tm) : 0 ≤ days tm ∧ days tm < 24856 := by
  have pos := days_nonneg range.low range.mday.1
  have high := range.high
  have hour := range.hour
  have min := range.min
  have sec := range.sec
  rw [seconds] at high
  omega

lemma InRange.year_lt (range : InRange tm) : tm.year < 2100 := by
  have few := range.days_lt.2
  have mday := range.mday.1
  have before : 0 ≤ daysBefore tm.year (tm.mon - 1).toNat := daysBefore_nonneg
  rw [days, newYear] at few
  omega

lemma rtcMktime_eq (wide : 32 ≤ w) (range : InRange tm) : rtcMktime w tm = seconds tm := by
  obtain ⟨pos, few⟩ := range.days_lt
  have low := range.low
  have high := range.high
  have mon := range.mon
  have mday := range.mday
  have hour := range.hour
  have min := range.min
  have sec := range.sec
  have count := days_eq mon
  have whole : int (days tm) = days tm := int_eq (by omega) (by omega)
  have rest : rtcMktime w tm =
      int ((int (days tm * 24 + tm.hour) * 60 + tm.min) * 60 + tm.sec) % 2 ^ w := by
    by_cases first : 0 ≥ tm.mon - 2
    case pos =>
      rw [if_pos first] at count
      rw [rtcMktime, if_pos first]
      dsimp only
      rw [int_emod wide, Int.tdiv_eq_ediv_of_nonneg (by omega),
        Int.tdiv_eq_ediv_of_nonneg (by omega), Int.tdiv_eq_ediv_of_nonneg (by omega),
        Int.tdiv_eq_ediv_of_nonneg (by omega), ← count, whole]
    case neg =>
      rw [if_neg first] at count
      rw [rtcMktime, if_neg first]
      dsimp only
      rw [int_emod wide, Int.tdiv_eq_ediv_of_nonneg (by omega),
        Int.tdiv_eq_ediv_of_nonneg (by omega), Int.tdiv_eq_ediv_of_nonneg (by omega),
        Int.tdiv_eq_ediv_of_nonneg (by omega), ← count, whole]
  have eq : (((days tm * 24 + tm.hour) * 60 + tm.min) * 60 + tm.sec) = seconds tm := rfl
  have nonneg : 0 ≤ seconds tm := by
    rw [← eq]
    omega
  have less : seconds tm < 2 ^ w :=
    Int.lt_trans high (pow_lt_pow_right₀ (by decide) (by omega))
  have hours : int (days tm * 24 + tm.hour) = days tm * 24 + tm.hour :=
    int_eq (by omega) (by omega)
  rw [rest, hours, eq, int_eq (by omega) high, Int.emod_eq_of_lt nonneg less]

lemma rtcToTm_eq (range : InRange tm) : rtcToTm (seconds tm) =
    some (0, { tm with wday := (4 + seconds tm / 86400) % 7, yday := 0, isdst := 0 }) := by
  obtain ⟨pos, few⟩ := range.days_lt
  have low := range.low
  have high := range.year_lt
  have mday := range.mday
  have hour := range.hour
  have min := range.min
  have sec := range.sec
  obtain ⟨one, twelve⟩ := range.mon
  obtain ⟨n, place⟩ : ∃ n : Nat, tm.mon = n + 1 := ⟨(tm.mon - 1).toNat, by omega⟩
  obtain ⟨m, year⟩ : ∃ m : Nat, tm.year = 1970 + m := ⟨(tm.year - 1970).toNat, by omega⟩
  have index : (tm.mon - 1).toNat = n := by omega
  have nonneg : 0 ≤ seconds tm := by
    rw [seconds]
    omega
  have day : seconds tm / 86400 = days tm := by
    rw [seconds]
    omega
  have hms : seconds tm % 86400 = (tm.hour * 60 + tm.min) * 60 + tm.sec := by
    rw [seconds]
    omega
  have count : days tm = newYear tm.year - newYear startoftime +
      (daysBefore tm.year n + (tm.mday - 1)) := by
    have zero : newYear startoftime = 0 := by decide
    rw [days, index, zero]
    omega
  have inMonth : tm.mday - 1 < monthLength tm.year (n + 1) := by
    rw [← place]
    omega
  have inYear : daysBefore tm.year n + (tm.mday - 1) < daysInYear tm.year := by
    have le := @daysBefore_mono tm.year (n + 1) 12 (by omega)
    rw [← sum_year low high, sum_lengths]
    rw [daysBefore] at le
    omega
  have years : yearLoop startoftime (days tm) =
      (tm.year, daysBefore tm.year n + (tm.mday - 1)) := by
    have start : startoftime = tm.year - m := by
      rw [startoftime]
      omega
    have before : 0 ≤ daysBefore tm.year n := daysBefore_nonneg
    rw [count, start]
    exact yearLoop_eq (by omega) high (by omega) inYear
  have months : monthLoop (lengths tm.year 12) 1 (daysBefore tm.year n + (tm.mday - 1)) =
      some (tm.mon, tm.mday - 1) := by
    rw [monthLoop_eq (by omega) (by omega) inMonth, place]
  rw [rtcToTm, secday, Int.tdiv_eq_ediv_of_nonneg nonneg, Int.tmod_eq_emod_of_nonneg nonneg, day,
    hms, years]
  dsimp only
  rw [lengths_eq low high, months]
  dsimp only
  have hour_rest : ((tm.hour * 60 + tm.min) * 60 + tm.sec).tmod 3600 =
      ((tm.hour * 60 + tm.min) * 60 + tm.sec) % 3600 := Int.tmod_eq_emod_of_nonneg (by omega)
  have secs : (((tm.hour * 60 + tm.min) * 60 + tm.sec).tmod 3600).tmod 60 = tm.sec := by
    rw [hour_rest, Int.tmod_eq_emod_of_nonneg (by omega)]
    omega
  have mins : (((tm.hour * 60 + tm.min) * 60 + tm.sec).tmod 3600).tdiv 60 = tm.min := by
    rw [hour_rest, Int.tdiv_eq_ediv_of_nonneg (by omega)]
    omega
  have hours : ((tm.hour * 60 + tm.min) * 60 + tm.sec).tdiv 3600 = tm.hour := by
    rw [Int.tdiv_eq_ediv_of_nonneg (by omega)]
    omega
  rw [secs, mins, hours, Int.sub_add_cancel]
  exact congrArg some (@rtcCalcWeekday_eq { tm with wday := 0, yday := 0, isdst := 0 }
    ⟨one, twelve⟩ low mday.1)

/-- Every time is the one of a date. -/
lemma exists_date {t : Int} (pos : 0 ≤ t) (lt : t < 2 ^ 31) :
    ∃ tm, InRange tm ∧ seconds tm = t := by
  obtain ⟨n, day⟩ : ∃ n : Nat, t / 86400 = n := ⟨(t / 86400).toNat, by omega⟩
  obtain ⟨y, r, low, high, nonneg, inYear, count⟩ := exists_year n (by omega)
  rw [← sum_year low (by omega)] at inYear
  obtain ⟨m, less, k, first, last, eq⟩ := exists_month nonneg inYear
  let tm : RtcTime := ⟨t % 86400 % 3600 % 60, t % 86400 % 3600 / 60, t % 86400 / 3600, k + 1, m + 1, y,
    0, 0, 0⟩
  have index : (tm.mon - 1).toNat = m := by
    show ((m : Int) + 1 - 1).toNat = m
    omega
  have whole : seconds tm = t := by
    rw [seconds, days, index]
    show (((newYear y + daysBefore y m + (k + 1 - 1)) * 24 + t % 86400 / 3600) * 60 +
      t % 86400 % 3600 / 60) * 60 + t % 86400 % 3600 % 60 = t
    omega
  refine ⟨tm, ⟨⟨⟨?_, ?_⟩, ⟨?_, last⟩, ⟨?_, ?_⟩, ⟨?_, ?_⟩, ?_, ?_⟩, low, by rw [whole]; exact lt⟩, whole⟩
  all_goals
    dsimp only [tm]
    omega

/-- Both directions are inverse to each other and go by the Gregorian calendar. -/
theorem rtc_inverse (w : Nat) (wide : 32 ≤ w) :
    (∀ t, 0 ≤ t → t < 2 ^ 31 → ∃ tm, rtcToTm t = some (0, tm) ∧ Valid tm ∧ seconds tm = t ∧
      tm.wday = (4 + t / 86400) % 7 ∧ rtcMktime w tm = t) ∧
    ∀ d, InRange d → rtcToTm (rtcMktime w d) =
      some (0, { d with wday := (4 + seconds d / 86400) % 7, yday := 0, isdst := 0 }) := by
  constructor
  · intro t pos lt
    obtain ⟨d, range, rfl⟩ := exists_date pos lt
    exact ⟨_, rtcToTm_eq range, ⟨range.mon, range.mday, range.hour, range.min, range.sec⟩, rfl, rfl,
      (@rtcMktime_eq { d with wday := (4 + seconds d / 86400) % 7, yday := 0, isdst := 0 } w wide
        ⟨⟨range.mon, range.mday, range.hour, range.min, range.sec⟩, range.low, range.high⟩)⟩
  · intro d range
    rw [rtcMktime_eq wide range, rtcToTm_eq range]

/-- The last second that 31 bits can tell. -/
theorem rtc_inverse_last : ∃ tm, rtcToTm (2 ^ 31 - 1) = some (0, tm) ∧ Valid tm ∧
    tm.wday = 2 ∧ rtcMktime 32 tm = 2 ^ 31 - 1 := by
  obtain ⟨tm, eq, valid, -, wday, back⟩ :=
    (rtc_inverse 32 (by decide)).1 (2 ^ 31 - 1) (by decide) (by decide)
  exact ⟨tm, eq, valid, wday, back⟩

end Imx.Rtc
