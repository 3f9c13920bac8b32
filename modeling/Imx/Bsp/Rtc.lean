import Mathlib.Tactic.Common
import Mathlib.Tactic.IntervalCases

/-!
# The real-time clock of the bare-metal board

Model of `bsp/rtc/rtc.c`. A `uint64_t`, a `uint32_t` and the fields of a date are numbers, cut to
their width where they could exceed it. The secure counter counts 2^15 a second in 47 bits, of which
one register shows the 15 high ones and the other the 32 low ones.
-/

namespace Imx.Bsp.Rtc

/-- C `rtc_date_time`. -/
structure RtcDateTime where
  year : Nat
  month : Nat
  day : Nat
  hour : Nat
  minute : Nat
  second : Nat
deriving DecidableEq

def secondsInADay : Nat := 86400
def secondsInAHour : Nat := 3600
def secondsInAMinute : Nat := 60
def daysInAYear : Nat := 365
def yearRangeStart : Nat := 1970
def yearRangeEnd : Nat := 2099

def rtcIsLeapYear (year : Nat) : Bool :=
  if year % 400 = 0 then true
  else if year % 4 = 0 ∧ year % 100 ≠ 0 then true
  else false

/-- The days behind the 365 of a year. -/
def leapDay (year : Nat) : Nat := if rtcIsLeapYear year then 1 else 0

/-! ## From a date to seconds -/

/-- The loop over the years: the year it ends at and the days. -/
def yearsLoop (year i days : Nat) : Nat × Nat :=
  if i < year then
    yearsLoop year (i + 1) ((days + daysInAYear + leapDay (i % 2 ^ 16)) % 2 ^ 32)
  else (i, days)
termination_by year - i

def monthdays : List Nat := [0, 0, 31, 59, 90, 120, 151, 181, 212, 243, 273, 304, 334]

def rtcDataToSecond (time : RtcDateTime) : Nat :=
  let (i, days) := yearsLoop time.year yearRangeStart 0
  let days := (days + monthdays.getD time.month 0) % 2 ^ 32
  let days := if rtcIsLeapYear (i % 2 ^ 16) ∧ 3 ≤ time.month then (days + 1) % 2 ^ 32 else days
  let days := (days + (2 ^ 32 + time.day - 1)) % 2 ^ 32
  (days * secondsInADay + time.hour * secondsInAHour + time.minute * secondsInAMinute +
    time.second) % 2 ^ 32

/-! ## From seconds to a date -/

/-- The loop over the years, `leap` is what `daysInYear` has above 365. -/
def yearLoop (days leap year : Nat) : Nat × Nat :=
  if daysInAYear + leap < days then
    let year := (year + 1) % 2 ^ 16
    yearLoop (days - (daysInAYear + leap)) (leapDay year) year
  else (days, year)
termination_by days
decreasing_by
  rw [daysInAYear] at *
  omega

def daysPerMonth : List Nat := [31, 28, 31, 30, 31, 30, 31, 31, 30, 31, 30, 31]

/-- The loop over the months from `x` on, without a month where the table ends. -/
def monthLoop : List Nat → Nat → Nat → Option Nat × Nat
  | [], _, days => (none, days)
  | len :: lens, x, days =>
    if days ≤ len then (some x, days) else monthLoop lens (x + 1) (days - len)

/-- `month` is what the field holds before. -/
def rtcSecondToDate (month : Nat) (seconds : Nat) : RtcDateTime :=
  let days := (seconds / secondsInADay + 1) % 2 ^ 64
  let remaining := seconds % secondsInADay
  let hour := remaining / secondsInAHour
  let remaining := remaining % secondsInAHour
  let (days, year) := yearLoop days 0 yearRangeStart
  let lens := if rtcIsLeapYear year then daysPerMonth.set 1 29 else daysPerMonth
  let (found, days) := monthLoop lens 1 days
  { year
    month := found.getD month
    day := days % 2 ^ 8
    hour
    minute := remaining / 60
    second := remaining % secondsInAMinute }

/-! ## The calendar -/

/-- The length of a month. -/
def monthLength (year month : Nat) : Nat :=
  if month = 2 then 28 + leapDay year
  else if month = 4 ∨ month = 6 ∨ month = 9 ∨ month = 11 then 30
  else 31

/-- A date of the Gregorian calendar and a time of day. -/
structure Valid (d : RtcDateTime) : Prop where
  month : 1 ≤ d.month ∧ d.month ≤ 12
  day : 1 ≤ d.day ∧ d.day ≤ monthLength d.year d.month
  hour : d.hour < 24
  minute : d.minute < 60
  second : d.second < 60

/-- The days of `k` years. -/
def span : Nat → Nat → Nat
  | _, 0 => 0
  | year, k + 1 => daysInAYear + leapDay year + span (year + 1) k

/-- The days of a year before a month. -/
def before (year : Nat) : Nat → Nat
  | 0 => 0
  | month + 1 => if month = 0 then 0 else before year month + monthLength year month

/-- The seconds from the beginning of 1970. -/
def secondsOf (d : RtcDateTime) : Nat :=
  (span yearRangeStart (d.year - yearRangeStart) + before d.year d.month + (d.day - 1)) *
    secondsInADay + d.hour * secondsInAHour + d.minute * secondsInAMinute + d.second

lemma monthLength_le (year month : Nat) : monthLength year month ≤ 31 := by
  unfold monthLength leapDay
  repeat' split
  all_goals omega

lemma leapDay_le (year : Nat) : leapDay year ≤ 1 := by
  unfold leapDay
  split <;> omega

/-- The days of one more year at the end. -/
lemma span_succ (year k : Nat) :
    span year (k + 1) = span year k + (daysInAYear + leapDay (year + k)) := by
  induction k generalizing year with
  | zero => simp [span]
  | succ k ih =>
    have hyk : year + 1 + k = year + (k + 1) := by omega
    rw [span, ih (year + 1), span, hyk]
    omega

lemma span_ge (year k : Nat) : daysInAYear * k ≤ span year k := by
  induction k generalizing year with
  | zero => simp [span]
  | succ k ih =>
    have := ih (year + 1)
    rw [span, Nat.mul_succ]
    omega

lemma span_le (year k : Nat) : span year k ≤ 366 * k := by
  induction k generalizing year with
  | zero => simp [span]
  | succ k ih =>
    have := ih (year + 1)
    have := leapDay_le year
    rw [span, Nat.mul_succ, daysInAYear]
    omega

lemma before_succ (year : Nat) {month : Nat} (h : 1 ≤ month) :
    before year (month + 1) = before year month + monthLength year month := by
  rw [before, if_neg (by omega)]

lemma before_mono (year : Nat) {m n : Nat} (hm : 1 ≤ m) (h : m ≤ n) :
    before year m ≤ before year n := by
  induction n, h using Nat.le_induction with
  | base => exact Nat.le_refl _
  | succ n h ih =>
    rw [before_succ year (by omega)]
    omega

/-- The twelve months make the year. -/
lemma before_thirteen (year : Nat) : before year 13 = daysInAYear + leapDay year := by
  simp [before, monthLength, daysInAYear]
  omega

lemma Valid.yearday {d : RtcDateTime} (h : Valid d) :
    before d.year d.month + d.day ≤ daysInAYear + leapDay d.year := by
  have hs := before_succ d.year h.month.1
  have hm : before d.year (d.month + 1) ≤ before d.year 13 :=
    before_mono d.year (by omega) (Nat.succ_le_succ h.month.2)
  have := h.day.2
  rw [← before_thirteen]
  omega

/-- A day count falls in a year. -/
lemma exists_year (year days : Nat) :
    ∃ k r, days = span year k + r ∧ r < daysInAYear + leapDay (year + k) := by
  induction days with
  | zero => exact ⟨0, 0, rfl, by simp [daysInAYear]⟩
  | succ days ih =>
    obtain ⟨k, r, rfl, hr⟩ := ih
    by_cases hn : r + 1 < daysInAYear + leapDay (year + k)
    · exact ⟨k, r + 1, by omega, hn⟩
    · refine ⟨k + 1, 0, ?_, by simp [daysInAYear]⟩
      rw [span_succ]
      omega

/-- A day of the first months of a year falls in one of them. -/
lemma exists_month (year : Nat) {r n : Nat} (h : r < before year (n + 1)) :
    ∃ m day, 1 ≤ m ∧ m ≤ n ∧ 1 ≤ day ∧ day ≤ monthLength year m ∧ r + 1 = before year m + day := by
  induction n with
  | zero => exact absurd h (by simp [before])
  | succ n ih =>
    by_cases hr : r < before year (n + 1)
    · obtain ⟨m, day, h1, hn, hday⟩ := ih hr
      exact ⟨m, day, h1, by omega, hday⟩
    · rw [before_succ year (by omega)] at h
      exact ⟨n + 1, r + 1 - before year (n + 1), by omega, by omega, by omega, by omega, by omega⟩

/-- Every second is one of a valid date. -/
lemma exists_date (s : Nat) :
    ∃ d, Valid d ∧ yearRangeStart ≤ d.year ∧ secondsOf d = s := by
  obtain ⟨k, r, hs, hr⟩ := exists_year yearRangeStart (s / secondsInADay)
  rw [← before_thirteen] at hr
  obtain ⟨m, day, h1, h12, hd1, hdl, hrm⟩ := exists_month _ hr
  refine ⟨⟨yearRangeStart + k, m, day, s % 86400 / 3600, s % 3600 / 60, s % 60⟩,
    ⟨⟨h1, h12⟩, ⟨hd1, hdl⟩, by simp; omega, by simp; omega, by simp; omega⟩, by simp, ?_⟩
  simp only [secondsOf, Nat.add_sub_cancel_left]
  simp only [secondsInADay, secondsInAHour, secondsInAMinute] at *
  omega

/-! ## What the loops compute -/

/-- The loop over the years takes off the years that have passed. -/
lemma yearLoop_span (k year r : Nat) (hy : year + k < 2 ^ 16) (h1 : 1 ≤ r)
    (hr : r ≤ daysInAYear + leapDay (year + k)) :
    yearLoop (span year k + r) (leapDay year) year = (r, year + k) := by
  induction k generalizing year with
  | zero =>
    rw [yearLoop, if_neg (by simpa [span] using hr)]
    simp [span]
  | succ k ih =>
    have hwrap : (year + 1) % 2 ^ 16 = year + 1 := Nat.mod_eq_of_lt (by omega)
    have hrest : span year (k + 1) + r - (daysInAYear + leapDay year) = span (year + 1) k + r := by
      rw [span]
      omega
    have hlt : daysInAYear + leapDay year < span year (k + 1) + r := by
      rw [span]
      omega
    have hyk : year + (k + 1) = year + 1 + k := by omega
    rw [yearLoop, if_pos hlt, hwrap, hrest, hyk]
    exact ih (year + 1) (by omega) (hyk ▸ hr)

/-- The loop over the months stops in the month of the day. -/
lemma monthLoop_range (year n m m' days day : Nat) (hm : 1 ≤ m) (hmm : m ≤ m') (hn : m' < m + n)
    (h1 : 1 ≤ day) (hd : day ≤ monthLength year m')
    (he : before year m + days = before year m' + day) :
    monthLoop ((List.range' m n).map (monthLength year)) m days = (some m', day) := by
  induction n generalizing m days with
  | zero => omega
  | succ n ih =>
    rw [List.range'_succ, List.map_cons, monthLoop]
    by_cases hmem : m = m'
    · subst hmem
      have : days = day := by omega
      rw [if_pos (by omega), this]
    · have hb := before_mono year (by omega) (show m + 1 ≤ m' by omega)
      have hs := before_succ year hm
      rw [if_neg (by omega)]
      exact ih (m + 1) (days - monthLength year m) (by omega) (by omega) (by omega) (by omega)

lemma daysPerMonth_eq (year : Nat) :
    (if rtcIsLeapYear year then daysPerMonth.set 1 29 else daysPerMonth) =
      (List.range' 1 12).map (monthLength year) := by
  cases h : rtcIsLeapYear year <;>
    simp [daysPerMonth, List.range', monthLength, leapDay, h]

/-- The days from the beginning of 1970, and the time of day. -/
lemma Valid.secondsOf_div {d : RtcDateTime} (h : Valid d) (hk : d.year = yearRangeStart + k) :
    secondsOf d / secondsInADay + 1 =
        span yearRangeStart k + (before d.year d.month + d.day) ∧
      secondsOf d % secondsInADay = d.hour * 3600 + d.minute * 60 + d.second := by
  have hday := h.day
  have hmin := h.minute
  have hhour := h.hour
  have hsec := h.second
  have hsub : d.year - yearRangeStart = k := by omega
  simp only [secondsOf, hsub, secondsInADay, secondsInAHour, secondsInAMinute]
  constructor <;> omega

/-- The date from what the two loops end with. -/
lemma rtcSecondToDate_of_loops {month seconds days year found day : Nat}
    (hyear : yearLoop ((seconds / secondsInADay + 1) % 2 ^ 64) 0 yearRangeStart = (days, year))
    (hmonth : monthLoop ((List.range' 1 12).map (monthLength year)) 1 days = (some found, day)) :
    rtcSecondToDate month seconds =
      ⟨year, found, day % 2 ^ 8, seconds % secondsInADay / 3600,
        seconds % secondsInADay % 3600 / 60, seconds % secondsInADay % 3600 % 60⟩ := by
  simp only [rtcSecondToDate, hyear, daysPerMonth_eq, hmonth, Option.getD_some, secondsInAHour,
    secondsInAMinute]

/-- A valid date comes back from its seconds. -/
lemma rtcSecondToDate_secondsOf (month : Nat) {d : RtcDateTime} (h : Valid d)
    (hy : yearRangeStart ≤ d.year) (h16 : d.year < 2 ^ 16) :
    rtcSecondToDate month (secondsOf d) = d := by
  obtain ⟨k, hk⟩ := Nat.exists_eq_add_of_le hy
  have hday := h.day
  have hmin := h.minute
  have hhour := h.hour
  have hsec := h.second
  have hle := span_le yearRangeStart k
  have hyd := h.yearday
  have hl := leapDay_le d.year
  have h31 := monthLength_le d.year d.month
  obtain ⟨hdiv, hr⟩ := h.secondsOf_div hk
  have hq : (secondsOf d / secondsInADay + 1) % 2 ^ 64 =
      span yearRangeStart k + (before d.year d.month + d.day) := by
    rw [hdiv, daysInAYear] at *
    exact Nat.mod_eq_of_lt (by omega)
  have hyear := yearLoop_span k yearRangeStart (before d.year d.month + d.day) (by omega) (by omega)
    (hk ▸ hyd)
  have hmonth := monthLoop_range d.year 12 1 d.month (before d.year d.month + d.day) d.day
    (Nat.le_refl 1) h.month.1 (by have := h.month.2; omega) hday.1 hday.2 (by simp [before])
  have h0 : leapDay yearRangeStart = 0 := by decide
  rw [h0, ← hk] at hyear
  rw [← hq] at hyear
  rw [rtcSecondToDate_of_loops hyear hmonth, hr]
  cases d
  simp only [RtcDateTime.mk.injEq, true_and] at *
  omega

/-- The loop over the years adds them up. -/
lemma yearsLoop_span (k i days : Nat) (hy : i + k ≤ 2 ^ 16) (h : days + span i k < 2 ^ 32) :
    yearsLoop (i + k) i days = (i + k, days + span i k) := by
  induction k generalizing i days with
  | zero =>
    rw [yearsLoop, if_neg (by omega)]
    simp [span]
  | succ k ih =>
    rw [span] at h
    have hcut : (days + daysInAYear + leapDay (i % 2 ^ 16)) % 2 ^ 32 =
        days + daysInAYear + leapDay i := by
      rw [Nat.mod_eq_of_lt (show i < 2 ^ 16 by omega), Nat.mod_eq_of_lt (by omega)]
    have hik : i + (k + 1) = i + 1 + k := by omega
    rw [yearsLoop, if_pos (by omega), hcut, hik, ih (i + 1) _ (by omega) (by omega), span]
    simp only [Prod.mk.injEq, true_and]
    omega

/-- The table of the month starts is the one of a common year. -/
lemma monthdays_eq (year : Nat) {month : Nat} (h1 : 1 ≤ month) (h12 : month ≤ 12) :
    before year month =
      monthdays.getD month 0 + if rtcIsLeapYear year ∧ 3 ≤ month then 1 else 0 := by
  interval_cases month <;> cases h : rtcIsLeapYear year <;>
    simp [before, monthLength, monthdays, leapDay, h]

/-- The seconds of a date fit a word, and are then its seconds. -/
lemma rtcDataToSecond_eq {d : RtcDateTime} (h : Valid d) (hy : yearRangeStart ≤ d.year)
    (h16 : d.year < 2 ^ 16) (h32 : secondsOf d < 2 ^ 32) : rtcDataToSecond d = secondsOf d := by
  obtain ⟨k, hk⟩ := Nat.exists_eq_add_of_le hy
  have hday := h.day.1
  have hm := monthdays_eq d.year h.month.1 h.month.2
  have hsub : d.year - yearRangeStart = k := by omega
  have hs : secondsOf d = (span yearRangeStart k + before d.year d.month + (d.day - 1)) *
      86400 + d.hour * 3600 + d.minute * 60 + d.second := by
    simp only [secondsOf, hsub, secondsInADay, secondsInAHour, secondsInAMinute]
  have hloop := yearsLoop_span k yearRangeStart 0 (by omega) (by omega)
  rw [← hk, Nat.zero_add] at hloop
  simp only [rtcDataToSecond, hloop, Nat.mod_eq_of_lt h16, hs, secondsInADay, secondsInAHour,
    secondsInAMinute]
  split at hm
  · rw [if_pos ‹_›]
    omega
  · rw [if_neg ‹_›]
    omega

/--
Over its whole range the conversion is inverse: every second of a word is the one of a valid date,
and every valid date from 1970 to 2099 has its seconds in a word and comes back from them.
-/
theorem rtcSecondToDate_inverse (month : Nat) :
    (∀ s < 2 ^ 32, Valid (rtcSecondToDate month s) ∧
      rtcDataToSecond (rtcSecondToDate month s) = s ∧ s / secondsInADay + 1 < 2 ^ 64) ∧
    (∀ d, Valid d → yearRangeStart ≤ d.year → d.year ≤ yearRangeEnd →
      rtcSecondToDate month (rtcDataToSecond d) = d ∧
      rtcDataToSecond d = secondsOf d ∧ secondsOf d < 2 ^ 32) := by
  refine ⟨fun s hs => ?_, fun d hd hy hend => ?_⟩
  · obtain ⟨d, hd, hy, rfl⟩ := exists_date s
    have h16 : d.year < 2 ^ 16 := by
      have hge := span_ge yearRangeStart (d.year - yearRangeStart)
      simp only [secondsOf, secondsInADay, daysInAYear, yearRangeStart] at *
      omega
    rw [rtcSecondToDate_secondsOf month hd hy h16]
    exact ⟨hd, rtcDataToSecond_eq hd hy h16 hs, by rw [secondsInADay]; omega⟩
  · have hle := span_le yearRangeStart (d.year - yearRangeStart)
    have hyd := hd.yearday
    have hl := leapDay_le d.year
    have hday := hd.day.1
    have hhour := hd.hour
    have hmin := hd.minute
    have hsec := hd.second
    have h32 : secondsOf d < 2 ^ 32 := by
      simp only [secondsOf, secondsInADay, secondsInAHour, secondsInAMinute, daysInAYear,
        yearRangeStart, yearRangeEnd] at *
      omega
    have h16 : d.year < 2 ^ 16 := by
      rw [yearRangeEnd] at hend
      omega
    have he := rtcDataToSecond_eq hd hy h16 h32
    rw [he]
    exact ⟨rtcSecondToDate_secondsOf month hd hy h16, rfl, h32⟩

/-- The last second of a word, and a leap day. -/
theorem rtcSecondToDate_inverse_ends :
    rtcDataToSecond (rtcSecondToDate 0 (2 ^ 32 - 1)) = 2 ^ 32 - 1 ∧
    rtcSecondToDate 0 (rtcDataToSecond ⟨2000, 2, 29, 23, 59, 59⟩) = ⟨2000, 2, 29, 23, 59, 59⟩ :=
  ⟨((rtcSecondToDate_inverse 0).1 (2 ^ 32 - 1) (by decide)).2.1,
    ((rtcSecondToDate_inverse 0).2 ⟨2000, 2, 29, 23, 59, 59⟩
      ⟨by decide, by decide, by decide, by decide, by decide⟩ (by decide) (by decide)).1⟩

/-! ## The running counter -/

def rtcGetSeconds (lpsrtcmr lpsrtclr : Nat) : Nat :=
  (lpsrtcmr <<< 17) % 2 ^ 32 ||| lpsrtclr >>> 15

/-- What the registers show of a count: the 15 high bits of the 47. -/
def lpsrtcmr (count : Nat) : Nat := count / 2 ^ 32 % 2 ^ 15
def lpsrtclr (count : Nat) : Nat := count % 2 ^ 32

/-- The order of the two reads, which C leaves to the compiler. -/
inductive Order where
  | highFirst
  | lowFirst
deriving DecidableEq

/-- The seconds read from a counter that starts at `c` and advances by `a` between the reads. -/
def reading : Order → Nat → Nat → Nat
  | .highFirst, c, a => rtcGetSeconds (lpsrtcmr c) (lpsrtclr (c + a))
  | .lowFirst, c, a => rtcGetSeconds (lpsrtcmr (c + a)) (lpsrtclr c)

/-- The seconds lie between those of the first and those of the last read. -/
def Untorn (o : Order) (c a : Nat) : Prop :=
  c / 2 ^ 15 ≤ reading o c a ∧ reading o c a ≤ (c + a) / 2 ^ 15

/-- The seconds in the low register are not behind at the second read. -/
def LowForward (c a : Nat) : Prop :=
  lpsrtclr c / 2 ^ 15 ≤ lpsrtclr (c + a) / 2 ^ 15

/--
The carry between the reads does no harm. A counter that ran around shows in its high register
where it started at least.
-/
def Steady (o : Order) (c a : Nat) : Prop :=
  match o with
  | .highFirst => LowForward c a
  | .lowFirst => if c + a < 2 ^ 47 then LowForward c a else lpsrtcmr c ≤ lpsrtcmr (c + a)

/-- The two parts do not overlap. -/
lemma rtcGetSeconds_eq (c d : Nat) :
    rtcGetSeconds (lpsrtcmr c) (lpsrtclr d) = lpsrtcmr c * 2 ^ 17 + lpsrtclr d / 2 ^ 15 := by
  have hm : lpsrtcmr c < 2 ^ 15 := Nat.mod_lt _ (by decide)
  have hl : lpsrtclr d < 2 ^ 32 := Nat.mod_lt _ (by decide)
  rw [rtcGetSeconds, Nat.mod_eq_of_lt (by rw [Nat.shiftLeft_eq]; omega), Nat.shiftRight_eq_div_pow,
    ← Nat.shiftLeft_add_eq_or_of_lt (by omega), Nat.shiftLeft_eq]

/-- A reading of the running counter is right exactly where no carry tears it. -/
theorem rtcGetSeconds_untorn_iff (o : Order) {c : Nat} (a : Nat) (hc : c < 2 ^ 47) :
    Untorn o c a ↔ Steady o c a := by
  cases o with
  | highFirst =>
    rw [Untorn, reading, rtcGetSeconds_eq, Steady]
    simp only [LowForward, lpsrtcmr, lpsrtclr]
    omega
  | lowFirst =>
    rw [Untorn, reading, rtcGetSeconds_eq, Steady]
    simp only [LowForward, lpsrtcmr, lpsrtclr]
    split <;> omega

/-- A counter that gets on to the next second. -/
theorem rtcGetSeconds_untorn_iff_tick :
    Untorn .highFirst (2 ^ 15 - 1) 1 ↔ Steady .highFirst (2 ^ 15 - 1) 1 :=
  rtcGetSeconds_untorn_iff .highFirst 1 (by decide)

/-- One tick before the carry the reading jumps, in either order. -/
theorem rtcGetSeconds_torn :
    (¬ ∀ c a, c < 2 ^ 47 → Untorn .highFirst c a) ∧
    (¬ ∀ c a, c < 2 ^ 47 → Untorn .lowFirst c a) := by
  refine ⟨fun h => ?_, fun h => ?_⟩
  · have hcarry := h (2 ^ 32 - 1) 1 (by decide)
    exact absurd hcarry.1 (by decide)
  · have hcarry := h (2 ^ 32 - 1) 1 (by decide)
    exact absurd hcarry.2 (by decide)

end Imx.Bsp.Rtc
