import Mathlib

/-!
# Delays on the bare-metal board

Model of `delay_us` and `delay_ms` of `bsp/delay/delay.c`. The true time counts the ticks of the
timer, and a read of `GPT1->CNT` shows its 32 low bits. A run of the loop is given by the true times
`t 0, t 1, ...` of its reads, the first of which is the one before the loop. The formula for a wrap
of the counter counts a tick too few, so the delay is exact where it meets none.
-/

namespace Imx.Bsp.Delay

/-- `GPT1->CNT` at a true time. -/
def cnt (time : Nat) : Nat := time % 2 ^ 32

/-- The reads come one after the other, less than a turn of the counter apart. -/
structure Reads (t : Nat → Nat) : Prop where
  mono : Monotone t
  gap : ∀ k, t (k + 1) < t k + 2 ^ 32

/-- The variables of `delay_us`, and whether its loop was left. -/
structure DelayUs where
  cntOld : Nat
  time : Nat
  done : Bool
deriving DecidableEq

/-- The body of the loop, with what it reads. -/
def turn (us cntNew : Nat) (s : DelayUs) : DelayUs :=
  if cntNew ≠ s.cntOld then
    let time :=
      if s.cntOld < cntNew then (s.time + (cntNew - s.cntOld)) % 2 ^ 64
      else (s.time + (0xFFFFFFFF - s.cntOld + cntNew)) % 2 ^ 64
    { cntOld := cntNew, time, done := us ≤ time }
  else s

/-- `delay_us` after `k` turns. -/
def delayUs (us : Nat) (t : Nat → Nat) : Nat → DelayUs
  | 0 => { cntOld := cnt (t 0), time := 0, done := false }
  | k + 1 =>
    let s := delayUs us t k
    if s.done then s else turn us (cnt (t (k + 1))) s

/-- The loop is left at a read. -/
def Ends (us : Nat) (t : Nat → Nat) (k : Nat) : Prop :=
  (delayUs us t k).done = true ∧ ∀ j < k, (delayUs us t j).done = false

/-- The calls `delay_ms` makes, from one true time to another. -/
inductive DelayMs : Nat → Nat → Nat → Prop
  | zero (a : Nat) : DelayMs 0 a a
  | succ {ms a b : Nat} {t : Nat → Nat} {k : Nat} (calls : DelayMs ms a b) (reads : Reads t)
    (later : b ≤ t 0) (ends : Ends 1000 t k) : DelayMs (ms + 1) a (t k)

/-! ## True time -/

/-- The counter has advanced since the last read, and `us` ticks have passed since the first. -/
def Due (us : Nat) (t : Nat → Nat) (k : Nat) : Prop :=
  0 < k ∧ t (k - 1) < t k ∧ us ≤ t k - t 0

instance (us : Nat) (t : Nat → Nat) (k : Nat) : Decidable (Due us t k) :=
  inferInstanceAs (Decidable (_ ∧ _ ∧ _))

/-- The time is the true one as long as the loop runs, which ends at the first read that is due. -/
structure Right (us : Nat) (t : Nat → Nat) : Prop where
  time : ∀ k, (∀ j < k, (delayUs us t j).done = false) → (delayUs us t k).time = t k - t 0
  ends : ∀ k, Ends us t k ↔ Due us t k ∧ ∀ j < k, ¬ Due us t j

/-- The counter does not wrap before a read is due. -/
def NoWrap (us : Nat) (t : Nat → Nat) : Prop :=
  ∀ k, (∀ j ≤ k, ¬ Due us t j) → t (k + 1) / 2 ^ 32 = t k / 2 ^ 32

variable {us : Nat} {t : Nat → Nat} {s : DelayUs} {k : Nat}

lemma Reads.step (hr : Reads t) (k : Nat) : t k ≤ t (k + 1) := hr.mono (Nat.le_succ k)

lemma Reads.start (hr : Reads t) (k : Nat) : t 0 ≤ t k := hr.mono (Nat.zero_le k)

/-- Before a read is due, the time since the first is short. -/
lemma short_of_not_due (h : ∀ j ≤ k, ¬ Due us t j) : t k - t 0 ≤ us := by
  induction k with
  | zero => simp
  | succ k ih =>
    have hlast := h (k + 1) (Nat.le_refl _)
    have hk := ih fun j hj => h j (by omega)
    simp only [Due, Nat.add_sub_cancel] at hlast
    omega

/-- A turn without a wrap adds what has passed. -/
lemma turn_forward (hr : Reads t) (hus : us < 2 ^ 32) (hold : s.cntOld = cnt (t k))
    (htime : s.time = t k - t 0) (hle : s.time ≤ us) (hdone : s.done = false)
    (hw : t (k + 1) / 2 ^ 32 = t k / 2 ^ 32) :
    turn us (cnt (t (k + 1))) s =
      ⟨cnt (t (k + 1)), t (k + 1) - t 0, decide (Due us t (k + 1))⟩ := by
  have hk := hr.step k
  have h0 := hr.start k
  simp only [Due, Nat.add_sub_cancel]
  by_cases hsame : t k = t (k + 1)
  · rw [turn, hold, hsame, if_neg (by simp)]
    cases s
    simp only [DelayUs.mk.injEq] at *
    refine ⟨by rw [hold, hsame], by omega, ?_⟩
    rw [hdone, eq_comm, decide_eq_false_iff_not]
    omega
  · have hlt : cnt (t k) < cnt (t (k + 1)) := by
      simp only [cnt]
      omega
    have hadd : (s.time + (cnt (t (k + 1)) - cnt (t k))) % 2 ^ 64 = t (k + 1) - t 0 := by
      simp only [cnt] at *
      omega
    rw [turn, hold, if_pos (by omega)]
    simp only [if_pos hlt, hadd, DelayUs.mk.injEq, true_and, decide_eq_decide]
    omega

/-- A turn with a wrap adds a tick too few. -/
lemma turn_wrap (hr : Reads t) (hold : s.cntOld = cnt (t k)) (hle : s.time < 2 ^ 32)
    (hw : t (k + 1) / 2 ^ 32 ≠ t k / 2 ^ 32) :
    (turn us (cnt (t (k + 1))) s).time + 1 = s.time + (t (k + 1) - t k) := by
  have hk := hr.step k
  have hgap := hr.gap k
  have hback : cnt (t (k + 1)) < cnt (t k) := by
    simp only [cnt]
    omega
  rw [turn, hold, if_pos (by omega), if_neg (by omega)]
  simp only [cnt] at *
  omega

/-- Until a read is due or the counter wraps, the loop keeps the true time. -/
lemma delayUs_exact (hr : Reads t) (hus : us < 2 ^ 32) (hdue : ∀ j < k, ¬ Due us t j)
    (hw : ∀ j < k, t (j + 1) / 2 ^ 32 = t j / 2 ^ 32) :
    delayUs us t k = ⟨cnt (t k), t k - t 0, decide (Due us t k)⟩ := by
  induction k with
  | zero => simp [delayUs, Due]
  | succ k ih =>
    have hk := ih (fun j hj => hdue j (by omega)) fun j hj => hw j (by omega)
    have hlast : decide (Due us t k) = false := decide_eq_false (hdue k (Nat.lt_succ_self k))
    rw [hlast] at hk
    have hle := @short_of_not_due us t k fun j hj => hdue j (by omega)
    rw [delayUs, hk, if_neg (by simp)]
    exact turn_forward hr hus rfl rfl hle rfl (hw k (Nat.lt_succ_self k))

/-- Without a wrap the loop runs as long as no read is due. -/
lemma running_iff (hr : Reads t) (hus : us < 2 ^ 32) (hno : NoWrap us t) :
    (∀ j < k, (delayUs us t j).done = false) ↔ ∀ j < k, ¬ Due us t j := by
  induction k with
  | zero => simp
  | succ k ih =>
    simp only [Nat.forall_lt_succ_right]
    constructor
    · rintro ⟨hrun, hlast⟩
      have hdue := ih.1 hrun
      rw [delayUs_exact hr hus hdue fun j hj => hno j fun i hi => hdue i (by omega)] at hlast
      exact ⟨hdue, of_decide_eq_false hlast⟩
    · rintro ⟨hdue, hlast⟩
      refine ⟨ih.2 hdue, ?_⟩
      rw [delayUs_exact hr hus hdue fun j hj => hno j fun i hi => hdue i (by omega)]
      exact decide_eq_false hlast

/-- A loop that meets no wrap keeps the true time and ends in time. -/
lemma right_of_noWrap (hr : Reads t) (hus : us < 2 ^ 32) (hno : NoWrap us t) : Right us t := by
  have hexact : ∀ k, (∀ j < k, ¬ Due us t j) →
      delayUs us t k = ⟨cnt (t k), t k - t 0, decide (Due us t k)⟩ := fun k hdue =>
    delayUs_exact hr hus hdue fun j hj => hno j fun i hi => hdue i (by omega)
  constructor
  case time =>
    intro k hrun
    rw [hexact k ((running_iff hr hus hno).1 hrun)]
  case ends =>
    intro k
    rw [Ends, running_iff hr hus hno]
    refine and_congr_left fun hdue => ?_
    rw [hexact k hdue, decide_eq_true_eq]

/-- A loop that keeps the true time meets no wrap. -/
lemma noWrap_of_right (hr : Reads t) (hus : us < 2 ^ 32) (h : Right us t) : NoWrap us t := by
  intro k
  induction k using Nat.strong_induction_on with
  | _ k ih =>
    intro hdue
    by_contra hw
    have hexact : ∀ j ≤ k, delayUs us t j = ⟨cnt (t j), t j - t 0, false⟩ := by
      intro j hj
      have hj := @delayUs_exact us t j hr hus (fun i hi => hdue i (by omega)) fun i hi =>
        ih i (by omega) fun l hl => hdue l (by omega)
      rwa [decide_eq_false (hdue j (by omega))] at hj
    have hle := short_of_not_due hdue
    have htime := h.time (k + 1) fun j hj => by rw [hexact j (by omega)]
    have hk := hr.step k
    have h0 := hr.start k
    rw [delayUs, hexact k (Nat.le_refl k), if_neg (by simp)] at htime
    have hwrap := @turn_wrap us t ⟨cnt (t k), t k - t 0, false⟩ k hr rfl (by simp; omega) hw
    rw [htime] at hwrap
    simp only at hwrap
    omega

/-- A turn adds no more than what has passed. -/
lemma turn_time_le (hr : Reads t) (hold : s.cntOld = cnt (t k)) (hle : s.time ≤ t k - t 0) :
    (turn us (cnt (t (k + 1))) s).time ≤ t (k + 1) - t 0 ∧
      (turn us (cnt (t (k + 1))) s).cntOld = cnt (t (k + 1)) := by
  have hk := hr.step k
  have h0 := hr.start k
  by_cases hsame : cnt (t (k + 1)) = cnt (t k)
  · rw [turn, hold, if_neg (by simpa using hsame)]
    exact ⟨by omega, by rw [hold, hsame]⟩
  · rw [turn, hold, if_pos hsame]
    refine ⟨?_, rfl⟩
    by_cases hlt : cnt (t k) < cnt (t (k + 1))
    · simp only [if_pos hlt]
      simp only [cnt] at *
      omega
    · simp only [if_neg hlt]
      simp only [cnt] at *
      omega

/-- The time the loop has added up has passed. -/
lemma delayUs_time_le (hr : Reads t) (k : Nat) :
    (delayUs us t k).time ≤ t k - t 0 ∧
      ((delayUs us t k).done = false → (delayUs us t k).cntOld = cnt (t k)) := by
  induction k with
  | zero => simp [delayUs]
  | succ k ih =>
    obtain ⟨htime, hold⟩ := ih
    have hk := hr.step k
    rw [delayUs]
    by_cases hdone : (delayUs us t k).done = true
    · rw [if_pos hdone]
      exact ⟨by omega, fun h => absurd h (by simp [hdone])⟩
    · rw [if_neg hdone]
      have hturn := @turn_time_le us t _ k hr (hold (by simpa using hdone)) htime
      exact ⟨hturn.1, fun _ => hturn.2⟩

/-- A loop is left with the time added up. -/
lemma Ends.le (h : Ends us t k) : us ≤ (delayUs us t k).time := by
  obtain ⟨hdone, hrun⟩ := h
  cases k with
  | zero => simp [delayUs] at hdone
  | succ k =>
    have hlast := hrun k (Nat.lt_succ_self k)
    rw [delayUs, if_neg (by simp [hlast]), turn] at hdone ⊢
    split at hdone
    · rw [if_pos ‹_›]
      exact of_decide_eq_true hdone
    · exact absurd hdone (by simp [hlast])

lemma Ends.passed (h : Ends us t k) (hr : Reads t) : us ≤ t k - t 0 :=
  le_trans h.le (delayUs_time_le hr k).1

/-- A delay of milliseconds is never too short. -/
lemma DelayMs.le {ms a b : Nat} (h : DelayMs ms a b) : a + 1000 * ms ≤ b := by
  induction h with
  | zero => simp
  | @succ ms a b t k calls reads later ends ih =>
    have hpassed := ends.passed reads
    calc a + 1000 * (ms + 1) = a + 1000 * ms + 1000 := by rw [Nat.mul_succ, Nat.add_assoc]
      _ ≤ t 0 + 1000 := Nat.add_le_add_right (le_trans ih later) 1000
      _ ≤ t k := by omega

/--
The time of `delay_us` is the true one, and its loop ends where it should, exactly where the counter
does not wrap in it. A delay of milliseconds is as long as it should be even then.
-/
theorem delayUs_right_iff {us : Nat} {t : Nat → Nat} (hus : us < 2 ^ 32) (hr : Reads t) :
    (Right us t ↔ NoWrap us t) ∧ ∀ ms a b, DelayMs ms a b → a + 1000 * ms ≤ b :=
  ⟨⟨noWrap_of_right hr hus, right_of_noWrap hr hus⟩, fun _ _ _ h => h.le⟩

/-- The counter read at regular times, from a start. -/
def ticks (start apart : Nat) (k : Nat) : Nat := start + apart * k

lemma ticks_reads (start : Nat) {apart : Nat} (h : apart < 2 ^ 32) : Reads (ticks start apart) :=
  ⟨fun _ _ hk => Nat.add_le_add_left (Nat.mul_le_mul_left apart hk) start,
    fun k => by simp only [ticks, Nat.mul_succ]; omega⟩

/-- From a counter that stands at 0, one tick is waited for, or a thousand. -/
theorem delayUs_right_iff_ticks :
    (Right 1 (ticks 0 1) ↔ NoWrap 1 (ticks 0 1)) ∧ 0 + 1000 * 1 ≤ ticks 0 1000 1 :=
  (delayUs_right_iff (by decide) (ticks_reads 0 (by decide))).imp_right fun delayMs_le =>
    delayMs_le 1 0 (ticks 0 1000 1)
      (.succ (.zero 0) (ticks_reads 0 (by decide)) (Nat.zero_le _) ⟨by decide, by decide⟩)

/-- A delay of one tick at the wrap waits for two. -/
theorem delayUs_not_right :
    ¬ ∀ us t, us < 2 ^ 32 → Reads t → Right us t := by
  intro h
  have hr := h 1 (ticks (2 ^ 32 - 1) 1) (by decide) (ticks_reads _ (by decide))
  have htime := hr.time 1 fun j hj => by
    obtain rfl : j = 0 := by omega
    rfl
  exact absurd htime (by decide)

end Imx.Bsp.Delay
