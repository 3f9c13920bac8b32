import Mathlib
import Imx.Base.Run

/-!
# Debouncing the key of the bare-metal board

Model of `bsp/key_filter/key_filter.c` on the board it drives: the pin of the key, the counter it
uses once for each press, and the two interrupt lines. Ticks, changes of the level and the dispatch
of a pending handler come in any order. The status bit of the counter survives a restart, so that
an edge handler that runs while the bit is set lets the old expiry count for the new press.
-/

namespace Imx.Bsp.KeyFilter

open Imx.Base

/-- The fields of the registers of `EPIT1` that are used. -/
structure Epit where
  rld : Bool
  ocien : Bool
  enmod : Bool
  en : Bool
  lr : Nat
  cmpr : Nat
  cnt : Nat
  sr : Bool
deriving DecidableEq

/-- The pin of the key: its level, and the bits of the mask and the status register. -/
structure Gpio where
  high : Bool
  imr : Bool
  isr : Bool
deriving DecidableEq

/-- The board, with the static `state` of the timer handler and the output of the beeper. -/
structure Board where
  epit : Epit
  gpio : Gpio
  state : Bool
  beep : Bool
  /-- The ticks so far. -/
  now : Nat
  /-- When the edge handler was dispatched last. -/
  edgeAt : Option Nat
  /-- The beeper was toggled since. -/
  answered : Bool
deriving DecidableEq

/-! ## The hardware -/

/-- A counter that is enabled counts down, is loaded behind 0 and sets its status bit. -/
def Epit.tick (e : Epit) : Epit :=
  if e.en then
    let cnt := if e.cnt = 0 then (if e.rld then e.lr else 2 ^ 32 - 1) else e.cnt - 1
    { e with cnt, sr := e.sr || cnt == e.cmpr }
  else e

/-- `CR |= 1`. -/
def Epit.enable (e : Epit) : Epit :=
  { e with en := true, cnt := if e.enmod then e.lr else e.cnt }

/-- A falling edge is latched. -/
def Gpio.setLevel (g : Gpio) (high : Bool) : Gpio :=
  { g with high, isr := g.isr || (g.high && !high) }

/-! ## The source -/

def keyFilterTimerInit (val : Nat) (e : Epit) : Epit :=
  { e with rld := true, ocien := true, enmod := true, en := false, lr := val, cmpr := 0 }

def keyFilterTimerStop (e : Epit) : Epit := { e with en := false }

def keyFilterTimerStart (val : Nat) (e : Epit) : Epit :=
  let e := { e with en := false }
  let e := { e with lr := val }
  e.enable

def beepSwitch (action : Bool) (b : Board) : Board := { b with beep := action }

def keyFilterTimerIrqHandler (b : Board) : Board :=
  let b :=
    if b.epit.sr then
      let b := { b with epit := keyFilterTimerStop b.epit }
      if b.gpio.high = false then
        let b := { b with state := !b.state, answered := true }
        beepSwitch b.state b
      else b
    else b
  { b with epit := { b.epit with sr := false } }

def gpio1_16_31IrqHandler (b : Board) : Board :=
  { b with
    epit := keyFilterTimerStart (66000000 / 100) b.epit
    gpio := { b.gpio with isr := false }
    edgeAt := some b.now
    answered := false }

/-- The board behind `key_filter_init`, at any level and with or without an edge latched before. -/
def keyFilterInit (high isr : Bool) : Board where
  epit := keyFilterTimerInit (66000000 / 100)
    { rld := false, ocien := false, enmod := false, en := false, lr := 2 ^ 32 - 1, cmpr := 0,
      cnt := 2 ^ 32 - 1, sr := false }
  gpio := { high, imr := true, isr }
  state := false
  beep := false
  now := 0
  edgeAt := none
  answered := false

/-! ## Runs -/

inductive Action where
  | tick
  | level (high : Bool)
  | edgeIrq
  | timerIrq
deriving DecidableEq

/-- A handler is dispatched if its line is up. -/
def step (b : Board) : Action → Board
  | .tick => { b with epit := b.epit.tick, now := b.now + 1 }
  | .level high => { b with gpio := b.gpio.setLevel high }
  | .edgeIrq => if b.gpio.isr && b.gpio.imr then gpio1_16_31IrqHandler b else b
  | .timerIrq => if b.epit.sr && b.epit.ocien then keyFilterTimerIrqHandler b else b

/--
The beeper is toggled by the timer handler only, with the pin low, 10 ms or more behind the last
edge handler, and for the first time since.
-/
def Stable (b : Board) (a : Action) : Prop :=
  (step b a).beep ≠ b.beep →
    a = .timerIrq ∧ b.gpio.high = false ∧ b.answered = false ∧
      ∃ edge, b.edgeAt = some edge ∧ edge + 66000000 / 100 ≤ b.now

/-- No edge handler runs while the status bit of the counter is set. -/
def Fresh (b : Board) (a : Action) : Prop :=
  a = .edgeIrq → (b.gpio.isr && b.gpio.imr) = true → b.epit.sr = false

instance (b : Board) (a : Action) : Decidable (Fresh b a) :=
  inferInstanceAs (Decidable (_ → _ → _))

/-- What is left to count when the counter runs or has run out: the rest of the full count. -/
structure Armed (b : Board) (edge : Nat) : Prop where
  edgeAt : b.edgeAt = some edge
  answered : b.answered = false
  counting : b.epit.sr = false → 0 < b.epit.cnt ∧ edge + 66000000 / 100 ≤ b.now + b.epit.cnt
  expired : b.epit.sr = true → edge + 66000000 / 100 ≤ b.now

/-- The invariant of runs in which the status bit is always the one of the last press. -/
structure Inv (b : Board) : Prop where
  enmod : b.epit.enmod = true
  cmpr : b.epit.cmpr = 0
  beep : b.beep = b.state
  armed : b.epit.en = true ∨ b.epit.sr = true → ∃ edge, Armed b edge

lemma Inv.init (high isr : Bool) : Inv (keyFilterInit high isr) where
  enmod := rfl
  cmpr := rfl
  beep := rfl
  armed := by
    intro h
    simp [keyFilterInit, keyFilterTimerInit] at h

/-- A tick counts. -/
lemma Inv.tick {b : Board} (h : Inv b) : Inv (step b .tick) := by
  by_cases hen : b.epit.en = true
  case neg =>
    have hstep : step b .tick = { b with now := b.now + 1 } := by simp [step, Epit.tick, hen]
    rw [hstep]
    refine ⟨h.enmod, h.cmpr, h.beep, fun hen' => ?_⟩
    obtain ⟨edge, ha⟩ := h.armed hen'
    exact ⟨edge, ha.edgeAt, ha.answered, fun hsr => by have := ha.counting hsr; simp; omega,
      fun hsr => by have := ha.expired hsr; simp; omega⟩
  case pos =>
    obtain ⟨edge, ha⟩ := h.armed (.inl hen)
    have hcmpr := h.cmpr
    refine ⟨by simpa [step, Epit.tick, hen] using h.enmod,
      by simpa [step, Epit.tick, hen] using h.cmpr, h.beep, fun _ => ⟨edge, ha.edgeAt, ha.answered,
      fun hsr => ?_, fun hsr => ?_⟩⟩
    · simp only [step, Epit.tick, hen, if_true, hcmpr, Bool.or_eq_false_iff, beq_eq_false_iff_ne]
        at hsr ⊢
      have hcount := ha.counting hsr.1
      rw [if_neg (by omega)] at hsr ⊢
      omega
    · simp only [step, Epit.tick, hen, if_true, hcmpr, Bool.or_eq_true, beq_iff_eq] at hsr ⊢
      cases hold : b.epit.sr with
      | true =>
        have := ha.expired hold
        omega
      | false =>
        have hcount := ha.counting hold
        simp only [hold, Bool.false_eq_true, false_or] at hsr
        rw [if_neg (by omega)] at hsr
        omega

/-- The edge handler starts a full count. -/
lemma Inv.edgeIrq {b : Board} (h : Inv b) (hfresh : Fresh b .edgeIrq) : Inv (step b .edgeIrq) := by
  simp only [step]
  split
  case isTrue hline =>
    have hsr := hfresh rfl hline
    refine ⟨h.enmod, h.cmpr, h.beep, fun _ => ⟨b.now, rfl, rfl, fun _ => ?_, fun hset => ?_⟩⟩
    · simp [gpio1_16_31IrqHandler, keyFilterTimerStart, Epit.enable, h.enmod]
    · exact absurd hset (by simp [gpio1_16_31IrqHandler, keyFilterTimerStart, Epit.enable, hsr])
  case isFalse => exact h

/-- The timer handler leaves the counter off. -/
lemma Inv.timerIrq {b : Board} (h : Inv b) : Inv (step b .timerIrq) := by
  simp only [step]
  split
  case isTrue hline =>
    have hsr : b.epit.sr = true := by simp at hline; exact hline.1
    cases hhigh : b.gpio.high with
    | true =>
      refine ⟨?_, ?_, ?_, fun hoff => ?_⟩
      all_goals simp_all [keyFilterTimerIrqHandler, keyFilterTimerStop, h.enmod, h.cmpr, h.beep]
    | false =>
      refine ⟨?_, ?_, ?_, fun hoff => ?_⟩
      all_goals
        simp_all [keyFilterTimerIrqHandler, keyFilterTimerStop, beepSwitch, h.enmod, h.cmpr]
  case isFalse => exact h

/-- Every step of a fresh run keeps the invariant. -/
lemma Inv.step {b : Board} (h : Inv b) (a : Action) (hfresh : Fresh b a) : Inv (step b a) := by
  cases a with
  | tick => exact h.tick
  | level high =>
    refine ⟨h.enmod, h.cmpr, h.beep, fun harm => ?_⟩
    obtain ⟨edge, ha⟩ := h.armed harm
    exact ⟨edge, ha.edgeAt, ha.answered, ha.counting, ha.expired⟩
  | edgeIrq => exact h.edgeIrq hfresh
  | timerIrq => exact h.timerIrq

/-- Under the invariant the beeper is toggled for a stable press only. -/
lemma Inv.stable {b : Board} (h : Inv b) (a : Action) : Stable b a := by
  intro hbeep
  cases a with
  | tick => exact absurd rfl hbeep
  | level high => exact absurd rfl hbeep
  | edgeIrq =>
    simp only [KeyFilter.step] at hbeep
    split at hbeep
    · exact absurd rfl hbeep
    · exact absurd rfl hbeep
  | timerIrq =>
    simp only [KeyFilter.step] at hbeep
    split at hbeep
    case isFalse => exact absurd rfl hbeep
    case isTrue hline =>
      have hsr : b.epit.sr = true := by simp at hline; exact hline.1
      obtain ⟨edge, ha⟩ := h.armed (.inr hsr)
      refine ⟨rfl, ?_, ha.answered, edge, ha.edgeAt, ha.expired hsr⟩
      cases hhigh : b.gpio.high with
      | true => exact absurd (by simp [keyFilterTimerIrqHandler, hsr, hhigh]) hbeep
      | false => rfl

/--
In every run in which no edge handler runs while the status bit of the counter is set, the beeper is
toggled for stable presses only, and once for each.
-/
theorem keyFilter_stable (high isr : Bool) {as : List Action}
    (run : Along Fresh step (keyFilterInit high isr) as) :
    Along Stable step (keyFilterInit high isr) as :=
  run.guarantee (Inv.init high isr) fun _ a h hfresh => ⟨h.stable a, h.step a hfresh⟩

/-- A press, the edge handler and a tick. -/
theorem keyFilter_stable_press :
    Along Stable step (keyFilterInit true false) [.level false, .edgeIrq, .tick, .timerIrq] :=
  keyFilter_stable true false (by decide)

/-- The board after ticks that only count. -/
def lapse (n : Nat) (b : Board) : Board :=
  { b with epit := { b.epit with cnt := b.epit.cnt - n }, now := b.now + n }

/-- A counter that runs counts the ticks down to 1. -/
lemma ticks_eq {b : Board} (hen : b.epit.en = true) (hcmpr : b.epit.cmpr = 0) {n : Nat}
    (h : n < b.epit.cnt) : (List.replicate n Action.tick).foldl step b = lapse n b := by
  induction n generalizing b with
  | zero => rfl
  | succ n ih =>
    have hstep : step b .tick = lapse 1 b := by
      have hcnt : b.epit.cnt - 1 ≠ 0 := by omega
      simp [step, lapse, Epit.tick, hen, hcmpr, hcnt, show b.epit.cnt ≠ 0 by omega]
    have hone : n < (lapse 1 b).epit.cnt := by
      simp only [lapse]
      omega
    rw [List.replicate_succ, List.foldl_cons, hstep, @ih (lapse 1 b) hen hcmpr hone]
    simp only [lapse, Board.mk.injEq, Epit.mk.injEq, true_and, and_true]
    omega

/-- A press that bounces when its 10 ms are over, before the timer handler is dispatched. -/
def bounce : List Action :=
  ([Action.level false, .edgeIrq] ++ List.replicate 659999 Action.tick) ++
    [Action.tick, .level true, .level false, .edgeIrq, .timerIrq]

/-- The bounce is taken for a press at once. -/
theorem keyFilter_not_stable :
    ¬ ∀ high isr as, Along Stable step (keyFilterInit high isr) as := by
  intro h
  have run := (Along.append.1 (h true false bounce)).2
  rw [List.foldl_append, ticks_eq rfl rfl (by decide)] at run
  obtain ⟨-, -, -, -, hstable, -⟩ := run
  obtain ⟨-, -, -, edge, hedge, hle⟩ := hstable (by decide)
  obtain rfl := Option.some.inj hedge
  exact absurd hle (by decide)

end Imx.Bsp.KeyFilter
