import Mathlib.Data.List.Chain
import Imx.Time.Div64

/-!
# Keeping time

Model of `lib/time.c` without `CONFIG_TIMER`, with an `unsigned long` of 32 bits. The timer counts
the low 32 bits of the ticks. `Exact` says what the functions are for at one read of it, after the
earlier ones: the count of ticks is the true one, a delay is not too short, and the microseconds are
those of the ticks. The count is multiplied before it is divided, in 64 bits, and what is lost there
is known: `timerGetUs_iff`.
-/

namespace Imx.Time

def configSysHz : BitVec 64 := 1000

/-- The fields of `gd` the count of ticks is made up of. -/
structure Gd where
  timebaseH : BitVec 32
  timebaseL : BitVec 32

/-- What the hardware shows when `t` ticks have passed. -/
def timerReadCounter (t : Nat) : BitVec 32 := BitVec.ofNat 32 t

def getTicks (now : BitVec 32) (gd : Gd) : BitVec 64 × Gd :=
  -- increment tbu if tbl has rolled over
  let h := if now < gd.timebaseL then gd.timebaseH + 1 else gd.timebaseH
  ((h.setWidth 64 <<< 32) ||| now.setWidth 64, ⟨h, now⟩)

def tickToTime (tbclk : BitVec 32) (tick : BitVec 64) : BitVec 64 :=
  BitVec.ofNat 64 (doDiv (tick * configSysHz).toNat tbclk.toNat)

def timerGetUs (tbclk now : BitVec 32) (gd : Gd) : BitVec 32 × Gd :=
  let r := getTicks now gd
  ((tickToTime tbclk (r.1 * 1000)).setWidth 32, r.2)

def usecToTick (tbclk usec : BitVec 32) : BitVec 64 :=
  BitVec.ofNat 64 (doDiv (usec.setWidth 64 * tbclk.setWidth 64).toNat 1000000)

/-- The loop of `__udelay`, which reads the timer when the ticks of the list have passed. It returns
when the last of these reads was, and `none` if it is still waiting. -/
def delayLoop (tmp : BitVec 64) : List Nat → Gd → Option (Nat × Gd)
  | [], _ => none
  | t :: ts, gd =>
    let r := getTicks (timerReadCounter t) gd
    if r.1 < tmp + 1 then delayLoop tmp ts r.2 else some (t, r.2)

/-- C `__udelay`, which reads the timer for the first time when `t` ticks have passed. -/
def udelay (tbclk usec : BitVec 32) (t : Nat) (ts : List Nat) (gd : Gd) : Option (Nat × Gd) :=
  let r := getTicks (timerReadCounter t) gd
  delayLoop (r.1 + usecToTick tbclk usec) ts r.2

/-- What `get_ticks` returns, read by read. -/
def counts : Gd → List Nat → List (BitVec 64)
  | _, [] => []
  | gd, t :: ts =>
    let r := getTicks (timerReadCounter t) gd
    r.1 :: counts r.2 ts

/-- The state after the reads. -/
def after (gd : Gd) (ts : List Nat) : Gd :=
  ts.foldl (fun gd t => (getTicks (timerReadCounter t) gd).2) gd

def start : Gd := ⟨0, 0⟩

/-- The timer is read at `t` after the earlier reads: the first read is in time, and so is each one
after another. -/
inductive Sampled : List Nat → Nat → Prop where
  | first {t} :
    t < 2 ^ 32 →
    Sampled [] t
  | next {ts t t'} :
    Sampled ts t →
    t ≤ t' →
    t' ≤ t + 2 ^ 32 →
    Sampled (ts ++ [t]) t'

/-- No two reads are one turn of the timer apart. -/
def NoLap : List Nat → Prop := List.IsChain fun t t' => t' ≠ t + 2 ^ 32

/-- The functions are exact at the read at `t`. -/
structure Exact (tbclk usec : BitVec 32) (earlier : List Nat) (t : Nat) : Prop where
  ticks : counts start (earlier ++ [t]) = (earlier ++ [t]).map (BitVec.ofNat 64)
  delay : ∀ ts, List.IsChain (· ≤ ·) (t :: ts) → ∀ t' gd,
    udelay tbclk usec t ts (after start earlier) = some (t', gd) →
      usec.toNat * tbclk.toNat / 10 ^ 6 < t' - t
  us : t < 2 ^ 63 → (timerGetUs tbclk (timerReadCounter t) (after start earlier)).1 =
    BitVec.ofNat 32 (t * 10 ^ 6 / tbclk.toNat)

/-! ## The count -/

/-- The count that is saved. -/
def Gd.value (gd : Gd) : Nat := gd.timebaseH.toNat * 2 ^ 32 + gd.timebaseL.toNat

variable {gd : Gd} {tbclk usec : BitVec 32} {t t' u : Nat} {ts earlier : List Nat}

lemma getTicks_value (now : BitVec 32) (gd : Gd) :
    (getTicks now gd).1.toNat = (getTicks now gd).2.value := by
  rw [getTicks, Gd.value]
  generalize (if now < gd.timebaseL then gd.timebaseH + 1 else gd.timebaseH) = h
  have high : (h.setWidth 64 <<< 32).toNat = 2 ^ 32 * h.toNat := by
    rw [BitVec.toNat_shiftLeft, BitVec.toNat_setWidth, Nat.shiftLeft_eq]
    have lt := h.isLt
    omega
  have low : (now.setWidth 64).toNat = now.toNat := by
    rw [BitVec.toNat_setWidth]
    have lt := now.isLt
    omega
  dsimp only
  rw [BitVec.toNat_or, high, low, ← Nat.two_pow_add_eq_or_of_lt now.isLt, Nat.mul_comm]

/-- A read adds the ticks since the last one, without the turns of the timer. -/
lemma getTicks_eq (last : gd.timebaseL = timerReadCounter u) (le : u ≤ t) :
    (getTicks (timerReadCounter t) gd).2.value = (gd.value + (t - u) % 2 ^ 32) % 2 ^ 64 := by
  have lt := gd.timebaseH.isLt
  have l_eq : gd.timebaseL.toNat = u % 2 ^ 32 := by
    rw [last, timerReadCounter, BitVec.toNat_ofNat]
  have now_eq : (timerReadCounter t).toNat = t % 2 ^ 32 := BitVec.toNat_ofNat ..
  rw [getTicks, Gd.value, Gd.value]
  by_cases rolled : timerReadCounter t < gd.timebaseL
  case pos =>
    have less : t % 2 ^ 32 < u % 2 ^ 32 := by
      rw [← l_eq, ← now_eq]
      exact rolled
    rw [if_pos rolled]
    dsimp only
    rw [BitVec.toNat_add, now_eq, l_eq]
    have one : (1 : BitVec 32).toNat = 1 := rfl
    rw [one]
    omega
  case neg =>
    have ge : u % 2 ^ 32 ≤ t % 2 ^ 32 := by
      rw [← l_eq, ← now_eq]
      exact Nat.le_of_not_lt rolled
    rw [if_neg rolled]
    dsimp only
    rw [now_eq, l_eq]
    omega

lemma after_snoc : after gd (ts ++ [t]) = (getTicks (timerReadCounter t) (after gd ts)).2 := by
  rw [after, List.foldl_append]
  rfl

lemma counts_snoc :
    counts gd (ts ++ [t]) =
      counts gd ts ++ [(getTicks (timerReadCounter t) (after gd ts)).1] := by
  induction ts generalizing gd with
  | nil => rfl
  | cons u ts ih => exact congrArg (_ :: ·) ih

lemma noLap_snoc : NoLap (ts ++ [t] ++ [t']) ↔ NoLap (ts ++ [t]) ∧ t' ≠ t + 2 ^ 32 := by
  rw [NoLap, List.isChain_append]
  simp

/-- The value that is saved is the true one, if no turn was missed. -/
lemma Sampled.value (sampled : Sampled earlier t) (noLap : NoLap (earlier ++ [t])) :
    (getTicks (timerReadCounter t) (after start earlier)).2.value = t % 2 ^ 64 := by
  induction sampled with
  | @first t lt =>
    have eq := @getTicks_eq start t 0 rfl (Nat.zero_le t)
    rw [show start.value = 0 from rfl] at eq
    exact eq.trans (by omega)
  | @next ts t t' sampled le ge ih =>
    obtain ⟨before, ne⟩ := noLap_snoc.1 noLap
    have eq := @getTicks_eq (after start (ts ++ [t])) t' t (by rw [after_snoc]; rfl) le
    rw [after_snoc, ih before] at eq
    rw [after_snoc, eq]
    omega

/-- The counts are right exactly if no turn was missed. -/
lemma Sampled.counts_iff (sampled : Sampled earlier t) :
    counts start (earlier ++ [t]) = (earlier ++ [t]).map (BitVec.ofNat 64) ↔
      NoLap (earlier ++ [t]) := by
  induction sampled with
  | @first t lt =>
    refine ⟨fun _ => .singleton t, fun _ => ?_⟩
    have eq := (Sampled.first lt).value (.singleton t)
    refine congrArg (fun x => [x]) (BitVec.eq_of_toNat_eq ?_)
    exact (getTicks_value _ _).trans (eq.trans (BitVec.toNat_ofNat ..).symm)
  | @next ts t t' sampled le ge ih =>
    rw [counts_snoc, List.map_append]
    constructor
    · intro eq
      obtain ⟨before, here⟩ := List.append_inj' eq rfl
      have noLap := ih.1 before
      refine noLap_snoc.2 ⟨noLap, fun lap => ?_⟩
      -- a whole turn is not seen
      have read := congrArg BitVec.toNat (List.cons.inj here).1
      have seen := @getTicks_eq (after start (ts ++ [t])) t' t (by rw [after_snoc]; rfl) le
      rw [getTicks_value, seen, after_snoc, sampled.value noLap, BitVec.toNat_ofNat] at read
      omega
    · intro noLap
      obtain ⟨before, _⟩ := noLap_snoc.1 noLap
      have eq := (sampled.next le ge).value noLap
      have here : (getTicks (timerReadCounter t') (after start (ts ++ [t]))).1 =
          BitVec.ofNat 64 t' :=
        BitVec.eq_of_toNat_eq
          ((getTicks_value _ _).trans (eq.trans (BitVec.toNat_ofNat ..).symm))
      rw [ih.2 before, here]
      rfl

/-! ## Delays -/

lemma usecToTick_eq (tbclk usec : BitVec 32) :
    (usecToTick tbclk usec).toNat = usec.toNat * tbclk.toNat / 10 ^ 6 := by
  have lt := usec.isLt
  have lt' := tbclk.isLt
  have less : usec.toNat * tbclk.toNat < 2 ^ 64 :=
    Nat.lt_of_lt_of_le (Nat.mul_lt_mul'' lt lt') (by decide)
  have product : (usec.setWidth 64 * tbclk.setWidth 64).toNat = usec.toNat * tbclk.toNat := by
    rw [BitVec.toNat_mul, BitVec.toNat_setWidth, BitVec.toNat_setWidth,
      Nat.mod_eq_of_lt (by omega : usec.toNat < 2 ^ 64),
      Nat.mod_eq_of_lt (by omega : tbclk.toNat < 2 ^ 64), Nat.mod_eq_of_lt less]
  rw [usecToTick, BitVec.toNat_ofNat, product, doDiv_eq less (by decide)]
  exact Nat.mod_eq_of_lt (Nat.lt_of_le_of_lt (Nat.div_le_self _ _) less)

/-- The loop ends at a read that is far enough from where the count was `v`, if the count to wait
for does not wrap. -/
lemma delayLoop_spec {tmp : BitVec 64} {v : Nat} {gd' : Gd}
    (last : gd.timebaseL = timerReadCounter u) (le : t ≤ u) (value : gd.value ≤ v + (u - t))
    (lt : tmp.toNat + 1 < 2 ^ 64)
    (chain : List.IsChain (· ≤ ·) (u :: ts)) (ends : delayLoop tmp ts gd = some (t', gd')) :
    tmp.toNat + 1 ≤ v + (t' - t) := by
  induction ts generalizing gd u with
  | nil => cases ends
  | cons a ts ih =>
    obtain ⟨next, chain⟩ := List.isChain_cons_cons.1 chain
    have seen := @getTicks_eq gd a u last next
    have far : (gd.value + (a - u) % 2 ^ 32) % 2 ^ 64 ≤ v + (a - t) := by
      have small := Nat.mod_le (a - u) (2 ^ 32)
      have less := Nat.mod_le (gd.value + (a - u) % 2 ^ 32) (2 ^ 64)
      omega
    rw [delayLoop] at ends
    by_cases wait : (getTicks (timerReadCounter a) gd).1 < tmp + 1
    case pos =>
      rw [if_pos wait] at ends
      exact ih rfl (Nat.le_trans le next) (seen ▸ far) chain ends
    case neg =>
      rw [if_neg wait] at ends
      obtain ⟨rfl, _⟩ := Prod.mk.inj (Option.some.inj ends)
      have ge : (tmp + 1).toNat ≤ (getTicks (timerReadCounter a) gd).1.toNat :=
        Nat.le_of_not_lt wait
      rw [getTicks_value, seen, BitVec.toNat_add, show (1 : BitVec 64).toNat = 1 from rfl,
        Nat.mod_eq_of_lt lt] at ge
      omega

/-- A delay is long enough, whenever the timer is read, exactly if the count to wait for does not
wrap. -/
lemma udelay_iff :
    (∀ ts, List.IsChain (· ≤ ·) (t :: ts) → ∀ t' gd',
      udelay tbclk usec t ts gd = some (t', gd') →
        usec.toNat * tbclk.toNat / 10 ^ 6 < t' - t) ↔
      (getTicks (timerReadCounter t) gd).2.value + usec.toNat * tbclk.toNat / 10 ^ 6 + 1 <
        2 ^ 64 := by
  have ticks := usecToTick_eq tbclk usec
  have first := getTicks_value (timerReadCounter t) gd
  have first_lt := (getTicks (timerReadCounter t) gd).1.isLt
  have ticks_lt := (usecToTick tbclk usec).isLt
  simp only [udelay]
  have last : (getTicks (timerReadCounter t) gd).2.timebaseL = timerReadCounter t := rfl
  have again := @getTicks_eq (getTicks (timerReadCounter t) gd).2 t t rfl (Nat.le_refl t)
  generalize getTicks (timerReadCounter t) gd = r at *
  constructor
  · intro long
    by_contra wraps
    -- the timer is read again at once
    rw [first] at first_lt
    rw [Nat.sub_self, Nat.zero_mod, Nat.add_zero, Nat.mod_eq_of_lt first_lt] at again
    have target : (r.1 + usecToTick tbclk usec + 1).toNat ≤ r.2.value := by
      rw [BitVec.toNat_add, BitVec.toNat_add, first, show (1 : BitVec 64).toNat = 1 from rfl]
      omega
    have done : ¬ (getTicks (timerReadCounter t) r.2).1 < r.1 + usecToTick tbclk usec + 1 := by
      rw [BitVec.lt_def, getTicks_value, again]
      exact Nat.not_lt.2 target
    have soon := long [t] (List.isChain_pair.2 (Nat.le_refl t)) t
      (getTicks (timerReadCounter t) r.2).2 (by rw [delayLoop]; exact if_neg done)
    omega
  · intro lt ts chain t' gd' ends
    have sum : (r.1 + usecToTick tbclk usec).toNat =
        r.2.value + usec.toNat * tbclk.toNat / 10 ^ 6 := by
      rw [BitVec.toNat_add, first, ticks, Nat.mod_eq_of_lt (Nat.lt_of_succ_lt lt)]
    have far := delayLoop_spec (t := t) last (Nat.le_refl t) (Nat.le_add_right _ _)
      (by rw [sum]; exact lt) chain ends
    rw [sum] at far
    omega

/-! ## Microseconds -/

/-- A multiple of `2 ^ 64` is lost without a change of the lower half of a quotient exactly if the
divisor divides that multiple of `2 ^ 32`. -/
lemma div_mod_iff {b k r : Nat} (pos : 0 < b) (lt : b < 2 ^ 32) :
    (2 ^ 64 * k + r) / b % 2 ^ 32 = r / b % 2 ^ 32 ↔ b ∣ 2 ^ 32 * k := by
  constructor
  · intro same
    have le : r / b ≤ (2 ^ 64 * k + r) / b := Nat.div_le_div_right (Nat.le_add_left r _)
    obtain ⟨m, split⟩ : ∃ m, (2 ^ 64 * k + r) / b = r / b + 2 ^ 32 * m :=
      ⟨(2 ^ 64 * k + r) / b / 2 ^ 32 - r / b / 2 ^ 32, by omega⟩
    have whole := Nat.div_add_mod (2 ^ 64 * k + r) b
    have part := Nat.div_add_mod r b
    have whole_lt := Nat.mod_lt (2 ^ 64 * k + r) pos
    have part_lt := Nat.mod_lt r pos
    rw [split, Nat.mul_add, ← Nat.mul_assoc b, Nat.mul_comm b (2 ^ 32), Nat.mul_assoc] at whole
    -- two multiples of `2 ^ 32` that differ by less
    refine ⟨m, ?_⟩
    generalize b * m = x at *
    generalize b * (r / b) = y at *
    omega
  · rintro ⟨m, eq⟩
    have split : 2 ^ 64 * k + r = r + b * (2 ^ 32 * m) := by
      rw [show 2 ^ 64 * k = 2 ^ 32 * (2 ^ 32 * k) by omega, eq, Nat.mul_left_comm, Nat.add_comm]
    rw [split, Nat.add_mul_div_left _ _ pos, Nat.add_mul_mod_self_left]

/-- The microseconds are those of the ticks exactly if the part of the product that does not fit in
64 bits is of no account. -/
lemma timerGetUs_iff (pos : 0 < tbclk.toNat)
    (value : (getTicks (timerReadCounter t) gd).2.value = t % 2 ^ 64) :
    (timerGetUs tbclk (timerReadCounter t) gd).1 = BitVec.ofNat 32 (t * 10 ^ 6 / tbclk.toNat) ↔
      tbclk.toNat ∣ 2 ^ 32 * (t * 10 ^ 6 / 2 ^ 64) := by
  have product : ((getTicks (timerReadCounter t) gd).1 * 1000 * configSysHz).toNat =
      t * 10 ^ 6 % 2 ^ 64 := by
    rw [BitVec.toNat_mul, BitVec.toNat_mul, getTicks_value, value]
    show t % 2 ^ 64 * 1000 % 2 ^ 64 * 1000 % 2 ^ 64 = _
    omega
  have split := Nat.div_add_mod (t * 10 ^ 6) (2 ^ 64)
  have less : t * 10 ^ 6 % 2 ^ 64 < 2 ^ 64 := Nat.mod_lt _ (by decide)
  rw [← div_mod_iff pos tbclk.isLt, split, timerGetUs, tickToTime]
  dsimp only
  rw [product, doDiv_eq less pos]
  generalize t * 10 ^ 6 % 2 ^ 64 = r at *
  have quot_lt : r / tbclk.toNat < 2 ^ 64 := Nat.lt_of_le_of_lt (Nat.div_le_self _ _) less
  constructor
  · intro eq
    have nat := congrArg BitVec.toNat eq
    rw [BitVec.toNat_setWidth, BitVec.toNat_ofNat, BitVec.toNat_ofNat,
      Nat.mod_eq_of_lt quot_lt] at nat
    exact nat.symm
  · intro eq
    refine BitVec.eq_of_toNat_eq ?_
    rw [BitVec.toNat_setWidth, BitVec.toNat_ofNat, BitVec.toNat_ofNat, Nat.mod_eq_of_lt quot_lt]
    exact eq.symm

/-- At one read of the timer all is exact exactly if no turn of the timer was missed, the count to
wait for does not wrap, and what is lost of the product is of no account. -/
theorem exact_iff (tbclk usec : BitVec 32) (pos : 0 < tbclk.toNat) (earlier : List Nat) (t : Nat)
    (sampled : Sampled earlier t) :
    Exact tbclk usec earlier t ↔
      NoLap (earlier ++ [t]) ∧
      t % 2 ^ 64 + usec.toNat * tbclk.toNat / 10 ^ 6 + 1 < 2 ^ 64 ∧
      (t < 2 ^ 63 → tbclk.toNat ∣ 2 ^ 32 * (t * 10 ^ 6 / 2 ^ 64)) := by
  constructor
  · rintro ⟨ticks, delay, us⟩
    have noLap := sampled.counts_iff.1 ticks
    have value := sampled.value noLap
    have room := udelay_iff.1 delay
    rw [value] at room
    exact ⟨noLap, room, fun lt => (timerGetUs_iff pos value).1 (us lt)⟩
  · rintro ⟨noLap, room, us⟩
    have value := sampled.value noLap
    refine ⟨sampled.counts_iff.2 noLap, udelay_iff.2 ?_, fun lt =>
      (timerGetUs_iff pos value).2 (us lt)⟩
    rw [value]
    exact room

/-- A timer of 3 MHz, after three quarters of an hour. -/
theorem exact_iff_soon : Exact 3000000 10 [0, 4000000000] 8000000000 := by
  have first : Sampled [] 0 := .first (by decide)
  have second : Sampled [0] 4000000000 := first.next (by decide) (by decide)
  have sampled : Sampled [0, 4000000000] 8000000000 := second.next (by decide) (by decide)
  refine (exact_iff 3000000 10 (by decide) _ _ sampled).2 ⟨?_, by decide, fun _ => by decide⟩
  exact .cons_cons (by decide) (.cons_cons (by decide) (.singleton _))

/-- Reads nearly a turn of the timer apart. -/
def steady (n : Nat) : List Nat := (List.range n).map (· * 4294967295)

lemma sampled_steady (n : Nat) : Sampled (steady n) (n * 4294967295) := by
  induction n with
  | zero => exact .first (by decide)
  | succ n ih =>
    rw [steady, List.range_succ, List.map_append]
    exact ih.next (by omega) (by omega)

/-- At 3 MHz the microseconds are wrong after 72 days. -/
theorem not_exact :
    ¬ ∀ (tbclk usec : BitVec 32), 0 < tbclk.toNat → ∀ earlier t, Sampled earlier t →
      Exact tbclk usec earlier t := by
  intro h
  have sampled := sampled_steady 4295
  have exact := h 3000000 0 (by decide) _ _ sampled
  have value := sampled.value (sampled.counts_iff.1 exact.ticks)
  exact absurd ((timerGetUs_iff (by decide) value).1 (exact.us (by decide))) (by decide)

end Imx.Time
