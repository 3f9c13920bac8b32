import Imx.Spi.Burst

/-!
# What an SPI transfer does

However a transfer is cut into bursts, the bytes of `dout` go over the bus and what is received
fills `din`, in order. A burst that times out ends the transfer before the chip select is released.
-/

namespace Imx.Spi
open Imx.Base

variable {n k len : Nat} {m : Mem} {p dout din : Option Nat} {s : St} {rx : Nat → BitVec 32}
  {polls : Nat → List Poll} {bus : Bus} {slave : Option Slave} {flags : BitVec 32}

/-- What is taken of two lists beyond the first one is taken of the second. -/
lemma take_add_append {bs cs : List UInt8} (size : bs.length = n) :
    (bs ++ cs).take (n + k) = bs ++ cs.take k := by
  rw [← size]
  exact List.take_length_add_append k

lemma blkSize_le_max : blkSize n ≤ maxSpiBytes := by
  rw [blkSize]
  split <;> omega

lemma blkSize_le : blkSize n ≤ n := by
  rw [blkSize]
  split <;> omega

/-- Only the last burst is not a full one. -/
lemma blkSize_of_lt (lt : blkSize n < n) : blkSize n = maxSpiBytes := by
  rw [blkSize] at lt ⊢
  split at lt
  case isTrue => exact absurd lt (Nat.lt_irrefl n)
  case isFalse less => exact if_neg less

/-! ## The bytes of a transfer -/

/-- The bytes that are received, burst by burst. -/
def incoming (n : Nat) (rx : Nat → BitVec 32) : List UInt8 :=
  if 0 < n then
    unpack (blkSize n) (wordsOf (blkSize n) rx) ++
      incoming (n - blkSize n) fun i => rx (i + (blkSize n + 3) / 4)
  else []
termination_by n
decreasing_by
  have pos := blkSize_pos ‹0 < n›
  omega

/-- A byte of a buffer, zero without one. -/
def byteAt (m : Mem) : Option Nat → Nat → UInt8
  | none, _ => 0
  | some a, i => m (a + i)

/-- The bytes of `dout`, each as it is once the bursts before its own have been stored. -/
def outgoing (m : Mem) (rx : Nat → BitVec 32) (dout din : Option Nat) (n : Nat) : List UInt8 :=
  (List.range n).map fun i =>
    byteAt (deposit m din ((incoming n rx).take (maxSpiBytes * (i / maxSpiBytes)))) dout i

/-- What is stored does not reach the bytes of `dout` that are still to be sent. -/
def Clear (dout din : Option Nat) (n : Nat) : Prop :=
  ∀ a ∈ dout, ∀ b ∈ din, b ≤ a ∨ a + n ≤ b

lemma bytesAt_eq : bytesAt m p n = (List.range n).map (byteAt m p) := by
  cases p with
  | none =>
    rw [bytesAt, show byteAt m none = fun _ => 0 from rfl, List.map_const', List.length_range]
  | some a => rfl

lemma incoming_step (pos : 0 < n) : incoming n rx =
    unpack (blkSize n) (wordsOf (blkSize n) rx) ++
      incoming (n - blkSize n) fun i => rx (i + (blkSize n + 3) / 4) := by
  rw [incoming, if_pos pos]

/-- The first burst sends the bytes as they are, the others see what it has stored. -/
lemma outgoing_step (pos : 0 < n) : outgoing m rx dout din n =
    bytesAt m dout (blkSize n) ++
      outgoing (deposit m din (unpack (blkSize n) (wordsOf (blkSize n) rx)))
        (fun i => rx (i + (blkSize n + 3) / 4)) (dout.map (· + blkSize n))
        (din.map (· + blkSize n)) (n - blkSize n) := by
  have whole : n = blkSize n + (n - blkSize n) := by
    have le := @blkSize_le n
    omega
  have split : List.range n =
      List.range (blkSize n) ++ (List.range (n - blkSize n)).map (blkSize n + ·) := by
    conv_lhs => rw [whole]
    exact List.range_add
  rw [outgoing, split, List.map_append, List.map_map, bytesAt_eq, outgoing]
  congr 1
  case e_a =>
    refine List.map_congr_left fun i mem => ?_
    have lt := List.mem_range.1 mem
    have le := @blkSize_le_max n
    rw [Nat.div_eq_of_lt (by omega), Nat.mul_zero, List.take_zero, deposit_nil]
  case e_a =>
    refine List.map_congr_left fun i mem => ?_
    have lt := List.mem_range.1 mem
    have full := @blkSize_of_lt n (by omega)
    have place : maxSpiBytes * ((blkSize n + i) / maxSpiBytes) =
        blkSize n + maxSpiBytes * (i / maxSpiBytes) := by
      rw [full, maxSpiBytes]
      omega
    have shift : ∀ m, byteAt m dout (blkSize n + i) =
        byteAt m (dout.map (· + blkSize n)) i := by
      intro m
      cases dout with
      | none => rfl
      | some a => exact congrArg m (Nat.add_assoc ..).symm
    have first := @length_unpack_wordsOf (blkSize n) rx
    rw [Function.comp, place, incoming_step pos, take_add_append first, deposit_append, first,
      shift]

/-- Where the buffers do not meet, what is sent are the bytes of `dout`. -/
lemma outgoing_of_clear (clear : Clear dout din n) :
    outgoing m rx dout din n = bytesAt m dout n := by
  rw [outgoing, bytesAt_eq]
  refine List.map_congr_left fun i mem => ?_
  have lt := List.mem_range.1 mem
  cases dout with
  | none => rfl
  | some a =>
    cases din with
    | none => rfl
    | some b =>
      have before := Nat.mul_div_le i maxSpiBytes
      have size : ((incoming n rx).take (maxSpiBytes * (i / maxSpiBytes))).length ≤ i :=
        (List.length_take_le ..).trans before
      obtain le | le := clear a rfl b rfl
      · exact Mem.write_above (by omega)
      · exact Mem.write_below (by omega)

/-! ## The loop -/

/-- How many bursts there are. -/
def bursts (n : Nat) : Nat := (n + 31) / 32

lemma bursts_step (pos : 0 < n) : bursts n = bursts (n - blkSize n) + 1 := by
  rw [bursts, bursts, blkSize, maxSpiBytes]
  split <;> omega

/-- What the loop has done when it ends. -/
structure Moved (s : St) (n : Nat) (dout din : Option Nat) (polls : Nat → List Poll)
    (r : Int × St) : Prop where
  answer : r.1 = 0 ↔ ∀ i < bursts n, waitTc (polls i) = true
  sent : ∃ k ≤ n, (r.1 = 0 → k = n) ∧
    shifted r.2.log = ⟨[], wire s.log ++ (outgoing s.mem s.rx dout din n).take k⟩
  stored : ∃ k ≤ n, (r.1 = 0 → k = n) ∧
    r.2.mem = deposit s.mem din ((incoming n s.rx).take k)
  line : r.2.line = s.line
  pins : r.2.mxcs.gpio = s.mxcs.gpio ∧ r.2.mxcs.ssPol = s.mxcs.ssPol

lemma moved_zero (idle : (shifted s.log).fifo = []) : Moved s 0 dout din polls (0, s) where
  answer := ⟨fun _ _ lt => absurd lt (Nat.not_lt_zero _), fun _ => rfl⟩
  sent := by
    refine ⟨0, Nat.le_refl 0, fun _ => rfl, ?_⟩
    rw [List.take_zero, List.append_nil, wire, ← idle]
  stored := ⟨0, Nat.le_refl 0, fun _ => rfl, deposit_nil.symm⟩
  line := rfl
  pins := ⟨rfl, rfl⟩

/-- A burst that times out has sent its bytes and stored none. -/
lemma moved_timeout (pos : 0 < n) (idle : (shifted s.log).fifo = [])
    (out : waitTc (polls 0) = false) :
    Moved s n dout din polls (-1, afterBurst s dout din (blkSize n) false) where
  answer := by
    refine ⟨nofun, fun all => ?_⟩
    have done := all 0 (bursts_step pos ▸ Nat.succ_pos _)
    rw [out] at done
    cases done
  sent := by
    refine ⟨blkSize n, blkSize_le, nofun, ?_⟩
    rw [shifted_afterBurst (blkSize_pos pos) blkSize_le_max idle, outgoing_step pos,
      List.take_left' length_bytesAt]
  stored := ⟨0, Nat.zero_le n, nofun, deposit_nil.symm⟩
  line := rfl
  pins := ⟨rfl, rfl⟩

/-- A burst that completes is followed by the others. -/
lemma moved_burst {r : Int × St} (pos : 0 < n) (idle : (shifted s.log).fifo = [])
    (done : waitTc (polls 0) = true)
    (rest : Moved (afterBurst s dout din (blkSize n) true) (n - blkSize n)
      (dout.map (· + blkSize n)) (din.map (· + blkSize n)) (fun i => polls (i + 1)) r) :
    Moved s n dout din polls r := by
  have le := @blkSize_le n
  have log := @shifted_afterBurst (blkSize n) dout din s true (blkSize_pos pos) blkSize_le_max idle
  obtain ⟨answer, ⟨k, leK, allK, sent⟩, ⟨j, leJ, allJ, stored⟩, line, pins⟩ := rest
  refine ⟨?_, ⟨blkSize n + k, by omega, fun zero => ?_, ?_⟩,
    ⟨blkSize n + j, by omega, fun zero => ?_, ?_⟩, line, pins⟩
  · rw [answer, bursts_step pos]
    constructor
    case mp =>
      intro all i lt
      cases i with
      | zero => exact done
      | succ i => exact all i (Nat.lt_of_succ_lt_succ lt)
    case mpr => exact fun all i lt => all (i + 1) (Nat.succ_lt_succ lt)
  · rw [allK zero]
    omega
  · rw [sent, wire, log, outgoing_step pos, take_add_append length_bytesAt, List.append_assoc]
    rfl
  · rw [allJ zero]
    omega
  · have first := @length_unpack_wordsOf (blkSize n) s.rx
    rw [stored, incoming_step pos, take_add_append first, deposit_append, first]
    rfl

lemma moved_xferLoop (idle : (shifted s.log).fifo = []) :
    Moved s n dout din polls (xferLoop s n dout din polls) := by
  induction n using Nat.strongRecOn generalizing s dout din polls with
  | ind n ih =>
    by_cases pos : 0 < n
    case neg =>
      obtain rfl := Nat.eq_zero_of_not_pos pos
      rw [xferLoop, if_neg pos]
      exact moved_zero idle
    case pos =>
      have less := blkSize_pos pos
      rw [xferLoop, if_pos pos]
      simp only [spiXchgSingle_eq (@blkSize_le_max n)]
      cases h : waitTc (polls 0) with
      | false => exact moved_timeout pos idle h
      | true =>
        refine moved_burst pos idle h (ih _ (by omega) ?_)
        rw [shifted_afterBurst less blkSize_le_max idle]

/-! ## The transfer -/

/-- What a transfer is meant to do. Where it fails it stops somewhere in the bytes. -/
structure Right (slave : Option Slave) (bus : Bus) (len : Nat) (dout din : Option Nat)
    (flags : BitVec 32) (o : Outcome) : Prop where
  sent : ∃ k ≤ len, (o.ret = 0 → k = len) ∧
    wire o.log = (outgoing bus.mem bus.rx dout din len).take k ∧
    (Clear dout din len → wire o.log = (bytesAt bus.mem dout len).take k)
  stored : ∃ k ≤ len, (o.ret = 0 → k = len) ∧
    o.bus.mem = deposit bus.mem din ((incoming len bus.rx).take k)
  released : flags &&& spiXferEnd ≠ 0 → ∀ mxcs ∈ slave, 0 < mxcs.gpio →
    (flags &&& spiXferBegin ≠ 0 ∨ bus.line = mxcs.ssPol) → o.bus.line ≠ mxcs.ssPol

/-- A burst times out while the chip is selected and to be released. -/
def Stuck (slave : Option Slave) (bus : Bus) (len : Nat) (flags : BitVec 32)
    (polls : Nat → List Poll) : Prop :=
  flags &&& spiXferEnd ≠ 0 ∧ (∃ mxcs ∈ slave, 0 < mxcs.gpio ∧
    (flags &&& spiXferBegin ≠ 0 ∨ bus.line = mxcs.ssPol)) ∧
    ∃ i < bursts len, waitTc (polls i) = false

/-- The state the loop begins in. -/
def beginXfer (mxcs : Slave) (bus : Bus) (flags : BitVec 32) : St :=
  let s : St := { bus with mxcs, log := [] }
  if flags &&& spiXferBegin ≠ 0 then spiCsActivate s else s

section
variable {mxcs : Slave}

/-- Only the chip select has changed by then. -/
lemma beginXfer_eq : ∃ line,
    beginXfer mxcs bus flags = { mem := bus.mem, rx := bus.rx, line, mxcs, log := [] } ∧
      (0 < mxcs.gpio → flags &&& spiXferBegin ≠ 0 ∨ bus.line = mxcs.ssPol → line = mxcs.ssPol) := by
  rw [beginXfer]
  by_cases first : flags &&& spiXferBegin ≠ 0
  case neg =>
    refine ⟨bus.line, if_neg first, fun _ active => ?_⟩
    exact active.resolve_left first
  case pos =>
    rw [if_pos first, spiCsActivate]
    by_cases pin : 0 < mxcs.gpio
    case pos => exact ⟨mxcs.ssPol, if_pos pin, fun _ _ => rfl⟩
    case neg => exact ⟨bus.line, if_neg pin, fun there => absurd there pin⟩

/-- A transfer ends as its loop does, the chip select may be released after it. -/
lemma spiXfer_some {r : Int × St} (fits : len * 8 < 2 ^ 32)
    (loop : xferLoop (beginXfer mxcs bus flags) len dout din polls = r) :
    spiXfer (some mxcs) bus (BitVec.ofNat 32 (len * 8)) dout din flags polls =
      if r.1 ≠ 0 then ⟨r.1, r.2.toBus, r.2.log⟩
      else
        let s := if flags &&& spiXferEnd ≠ 0 then spiCsDeactivate r.2 else r.2
        ⟨0, s.toBus, s.log⟩ := by
  rw [beginXfer] at loop
  rw [spiXfer]
  simp only [divRoundUp_bytes fits, loop]

/-- The chip select is released exactly by a transfer that completes. -/
lemma line_spiXfer (fits : len * 8 < 2 ^ 32) (pin : 0 < mxcs.gpio)
    (active : flags &&& spiXferBegin ≠ 0 ∨ bus.line = mxcs.ssPol)
    (last : flags &&& spiXferEnd ≠ 0) :
    (spiXfer (some mxcs) bus (BitVec.ofNat 32 (len * 8)) dout din flags polls).bus.line ≠
      mxcs.ssPol ↔ ∀ i < bursts len, waitTc (polls i) = true := by
  obtain ⟨line, eq, selected⟩ := @beginXfer_eq bus flags mxcs
  have idle : (shifted (beginXfer mxcs bus flags).log).fifo = [] := by
    rw [eq]
    rfl
  have moved := @moved_xferLoop len dout din _ polls idle
  rw [spiXfer_some fits rfl]
  generalize xferLoop (beginXfer mxcs bus flags) len dout din polls = r at moved ⊢
  have pins : r.2.mxcs.gpio = mxcs.gpio ∧ r.2.mxcs.ssPol = mxcs.ssPol := by
    rw [moved.pins.1, moved.pins.2, eq]
    exact ⟨rfl, rfl⟩
  rw [← moved.answer]
  by_cases zero : r.1 = 0
  case pos =>
    rw [if_neg (not_not_intro zero)]
    simp only [if_pos last, spiCsDeactivate, pins.1, pins.2, if_pos pin]
    exact iff_of_true (Bool.not_ne_self _) zero
  case neg =>
    have still : r.2.line = mxcs.ssPol := by
      rw [moved.line, eq]
      exact selected pin active
    rw [if_pos zero]
    exact iff_of_false (not_not_intro still) zero

/-- The bytes are moved in order, in a transfer that fails as far as it came. -/
lemma moved_spiXfer (fits : len * 8 < 2 ^ 32) {o : Outcome}
    (run : spiXfer (some mxcs) bus (BitVec.ofNat 32 (len * 8)) dout din flags polls = o) :
    (∃ k ≤ len, (o.ret = 0 → k = len) ∧
      wire o.log = (outgoing bus.mem bus.rx dout din len).take k) ∧
    ∃ k ≤ len, (o.ret = 0 → k = len) ∧
      o.bus.mem = deposit bus.mem din ((incoming len bus.rx).take k) := by
  obtain ⟨line, eq, -⟩ := @beginXfer_eq bus flags mxcs
  have idle : (shifted (beginXfer mxcs bus flags).log).fifo = [] := by
    rw [eq]
    rfl
  have moved := @moved_xferLoop len dout din _ polls idle
  rw [spiXfer_some fits rfl] at run
  generalize xferLoop (beginXfer mxcs bus flags) len dout din polls = r at moved run
  have same : o.ret = r.1 ∧ o.log = r.2.log ∧ o.bus.mem = r.2.mem := by
    subst run
    by_cases zero : r.1 = 0
    case pos =>
      rw [if_neg (not_not_intro zero), zero]
      refine ⟨rfl, ?_⟩
      rw [spiCsDeactivate]
      split
      case isTrue =>
        split <;> exact ⟨rfl, rfl⟩
      case isFalse => exact ⟨rfl, rfl⟩
    case neg =>
      rw [if_pos zero]
      exact ⟨rfl, rfl, rfl⟩
  obtain ⟨answer, ⟨k, leK, allK, sent⟩, stored, -⟩ := moved
  rw [same.1, same.2.1, same.2.2]
  rw [eq] at sent stored
  refine ⟨⟨k, leK, allK, ?_⟩, stored⟩
  rw [wire, sent]
  rfl

end

/-- A transfer of whole bytes does what it is meant to do, unless a burst times out while the chip
is selected and to be released: the error is returned from inside the loop. -/
theorem spiXfer_right_iff (fits : len * 8 < 2 ^ 32) :
    Right slave bus len dout din flags
        (spiXfer slave bus (BitVec.ofNat 32 (len * 8)) dout din flags polls) ↔
      ¬ Stuck slave bus len flags polls := by
  constructor
  case mp =>
    rintro ⟨-, -, released⟩ ⟨last, ⟨mxcs, given, pin, active⟩, i, lt, out⟩
    obtain rfl := Option.mem_def.1 given
    have all := (line_spiXfer fits pin active last).1 (released last mxcs given pin active)
    rw [all i lt] at out
    cases out
  case mpr =>
    intro free
    cases slave with
    | none =>
      refine ⟨⟨0, Nat.zero_le len, nofun, rfl, fun _ => rfl⟩,
        ⟨0, Nat.zero_le len, nofun, ?_⟩, nofun⟩
      exact deposit_nil.symm
    | some mxcs =>
      obtain ⟨⟨k, leK, allK, sent⟩, stored⟩ :=
        @moved_spiXfer len dout din polls bus flags mxcs fits _ rfl
      refine ⟨⟨k, leK, allK, sent, fun clear => ?_⟩, stored, fun last => ?_⟩
      · rw [sent, outgoing_of_clear clear]
      · rintro _ ⟨⟩ pin active
        refine (line_spiXfer fits pin active last).2 fun i lt => ?_
        by_contra out
        exact free ⟨last, ⟨mxcs, rfl, pin, active⟩, i, lt, Bool.eq_false_of_not_eq_true out⟩

/-- A slave with a chip select of its own, active low. -/
def sensor : Slave := ⟨0xf1, 0, 3, false, 1000000, 0⟩

def quietBus : Bus := ⟨fun a => UInt8.ofNat a, fun i => BitVec.ofNat 32 i, true⟩

theorem spiXfer_right_iff_five :
    Right (some sensor) quietBus 5 (some 1) (some 64) 3
      (spiXfer (some sensor) quietBus (BitVec.ofNat 32 (5 * 8)) (some 1) (some 64) 3
        fun _ => [⟨0, 2⟩, ⟨cspictrlTc, 3⟩]) := by
  refine (spiXfer_right_iff (by omega)).2 ?_
  rintro ⟨-, -, i, -, out⟩
  cases (show true = false from out)

/-- The chip stays selected where the only burst times out. -/
theorem spiXfer_not_right :
    ¬ Right (some sensor) quietBus 1 none none 3
      (spiXfer (some sensor) quietBus (BitVec.ofNat 32 (1 * 8)) none none 3
        fun _ => [⟨0, 11⟩]) := by
  intro right
  have released := right.released (by decide) sensor rfl (by decide) (.inl (by decide))
  have all := (line_spiXfer (by omega) (by decide) (.inl (by decide)) (by decide)).1 released
  exact absurd (all 0 (by decide)) (by decide)

end Imx.Spi
