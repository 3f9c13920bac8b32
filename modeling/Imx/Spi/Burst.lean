import Imx.Spi.Transfer

/-!
# A burst on the SPI bus

The controller shifts out the bits its control register counts, the first word of a burst may be a
short one. `spi_xchg_single` sends the bytes of the one buffer and stores what is received in the
other.
-/

namespace Imx.Spi
open Imx.Base

variable {n k : Nat} {m : Mem} {p dout din : Option Nat} {s : St} {rx : Nat → BitVec 32}
  {polls : List Poll} {bs cs : List UInt8}

/-! ## Words and bytes -/

/-- How many bytes of the next word are valid where `n` bytes are left. -/
def valid (n : Nat) : Nat := if n % 4 = 0 then 4 else n % 4

/-- The valid bytes of the words of a burst of `n` bytes, the highest of each first. -/
def unpack : Nat → List (BitVec 32) → List UInt8
  | _, [] => []
  | n, w :: ws => bytesBe (valid n) w.toNat ++ unpack (n - valid n) ws

/-- The bytes of a buffer, zeros without one. -/
def bytesAt (m : Mem) : Option Nat → Nat → List UInt8
  | none, n => List.replicate n 0
  | some a, n => m.read a n

/-- The memory with bytes in a buffer. -/
def deposit (m : Mem) : Option Nat → List UInt8 → Mem
  | none, _ => m
  | some a, bs => m.write a bs

/-- The words that hold `n` bytes. -/
def wordsOf (n : Nat) (rx : Nat → BitVec 32) : List (BitVec 32) :=
  (List.range ((n + 3) / 4)).map rx

lemma valid_full : valid (4 * k) = 4 := if_pos (Nat.mul_mod_right 4 k)

lemma valid_short (short : n % 4 ≠ 0) : valid n = n % 4 := if_neg short

@[simp]
lemma length_bytesAt : (bytesAt m p n).length = n := by
  cases p with
  | none => exact List.length_replicate
  | some a => exact Mem.length_read

lemma bytesAt_add : bytesAt m p (n + k) = bytesAt m p n ++ bytesAt m (p.map (· + n)) k := by
  cases p with
  | none => exact List.replicate_add n k 0
  | some a => exact Mem.read_add

@[simp]
lemma deposit_nil : deposit m p [] = m := by
  cases p with
  | none => rfl
  | some a => exact Mem.write_nil

lemma deposit_append :
    deposit m p (bs ++ cs) = deposit (deposit m p bs) (p.map (· + bs.length)) cs := by
  cases p with
  | none => rfl
  | some a => exact Mem.write_append

lemma wordsOf_full : wordsOf (4 * (k + 1)) rx = rx 0 :: wordsOf (4 * k) fun i => rx (i + 1) := by
  rw [wordsOf, wordsOf, show (4 * (k + 1) + 3) / 4 = k + 1 by omega,
    show (4 * k + 3) / 4 = k by omega, List.range_succ_eq_map, List.map_cons, List.map_map]
  rfl

lemma wordsOf_short (short : n % 4 ≠ 0) :
    wordsOf n rx = rx 0 :: wordsOf (n - n % 4) fun i => rx (i + 1) := by
  rw [wordsOf, wordsOf, show (n + 3) / 4 = (n - n % 4 + 3) / 4 + 1 by omega,
    List.range_succ_eq_map, List.map_cons, List.map_map]
  rfl

/-- As many bytes are received as are sent. -/
lemma length_unpack_wordsOf : (unpack n (wordsOf n rx)).length = n := by
  have full : ∀ k rx, (unpack (4 * k) (wordsOf (4 * k) rx)).length = 4 * k := by
    intro k
    induction k with
    | zero => exact fun _ => rfl
    | succ k ih =>
      intro rx
      have left : 4 * (k + 1) - 4 = 4 * k := by omega
      rw [wordsOf_full, unpack, valid_full, left, List.length_append, length_bytesBe, ih]
      omega
  by_cases short : n % 4 = 0
  case pos =>
    obtain ⟨k, rfl⟩ : ∃ k, n = 4 * k := ⟨n / 4, by omega⟩
    exact full k rx
  case neg =>
    have left : n - n % 4 = 4 * (n / 4) := by omega
    rw [wordsOf_short short, unpack, valid_short short, left, List.length_append, length_bytesBe,
      full]
    omega

/-! ## Sending -/

/-- A full word holds the next four bytes, whether the buffer is aligned or not. -/
lemma bytesBe_txWord : bytesBe 4 (txWord m p).toNat = bytesAt m p 4 := by
  cases p with
  | none => exact bytesBe_zero
  | some a =>
    rw [txWord, bytesAt]
    split
    case isTrue => exact bytesBe_shiftBytes_zero (Nat.le_refl 4)
    case isFalse =>
      rw [bytesBe_swab32, BitVec.toNat_ofNat]
      exact (bytesLe_mod (Nat.le_refl 4)).trans bytesLe_get32

lemma bytesBe_txFirst (le : k ≤ 4) : bytesBe k (txFirst m k p).toNat = bytesAt m p k := by
  cases p with
  | none => exact bytesBe_zero
  | some a => exact bytesBe_shiftBytes_zero le

lemma unpack_txWords : unpack (4 * k) (txWords m p (4 * k)) = bytesAt m p (4 * k) := by
  induction k generalizing p with
  | zero =>
    rw [txWords, if_neg (Nat.lt_irrefl 0)]
    cases p <;> rfl
  | succ k ih =>
    have pos : 0 < 4 * (k + 1) := by omega
    have left : 4 * (k + 1) - 4 = 4 * k := by omega
    rw [txWords, if_pos pos, unpack, valid_full, left, ih, bytesBe_txWord, Nat.mul_succ,
      Nat.add_comm, bytesAt_add]

/-- The words of a burst. -/
def burstWords (m : Mem) (p : Option Nat) (n : Nat) : List (BitVec 32) :=
  (if n % 4 ≠ 0 then [txFirst m (n % 4) p] else []) ++
    txWords m (p.map (· + n % 4)) (n - n % 4)

lemma unpack_burstWords : unpack n (burstWords m p n) = bytesAt m p n := by
  rw [burstWords]
  have left : n - n % 4 = 4 * (n / 4) := by omega
  by_cases short : n % 4 = 0
  case pos =>
    have same : p.map (· + 0) = p := by cases p <;> rfl
    have all : n = 4 * (n / 4) := by omega
    rw [if_neg (not_not_intro short), short, same, Nat.sub_zero, List.nil_append, all]
    exact unpack_txWords
  case neg =>
    have whole : n = n % 4 + 4 * (n / 4) := by omega
    rw [if_pos short, left, List.singleton_append, unpack, valid_short short, left,
      bytesBe_txFirst (by omega), unpack_txWords, ← bytesAt_add, ← whole]

/-! ## Receiving -/

lemma memcpyWord_eq {x : BitVec 32} : memcpyWord m p x k = deposit m p (bytesLe k x.toNat) := by
  cases p <;> rfl

lemma rxWords_eq : rxWords m rx p (4 * k) =
    (deposit m p (unpack (4 * k) (wordsOf (4 * k) rx)), fun i => rx (i + k)) := by
  induction k generalizing m rx p with
  | zero =>
    rw [rxWords, if_neg (Nat.lt_irrefl 0)]
    exact congrArg (·, rx) deposit_nil.symm
  | succ k ih =>
    have pos : 0 < 4 * (k + 1) := by omega
    have four : min (4 * (k + 1)) 4 = 4 := by omega
    have left : 4 * (k + 1) - 4 = 4 * k := by omega
    rw [rxWords, if_pos pos]
    simp only [four, left]
    rw [ih, wordsOf_full, unpack, valid_full, left, deposit_append, memcpyWord_eq, bytesLe_swab32,
      length_bytesBe]
    rfl

/-- The first word is shifted until its valid bytes are the lowest. -/
lemma bytesLe_rxFirst {x : BitVec 32} (le : k ≤ 4) :
    bytesLe k (swab32 x >>> ((4 - k) * 8)).toNat = bytesBe k x.toNat := by
  have bytes : (256 : Nat) ^ (4 - k) = 2 ^ ((4 - k) * 8) := by
    rw [Nat.mul_comm, Nat.pow_mul]
  have four : 4 - k + k = 4 := by omega
  have shifted := @drop_bytesLe (4 - k) k (swab32 x).toNat
  rw [four, bytesLe_swab32] at shifted
  have dropped := @drop_bytesBe (4 - k) k x.toNat
  rw [four] at dropped
  rw [BitVec.toNat_ushiftRight, Nat.shiftRight_eq_div_pow, ← bytes, ← shifted, dropped]

/-- The words of a burst without a short word. -/
lemma rxWords_full (full : n % 4 = 0) : rxWords m rx p n =
    (deposit m p (unpack n (wordsOf n rx)), fun i => rx (i + (n + 3) / 4)) := by
  obtain ⟨k, rfl⟩ : ∃ k, n = 4 * k := ⟨n / 4, by omega⟩
  rw [rxWords_eq, show (4 * k + 3) / 4 = k by omega]

/-- The words of a burst that follow a short word. -/
lemma rxWords_short (short : n % 4 ≠ 0) :
    rxWords (memcpyWord m p (swab32 (rx 0) >>> ((4 - n % 4) * 8)) (n % 4)) (fun i => rx (i + 1))
        (p.map (· + n % 4)) (n - n % 4) =
      (deposit m p (unpack n (wordsOf n rx)), fun i => rx (i + (n + 3) / 4)) := by
  have left : n - n % 4 = 4 * (n / 4) := by omega
  have words : (n + 3) / 4 = n / 4 + 1 := by omega
  rw [wordsOf_short short, unpack, valid_short short, deposit_append, length_bytesBe,
    memcpyWord_eq, bytesLe_rxFirst (by omega), left, rxWords_eq, words]
  rfl

/-! ## The controller -/

/-- The transmit FIFO, and the bytes that went over the bus. -/
structure Shifter where
  fifo : List (BitVec 32)
  sent : List UInt8

/-- The bytes of a burst, by the count of its bits. -/
def countOf (ctrl : BitVec 32) : Nat := ((getField 12 20 ctrl).toNat + 1) / 8

/-- Setting the XCH bit shifts out what is in the FIFO. -/
def Shifter.step (c : Shifter) : Event → Shifter
  | .txdata v => { c with fifo := c.fifo ++ [v] }
  | .ctrl v => if v &&& cspictrlXch ≠ 0 then ⟨[], c.sent ++ unpack (countOf v) c.fifo⟩ else c
  | .cfg _ | .stat _ => c

def shifted (log : List Event) : Shifter := log.foldl Shifter.step ⟨[], []⟩

/-- The bytes that a log sends. -/
def wire (log : List Event) : List UInt8 := (shifted log).sent

lemma shifted_append {log log' : List Event} :
    shifted (log ++ log') = log'.foldl Shifter.step (shifted log) := List.foldl_append

/-- Words are queued. -/
lemma foldl_txdata {c : Shifter} {ws : List (BitVec 32)} :
    (ws.map Event.txdata).foldl Shifter.step c = { c with fifo := c.fifo ++ ws } := by
  induction ws generalizing c with
  | nil => rw [List.map_nil, List.foldl_nil, List.append_nil]
  | cons w ws ih =>
    rw [List.map_cons, List.foldl_cons, ih, Shifter.step, List.append_assoc,
      List.singleton_append]

/-- Without words in the FIFO nothing is sent. -/
lemma step_ctrl {c : Shifter} {v : BitVec 32} (empty : c.fifo = []) : c.step (.ctrl v) = c := by
  rw [Shifter.step, empty, unpack, List.append_nil, ← empty]
  split <;> rfl

/-- The count of the bits that is programmed. -/
lemma countOf_ctrl {reg : BitVec 32} (pos : 0 < n) (le : n ≤ maxSpiBytes) :
    countOf (((reg &&& ~~~cspictrlBitcount cspictrlMaxbits) |||
      cspictrlBitcount (BitVec.ofNat 32 (n * 8) - 1)) ||| cspictrlEn ||| cspictrlXch) = n := by
  rw [maxSpiBytes] at le
  have less : BitVec.ofNat 32 (n * 8) - 1 = BitVec.ofNat 32 (n * 8 - 1) := by
    apply BitVec.eq_of_toNat_eq
    rw [BitVec.toNat_sub, BitVec.toNat_ofNat, BitVec.toNat_ofNat,
      show (1 : BitVec 32).toNat = 1 from rfl]
    omega
  have put : ((reg &&& ~~~cspictrlBitcount cspictrlMaxbits) |||
      cspictrlBitcount (BitVec.ofNat 32 (n * 8) - 1)) =
      (reg &&& ~~~field 12 20 (mask 12)) ||| field 12 20 (BitVec.ofNat 32 (n * 8) - 1) := rfl
  have low : cspictrlEn >>> 20 = 0#32 ∧ cspictrlXch >>> 20 = 0#32 := ⟨rfl, rfl⟩
  have count : getField 12 20 (((reg &&& ~~~cspictrlBitcount cspictrlMaxbits) |||
      cspictrlBitcount (BitVec.ofNat 32 (n * 8) - 1)) ||| cspictrlEn ||| cspictrlXch) =
      BitVec.ofNat 32 (n * 8 - 1) &&& mask 12 := by
    rw [getField, BitVec.ushiftRight_or_distrib, BitVec.ushiftRight_or_distrib, low.1, low.2,
      BitVec.or_zero, BitVec.or_zero, put, ← getField, getField_put (by omega), less]
  rw [countOf, count, mask, BitVec.toNat_and, BitVec.toNat_ofNat, BitVec.toNat_ofNat,
    Nat.mod_eq_of_lt (show 2 ^ 12 - 1 < 2 ^ 32 by omega), Nat.and_two_pow_sub_one_eq_mod]
  omega

/-! ## The burst -/

/-- The bytes are read off a count of bits. -/
lemma divRoundUp_bytes (fits : n * 8 < 2 ^ 32) : divRoundUp (BitVec.ofNat 32 (n * 8)) 8 = n := by
  rw [divRoundUp, BitVec.toNat_udiv, BitVec.toNat_sub, BitVec.toNat_add, BitVec.toNat_ofNat,
    show (8 : BitVec 32).toNat = 8 from rfl, show (1 : BitVec 32).toNat = 1 from rfl]
  omega

lemma short_iff :
    BitVec.ofNat 32 (n * 8) % 32 ≠ 0 ↔ n % 4 ≠ 0 := by
  rw [Ne, ← BitVec.toNat_inj, BitVec.toNat_umod, BitVec.toNat_ofNat,
    show (32 : BitVec 32).toNat = 32 from rfl, show (0 : BitVec 32).toNat = 0 from rfl]
  omega

lemma cnt_eq : (BitVec.ofNat 32 (n * 8) % 32 / 8).toNat = n % 4 := by
  rw [BitVec.toNat_udiv, BitVec.toNat_umod, BitVec.toNat_ofNat,
    show (32 : BitVec 32).toNat = 32 from rfl, show (8 : BitVec 32).toNat = 8 from rfl]
  omega

/-- The control register of a burst. -/
def burstCtrl (reg : BitVec 32) (n : Nat) : BitVec 32 :=
  (reg &&& ~~~cspictrlBitcount cspictrlMaxbits) ||| cspictrlBitcount (BitVec.ofNat 32 (n * 8) - 1)

/-- What is written to the registers for a burst until the wait. -/
def burstLog (s : St) (dout : Option Nat) (n : Nat) : List Event :=
  [Event.ctrl (burstCtrl s.mxcs.ctrlReg n ||| cspictrlEn), .cfg s.mxcs.cfgReg,
    .stat (cspictrlTc ||| cspictrlRxovf)] ++ (burstWords s.mem dout n).map Event.txdata ++
    [Event.ctrl (burstCtrl s.mxcs.ctrlReg n ||| cspictrlEn ||| cspictrlXch)]

/-- The state after a burst that completed, or one that timed out. -/
def afterBurst (s : St) (dout din : Option Nat) (n : Nat) (completed : Bool) : St :=
  let s' := { s with mxcs.ctrlReg := burstCtrl s.mxcs.ctrlReg n, log := s.log ++ burstLog s dout n }
  if completed then
    { s' with
      mem := deposit s.mem din (unpack n (wordsOf n s.rx))
      rx := fun i => s.rx (i + (n + 3) / 4)
      log := s'.log ++ [Event.stat (cspictrlTc ||| cspictrlRxovf)] }
  else s'

lemma spiXchgSingle_eq (le : n ≤ maxSpiBytes) :
    spiXchgSingle s (BitVec.ofNat 32 (n * 8)) dout din polls =
      (if waitTc polls then 0 else -1, afterBurst s dout din n (waitTc polls)) := by
  have words : (if BitVec.ofNat 32 (n * 8) % 32 ≠ 0 then [txFirst s.mem (n % 4) dout] else []) ++
      txWords s.mem (dout.map (· + n % 4)) (n - n % 4) = burstWords s.mem dout n := by
    rw [burstWords]
    exact congrArg (· ++ _) (if_congr short_iff rfl rfl)
  have cnt : (if BitVec.ofNat 32 (n * 8) % 32 ≠ 0 then
      (BitVec.ofNat 32 (n * 8) % 32 / 8).toNat else 0) = n % 4 := by
    rw [cnt_eq]
    by_cases short : n % 4 = 0
    case pos => rw [short, ite_self]
    case neg => exact if_pos (short_iff.2 short)
  rw [spiXchgSingle]
  have fits : n * 8 < 2 ^ 32 := by
    rw [maxSpiBytes] at le
    omega
  simp only [divRoundUp_bytes fits, cnt, words]
  rw [afterBurst]
  cases waitTc polls with
  | false => simp [burstLog, burstCtrl]
  | true =>
    by_cases short : n % 4 = 0
    case pos =>
      rw [if_neg (mt short_iff.1 (not_not_intro short))]
      simp [burstLog, burstCtrl, rxWords_full short]
    case neg =>
      rw [if_pos (short_iff.2 short)]
      simp [burstLog, burstCtrl, rxWords_short short]

/-- A burst sends the bytes of its buffer. -/
lemma foldl_burstLog {c : Shifter} (pos : 0 < n) (le : n ≤ maxSpiBytes) (idle : c.fifo = []) :
    (burstLog s dout n).foldl Shifter.step c = ⟨[], c.sent ++ bytesAt s.mem dout n⟩ := by
  have start : (burstCtrl s.mxcs.ctrlReg n ||| cspictrlEn ||| cspictrlXch) &&& cspictrlXch ≠ 0 := by
    intro eq
    have bit := congrArg (BitVec.getLsbD · 2) eq
    simp [cspictrlXch] at bit
  have count : countOf (burstCtrl s.mxcs.ctrlReg n ||| cspictrlEn ||| cspictrlXch) = n :=
    countOf_ctrl pos le
  have head : [Event.ctrl (burstCtrl s.mxcs.ctrlReg n ||| cspictrlEn), .cfg s.mxcs.cfgReg,
      .stat (cspictrlTc ||| cspictrlRxovf)].foldl Shifter.step c = c := by
    rw [List.foldl_cons, step_ctrl idle]
    rfl
  rw [burstLog, List.foldl_append, List.foldl_append, head, foldl_txdata, List.foldl_cons,
    List.foldl_nil, Shifter.step, if_pos start, count, idle, List.nil_append, unpack_burstWords]

lemma shifted_afterBurst {b : Bool} (pos : 0 < n) (le : n ≤ maxSpiBytes)
    (idle : (shifted s.log).fifo = []) :
    shifted (afterBurst s dout din n b).log = ⟨[], wire s.log ++ bytesAt s.mem dout n⟩ := by
  have sent : shifted (s.log ++ burstLog s dout n) = ⟨[], wire s.log ++ bytesAt s.mem dout n⟩ := by
    rw [shifted_append, foldl_burstLog pos le idle, wire]
  cases b with
  | false => exact sent
  | true =>
    rw [afterBurst, if_pos rfl, shifted_append, sent]
    rfl

end Imx.Spi
