import Mathlib

/-!
# The I2C master of the bare-metal board

Model of `i2c_master_transfer` of `bsp/i2c/i2c.c` and what it calls. The bus answers each byte of a
transfer, sent or received, in turn, and every wait for a byte ends with its answer. The registers
are their bits; a shift of the register address by 32 or more, which C leaves open, is 0.
-/

namespace Imx.Bsp.I2c

/-- How a byte ends. -/
inductive Answer where
  | ack
  | nak
  | lost
deriving DecidableEq

/-- A byte on the bus, with its value. -/
inductive Byte where
  | sent (value : Nat) (answer : Answer)
  | received (value : Nat) (answer : Answer)
deriving DecidableEq

/-- Acknowledged if it was sent, whole if it was received. -/
def Byte.Good : Byte → Prop
  | .sent _ a => a = .ack
  | .received _ a => a ≠ .lost

def Byte.isReceived : Byte → Bool
  | .sent _ _ => false
  | .received _ _ => true

/--
What the bus does: the answer to the `k`-th byte, the value a slave sends with it, whether another
master takes the bus before the repeated start, and whether it is idle in time behind a stop.
-/
structure Bus where
  answer : Nat → Answer
  value : Nat → Nat
  taken : Bool
  idle : Nat → Bool

/-- The bits of `I2SR` and `I2CR`, and the bytes so far. -/
structure Master where
  ibb : Bool
  ial : Bool
  rxak : Bool
  ien : Bool
  msta : Bool
  mtx : Bool
  txak : Bool
  log : List Byte
deriving DecidableEq

inductive Status where
  | ok
  | busy
  | idle
  | nak
  | arbitrationLost
  | timeout
  | addrNak
deriving DecidableEq

inductive I2cDir where
  | write
  | read
deriving DecidableEq

/-- C `i2c_transfer`. -/
structure I2cTransfer where
  slaveAddr : Nat
  dir : I2cDir
  regAddr : Nat
  regAddrLen : Nat
  data : Nat
  dataLen : Nat
deriving DecidableEq

/-! ## The bus -/

variable (bus : Bus)

/-- The state behind a byte: the loss of the arbitration ends the mastership. -/
def Master.answered (c : Master) (a : Answer) (b : Byte) : Master :=
  { c with
    ial := c.ial || a = .lost
    rxak := a = .nak
    msta := c.msta && a ≠ .lost
    log := c.log ++ [b] }

/-- `I2DR` is written, and the byte waited for. -/
def transmit (value : Nat) (c : Master) : Master :=
  let a := bus.answer c.log.length
  c.answered a (.sent (value % 2 ^ 8) a)

/-- A byte is waited for. -/
def receive (c : Master) : Master :=
  let a := bus.answer c.log.length
  c.answered a (.received (bus.value c.log.length) a)

/-! ## The source -/

/-- The address and the direction in one byte. -/
def addressByte (addr : Nat) (dir : I2cDir) : Nat :=
  addr <<< 1 ||| (match dir with | .read => 1 | .write => 0)

def i2cMasterRepeatedStart (addr : Nat) (dir : I2cDir) (c : Master) : Status × Master :=
  if c.ibb && !c.msta then (.busy, c)
  else (.ok, transmit bus (addressByte addr dir) { c with mtx := true })

def i2cMasterStart (addr : Nat) (dir : I2cDir) (c : Master) : Status × Master :=
  if c.ibb then (.busy, c)
  else (.ok, transmit bus (addressByte addr dir) { c with msta := true, mtx := true, ibb := true })

def i2cCheckAndClearError (c : Master) : Status × Master :=
  if c.ial then (.arbitrationLost, { c with ial := false, ien := true })
  else if c.rxak then (.nak, c)
  else (.ok, c)

def i2cMasterStop (c : Master) : Status × Master :=
  let c := { c with msta := false, mtx := false, txak := false }
  if bus.idle c.log.length then (.ok, { c with ibb := false })
  else (.timeout, c)

def writeLoop (mem : Nat → Nat) : (size buf : Nat) → Master → Master
  | 0, _, c => c
  | size + 1, buf, c =>
    let (ret, c) := i2cCheckAndClearError (transmit bus (mem buf) c)
    if ret ≠ .ok then c else writeLoop mem size (buf + 1) c

def i2cMasterWrite (mem : Nat → Nat) (buf size : Nat) (c : Master) : Master :=
  let c := writeLoop bus mem size buf { c with mtx := true }
  (i2cMasterStop bus c).2

def readLoop : (size buf : Nat) → (Nat → Nat) × Master → (Nat → Nat) × Master
  | 0, _, s => s
  | size + 1, buf, (mem, c) =>
    let value := bus.value c.log.length
    let c := receive bus c
    let c := if size = 0 then (i2cMasterStop bus c).2 else c
    let c := if size = 1 then { c with txak := true } else c
    readLoop size (buf + 1) (Function.update mem buf value, c)

def i2cMasterRead (buf size : Nat) (mem : Nat → Nat) (c : Master) : (Nat → Nat) × Master :=
  let c := { c with mtx := false, txak := false }
  let c := if size = 1 then { c with txak := true } else c
  readLoop bus size buf (mem, c)

/-- The loop over the bytes of the register address, with what is left of its length. -/
def regAddrLoop (regAddr : Nat) : (regAddrLen : Nat) → Master → Status × Nat × Master
  | 0, c => (.ok, 0, c)
  | len + 1, c =>
    let (ret, c) := i2cCheckAndClearError (transmit bus (regAddr >>> (8 * len)) c)
    if ret ≠ .ok then (ret, len, (i2cMasterStop bus c).2)
    else regAddrLoop regAddr len c

/-- What `i2c_master_transfer` leaves. -/
structure Result where
  status : Status
  xfer : I2cTransfer
  mem : Nat → Nat
  c : Master

/-- The repeated start, if another master does not take the bus before. -/
def turnAround (xfer : I2cTransfer) (c : Master) : Status × Master :=
  let c := if bus.taken then { c with ial := true, msta := false } else c
  let (_, c) := i2cMasterRepeatedStart bus xfer.slaveAddr .read c
  let (ret, c) := i2cCheckAndClearError c
  if ret ≠ .ok then (.addrNak, (i2cMasterStop bus c).2) else (.ok, c)

/-- The bytes of the data. -/
def dataPhase (xfer : I2cTransfer) (mem : Nat → Nat) (c : Master) : Result :=
  let c := if xfer.dir = .write ∧ 0 < xfer.dataLen then
      i2cMasterWrite bus mem xfer.data xfer.dataLen c
    else c
  let (mem, c) := if xfer.dir = .read ∧ 0 < xfer.dataLen then
      i2cMasterRead bus xfer.data xfer.dataLen mem c
    else (mem, c)
  { status := .ok, xfer, mem, c }

/-- What follows the address of the device: the register address, if there is one, and the data. -/
def registerPhase (xfer : I2cTransfer) (mem : Nat → Nat) (c : Master) : Result :=
  if xfer.regAddrLen ≠ 0 then
    let (ret, len, c) := regAddrLoop bus xfer.regAddr xfer.regAddrLen c
    let xfer := { xfer with regAddrLen := len }
    if ret ≠ .ok then { status := ret, xfer, mem, c }
    else if xfer.dir = .read then
      let (ret, c) := turnAround bus xfer c
      if ret ≠ .ok then { status := ret, xfer, mem, c }
      else dataPhase bus xfer mem c
    else dataPhase bus xfer mem c
  else dataPhase bus xfer mem c

def i2cMasterTransfer (xfer : I2cTransfer) (mem : Nat → Nat) (c : Master) : Result :=
  let c := { c with ial := false }
  let dir := if 0 < xfer.regAddrLen ∧ xfer.dir = .read then .write else xfer.dir
  let (ret, c) := i2cMasterStart bus xfer.slaveAddr dir c
  if ret ≠ .ok then { status := ret, xfer, mem, c }
  else
    let (ret, c) := i2cCheckAndClearError c
    if ret ≠ .ok then { status := ret, xfer, mem, c := (i2cMasterStop bus c).2 }
    else registerPhase bus xfer mem c

/-! ## Success -/

/-- A transfer from a state, whose bytes are counted from its start. -/
def run (xfer : I2cTransfer) (mem : Nat → Nat) (c : Master) : Result :=
  i2cMasterTransfer bus xfer mem { c with log := [] }

/--
The transfer is successful only if every byte sent was acknowledged and all data asked for was
received, and its descriptor is left as it was.
-/
structure Right (xfer : I2cTransfer) (mem : Nat → Nat) (c : Master) : Prop where
  good : (run bus xfer mem c).status = .ok → ∀ b ∈ (run bus xfer mem c).c.log, b.Good
  received : (run bus xfer mem c).status = .ok → xfer.dir = .read →
    ((run bus xfer mem c).c.log.filter Byte.isReceived).length = xfer.dataLen
  xfer : (run bus xfer mem c).xfer = xfer

/-- A byte of the data goes through. -/
def Fine : I2cDir → Answer → Prop
  | .write, a => a = .ack
  | .read, a => a ≠ .lost

/--
The bus is busy or the device does not answer, or there is no register address and every byte of
the data goes through.
-/
def Spared (xfer : I2cTransfer) (c : Master) : Prop :=
  c.ibb = true ∨ bus.answer 0 ≠ .ack ∨
    xfer.regAddrLen = 0 ∧ ∀ i < xfer.dataLen, Fine xfer.dir (bus.answer (i + 1))

variable {bus} {c : Master}

@[simp] lemma answered_log (a : Answer) (b : Byte) : (c.answered a b).log = c.log ++ [b] := rfl

@[simp] lemma i2cMasterStop_log : (i2cMasterStop bus c).2.log = c.log := by
  rw [i2cMasterStop]
  split <;> rfl

@[simp] lemma i2cCheckAndClearError_log : (i2cCheckAndClearError c).2.log = c.log := by
  rw [i2cCheckAndClearError]
  split
  · rfl
  · split <;> rfl

/-- The check behind a byte finds what its answer was. -/
lemma check_transmit (bus : Bus) (hial : c.ial = false) (value : Nat) :
    ((i2cCheckAndClearError (transmit bus value c)).1 = .ok ↔ bus.answer c.log.length = .ack) ∧
      (i2cCheckAndClearError (transmit bus value c)).2.ial = false := by
  cases h : bus.answer c.log.length <;>
    simp [i2cCheckAndClearError, transmit, Master.answered, hial, h]

/-- The loop that writes data is left with good bytes only if no byte fails. -/
lemma writeLoop_good (mem : Nat → Nat) (size buf : Nat) (hial : c.ial = false) :
    (∀ b ∈ (writeLoop bus mem size buf c).log, b.Good) ↔
      (∀ b ∈ c.log, b.Good) ∧ ∀ i < size, bus.answer (c.log.length + i) = .ack := by
  induction size generalizing buf c with
  | zero => simp [writeLoop]
  | succ size ih =>
    obtain ⟨hret, hial'⟩ := check_transmit bus hial (mem buf)
    have hlog : (i2cCheckAndClearError (transmit bus (mem buf) c)).2.log =
        c.log ++ [Byte.sent (mem buf % 2 ^ 8) (bus.answer c.log.length)] := by
      simp [transmit]
    rw [writeLoop]
    by_cases hack : bus.answer c.log.length = .ack
    · have hrest : (∀ i < size, bus.answer (c.log.length + 1 + i) = .ack) ↔
          ∀ i < size + 1, bus.answer (c.log.length + i) = .ack := by
        rw [Nat.forall_lt_succ_left]
        simp [hack, Nat.add_assoc, Nat.add_comm 1]
      simp only [ne_eq, hret.2 hack, not_true, if_false]
      rw [ih (buf + 1) hial', hlog]
      simp only [List.length_append, List.length_cons, List.length_nil, hrest]
      simp [or_imp, forall_and, Byte.Good, hack]
    · simp only [ne_eq, hret, hack, not_false_eq_true, if_true, hlog]
      constructor
      · intro h
        exact absurd (h (.sent (mem buf % 2 ^ 8) (bus.answer c.log.length)) (by simp)) hack
      · rintro ⟨-, h⟩
        exact absurd (h 0 (Nat.succ_pos size)) hack

/-- The loop that reads data receives a byte in each turn. -/
lemma readLoop_log (size buf : Nat) (mem : Nat → Nat) :
    (readLoop bus size buf (mem, c)).2.log = c.log ++ (List.range size).map fun i =>
      .received (bus.value (c.log.length + i)) (bus.answer (c.log.length + i)) := by
  induction size generalizing buf mem c with
  | zero => simp [readLoop]
  | succ size ih =>
    have hlog : ∀ c' : Master, c'.log = (receive bus c).log →
        (readLoop bus size (buf + 1) (Function.update mem buf (bus.value c.log.length), c')).2.log =
          c.log ++ (List.range (size + 1)).map fun i =>
            .received (bus.value (c.log.length + i)) (bus.answer (c.log.length + i)) := by
      intro c' hc'
      rw [ih, hc', List.range_succ_eq_map]
      simp [receive, Function.comp_def, Nat.add_assoc, Nat.add_comm 1]
    rw [readLoop]
    refine hlog _ ?_
    split <;> split <;> simp

/-- The data of a transfer goes through if each of its bytes does. -/
lemma dataPhase_good (xfer : I2cTransfer) (mem : Nat → Nat) (hial : c.ial = false)
    (hgood : ∀ b ∈ c.log, b.Good) :
    (∀ b ∈ (dataPhase bus xfer mem c).c.log, b.Good) ↔
      ∀ i < xfer.dataLen, Fine xfer.dir (bus.answer (c.log.length + i)) := by
  rcases Nat.eq_zero_or_pos xfer.dataLen with h0 | hpos
  · simpa [dataPhase, h0] using hgood
  · cases hdir : xfer.dir with
    | write =>
      have hwrite := @writeLoop_good bus { c with mtx := true } mem xfer.dataLen xfer.data hial
      simp only [dataPhase, hdir, hpos, and_self, if_true, reduceCtorEq, false_and, if_false,
        i2cMasterWrite, i2cMasterStop_log, hwrite, Fine]
      exact and_iff_right hgood
    | read =>
      simp only [dataPhase, hdir, hpos, and_self, if_true, reduceCtorEq, false_and, if_false,
        i2cMasterRead, readLoop_log, apply_ite Master.log, ite_self, List.mem_append,
        List.mem_map, List.mem_range, Fine]
      constructor
      · intro h i hi
        exact h _ (.inr ⟨i, hi, rfl⟩)
      · rintro h b (hb | ⟨i, hi, rfl⟩)
        · exact hgood b hb
        · exact h i hi

/-- All the data asked for is received. -/
lemma dataPhase_received (xfer : I2cTransfer) (mem : Nat → Nat) (hdir : xfer.dir = .read)
    (hsent : ∀ b ∈ c.log, b.isReceived = false) :
    ((dataPhase bus xfer mem c).c.log.filter Byte.isReceived).length = xfer.dataLen := by
  have hnone : c.log.filter Byte.isReceived = [] := by
    rw [List.filter_eq_nil_iff]
    intro b hb
    simp [hsent b hb]
  rcases Nat.eq_zero_or_pos xfer.dataLen with h0 | hpos
  · simp [dataPhase, h0, hnone]
  · have hall : (List.range xfer.dataLen).filter (fun _ => true) = List.range xfer.dataLen :=
      List.filter_eq_self.2 fun _ _ => rfl
    simp [dataPhase, hdir, hpos, i2cMasterRead, readLoop_log, apply_ite Master.log, hnone,
      List.filter_map, Function.comp_def, Byte.isReceived, hall]

/-- The loop over the register address takes a byte off its length at least. -/
lemma regAddrLoop_len (regAddr len : Nat) :
    (regAddrLoop bus regAddr (len + 1) c).2.1 ≤ len := by
  induction len generalizing c with
  | zero => simp [regAddrLoop, apply_ite Prod.snd, apply_ite Prod.fst]
  | succ len ih =>
    rw [regAddrLoop]
    by_cases hret : (i2cCheckAndClearError (transmit bus (regAddr >>> (8 * (len + 1))) c)).1 = .ok
    · simp only [ne_eq, hret, not_true, if_false]
      exact Nat.le_succ_of_le ih
    · simp only [ne_eq, hret, not_false_eq_true, if_true]
      exact Nat.le_refl _

/-- A register address changes the descriptor. -/
lemma registerPhase_xfer (xfer : I2cTransfer) (mem : Nat → Nat) (hlen : xfer.regAddrLen ≠ 0) :
    (registerPhase bus xfer mem c).xfer ≠ xfer := by
  obtain ⟨len, hsucc⟩ := Nat.exists_eq_succ_of_ne_zero hlen
  have hxfer : (registerPhase bus xfer mem c).xfer.regAddrLen =
      (regAddrLoop bus xfer.regAddr xfer.regAddrLen c).2.1 := by
    rw [registerPhase, if_pos hlen]
    simp only
    split
    · rfl
    · split
      · split <;> rfl
      · rfl
  have hle : (regAddrLoop bus xfer.regAddr len.succ c).2.1 ≤ len := regAddrLoop_len xfer.regAddr len
  intro h
  rw [h, hsucc] at hxfer
  omega

/-- The bus is asked for, and the address sent to it. -/
def addressed (bus : Bus) (xfer : I2cTransfer) (c : Master) : Master :=
  let dir := if 0 < xfer.regAddrLen ∧ xfer.dir = .read then .write else xfer.dir
  transmit bus (addressByte xfer.slaveAddr dir)
    { c with log := [], ial := false, msta := true, mtx := true, ibb := true }

lemma check_addressed (xfer : I2cTransfer) :
    ((i2cCheckAndClearError (addressed bus xfer c)).1 = .ok ↔ bus.answer 0 = .ack) ∧
      (i2cCheckAndClearError (addressed bus xfer c)).2.ial = false :=
  @check_transmit { c with log := [], ial := false, msta := true, mtx := true, ibb := true } bus
    rfl _

/-- A device that does not answer ends the transfer. -/
lemma run_refused (xfer : I2cTransfer) (mem : Nat → Nat) (hibb : c.ibb = false)
    (hack : bus.answer 0 ≠ .ack) :
    (run bus xfer mem c).status ≠ .ok ∧ (run bus xfer mem c).xfer = xfer := by
  have hret := mt (@check_addressed bus c xfer).1.1 hack
  simp only [addressed] at hret
  simp [run, i2cMasterTransfer, i2cMasterStart, hibb, hret]

/-- A device that answers gets what follows its address. -/
lemma run_acked (xfer : I2cTransfer) (mem : Nat → Nat) (hibb : c.ibb = false)
    (hack : bus.answer 0 = .ack) : run bus xfer mem c =
      registerPhase bus xfer mem (i2cCheckAndClearError (addressed bus xfer c)).2 := by
  have hret := (@check_addressed bus c xfer).1.2 hack
  simp only [addressed] at hret
  simp [run, i2cMasterTransfer, i2cMasterStart, hibb, hret, addressed]

/-- Without a register address the data follows at once. -/
lemma run_data (xfer : I2cTransfer) (mem : Nat → Nat) (hibb : c.ibb = false)
    (hack : bus.answer 0 = .ack) (hlen : xfer.regAddrLen = 0) :
    Right bus xfer mem c ↔ ∀ i < xfer.dataLen, Fine xfer.dir (bus.answer (i + 1)) := by
  have hrun := run_acked xfer mem hibb hack
  rw [registerPhase, if_neg (by simp [hlen])] at hrun
  have hlog : (i2cCheckAndClearError (addressed bus xfer c)).2.log =
      [.sent (addressByte xfer.slaveAddr xfer.dir % 2 ^ 8) .ack] := by
    simp [addressed, transmit, hack, hlen]
  have hgood := @dataPhase_good bus _ xfer mem (@check_addressed bus c xfer).2
    (by rw [hlog]; simp [Byte.Good])
  rw [hlog, ← hrun] at hgood
  simp only [List.length_singleton, Nat.add_comm 1] at hgood
  rw [← hgood]
  constructor
  · intro h
    exact h.good (by rw [hrun]; rfl)
  · intro h
    refine ⟨fun _ => h, fun _ hdir => ?_, by rw [hrun]; rfl⟩
    rw [hrun]
    exact dataPhase_received xfer mem hdir (by rw [hlog]; simp [Byte.isReceived])

/--
A transfer does what it should exactly where the bus is busy or the device does not answer, or there
is no register address and every byte of the data goes through.
-/
theorem i2cMasterTransfer_right_iff (bus : Bus) (xfer : I2cTransfer) (mem : Nat → Nat)
    (c : Master) : Right bus xfer mem c ↔ Spared bus xfer c := by
  by_cases hibb : c.ibb = true
  case pos =>
    refine iff_of_true ⟨?_, ?_, ?_⟩ (.inl hibb) <;>
      simp [run, i2cMasterTransfer, i2cMasterStart, hibb]
  case neg =>
    rw [Spared, or_iff_right hibb]
    rw [Bool.not_eq_true] at hibb
    by_cases hack : bus.answer 0 = .ack
    case neg =>
      obtain ⟨hstatus, hxfer⟩ := run_refused xfer mem hibb hack
      exact iff_of_true ⟨fun h => absurd h hstatus, fun h => absurd h hstatus, hxfer⟩ (.inl hack)
    case pos =>
      rw [or_iff_right (not_not.2 hack)]
      by_cases hlen : xfer.regAddrLen = 0
      · rw [run_data xfer mem hibb hack hlen, and_iff_right hlen]
      · refine iff_of_false (fun h => ?_) fun h => hlen h.1
        have hsame := h.xfer
        rw [run_acked xfer mem hibb hack] at hsame
        exact registerPhase_xfer xfer mem hlen hsame

/-- A device that acknowledges its address and not the byte of data. -/
theorem i2cMasterTransfer_not_right :
    ¬ ∀ bus xfer mem c, Right bus xfer mem c := by
  intro h
  have hr := h ⟨fun k => if k = 1 then .nak else .ack, fun _ => 0, false, fun _ => true⟩
    ⟨0x1a, .write, 0, 0, 0, 1⟩ (fun _ => 0) ⟨false, false, false, true, false, false, false, []⟩
  have hbyte := hr.good (by decide) (.sent 0 .nak) (by decide)
  exact absurd hbyte (by simp [Byte.Good])

end Imx.Bsp.I2c
