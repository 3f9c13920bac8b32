import Imx.I2c.Defs

/-!
# What a transfer reports

The log of a transfer is taken apart along the functions of the driver: each of them adds accesses
at the end. A transfer that reports success added, in one attempt, a start, the bytes sent, each
with the poll that showed its acknowledge, and the bytes read, each behind the poll that announced
it. And whenever the controller was made master the last write to its control register clears the
bit.
-/

namespace Imx.I2c

variable {ctl : Controller} {bus : Bus} {chip byte : BitVec 8} {addr : BitVec 32} {alen len : Nat}
  {bytes bytes' : List (BitVec 8)} {state : Awaited} {l p q : Log}

/-! ## Parts of a log -/

/-- The polls of a wait that came to the awaited state with the status `sr`. -/
inductive Polled (state : Awaited) : BitVec 8 → Log → Prop where
  | hit {sr} :
    sr &&& i2srIal = 0 →
    sr &&& state.mask = state.value →
    Polled state sr [.read .i2sr sr]
  | miss {sr sr' l} :
    sr' &&& i2srIal = 0 →
    Polled state sr l →
    Polled state sr (.read .i2sr sr' :: l)

/-- A byte sent and acknowledged. -/
inductive Acked (bus : Bus) : BitVec 8 → Log → Prop where
  | sent {byte sr l} :
    Polled stIif sr l →
    sr &&& i2srRxNoAk = 0 →
    Acked bus byte (.write .i2sr (i2srIifClear bus) :: .write .i2dr byte :: l)

/-- Bytes sent one after the other, all of them acknowledged. -/
inductive AllAcked (bus : Bus) : List (BitVec 8) → Log → Prop where
  | nil : AllAcked bus [] []
  | cons {byte bytes l l'} :
    Acked bus byte l →
    AllAcked bus bytes l' →
    AllAcked bus (byte :: bytes) (l ++ l')

/-- The controller is made master, the bus becomes busy, and it is set to transmit. -/
inductive Started : Log → Prop where
  | start {cr sr l} :
    Polled stBusBusy sr l →
    Started (.write .i2cr (cr ||| i2crMsta) ::
      l ++ [Access.write .i2cr (cr ||| i2crMsta ||| (i2crMtx ||| i2crTxNoAk))])

/-- No access to the data register. -/
def NoData (l : Log) : Prop := ∀ v, .read .i2dr v ∉ l ∧ .write .i2dr v ∉ l

/-- Bytes taken from the data register, each when it had come in. -/
inductive Received : List (BitVec 8) → Log → Prop where
  | nil : Received [] []
  | cons {byte bytes sr l l' l''} :
    Polled stIif sr l →
    NoData l' →
    Received bytes l'' →
    Received (byte :: bytes) (l ++ l' ++ .read .i2dr byte :: l'')

/-- One attempt sent the chip address and the register address. -/
def Addressed (bus : Bus) (chip : BitVec 8) (addr : BitVec 32) (alen : Nat) (l : Log) : Prop :=
  ∃ before start sent, l = before ++ (start ++ sent) ∧ Started start ∧
    AllAcked bus (chip <<< 1 :: addrBytes addr alen) sent

/-- The transfer wrote the bytes: one attempt sent the chip address, the register address and the
data, and nothing after it. -/
def Wrote (bus : Bus) (chip : BitVec 8) (addr : BitVec 32) (alen : Nat) (buf : List (BitVec 8))
    (l : Log) : Prop :=
  ∃ before start sent stop, l = before ++ (start ++ (sent ++ stop)) ∧ Started start ∧
    AllAcked bus (chip <<< 1 :: addrBytes addr alen ++ buf) sent ∧ NoData stop

/-- The transfer read the bytes: one attempt sent the chip address and the register address, then,
after a repeated start, the chip address to read from, and took as many bytes as were asked for. -/
def Read (bus : Bus) (chip : BitVec 8) (addr : BitVec 32) (alen len : Nat) (bytes : List (BitVec 8))
    (l : Log) : Prop :=
  ∃ before start sent cr again setup recv stop dummy,
    l = before ++ (start ++ (sent ++ (Access.read .i2cr cr :: .write .i2cr (cr ||| i2crRsta) ::
      again ++ (setup ++ .read .i2dr dummy :: (recv ++ stop))))) ∧
    Started start ∧ AllAcked bus (chip <<< 1 :: addrBytes addr alen) sent ∧
    Acked bus (chip <<< 1 ||| 1) again ∧ NoData setup ∧ Received bytes recv ∧
    bytes.length = len ∧ NoData stop

/-- The controller was made master. -/
def MadeMaster (l : Log) : Prop := ∃ v, .write .i2cr v ∈ l ∧ v &&& i2crMsta ≠ 0

/-- No write to the control register. -/
def Quiet (l : Log) : Prop := ∀ v, .write .i2cr v ∉ l

/-- The last write to the control register clears the master bit. -/
inductive Freed : Log → Prop where
  | clear {v l l'} :
    v &&& i2crMsta = 0 →
    Quiet l' →
    Freed (l ++ .write .i2cr v :: l')

/-- A call that logged only new accesses, succeeded only if it did what is asked of it, and left
the bus free if it took it. -/
def Honest {α : Type} (done : α → Log → Prop) (l : Log) (r : Except Errno α × Log) : Prop :=
  ∃ p, r.2 = l ++ p ∧ (∀ a, r.1 = .ok a → done a p) ∧ (MadeMaster p → Freed p)

/-! ## Putting logs together -/

lemma Quiet.append (hp : Quiet p) (hq : Quiet q) : Quiet (p ++ q) := by
  intro v mem
  cases List.mem_append.1 mem with
  | inl mem => exact hp v mem
  | inr mem => exact hq v mem

lemma NoData.append (hp : NoData p) (hq : NoData q) : NoData (p ++ q) := by
  intro v
  simp only [List.mem_append, not_or]
  exact ⟨⟨(hp v).1, (hq v).1⟩, ⟨(hp v).2, (hq v).2⟩⟩

lemma Freed.behind (hq : Freed q) : Freed (p ++ q) := by
  cases hq with
  | @clear v l l' clear quiet =>
    rw [← List.append_assoc]
    exact .clear clear quiet

lemma AllAcked.append (hp : AllAcked bus bytes p) (hq : AllAcked bus bytes' q) :
    AllAcked bus (bytes ++ bytes') (p ++ q) := by
  induction hp with
  | nil => exact hq
  | cons acked _ ih =>
    rw [List.append_assoc]
    exact .cons acked ih

/-! ## What each function logs -/

/-- A wait only polls, and what it returns is the status it came to. -/
lemma waitLoop_spec {n : Nat} :
    ∃ r p, waitLoop ctl bus state n l = (r, l ++ p) ∧ Quiet p ∧ NoData p ∧
      ∀ sr, r = .ok sr → Polled state sr p := by
  fun_induction waitLoop ctl bus state n l with
  | case1 n l sr l1 read lost l2 =>
    cases read
    exact ⟨_, _, by simp [l2, readb, writeb]; exact ⟨rfl, rfl⟩, by simp [Quiet], by simp [NoData],
      by simp⟩
  | case2 n l sr l1 read lost hit =>
    cases read
    refine ⟨_, [_], rfl, by simp [Quiet], by simp [NoData], fun sr eq => ?_⟩
    cases eq
    exact .hit (not_not.1 lost) hit
  | case3 l sr l1 read lost hit =>
    cases read
    exact ⟨_, _, by simp [readb]; exact ⟨rfl, rfl⟩, by simp [Quiet], by simp [NoData], by simp⟩
  | case4 l sr l1 read lost hit n ih =>
    cases read
    obtain ⟨r, p, eq, quiet, none, polled⟩ := ih
    refine ⟨r, _ :: p, by rw [eq, List.append_assoc]; rfl, ?_, ?_, ?_⟩
    · intro v
      simpa using quiet v
    · intro v
      simpa using none v
    · intro sr ok
      exact .miss (not_not.1 lost) (polled sr ok)

lemma waitForSrState_spec :
    ∃ r p, waitForSrState ctl bus state l = (r, l ++ p) ∧ Quiet p ∧ NoData p ∧
      ∀ sr, r = .ok sr → Polled state sr p := waitLoop_spec

/-- A byte is reported as sent only if it was acknowledged. -/
lemma txByte_spec :
    ∃ r p, txByte ctl bus byte l = (r, l ++ p) ∧ Quiet p ∧ ∀ u, r = .ok u → Acked bus byte p := by
  obtain ⟨r, p, eq, quiet, -, polled⟩ := @waitForSrState_spec ctl bus stIif
    (l ++ [Access.write .i2sr (i2srIifClear bus)] ++ [Access.write .i2dr byte])
  have log : l ++ [Access.write .i2sr (i2srIifClear bus)] ++ [Access.write .i2dr byte] ++ p =
      l ++ (Access.write .i2sr (i2srIifClear bus) :: .write .i2dr byte :: p) := by simp
  have quiet' : Quiet (.write .i2sr (i2srIifClear bus) :: .write .i2dr byte :: p) := by
    intro v
    simpa using quiet v
  rw [log] at eq
  simp only [txByte, writeb, eq]
  cases r with
  | error e => exact ⟨_, _, rfl, quiet', by simp⟩
  | ok sr =>
    simp only
    split_ifs with nak
    · exact ⟨_, _, rfl, quiet', by simp⟩
    · exact ⟨_, _, rfl, quiet', fun _ _ => .sent (polled sr rfl) (not_not.1 nak)⟩

/-- Bytes are reported as sent only if all of them were acknowledged. -/
lemma txBytes_spec :
    ∃ r p, txBytes ctl bus bytes l = (r, l ++ p) ∧ Quiet p ∧
      ∀ u, r = .ok u → AllAcked bus bytes p := by
  induction bytes generalizing l with
  | nil => exact ⟨_, [], by rw [txBytes, List.append_nil], by simp [Quiet], fun _ _ => .nil⟩
  | cons byte bytes ih =>
    obtain ⟨r, p, eq, quiet, acked⟩ := @txByte_spec ctl bus byte l
    rw [txBytes, eq]
    cases r with
    | error e => exact ⟨_, _, rfl, quiet, by simp⟩
    | ok u =>
      obtain ⟨r', p', eq', quiet', acked'⟩ := @ih (l ++ p)
      refine ⟨r', p ++ p', ?_, quiet.append quiet', fun u' ok => .cons (acked u rfl) (acked' u' ok)⟩
      simpa using eq'

/-- Stopping clears the master bit and moves no data. -/
lemma i2cImxStop_spec : ∃ p, i2cImxStop ctl bus l = l ++ p ∧ Freed p ∧ NoData p := by
  obtain ⟨r, p, eq, quiet, none, -⟩ := @waitForSrState_spec ctl bus stBusIdle
    (l ++ [Access.read .i2cr (ctl.reg l .i2cr)] ++
      [Access.write .i2cr (ctl.reg l .i2cr &&& ~~~(i2crMsta ||| i2crMtx))])
  refine ⟨[Access.read .i2cr (ctl.reg l .i2cr)] ++
    Access.write .i2cr (ctl.reg l .i2cr &&& ~~~(i2crMsta ||| i2crMtx)) :: p, ?_,
    .clear ?_ quiet, ?_⟩
  · simp only [i2cImxStop, readb, writeb, eq]
    simp
  · rw [BitVec.and_assoc]
    exact BitVec.and_zero
  · intro v
    simpa using none v

lemma readb_grows {r : Reg} : l <+: (readb ctl r l).2 := ⟨_, rfl⟩

lemma writeb_grows {r : Reg} : l <+: writeb byte r l := ⟨_, rfl⟩

lemma writeb_ite_grows {r : Reg} {c : Prop} [Decidable c] :
    l <+: if c then writeb byte r l else l := by
  split
  · exact writeb_grows
  · exact ⟨[], List.append_nil l⟩

lemma prepare_grows : l <+: prepare ctl bus chip l :=
  readb_grows.trans <| writeb_ite_grows.trans <| readb_grows.trans <|
    writeb_ite_grows.trans writeb_grows

/-- An attempt reports success only if it sent the chip address and the register address. -/
lemma i2cInitTransferOnce_spec :
    ∃ r p, i2cInitTransferOnce ctl bus chip addr alen l = (r, l ++ p) ∧
      ∀ u, r = .ok u → Addressed bus chip addr alen p := by
  obtain ⟨a, prep⟩ := @prepare_grows ctl bus chip l
  obtain ⟨r, p, eq, -⟩ := @waitForSrState_spec ctl bus stBusIdle (l ++ a)
  simp only [i2cInitTransferOnce, ← prep, eq, readb, writeb]
  cases r with
  | error e => exact ⟨.error e, a ++ p, by simp, by simp⟩
  | ok sr =>
    simp only
    generalize ctl.reg (l ++ a ++ p) .i2cr = cr
    obtain ⟨r', p', eq', -, -, busy⟩ := @waitForSrState_spec ctl bus stBusBusy
      (l ++ a ++ p ++ [Access.read .i2cr cr] ++ [Access.write .i2cr (cr ||| i2crMsta)])
    rw [eq']
    cases r' with
    | error e =>
      exact ⟨.error e, a ++ (p ++ (Access.read .i2cr cr :: .write .i2cr (cr ||| i2crMsta) :: p')),
        by simp, by simp⟩
    | ok sr' =>
      simp only
      obtain ⟨r'', sent, eq'', -, acked⟩ := @txBytes_spec ctl bus
        (chip <<< 1 :: addrBytes addr alen)
        (l ++ a ++ p ++ [Access.read .i2cr cr] ++ [Access.write .i2cr (cr ||| i2crMsta)] ++ p' ++
          [Access.write .i2cr (cr ||| i2crMsta ||| (i2crMtx ||| i2crTxNoAk))])
      rw [eq'']
      refine ⟨r'', a ++ (p ++ [Access.read .i2cr cr]) ++
        ((Access.write .i2cr (cr ||| i2crMsta) :: p' ++
        [Access.write .i2cr (cr ||| i2crMsta ||| (i2crMtx ||| i2crTxNoAk))]) ++ sent), by simp,
        fun u ok => ⟨_, _, _, rfl, .start (busy sr' rfl), acked u ok⟩⟩

/-- A failed attempt frees the bus. -/
lemma i2cImxStop_of_failed {e : Errno} {l' : Log}
    (once : i2cInitTransferOnce ctl bus chip addr alen l = (.error e, l')) :
    ∃ p, i2cImxStop ctl bus l' = l ++ p ∧ Freed p := by
  obtain ⟨r, p, eq, -⟩ := @i2cInitTransferOnce_spec ctl bus chip addr alen l
  rw [eq] at once
  cases once
  obtain ⟨q, stopped, freed, -⟩ := @i2cImxStop_spec ctl bus (l ++ p)
  exact ⟨p ++ q, by rw [stopped, List.append_assoc], freed.behind⟩

/-- Turning the controller off as well keeps the bus free. -/
lemma off_of_failed {e : Errno} {l' : Log} {c : Prop} [Decidable c]
    (once : i2cInitTransferOnce ctl bus chip addr alen l = (.error e, l')) :
    ∃ p, (if c then writeb (i2crIdis bus) .i2cr (i2cImxStop ctl bus l')
      else i2cImxStop ctl bus l') = l ++ p ∧ Freed p := by
  obtain ⟨p, grown, freed⟩ := i2cImxStop_of_failed once
  rw [grown]
  split
  · refine ⟨p ++ [Access.write .i2cr (i2crIdis bus)], by simp [writeb], .clear ?_ (by simp [Quiet])⟩
    rw [i2crIdis]
    split
    · decide
    · decide
  · exact ⟨p, rfl, freed⟩

/-- The attempts report success only if the last of them sent the chip address and the register
address, and free the bus otherwise. -/
lemma initLoop_spec {n : Nat} :
    ∃ r p, initLoop ctl bus chip addr alen n l = (r, l ++ p) ∧ (∀ e, r = .error e → Freed p) ∧
      ∀ u, r = .ok u → Addressed bus chip addr alen p := by
  fun_induction initLoop ctl bus chip addr alen n l with
  | case1 n l u l1 once =>
    obtain ⟨r, p, eq, sent⟩ := @i2cInitTransferOnce_spec ctl bus chip addr alen l
    rw [eq] at once
    cases once
    exact ⟨_, _, rfl, by simp, fun u' _ => sent u rfl⟩
  | case2 n l l1 l2 once =>
    obtain ⟨p, grown, freed⟩ := i2cImxStop_of_failed once
    exact ⟨_, p, by simp only [l2, grown]; rfl, fun _ _ => freed, by simp⟩
  | case3 n l e l1 once l2 device l3 idle =>
    obtain ⟨p, grown, freed⟩ := @off_of_failed _ _ _ _ _ _ _ _ (e ≠ .erestart) _ once
    exact ⟨.error e, p, by simp only [l2, l3, grown], fun _ _ => freed, by simp⟩
  | case4 l e l1 once l2 device l3 idle =>
    obtain ⟨p, grown, freed⟩ := @off_of_failed _ _ _ _ _ _ _ _ (e ≠ .erestart) _ once
    exact ⟨.error e, p, by simp only [l2, l3, grown], fun _ _ => freed, by simp⟩
  | case5 l e l1 once l2 device l3 idle n ih =>
    obtain ⟨p, grown, -⟩ := @off_of_failed _ _ _ _ _ _ _ _ (e ≠ .erestart) _ once
    obtain ⟨r, q, eq, freed, sent⟩ := ih
    refine ⟨r, p ++ q, ?_, fun e err => (freed e err).behind, fun u ok => ?_⟩
    · simp only [l2, l3, grown] at eq ⊢
      rw [eq, List.append_assoc]
    · obtain ⟨before, start, addressed, rfl, started, acked⟩ := sent u ok
      exact ⟨p ++ before, start, addressed, (List.append_assoc ..).symm, started, acked⟩

/-- What is done between the announcement of a byte and taking it moves no data. -/
lemma beforeByte_spec {i : Nat} :
    ∃ p, writeb (i2srIifClear bus) .i2sr (if i + 1 = len then i2cImxStop ctl bus l
      else if i + 2 = len then writeb (ctl.reg l .i2cr ||| i2crTxNoAk) .i2cr
        (l ++ [Access.read .i2cr (ctl.reg l .i2cr)])
      else l) = l ++ p ∧ NoData p := by
  split_ifs
  · obtain ⟨p, eq, -, none⟩ := @i2cImxStop_spec ctl bus l
    exact ⟨p ++ [Access.write .i2sr (i2srIifClear bus)], by simp [eq, writeb],
      none.append (by simp [NoData])⟩
  · exact ⟨_, by simp [writeb]; rfl, by simp [NoData]⟩
  · exact ⟨_, rfl, by simp [NoData]⟩

/-- The bytes are reported as read only if each was announced before it was taken. -/
lemma readLoop_spec {i n : Nat} :
    ∃ r p, readLoop ctl bus len i n l = (r, l ++ p) ∧
      ∀ bytes, r = .ok bytes → Received bytes p ∧ bytes.length = n := by
  induction n generalizing i l with
  | zero =>
    refine ⟨_, [], by rw [readLoop, List.append_nil], fun bytes ok => ?_⟩
    cases ok
    exact ⟨.nil, rfl⟩
  | succ n ih =>
    obtain ⟨r, p, eq, -, -, polled⟩ := @waitForSrState_spec ctl bus stIif l
    rw [readLoop, eq]
    cases r with
    | error e =>
      obtain ⟨q, stopped, -, -⟩ := @i2cImxStop_spec ctl bus (l ++ p)
      exact ⟨.error e, p ++ q, by simp [stopped], by simp⟩
    | ok sr =>
      obtain ⟨q, handled, none⟩ := @beforeByte_spec ctl bus len (l ++ p) i
      simp only [readb, handled]
      obtain ⟨r', p', eq', recv⟩ := @ih
        (l ++ p ++ q ++ [Access.read .i2dr (ctl.reg (l ++ p ++ q) .i2dr)]) (i + 1)
      rw [eq']
      generalize ctl.reg (l ++ p ++ q) .i2dr = byte
      have log : l ++ p ++ q ++ [Access.read .i2dr byte] ++ p' =
          l ++ (p ++ q ++ .read .i2dr byte :: p') := by
        simp
      rw [log]
      cases r' with
      | error e => exact ⟨_, _, rfl, by simp⟩
      | ok bytes =>
        refine ⟨_, _, rfl, fun all eq => ?_⟩
        cases eq
        obtain ⟨recv, len⟩ := recv bytes rfl
        exact ⟨.cons (polled sr rfl) none recv, congrArg (· + 1) len⟩

/-- The data are reported as read only if each byte was announced before it was taken. -/
lemma i2cReadData_spec :
    ∃ r p, i2cReadData ctl bus len l = (r, l ++ p) ∧
      ∀ bytes, r = .ok bytes → ∃ setup dummy recv stop,
        p = setup ++ .read .i2dr dummy :: (recv ++ stop) ∧ NoData setup ∧ Received bytes recv ∧
          bytes.length = len ∧ NoData stop := by
  simp only [i2cReadData, readb, writeb]
  generalize ctl.reg l .i2cr = cr
  generalize (if len = 1 then cr &&& ~~~(i2crMtx ||| i2crTxNoAk) ||| i2crTxNoAk
    else cr &&& ~~~(i2crMtx ||| i2crTxNoAk)) = temp
  generalize ctl.reg (l ++ [Access.read .i2cr cr] ++ [Access.write .i2cr temp] ++
    [Access.write .i2sr (i2srIifClear bus)]) .i2dr = dummy
  have log : l ++ [Access.read .i2cr cr] ++ [Access.write .i2cr temp] ++
      [Access.write .i2sr (i2srIifClear bus)] ++ [Access.read .i2dr dummy] =
        l ++ ([Access.read .i2cr cr, .write .i2cr temp, .write .i2sr (i2srIifClear bus)] ++
          [Access.read .i2dr dummy]) := by simp
  have none : NoData [.read .i2cr cr, .write .i2cr temp, .write .i2sr (i2srIifClear bus)] := by
    simp [NoData]
  rw [log]
  generalize [Access.read .i2cr cr, .write .i2cr temp, .write .i2sr (i2srIifClear bus)] = setup
    at none ⊢
  obtain ⟨r, p, eq, recv⟩ := @readLoop_spec ctl bus len
    (l ++ (setup ++ [Access.read .i2dr dummy])) 0 len
  rw [eq]
  cases r with
  | error e => exact ⟨.error e, setup ++ .read .i2dr dummy :: p, by simp, by simp⟩
  | ok bytes =>
    obtain ⟨q, stopped, -, none'⟩ := @i2cImxStop_spec ctl bus
      (l ++ (setup ++ [Access.read .i2dr dummy]) ++ p)
    simp only [stopped]
    refine ⟨.ok bytes, setup ++ .read .i2dr dummy :: (p ++ q), by simp, fun all eq => ?_⟩
    cases eq
    obtain ⟨recv, len⟩ := recv bytes rfl
    exact ⟨setup, dummy, p, q, rfl, none, recv, len, none'⟩

/-! ## The transfers -/

/-- Starting a transfer: nothing is done without a base address. -/
lemma i2cInitTransfer_spec :
    ∃ r p, i2cInitTransfer ctl bus chip addr alen l = (r, l ++ p) ∧
      (∀ e, r = .error e → MadeMaster p → Freed p) ∧
        ∀ u, r = .ok u → Addressed bus chip addr alen p := by
  rw [i2cInitTransfer]
  split
  · exact ⟨_, [], by rw [List.append_nil], by simp [MadeMaster], by simp⟩
  · obtain ⟨r, p, eq, freed, sent⟩ := @initLoop_spec ctl bus chip addr alen l 2
    exact ⟨r, p, eq, fun e err _ => freed e err, sent⟩

lemma busI2cWrite_honest {buf : List (BitVec 8)} :
    Honest (fun _ => Wrote bus chip addr alen buf) l
      (busI2cWrite ctl bus chip addr alen buf l) := by
  obtain ⟨r, p, eq, freed, sent⟩ := @i2cInitTransfer_spec ctl bus chip addr alen l
  rw [busI2cWrite, eq]
  cases r with
  | error e => exact ⟨p, rfl, by simp, freed e rfl⟩
  | ok u =>
    obtain ⟨before, start, addressed, rfl, started, acked⟩ := sent u rfl
    obtain ⟨r', data, eq', -, acked'⟩ := @txBytes_spec ctl bus buf
      (l ++ (before ++ (start ++ addressed)))
    obtain ⟨stop, stopped, free, none⟩ := @i2cImxStop_spec ctl bus
      (l ++ (before ++ (start ++ addressed)) ++ data)
    simp only [eq', stopped]
    refine ⟨before ++ (start ++ (addressed ++ data ++ stop)), by simp, fun a ok => ?_, fun _ => ?_⟩
    · exact ⟨before, start, addressed ++ data, stop, rfl, started, acked.append (acked' a ok), none⟩
    · exact (free.behind.behind).behind

lemma busI2cRead_honest :
    Honest (Read bus chip addr alen len) l (busI2cRead ctl bus chip addr alen len l) := by
  obtain ⟨r, p, eq, freed, sent⟩ := @i2cInitTransfer_spec ctl bus chip addr alen l
  rw [busI2cRead, eq]
  cases r with
  | error e => exact ⟨p, rfl, by simp, freed e rfl⟩
  | ok u =>
    obtain ⟨before, start, addressed, rfl, started, acked⟩ := sent u rfl
    simp only [readb, writeb]
    generalize ctl.reg (l ++ (before ++ (start ++ addressed))) .i2cr = cr
    obtain ⟨r', again, eq', -, acked'⟩ := @txByte_spec ctl bus (chip <<< 1 ||| 1)
      (l ++ (before ++ (start ++ addressed)) ++ [Access.read .i2cr cr] ++
        [Access.write .i2cr (cr ||| i2crRsta)])
    rw [eq']
    cases r' with
    | error e =>
      obtain ⟨stop, stopped, free, -⟩ := @i2cImxStop_spec ctl bus (l ++
        (before ++ (start ++ addressed)) ++ [Access.read .i2cr cr] ++
          [Access.write .i2cr (cr ||| i2crRsta)] ++ again)
      simp only [stopped]
      refine ⟨before ++ (start ++ addressed) ++ (Access.read .i2cr cr ::
        .write .i2cr (cr ||| i2crRsta) :: again) ++ stop, by simp, by simp, fun _ => free.behind⟩
    | ok u' =>
      obtain ⟨r'', data, eq'', recv⟩ := @i2cReadData_spec ctl bus len (l ++
        (before ++ (start ++ addressed)) ++ [Access.read .i2cr cr] ++
          [Access.write .i2cr (cr ||| i2crRsta)] ++ again)
      obtain ⟨stop, stopped, free, none⟩ := @i2cImxStop_spec ctl bus (l ++
        (before ++ (start ++ addressed)) ++ [Access.read .i2cr cr] ++
          [Access.write .i2cr (cr ||| i2crRsta)] ++ again ++ data)
      simp only [eq'', stopped]
      refine ⟨before ++ (start ++ addressed) ++ (Access.read .i2cr cr ::
        .write .i2cr (cr ||| i2crRsta) :: again) ++ data ++ stop, by simp, fun bytes ok => ?_,
        fun _ => free.behind⟩
      obtain ⟨setup, dummy, taken, stop', rfl, none', recv, len, none''⟩ := recv bytes ok
      exact ⟨before, start, addressed, cr, again, setup, taken, stop' ++ stop, dummy, by simp,
        started, acked, acked' u' rfl, none', recv, len, none''.append none⟩

/-- Whatever the controller answers, a transfer reports success only if one attempt did all of it,
and leaves the bus free when it had taken it. -/
theorem transfer_honest (ctl : Controller) (bus : Bus) (chip : BitVec 8) (addr : BitVec 32)
    (alen len : Nat) (buf : List (BitVec 8)) (l : Log) :
    Honest (fun _ => Wrote bus chip addr alen buf) l (busI2cWrite ctl bus chip addr alen buf l) ∧
      Honest (Read bus chip addr alen len) l (busI2cRead ctl bus chip addr alen len l) :=
  ⟨busI2cWrite_honest, busI2cRead_honest⟩

end Imx.I2c
