import Mathlib.Tactic.Common

/-!
# The i.MX I2C controller

A transfer of the i.MX I2C driver (`drivers/i2c/mxc_i2c.c`). The driver is a function of the log of
its register accesses; the controller answers every read with a byte that may depend on all of them,
and the clock says how many more polls a wait may take. What the board does to free a stuck bus is
outside the controller and only its return value is seen here.
-/

namespace Imx.I2c

/-- The registers a transfer uses. -/
inductive Reg where
  | iadr
  | i2cr
  | i2sr
  | i2dr
deriving DecidableEq, Repr

/-- An access to a register. -/
inductive Access where
  | read (r : Reg) (v : BitVec 8)
  | write (r : Reg) (v : BitVec 8)
deriving DecidableEq, Repr

/-- The accesses so far, the first one first. -/
abbrev Log := List Access

/-- What the driver finds outside: the byte a register is read as, how many polls there are until
the time of a wait is up, and what `i2c_idle_bus` returns. -/
structure Controller where
  reg : Log → Reg → BitVec 8
  polls : Log → Nat
  idleBus : Log → Int

/-- How the driver is built (`I2C_QUIRK_REG`) and the bus it is called for (C `mxc_i2c_bus`, where
`quirk` is the flag in `driver_data`). -/
structure Bus where
  quirkReg : Bool
  quirk : Bool
  base : Nat
deriving DecidableEq, Repr

/-! ## Bits -/

/-- Bits of the control register. -/
def i2crMsta : BitVec 8 := 1 <<< 5
def i2crMtx : BitVec 8 := 1 <<< 4
def i2crTxNoAk : BitVec 8 := 1 <<< 3
def i2crRsta : BitVec 8 := 1 <<< 2

/-- Bits of the status register. -/
def i2srIbb : BitVec 8 := 1 <<< 5
def i2srIal : BitVec 8 := 1 <<< 4
def i2srIif : BitVec 8 := 1 <<< 1
def i2srRxNoAk : BitVec 8 := 1 <<< 0

/-- Values that differ between the two layouts. -/
def i2crIen (b : Bus) : BitVec 8 := if b.quirkReg then 0 <<< 7 else 1 <<< 7
def i2crIdis (b : Bus) : BitVec 8 := if b.quirkReg then 1 <<< 7 else 0 <<< 7
def i2srIifClear (b : Bus) : BitVec 8 := if b.quirkReg then 1 <<< 1 else 0 <<< 1

/-- A state to wait for: the bits looked at and the value they must have. -/
structure Awaited where
  mask : BitVec 8
  value : BitVec 8

def stBusIdle : Awaited := ⟨i2srIbb, 0⟩
def stBusBusy : Awaited := ⟨i2srIbb, i2srIbb⟩
def stIif : Awaited := ⟨i2srIif, i2srIif⟩

/-- The errors of a transfer. -/
inductive Errno where
  | enodev
  | erestart
  | etimedout
deriving DecidableEq, Repr

/-! ## The driver -/

variable (ctl : Controller) (bus : Bus)

/-- Read a register (C `readb`). -/
def readb (r : Reg) (l : Log) : BitVec 8 × Log := (ctl.reg l r, l ++ [Access.read r (ctl.reg l r)])

/-- Write a register (C `writeb`). -/
def writeb (v : BitVec 8) (r : Reg) (l : Log) : Log := l ++ [Access.write r v]

/-- The loop of `wait_for_sr_state`, which may poll `n` more times after this one. -/
def waitLoop (state : Awaited) : Nat → Log → Except Errno (BitVec 8) × Log
  | n, l =>
    let (sr, l) := readb ctl .i2sr l
    if sr &&& i2srIal ≠ 0 then
      let l := writeb (if bus.quirk then sr ||| i2srIal else sr &&& ~~~i2srIal) .i2sr l
      -- the message shows the control register
      (.error .erestart, (readb ctl .i2cr l).2)
    else if sr &&& state.mask = state.value then (.ok sr, l)
    else
      match n with
      | 0 => (.error .etimedout, (readb ctl .i2cr l).2)
      | n + 1 => waitLoop state n l

/-- Wait until the status register is in a state (C `wait_for_sr_state`). -/
def waitForSrState (state : Awaited) (l : Log) : Except Errno (BitVec 8) × Log :=
  waitLoop ctl bus state (ctl.polls l) l

/-- Send a byte (C `tx_byte`). -/
def txByte (byte : BitVec 8) (l : Log) : Except Errno Unit × Log :=
  let l := writeb (i2srIifClear bus) .i2sr l
  let l := writeb byte .i2dr l
  match waitForSrState ctl bus stIif l with
  | (.error e, l) => (.error e, l)
  | (.ok sr, l) => if sr &&& i2srRxNoAk ≠ 0 then (.error .enodev, l) else (.ok (), l)

/-- Stop the transaction (C `i2c_imx_stop`). -/
def i2cImxStop (l : Log) : Log :=
  let (temp, l) := readb ctl .i2cr l
  let l := writeb (temp &&& ~~~(i2crMsta ||| i2crMtx)) .i2cr l
  (waitForSrState ctl bus stBusIdle l).2

/-- Send bytes one after the other until one fails: the loop of `i2c_write_data`, and that over the
bytes of the register address in `i2c_init_transfer_`. -/
def txBytes : List (BitVec 8) → Log → Except Errno Unit × Log
  | [], l => (.ok (), l)
  | byte :: bytes, l =>
    match txByte ctl bus byte l with
    | (.error e, l) => (.error e, l)
    | (.ok _, l) => txBytes bytes l

/-- The bytes of the register address in the order they are sent, the highest first. -/
def addrBytes (addr : BitVec 32) : Nat → List (BitVec 8)
  | 0 => []
  | alen + 1 => (addr >>> (alen * 8)).setWidth 8 :: addrBytes addr alen

/-- Is the controller off. -/
def disabled (cr : BitVec 8) : Bool :=
  if bus.quirk then cr &&& i2crIdis bus != 0 else cr &&& i2crIen bus == 0

/-- Enable the controller and keep its own address away from the chip's: the first part of
`i2c_init_transfer_`. -/
def prepare (chip : BitVec 8) (l : Log) : Log :=
  let (cr, l) := readb ctl .i2cr l
  let l := if disabled bus cr then writeb (i2crIen bus) .i2cr l else l
  let (own, l) := readb ctl .iadr l
  let l := if own.toNat = chip.toNat * 2 then writeb (chip <<< 1 ^^^ 2) .iadr l else l
  writeb (i2srIifClear bus) .i2sr l

/-- One attempt to start a transfer (C `i2c_init_transfer_`). -/
def i2cInitTransferOnce (chip : BitVec 8) (addr : BitVec 32) (alen : Nat) (l : Log) :
    Except Errno Unit × Log :=
  let l := prepare ctl bus chip l
  match waitForSrState ctl bus stBusIdle l with
  | (.error e, l) => (.error e, l)
  | (.ok _, l) =>
    let (temp, l) := readb ctl .i2cr l
    let temp := temp ||| i2crMsta
    let l := writeb temp .i2cr l
    match waitForSrState ctl bus stBusBusy l with
    | (.error e, l) => (.error e, l)
    | (.ok _, l) =>
      let l := writeb (temp ||| (i2crMtx ||| i2crTxNoAk)) .i2cr l
      txBytes ctl bus (chip <<< 1 :: addrBytes addr alen) l

/-- The loop over the attempts, `n` of which are left after this one. -/
def initLoop (chip : BitVec 8) (addr : BitVec 32) (alen : Nat) :
    Nat → Log → Except Errno Unit × Log
  | n, l =>
    match i2cInitTransferOnce ctl bus chip addr alen l with
    | (.ok _, l) => (.ok (), l)
    | (.error e, l) =>
      let l := i2cImxStop ctl bus l
      if e = .enodev then (.error e, l)
      else
        let l := if e ≠ .erestart then writeb (i2crIdis bus) .i2cr l else l
        if ctl.idleBus l < 0 then (.error e, l)
        else
          match n with
          | 0 => (.error e, l)
          | n + 1 => initLoop chip addr alen n l

/-- Start a transfer in at most three attempts (C `i2c_init_transfer`). -/
def i2cInitTransfer (chip : BitVec 8) (addr : BitVec 32) (alen : Nat) (l : Log) :
    Except Errno Unit × Log :=
  if bus.base = 0 then (.error .enodev, l) else initLoop ctl bus chip addr alen 2 l

/-- The loop of `i2c_read_data` over the bytes from `i` on, `n` of which are left. -/
def readLoop (len : Nat) : Nat → Nat → Log → Except Errno (List (BitVec 8)) × Log
  | _, 0, l => (.ok [], l)
  | i, n + 1, l =>
    match waitForSrState ctl bus stIif l with
    | (.error e, l) => (.error e, i2cImxStop ctl bus l)
    | (.ok _, l) =>
      let l :=
        if i + 1 = len then i2cImxStop ctl bus l
        else if i + 2 = len then
          let (temp, l) := readb ctl .i2cr l
          writeb (temp ||| i2crTxNoAk) .i2cr l
        else l
      let l := writeb (i2srIifClear bus) .i2sr l
      let (byte, l) := readb ctl .i2dr l
      match readLoop len (i + 1) n l with
      | (.error e, l) => (.error e, l)
      | (.ok bytes, l) => (.ok (byte :: bytes), l)

/-- Read the data of a transfer (C `i2c_read_data`). -/
def i2cReadData (len : Nat) (l : Log) : Except Errno (List (BitVec 8)) × Log :=
  let (temp, l) := readb ctl .i2cr l
  let temp := temp &&& ~~~(i2crMtx ||| i2crTxNoAk)
  let temp := if len = 1 then temp ||| i2crTxNoAk else temp
  let l := writeb temp .i2cr l
  let l := writeb (i2srIifClear bus) .i2sr l
  -- dummy read to clear ICF
  let (_, l) := readb ctl .i2dr l
  match readLoop ctl bus len 0 len l with
  | (.error e, l) => (.error e, l)
  | (.ok bytes, l) => (.ok bytes, i2cImxStop ctl bus l)

/-- Read from a device (C `bus_i2c_read`): what it leaves in the buffer when it returns 0. -/
def busI2cRead (chip : BitVec 8) (addr : BitVec 32) (alen len : Nat) (l : Log) :
    Except Errno (List (BitVec 8)) × Log :=
  match i2cInitTransfer ctl bus chip addr alen l with
  | (.error e, l) => (.error e, l)
  | (.ok _, l) =>
    let (temp, l) := readb ctl .i2cr l
    let l := writeb (temp ||| i2crRsta) .i2cr l
    match txByte ctl bus (chip <<< 1 ||| 1) l with
    | (.error e, l) => (.error e, i2cImxStop ctl bus l)
    | (.ok _, l) =>
      let (ret, l) := i2cReadData ctl bus len l
      (ret, i2cImxStop ctl bus l)

/-- Write to a device (C `bus_i2c_write`). -/
def busI2cWrite (chip : BitVec 8) (addr : BitVec 32) (alen : Nat) (buf : List (BitVec 8))
    (l : Log) : Except Errno Unit × Log :=
  match i2cInitTransfer ctl bus chip addr alen l with
  | (.error e, l) => (.error e, l)
  | (.ok _, l) =>
    let (ret, l) := txBytes ctl bus buf l
    (ret, i2cImxStop ctl bus l)

end Imx.I2c
