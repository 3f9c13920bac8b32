import Imx.Base.ByteOrder
import Imx.Spi.Defs

/-!
# The transfers of the SPI driver

`spi_xfer` cuts a transfer into bursts of 32 bytes, `spi_xchg_single` moves a burst through the
FIFOs of the controller. A pointer is an address or NULL, `rx` is what the receive FIFO will give.
What the driver writes to the registers is logged.
-/

namespace Imx.Spi
open Imx.Base

def spiXferBegin : BitVec 32 := 1
def spiXferEnd : BitVec 32 := 2
def configSysSpiMxcWait : Nat := 10

inductive Event where
  | ctrl (v : BitVec 32)
  | cfg (v : BitVec 32)
  | stat (v : BitVec 32)
  | txdata (v : BitVec 32)
deriving DecidableEq

/-- What a transfer works on, `line` is the level of the chip select. -/
structure Bus where
  mem : Mem
  rx : Nat → BitVec 32
  line : Bool

structure St extends Bus where
  mxcs : Slave
  log : List Event

def spiCsActivate (s : St) : St :=
  if 0 < s.mxcs.gpio then { s with line := s.mxcs.ssPol } else s

def spiCsDeactivate (s : St) : St :=
  if 0 < s.mxcs.gpio then { s with line := !s.mxcs.ssPol } else s

/-- A status that is read, and the time that has passed by then. -/
structure Poll where
  status : BitVec 32
  time : Nat

/-- The wait for the completion of a transfer. The time is up after the last poll. -/
def waitTc : List Poll → Bool
  | [] => false
  | p :: ps =>
    if p.status &&& cspictrlTc = 0 then
      if configSysSpiMxcWait < p.time then false else waitTc ps
    else true

/-- C `DIV_ROUND_UP`. -/
def divRoundUp (n d : BitVec 32) : Nat := ((n + d - 1) / d).toNat

/-- The word of `cnt` bytes that is sent first. -/
def txFirst (mem : Mem) (cnt : Nat) : Option Nat → BitVec 32
  | none => 0
  | some dout => shiftBytes mem cnt dout 0

/-- A word of data that is sent. -/
def txWord (mem : Mem) : Option Nat → BitVec 32
  | none => 0
  | some dout =>
    -- the buffer is not aligned
    if dout % 4 ≠ 0 then shiftBytes mem 4 dout 0
    else swab32 (BitVec.ofNat 32 (mem.get32 dout))

/-- The loop that fills the transmit FIFO. -/
def txWords (mem : Mem) (dout : Option Nat) (nbytes : Nat) : List (BitVec 32) :=
  if 0 < nbytes then txWord mem dout :: txWords mem (dout.map (· + 4)) (nbytes - 4) else []

/-- Store the low bytes of a word. -/
def memcpyWord (mem : Mem) (din : Option Nat) (data : BitVec 32) (cnt : Nat) : Mem :=
  match din with
  | none => mem
  | some din => mem.write din (bytesLe cnt data.toNat)

/-- The loop that empties the receive FIFO. -/
def rxWords (mem : Mem) (rx : Nat → BitVec 32) (din : Option Nat) (nbytes : Nat) :
    Mem × (Nat → BitVec 32) :=
  if 0 < nbytes then
    let data := swab32 (rx 0)
    let cnt := min nbytes 4
    rxWords (memcpyWord mem din data cnt) (fun i => rx (i + 1)) (din.map (· + cnt)) (nbytes - cnt)
  else (mem, rx)

def spiXchgSingle (s : St) (bitlen : BitVec 32) (dout din : Option Nat) (polls : List Poll) :
    Int × St :=
  let nbytes := divRoundUp bitlen 8
  let ctrlReg := (s.mxcs.ctrlReg &&& ~~~cspictrlBitcount cspictrlMaxbits) |||
    cspictrlBitcount (bitlen - 1)
  let mxcs := { s.mxcs with ctrlReg }
  let cnt := if bitlen % 32 ≠ 0 then ((bitlen % 32) / 8).toNat else 0
  -- a short word goes first
  let first := if bitlen % 32 ≠ 0 then [txFirst s.mem cnt dout] else []
  let words := first ++ txWords s.mem (dout.map (· + cnt)) (nbytes - cnt)
  let log := s.log ++ [Event.ctrl (ctrlReg ||| cspictrlEn), .cfg mxcs.cfgReg,
    .stat (cspictrlTc ||| cspictrlRxovf)] ++ words.map Event.txdata ++
    [Event.ctrl (ctrlReg ||| cspictrlEn ||| cspictrlXch)]
  let s := { s with mxcs, log }
  if waitTc polls then
    let s := { s with log := s.log ++ [Event.stat (cspictrlTc ||| cspictrlRxovf)] }
    if bitlen % 32 ≠ 0 then
      let data := swab32 (s.rx 0) >>> ((4 - cnt) * 8)
      let rest := rxWords (memcpyWord s.mem din data cnt) (fun i => s.rx (i + 1))
        (din.map (· + cnt)) (nbytes - cnt)
      (0, { s with mem := rest.1, rx := rest.2 })
    else
      let rest := rxWords s.mem s.rx din nbytes
      (0, { s with mem := rest.1, rx := rest.2 })
  else (-1, s)

/-- The bytes of the next burst. -/
def blkSize (nBytes : Nat) : Nat := if nBytes < maxSpiBytes then nBytes else maxSpiBytes

lemma blkSize_pos {n : Nat} (pos : 0 < n) : 0 < blkSize n := by
  rw [blkSize, maxSpiBytes]
  split <;> omega

/-- The loop of `spi_xfer`, `polls` are those of the bursts. -/
def xferLoop (s : St) (nBytes : Nat) (pOutbuf pInbuf : Option Nat) (polls : Nat → List Poll) :
    Int × St :=
  if 0 < nBytes then
    let blk := blkSize nBytes
    let r := spiXchgSingle s (BitVec.ofNat 32 (blk * 8)) pOutbuf pInbuf (polls 0)
    if r.1 ≠ 0 then r
    else xferLoop r.2 (nBytes - blk) (pOutbuf.map (· + blk)) (pInbuf.map (· + blk))
      fun i => polls (i + 1)
  else (0, s)
termination_by nBytes
decreasing_by
  have pos := blkSize_pos ‹0 < nBytes›
  omega

/-- What a call leaves behind. -/
structure Outcome where
  ret : Int
  bus : Bus
  log : List Event

def spiXfer (slave : Option Slave) (bus : Bus) (bitlen : BitVec 32) (dout din : Option Nat)
    (flags : BitVec 32) (polls : Nat → List Poll) : Outcome :=
  let nBytes := divRoundUp bitlen 8
  match slave with
  | none => ⟨-1, bus, []⟩
  | some mxcs =>
    let s : St := { bus with mxcs, log := [] }
    let s := if flags &&& spiXferBegin ≠ 0 then spiCsActivate s else s
    let r := xferLoop s nBytes dout din polls
    if r.1 ≠ 0 then ⟨r.1, r.2.toBus, r.2.log⟩
    else
      let s := if flags &&& spiXferEnd ≠ 0 then spiCsDeactivate r.2 else r.2
      ⟨0, s.toBus, s.log⟩

end Imx.Spi
