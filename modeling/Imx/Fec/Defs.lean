import Mathlib.Algebra.Order.Ring.Int
import Mathlib.Data.List.Infix
import Mathlib.Logic.Function.Basic
import Imx.Base.Run

/-!
# The receive ring of the Ethernet controller

Model of the receiving side of `drivers/net/fec_mxc.c`: `fec_recv` with `fec_halt`, `fec_init` and
`fec_open`, taken apart into the accesses between which the controller may act, and the controller.
A descriptor is given by the bits of its status that the driver looks at, its length and its buffer.
A write to a descriptor is seen at once; what the cache does is to delay it until the flush.
`fec_init` is one step, since the controller is disabled until its end. The transmit ring, the PHY,
the MII gasket, swapped packets and what is printed are left out.

C → Lean naming: `FEC_RBD_NUM` → `rbdNum`; `FEC_RBD_EMPTY`, `FEC_RBD_WRAP`, `FEC_RBD_LAST` and
`FEC_RBD_ERR` → the fields `empty`, `wrap`, `last` and `err`; `x_cntrl & 1` → `gts`.
-/

namespace Imx.Fec

/-- The number of descriptors (C `FEC_RBD_NUM`). -/
def rbdNum : Nat := 64

/-- The size of a buffer (C `FEC_MAX_PKT_SIZE`). -/
def maxPktSize : Nat := 1536

/-- How many descriptors there are in a line of the cache: `2 ^ shift`, as many as in the ring at
most. -/
structure Line where
  shift : Nat
  le : shift ≤ 6

/-- C `RXDESC_PER_CACHELINE`. -/
def Line.descs (line : Line) : Nat := 2 ^ line.shift

/-- A receive descriptor with its buffer (C `struct fec_bd`). -/
structure Bd where
  empty : Bool
  wrap : Bool
  last : Bool
  err : Bool
  length : Nat
  data : List UInt8
deriving DecidableEq, Repr

/-- A frame the controller receives, with its checksum; `err` is one of the bits of an error. -/
structure Frame where
  bytes : List UInt8
  last : Bool
  err : Bool
deriving DecidableEq, Repr

/-- A good frame of more than 14 bytes, without its checksum. -/
def Frame.good (f : Frame) : Bool := f.last && !f.err && 14 < (f.bytes.length : Int) - 4

/-- What is passed up of it. -/
def Frame.payload (f : Frame) : List UInt8 := f.bytes.take (f.bytes.length - 4)

/-- Where a restart of the controller goes on: `fec_recv` returns, or it reads the status of the
descriptor it has chosen before. -/
inductive Next where
  | idle
  | status (rbd : Nat)
deriving DecidableEq, Repr

/-- The next access of the driver. -/
inductive Pc where
  | idle
  | events (rbd : Nat)
  | halt (next : Next)
  | init (next : Next)
  | status (rbd : Nat)
  | length (rbd : Nat)
  | frameLength (rbd : Nat)
  | copy (rbd len : Nat)
  | clean (i : Nat)
  | cleanLength (i : Nat)
  | advance
deriving DecidableEq, Repr

/-- The driver, its ring and the controller, with what has happened since the controller was
enabled: the frames it stored, those that were passed up, and the descriptors with a frame that was
neither passed up nor dropped. -/
structure State where
  bd : Nat → Bd
  rbdIndex : Nat
  gts : Bool
  pc : Pc
  enabled : Bool
  next : Nat
  stored : List Frame
  passed : List (List UInt8)
  pending : Nat → Bool

/-- Mark a descriptor free (C `fec_rbd_clean`, its first write). -/
def Bd.cleanStatus (b : Bd) (last : Bool) : Bd :=
  { b with empty := true, wrap := last, last := false, err := false }

/-- Its second write. -/
def Bd.cleanLength (b : Bd) : Bd := { b with length := 0 }

/-- Wipe a buffer and mark its descriptor free (C `fec_rbd_init`, one turn of the loop). -/
def Bd.init (b : Bd) : Bd :=
  { b with data := List.replicate maxPktSize 0, empty := true, wrap := false, last := false,
           err := false, length := 0 }

/-- Go on after a restart. -/
def Next.pc : Next → Pc
  | .idle => .idle
  | .status rbd => .status rbd

namespace State

variable (s : State)

/-- Change a descriptor. -/
def setBd (i : Nat) (b : Bd) : State := { s with bd := Function.update s.bd i b }

/-- Initialise the ring (C `fec_rbd_init`). -/
def rbdInit : State :=
  { s with
    bd := fun i =>
      if i < rbdNum then { (s.bd i).init with wrap := decide (i = rbdNum - 1) } else s.bd i
    rbdIndex := 0 }

/-- Mark all descriptors free and enable the controller, which begins at the first of them
(C `fec_open`). -/
def fecOpen : State :=
  { s with
    gts := false
    rbdIndex := 0
    bd := fun i =>
      if i < rbdNum then ((s.bd i).cleanStatus (decide (i = rbdNum - 1))).cleanLength else s.bd i
    enabled := true
    next := 0
    stored := []
    passed := []
    pending := fun _ => false }

/-- C `fec_init`. -/
def fecInit : State := s.rbdInit.fecOpen

/-- Disable the controller (C `fec_halt`). -/
def fecHalt : State := { s with gts := true, enabled := false, rbdIndex := 0 }

/-- The events are read: a babbling receive error restarts the controller and ends the call, a
graceful stop restarts it in the call. -/
def readEvents (rbd : Nat) (babr hberr gra : Bool) : State :=
  if babr then { s with pc := .halt .idle }
  else
    let s := { s with gts := hberr || s.gts }
    if gra && s.gts then { s with pc := .halt (.status rbd) } else { s with pc := .status rbd }

/-- The frame is done with. A line of descriptors that are all done with is given back. -/
def handled (line : Line) (rbd : Nat) : State :=
  let size := line.descs - 1
  { s with
    pending := Function.update s.pending rbd false
    pc := if s.rbdIndex &&& size = size then .clean (s.rbdIndex - size) else .advance }

/-- The next access of the driver (C `fec_recv`). -/
def go (line : Line) : State :=
  match s.pc with
  | .idle => s
  | .events _ => s
  | .halt next => { s.fecHalt with pc := .init next }
  | .init next => { s.fecInit with pc := next.pc }
  | .status rbd =>
    if (s.bd rbd).empty then { s with pc := .idle }
    else if (s.bd rbd).last ∧ ¬ (s.bd rbd).err then { s with pc := .length rbd }
    else s.handled line rbd
  | .length rbd =>
    if ((s.bd rbd).length : Int) - 4 > 14 then { s with pc := .frameLength rbd }
    else s.handled line rbd
  | .frameLength rbd => { s with pc := .copy rbd ((s.bd rbd).length - 4) }
  | .copy rbd len =>
    { s with passed := s.passed ++ [(s.bd rbd).data.take len] }.handled line rbd
  | .clean i =>
    { s.setBd i ((s.bd i).cleanStatus (decide (i = rbdNum - 1))) with pc := .cleanLength i }
  | .cleanLength i =>
    { s.setBd i (s.bd i).cleanLength with
      pc := if i + 1 ≤ s.rbdIndex then .clean (i + 1) else .advance }
  | .advance => { s with rbdIndex := (s.rbdIndex + 1) % rbdNum, pc := .idle }

/-- The controller stores a frame in its next descriptor, if that is empty, and goes on behind it,
or at the beginning where the descriptor has the mark to wrap. -/
def store (f : Frame) : State :=
  if s.enabled ∧ (s.bd s.next).empty ∧ f.bytes.length ≤ maxPktSize then
    { s.setBd s.next { s.bd s.next with
        empty := false, last := f.last, err := f.err, length := f.bytes.length,
        data := f.bytes } with
      next := if (s.bd s.next).wrap then 0 else s.next + 1
      stored := s.stored ++ [f]
      pending := Function.update s.pending s.next true }
  else s

end State

/-- What happens: `fec_recv` is called, or `fec_halt` and `fec_init`; the events are read; the
driver makes its next access; the controller stores a frame. -/
inductive Action where
  | recv
  | restart
  | events (babr hberr gra : Bool)
  | go
  | store (f : Frame)
deriving DecidableEq, Repr

/-- One step; an action that is not possible changes nothing. -/
def step (line : Line) (s : State) : Action → State
  | .recv =>
    match s.pc with
    | .idle => { s with pc := .events s.rbdIndex }
    | _ => s
  | .restart =>
    match s.pc with
    | .idle => { s with pc := .halt .idle }
    | _ => s
  | .events babr hberr gra =>
    match s.pc with
    | .events rbd => s.readEvents rbd babr hberr gra
    | _ => s
  | .go => s.go line
  | .store f => s.store f

end Imx.Fec
