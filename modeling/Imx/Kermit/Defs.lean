import Imx.Base.Mem

/-!
# The kermit receiver

Model of the kermit download of `cmd/load.c`. `k_recv` is one loop that blocks in `getc`; the model
is the machine that takes one character a step, and its `Phase` is the call of `getc` the loop
stands in. A `char` is unsigned, as the ABI of the boards has it. `os_data_state` is always 0 and
left out, and an address is a number that does not wrap.

C → Lean naming (drop the `k_` and `os_` prefixes): `os_data_addr` and `k_data_escape` are a
`Place`, `os_data_addr_saved` and `k_data_escape_saved` the `Place` called `saved`; `his_eol` →
`eol`, `his_quote` → `quote`, `his_pad_count` → `padCount`, `his_pad_char` → `padChar`.
-/

namespace Imx.Kermit
open Imx.Base

def startChar : UInt8 := 0x01
def etxChar : UInt8 := 0x03
def endChar : UInt8 := 0x0D
def kEscape : UInt8 := 0x23

def sendType : UInt8 := 0x53
def dataType : UInt8 := 0x44
def ackType : UInt8 := 0x59
def nackType : UInt8 := 0x4E
def breakType : UInt8 := 0x42

def tochar (x : UInt8) : UInt8 := x + 0x20

def untochar (x : UInt8) : UInt8 := x - 0x20

/-- The test for a control character, which no packet may hold. -/
def bad (c : UInt8) : Bool := c &&& 0xE0 = 0

/-- Convert an escaped character to a binary one. -/
def ktrans (c : UInt8) : UInt8 :=
  if c &&& 0x60 = 0x40 then c &&& ~~~0x40
  else if c &&& 0x7F = 0x3F then c ||| 0x40
  else c

/-- The block check of a sum, as a character. -/
def checkChar (sum : Nat) : UInt8 := tochar (UInt8.ofNat ((sum + sum / 64 % 4) % 64))

/-- The sum of the characters of a block. -/
def total (bs : List UInt8) : Nat := (bs.map UInt8.toNat).sum

/-- Where `k_recv` waits for a character, or how it ended. -/
inductive Phase where
  | start
  | len
  | seq
  | type
  | lenHi
  | lenLo
  | hdrCheck
  | body
  | check
  | ending
  | done
  | aborted
deriving DecidableEq, Repr

/-- Where the next character of the file goes, and whether the last one was the escape. -/
structure Place where
  escape : Bool
  addr : Nat
deriving DecidableEq, Repr

/-- The variables of the receiver. `out` is what it sent. -/
structure Recv where
  phase : Phase
  sum : Nat
  length : Int
  lenHi : UInt8
  n : UInt8
  lastN : Option UInt8
  kState : UInt8
  kStateSaved : UInt8
  sendParms : List UInt8
  mem : Mem
  place : Place
  saved : Place
  eol : UInt8
  padCount : UInt8
  padChar : UInt8
  quote : UInt8
  out : List UInt8

/-- The state `k_recv` enters its main loop in. A last number of −1 is `none`. -/
def Recv.init (base : Nat) (mem : Mem) : Recv where
  phase := .start
  sum := 0
  length := 0
  lenHi := 0
  n := 0
  lastN := none
  kState := 0
  kStateSaved := 0
  sendParms := []
  mem := mem
  place := ⟨false, base⟩
  saved := ⟨false, base⟩
  eol := endChar
  padCount := 0
  padChar := 0
  quote := kEscape
  out := []

/-- Send the pad characters and a packet, which ends at the first NUL. -/
def sendPacket (r : Recv) (packet : List UInt8) : Recv :=
  { r with out := r.out ++ List.replicate r.padCount.toNat r.padChar ++ packet.takeWhile (· ≠ 0) }

/-- An answer of type `type` that carries the fields `fields`. -/
def answer (type n eol : UInt8) (fields : List UInt8) : List UInt8 :=
  let block := tochar (UInt8.ofNat (3 + fields.length)) :: tochar n :: type :: fields
  startChar :: block ++ [checkChar (total (block.takeWhile (· ≠ 0))), eol]

def sendAck (r : Recv) : Recv := sendPacket r (answer ackType r.n r.eol [])

def sendNack (r : Recv) : Recv := sendPacket r (answer nackType r.n r.eol [])

/-- One more character of a file (`os_data_char` is `bin_data_char`). -/
def binDataChar (r : Recv) (c : UInt8) : Recv :=
  { r with mem := r.mem.write r.place.addr [c], place := { r.place with addr := r.place.addr + 1 } }

/-- One more character of a data packet. -/
def dataChar (r : Recv) (c : UInt8) : Recv :=
  if r.place.escape then
    let r := binDataChar r (ktrans c)
    { r with place := { r.place with escape := false } }
  else if c = r.quote then { r with place := { r.place with escape := true } }
  else binDataChar r c

def sendDataSize : Nat := 20

/-- One more character of a send-init packet. The pointer backs off from the end of the buffer, so
that the characters from the last place on never count. -/
def parmChar (r : Recv) (c : UInt8) : Recv :=
  { r with sendParms := (r.sendParms ++ [c]).take (sendDataSize - 1) }

/-- What we answer to each field of a send-init packet: MAXL, TIME, NPAD, PADC, EOL, QCTL, QBIN,
CHKT, REPT and CAPAS. -/
def parmAnswers : List (List UInt8) :=
  [[tochar 94], [tochar 1], [tochar 0], [0x40], [tochar endChar], [0x23], [0x4E], [0x31], [0x4E],
    [tochar 2, tochar 0, tochar 94, tochar 94]]

/-- Take over the parameters of a send-init packet and answer it. -/
def handleSendPacket (r : Recv) : Recv :=
  -- a character in the last place of the buffer is ignored
  let parms := if r.sendParms.length = sendDataSize - 1 then r.sendParms.dropLast else r.sendParms
  let r := { r with
    padCount := (parms[2]?.map untochar).getD 0
    padChar := (parms[3]?.map ktrans).getD 0
    eol := (parms[4]?.map untochar).getD endChar
    quote := parms[5]?.getD kEscape }
  sendPacket r (answer ackType r.n r.eol ((parmAnswers.take parms.length).flatten))

/-- The head of the main loop. -/
def nextPacket (r : Recv) : Recv := { r with phase := .start, sendParms := [] }

/-- Restore the state machines and ask for the packet again (label `packet_error`). -/
def packetError (r : Recv) : Recv :=
  nextPacket (sendNack { r with kState := r.kStateSaved, place := r.saved })

/-- Recognize a packet that is sent again. -/
def checkpoint (r : Recv) : Recv :=
  if some r.n = r.lastN then { r with kState := r.kStateSaved, place := r.saved }
  else { r with lastN := some r.n, kStateSaved := r.kState, saved := r.place }

/-- The head of the loop that brings in the rest of the packet. -/
def bringIn (r : Recv) : Recv := { r with phase := if 1 < r.length then .body else .check }

/-- What is done with a character of the rest of the packet. -/
def bodyChar (r : Recv) (c : UInt8) : Recv :=
  if r.kState = dataType then dataChar r c
  else if r.kState = sendType then parmChar r c
  else r

/-- A whole packet was received. -/
def packetEnd (r : Recv) : Recv :=
  if r.kState = sendType then nextPacket (handleSendPacket r)
  else
    let r := sendAck r
    if r.kState = breakType then { r with phase := .done } else nextPacket r

/-- Take one character (`k_recv`). -/
def step (r : Recv) (c : UInt8) : Recv :=
  match r.phase with
  | .start =>
    if c = startChar then { r with phase := .len, sum := 0 }
    else if c = etxChar then { r with phase := .aborted }
    else r
  | .len =>
    if bad c then packetError r
    else { r with sum := r.sum + c.toNat, length := (untochar c).toNat, phase := .seq }
  | .seq =>
    if bad c then packetError r
    else
      checkpoint { r with
        sum := r.sum + c.toNat, n := untochar c, length := r.length - 1, phase := .type }
  | .type =>
    if bad c then packetError r
    else
      let r := { r with sum := r.sum + c.toNat, kState := c, length := r.length - 1 }
      if r.length = -2 then { r with phase := .lenHi } else bringIn r
  | .lenHi =>
    if bad c then packetError r
    else { r with sum := r.sum + c.toNat, lenHi := untochar c, phase := .lenLo }
  | .lenLo =>
    if bad c then packetError r
    else
      { r with
        sum := r.sum + c.toNat, length := r.lenHi.toNat * 95 + (untochar c).toNat,
        phase := .hdrCheck }
  | .hdrCheck =>
    if bad c then packetError r
    else if c ≠ checkChar r.sum then packetError r
    else bringIn { r with sum := r.sum + c.toNat }
  | .body =>
    if bad c then packetError r
    else bringIn (bodyChar { r with sum := r.sum + c.toNat, length := r.length - 1 } c)
  | .check =>
    if bad c then packetError r
    else if c ≠ checkChar r.sum then packetError r
    else { r with phase := .ending }
  | .ending => if c ≠ endChar then packetError r else packetEnd r
  | .done => r
  | .aborted => r

/-- What `k_recv` returns when it ended: 0 after ^C, else how far the address moved. -/
def result (base : Nat) (r : Recv) : Option Nat :=
  match r.phase with
  | .done => some (r.place.addr - base)
  | .aborted => some 0
  | _ => none

/-- `k_recv` on a line that delivers the characters `line`. -/
def kRecv (base : Nat) (mem : Mem) (line : List UInt8) : Recv := line.foldl step (.init base mem)

end Imx.Kermit
