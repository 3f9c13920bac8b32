import Imx.Base.Mem
import Imx.Base.Links

/-!
# Collecting IP fragments

Model of `__net_defragment` (`net/net.c`). The packet is assembled in the static buffer `pkt_buff`:
20 bytes of IP header, then the payload. What has not arrived yet is a list of holes threaded
through the payload itself; a `struct hole` lies in the first 8 bytes of the hole it describes, and
its links are indices in units of 8 bytes.

Nothing in the code checks the indices it follows. Here every access to a hole checks that it lies
in the buffer, and the walk over the list counts its steps: a walk of `2 ^ 16` steps has met a hole
twice and does not end. Both are a `Fault`, which is no result of the C function.
-/

namespace Imx.Defrag
open Imx.Base

/-- The size of an IP header (C `IP_HDR_SIZE`). -/
def ipHdrSize : Nat := 20

/-- The size of the buffer: `CONFIG_NET_MAXDEFRAG` and an NFS reply (C `IP_PKTSIZE`). -/
def ipPktsize : Nat := 16384 + 100

/-- The longest payload (C `IP_MAXUDP`). -/
def ipMaxudp : Nat := ipPktsize - ipHdrSize

/-- The number of holes that fit in the payload. -/
def maxHoles : Nat := ipMaxudp / 8

/-- What the C function does not return from as it should. -/
inductive Fault where
  | bounds
  | hang
deriving DecidableEq, Repr

/-- The static variables of the function. -/
structure State where
  pktBuff : Mem
  firstHole : Nat
  totalLen : Nat

/-- The state of a board that was switched on. -/
def State.init : State := ⟨Mem.zero, 0, 0⟩

/-! ## Holes (C `struct hole`) -/

/-- The fields of a hole; `lastByte` is the byte behind it. -/
inductive Field where
  | lastByte
  | nextHole
  | prevHole
deriving DecidableEq, Repr

/-- Where a field of a hole lies in the buffer. -/
def Field.addr (f : Field) (i : Nat) : Nat :=
  ipHdrSize + 8 * i + match f with
    | .lastByte => 0
    | .nextHole => 2
    | .prevHole => 4

/-- Read a field of the hole at an index. -/
def peek (m : Mem) (i : Nat) (f : Field) : Except Fault Nat :=
  if i < maxHoles then .ok (m.get16 (f.addr i)) else .error .bounds

/-- Write a field of the hole at an index. -/
def poke (m : Mem) (i : Nat) (f : Field) (v : Nat) : Except Fault Mem :=
  if i < maxHoles then .ok (m.set16 (f.addr i) v) else .error .bounds

/-- Copy a whole hole (C `*newh = *h`). -/
def copyHole (m : Mem) (newh h : Nat) : Except Fault Mem :=
  if newh < maxHoles ∧ h < maxHoles then
    .ok (m.memmove (ipHdrSize + 8 * newh) (ipHdrSize + 8 * h) 8)
  else
    .error .bounds

/-! ## Fragments -/

/-- The total length field of an IP header. -/
def ipLen (ip : Mem) : Nat := ip.be16 2

/-- The fragment field of an IP header. -/
def ipOff (ip : Mem) : Nat := ip.be16 6

/-- The offset of a fragment, in units of 8 bytes (C `ip_off & IP_OFFS`). -/
def offset8 (ip : Mem) : Nat := ipOff ip &&& 0x1fff

/-- More fragments follow (C `ip_off & IP_FLAGS_MFRAG`). -/
def moreFrags (ip : Mem) : Bool := ipOff ip &&& 0x2000 ≠ 0

/-- The length of a fragment; negative when the header claims less than a header. -/
def fragLen (ip : Mem) : Int := (ipLen ip : Int) - ipHdrSize

/-- Do two headers have the same `ip_id`. -/
def sameId (m ip : Mem) : Bool := m 4 == ip 4 && m 5 == ip 5

/-! ## The function -/

/-- A new or a different packet: one hole that takes everything, and the header of this fragment. -/
def State.reset (st : State) (ip : Mem) : State where
  pktBuff :=
    (((st.pktBuff.set16 (Field.lastByte.addr 0) 0xffff).set16 (Field.nextHole.addr 0) 0).set16
      (Field.prevHole.addr 0) 0).write 0 (ip.read 0 ipHdrSize)
  firstHole := 0
  totalLen := 0xffff

/-- The state in which a fragment is looked at. -/
def State.prepare (st : State) (ip : Mem) : State :=
  if st.totalLen = 0 ∨ ¬ sameId st.pktBuff ip then st.reset ip else st

/-- The first hole that does not end before `start`, if the list has one. -/
def walk (m : Mem) (start : Nat) : Nat → Nat → Except Fault (Option Nat)
  | 0, _ => .error .hang
  | fuel + 1, h => do
    let lastByte ← peek m h .lastByte
    if lastByte < start then
      let nextHole ← peek m h .nextHole
      if nextHole = 0 then
        return none
      else
        walk m start fuel nextHole
    else
      return some h

/-- Tell the next hole, if there is one, which hole is in front of it now. -/
def linkBack (m : Mem) (next v : Nat) : Except Fault Mem :=
  if next ≠ 0 then poke m next .prevHole v else .ok m

/-- Take the fragment out of the hole `h`: the buffer, the first hole and whether that was the last
remaining hole. -/
def fixHoles (m : Mem) (firstHole h offset8 : Nat) (len : Int) : Except Fault (Mem × Nat × Bool) := do
  let start := 8 * offset8
  let newh := ((offset8 : Int) + len.tdiv 8).toNat
  let lastByte ← peek m h .lastByte
  if h ≥ offset8 ∧ (lastByte : Int) ≤ start + len then
    -- complete overlap with hole: remove hole
    let prev ← peek m h .prevHole
    let next ← peek m h .nextHole
    if prev = 0 ∧ next = 0 then
      return (m, firstHole, true)
    else if prev = 0 then
      let m ← poke m next .prevHole 0
      return (m, next, false)
    else if next = 0 then
      let m ← poke m prev .nextHole 0
      return (m, firstHole, false)
    else
      let m ← poke m next .prevHole prev
      let m ← poke m prev .nextHole next
      return (m, firstHole, false)
  else if (lastByte : Int) ≤ start + len then
    -- overlaps with final part of the hole: shorten this hole
    let m ← poke m h .lastByte start
    return (m, firstHole, false)
  else if h ≥ offset8 then
    -- overlaps with initial part of the hole: move this hole
    let m ← copyHole m newh h
    let next ← peek m newh .nextHole
    let m ← linkBack m next newh
    let prev ← peek m newh .prevHole
    if prev ≠ 0 then
      let m ← poke m prev .nextHole newh
      return (m, firstHole, false)
    else
      return (m, newh, false)
  else
    -- fragment sits in the middle: split the hole
    let m ← copyHole m newh h
    let m ← poke m h .lastByte start
    let m ← poke m h .nextHole newh
    let m ← poke m newh .prevHole h
    let next ← peek m newh .nextHole
    let m ← linkBack m next newh
    return (m, firstHole, false)

/-- The last fragment says how long the packet is and truncates its hole. -/
def truncate (st : State) (h : Nat) (start : Nat) (len : Int) (more : Bool) : Except Fault State :=
  if more then
    .ok st
  else do
    let m ← poke st.pktBuff h .lastByte (start + len).toNat
    return { st with pktBuff := m, totalLen := (start + len).toNat % 65536 }

/-- Copy the data of a fragment to its place; a negative length is a huge one. -/
def copyData (m ip : Mem) (start : Nat) (len : Int) : Except Fault Mem :=
  if 0 ≤ len ∧ ipHdrSize + start + len ≤ ipPktsize then
    .ok (m.write (ipHdrSize + start) (ip.read ipHdrSize len.toNat))
  else
    .error .bounds

/-- Take in a fragment. The result is the value of `*lenp` when the packet in `pkt_buff` is
complete, and nothing for `NULL` (C `__net_defragment`). -/
def defragment (st : State) (ip : Mem) : Except Fault (State × Option Nat) := do
  let start := 8 * offset8 ip
  let len := fragLen ip
  -- the sum is compared as an unsigned number
  if ((start : Int) + len) % 2 ^ 32 > ipMaxudp then
    return (st, none)
  let st := st.prepare ip
  match ← walk st.pktBuff start 65536 st.firstHole with
  | none => return (st, none)
  | some h =>
    if (offset8 ip : Int) + (len + 7).tdiv 8 ≤ h then
      return (st, none)
    let st ← truncate st h start len (moreFrags ip)
    let (m, firstHole, done) ← fixHoles st.pktBuff st.firstHole h (offset8 ip) len
    let m ← copyData m ip start len
    if done then
      return ({ st with pktBuff := m.setBe16 2 st.totalLen, firstHole }, some (st.totalLen + ipHdrSize))
    else
      return ({ st with pktBuff := m, firstHole }, none)

end Imx.Defrag
