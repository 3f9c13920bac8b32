import Mathlib.Data.Nat.Bitwise
import Imx.Base.Packet
import Imx.Defrag.Defs

/-!
# Receiving a frame

Model of `net_process_received_packet` (`net/net.c`): the link header in its three forms, the checks
of the IP header, the fragments, and what is handed on. The length of a frame, the total length of
the IP header and the length of a datagram that was put together are compared with one another; the
length of the UDP header is not compared with any of them. `calls_inside_iff` says when the ranges
given to the checksum loop and to the handlers lie inside what arrived.
-/

namespace Imx.Net
open Imx.Base

/-- `CONFIG_API`, `CONFIG_CMD_CDP`, `CONFIG_CMD_RARP`, `CONFIG_IP_DEFRAG`, `CONFIG_UDP_CHECKSUM` and
`CONFIG_NETCONSOLE`. -/
structure Config where
  api : Bool
  cdp : Bool
  rarp : Bool
  ipDefrag : Bool
  udpChecksum : Bool
  netconsole : Bool

/-- The globals the function reads: whether `push_packet` is set, the VLANs, the address of the
board, 0 when it has none, the multicast address when there is such a thing, and the variables of
`__net_defragment`. -/
structure Globals where
  pushPacket : Bool
  ourVlan : Nat
  nativeVlan : Nat
  ip : Nat
  mcastAddr : Option Nat
  defrag : Defrag.State
  isU16 : defrag.totalLen < 2 ^ 16

/-- A frame of `len` bytes at the start of a receive buffer. -/
structure Frame where
  bytes : Mem
  len : Nat
  isInt : len < 2 ^ 31

/-- Where a range of bytes lies: in the frame, or in a datagram of `size` bytes in `pkt_buff`. -/
inductive Place
  | frame
  | pktBuff (size : Nat)
deriving DecidableEq

/-- What is done with a packet: it is handed on, or its UDP checksum is computed. -/
inductive Call
  | api
  | cdp (off : Nat) (len : Int)
  | arp (off : Nat) (len : Int)
  | rarp (off : Nat) (len : Int)
  | icmp (place : Place) (off len : Nat)
  | checksum (place : Place) (off len : Nat)
  | netconsole (place : Place) (off len : Nat)
  | udp (place : Place) (off len dport sport : Nat) (sip : List UInt8)
deriving DecidableEq

/-- An IP datagram: its place, the offset of the header there, the bytes from the header on, and
these as a memory. -/
structure Datagram where
  place : Place
  off : Nat
  size : Nat
  ip : Mem

/-! ## The link header -/

/-- What the link header says. -/
structure Link where
  ethProto : Nat
  off : Nat
  vlanid : Nat

/-- The frame from an offset on. -/
def Frame.from (f : Frame) (off : Nat) : Mem := fun i => f.bytes (off + i)

/-- `is_cdp_packet`. -/
def Frame.isCdp (f : Frame) : Bool :=
  f.bytes.read 0 6 = [0x01, 0x00, 0x0c, 0xcc, 0xcc, 0xcc]

/-- `myvlanid` and `mynvlanid`: no VLAN for `(ushort)-1`. -/
def vlanOf (v : Nat) : Nat := if v = 0xffff then 4095 else v

/-- The three forms of the link header: 802.2, a normal packet, and a VLAN packet, which is dropped
when it is too small or no VLAN is active. -/
def linkHeader (cfg : Config) (net : Globals) (f : Frame) : Option Link :=
  let protlen := f.bytes.be16 12
  if protlen < 1514 then some ⟨f.bytes.be16 20, 22, 4095⟩
  else if protlen ≠ 0x8100 then some ⟨protlen, 14, 4095⟩
  else if f.len < 18 then none
  else if net.ourVlan &&& 0xfff = 4095 ∧ ¬ (cfg.cdp ∧ f.isCdp) then none
  else some ⟨f.bytes.be16 16, 18, f.bytes.be16 14 &&& 0xfff⟩

/-- The VLAN of the packet is ours, where we have one. -/
def vlanMatches (net : Globals) (vlanid : Nat) : Bool :=
  let mine := vlanOf net.ourVlan &&& 0xfff
  mine = 4095 ∨ (if vlanid = 4095 then vlanOf net.nativeVlan &&& 0xfff else vlanid) = mine

/-! ## The IP header -/

/-- The sum of the 16-bit words of a range, an odd byte at its end being the low half of one. -/
def sumShorts (m : Mem) : Nat → Nat → Nat
  | _, 0 => 0
  | a, 1 => (m a).toNat
  | a, n + 2 => m.get16 a + sumShorts m (a + 2) n

/-- `compute_ip_checksum`. -/
def computeIpChecksum (m : Mem) (a n : Nat) : Nat :=
  let sum := sumShorts m a n
  let sum := sum / 2 ^ 16 + sum % 2 ^ 16
  let sum := sum + sum / 2 ^ 16
  2 ^ 16 - 1 - sum % 2 ^ 16

/-- `ip_checksum_ok`. -/
def ipChecksumOk (m : Mem) (a n : Nat) : Bool := computeIpChecksum m a n &&& 0xfffe = 0

/-- An IP address as a number. -/
def ipAddr (m : Mem) (a : Nat) : Nat := m.be16 a * 2 ^ 16 + m.be16 (a + 2)

/-- The checks of the IP header. The length is compared with a `size_t` first and with a signed
number then. -/
def ipAccepted (net : Globals) (ip : Mem) (len : Int) : Bool :=
  let dst := ipAddr ip 16
  ¬ len % 2 ^ 32 < 28 ∧ ¬ len < Defrag.ipLen ip ∧ (ip 0 &&& 0xf0) = 0x40 ∧ (ip 0 &&& 0x0f) ≤ 5 ∧
    ipChecksumOk ip 0 20 ∧
    (net.ip = 0 ∨ dst = net.ip ∨ dst = 0xffffffff ∨ net.mcastAddr = some dst)

/-- `net_defragment`: a packet that is no fragment, or the one in `pkt_buff` when the fragment
completes it, with its length. -/
def netDefragment (cfg : Config) (st : Defrag.State) (d : Datagram) :
    Except Defrag.Fault (Defrag.State × Option (Datagram × Nat)) :=
  if Defrag.ipOff d.ip &&& 0x3fff = 0 then .ok (st, some (d, Defrag.ipLen d.ip))
  else if cfg.ipDefrag then do
    let (st, len) ← Defrag.defragment st d.ip
    .ok (st, len.map fun len => (⟨.pktBuff len, 0, len, st.pktBuff⟩, len))
  else .ok (st, none)

/-! ## UDP -/

/-- The sum of the 16-bit words of a range in network order, an odd byte at its end being the high
half of one. -/
def sumWords (m : Mem) : Nat → Nat → Nat
  | _, 0 => 0
  | a, 1 => 256 * (m a).toNat
  | a, n + 2 => m.be16 a + sumWords m (a + 2) n

/-- `while ((xsum >> 16) != 0)`. -/
def foldSum (xsum : Nat) : Nat :=
  if 2 ^ 16 ≤ xsum then foldSum (xsum % 2 ^ 16 + xsum / 2 ^ 16) else xsum
termination_by xsum
decreasing_by omega

/-- The length of the UDP header. -/
def Datagram.udpLen (d : Datagram) : Nat := d.ip.be16 24

/-- The checksum is computed. -/
def Datagram.checked (cfg : Config) (d : Datagram) : Bool :=
  cfg.udpChecksum ∧ d.ip.be16 26 ≠ 0

/-- The checksum over the addresses, the protocol, the length and the UDP packet. -/
def Datagram.xsum (d : Datagram) : Nat :=
  foldSum ((d.ip 9).toNat + d.udpLen + d.ip.be16 12 + d.ip.be16 14 + d.ip.be16 16 + d.ip.be16 18 +
    sumWords d.ip 20 d.udpLen)

/-- The checksum is computed and wrong. -/
def Datagram.wrong (cfg : Config) (d : Datagram) : Bool :=
  d.checked cfg ∧ d.xsum ≠ 0 ∧ d.xsum ≠ 0xffff

/-- The part of the function behind the test for UDP; the difference of the lengths is an unsigned
number. -/
def receiveUdp (cfg : Config) (d : Datagram) (sip : List UInt8) : List Call :=
  let len := (d.udpLen + 2 ^ 32 - 8) % 2 ^ 32
  let sum := if d.checked cfg then [Call.checksum d.place (d.off + 20) d.udpLen] else []
  if d.wrong cfg then sum
  else sum ++ (if cfg.netconsole then [Call.netconsole d.place (d.off + 28) len] else []) ++
    [Call.udp d.place (d.off + 28) len (d.ip.be16 22) (d.ip.be16 20) sip]

/-! ## The function -/

/-- The case `PROT_IP`, with the IP header at an offset of the frame. -/
def receiveIp (cfg : Config) (net : Globals) (f : Frame) (off : Nat) :
    Except Defrag.Fault (Defrag.State × List Call) :=
  let ip := f.from off
  if ipAccepted net ip ((f.len : Int) - off) then do
    let sip := ip.read 12 4
    match ← netDefragment cfg net.defrag ⟨.frame, off, f.len - off, ip⟩ with
    | (st, none) => .ok (st, [])
    | (st, some (d, len)) =>
      if d.ip 9 = 1 then .ok (st, [.icmp d.place d.off len])
      else if d.ip 9 ≠ 17 then .ok (st, [])
      else .ok (st, receiveUdp cfg d sip)
  else .ok (net.defrag, [])

/-- `net_process_received_packet`: the state of the reassembly afterwards and the calls made. -/
def netProcessReceivedPacket (cfg : Config) (net : Globals) (f : Frame) :
    Except Defrag.Fault (Defrag.State × List Call) :=
  if f.len < 14 then .ok (net.defrag, [])
  else if cfg.api ∧ net.pushPacket then .ok (net.defrag, [.api])
  else match linkHeader cfg net f with
  | none => .ok (net.defrag, [])
  | some link =>
    if cfg.cdp ∧ f.isCdp then .ok (net.defrag, [.cdp link.off ((f.len : Int) - link.off)])
    else if ¬ vlanMatches net link.vlanid then .ok (net.defrag, [])
    else if link.ethProto = 0x0806 then
      .ok (net.defrag, [.arp link.off ((f.len : Int) - link.off)])
    else if cfg.rarp ∧ link.ethProto = 0x8035 then
      .ok (net.defrag, [.rarp link.off ((f.len : Int) - link.off)])
    else if link.ethProto = 0x0800 then receiveIp cfg net f link.off
    else .ok (net.defrag, [])

/-! ## What arrived -/

section
variable {cfg : Config} {net : Globals} {f : Frame} {d : Datagram} {c : Call} {link : Link}
  {st : Defrag.State} {calls : List Call} {n off : Nat} {sip : List UInt8}

/-- The bytes at a place. -/
def Place.size (f : Frame) : Place → Nat
  | .frame => f.len
  | .pktBuff size => size

/-- The range that is given to the checksum loop or to a handler of UDP packets is one of bytes that
arrived. -/
def Call.Inside (f : Frame) : Call → Prop
  | .checksum place off len => off + len ≤ place.size f
  | .netconsole place off len => off + len ≤ place.size f
  | .udp place off len _ _ _ => off + len ≤ place.size f
  | _ => True

/-- The frame is for this part of the code: an IP packet for us behind the link header. -/
structure IsIp (cfg : Config) (net : Globals) (f : Frame) (link : Link) : Prop where
  room : 14 ≤ f.len
  noApi : ¬ (cfg.api ∧ net.pushPacket)
  header : linkHeader cfg net f = some link
  noCdp : ¬ (cfg.cdp ∧ f.isCdp)
  vlan : vlanMatches net link.vlanid
  proto : link.ethProto = 0x0800
  accepted : ipAccepted net (f.from link.off) ((f.len : Int) - link.off)

/-- A frame carries a datagram, or a fragment that completes one. -/
inductive Carries (cfg : Config) (net : Globals) (f : Frame) : Datagram → Prop
  | whole {link : Link} : IsIp cfg net f link → Defrag.ipOff (f.from link.off) &&& 0x3fff = 0 →
      Carries cfg net f ⟨.frame, link.off, f.len - link.off, f.from link.off⟩
  | assembled {link : Link} {st : Defrag.State} {n : Nat} : IsIp cfg net f link →
      Defrag.ipOff (f.from link.off) &&& 0x3fff ≠ 0 → cfg.ipDefrag →
      Defrag.defragment net.defrag (f.from link.off) = .ok (st, some n) →
      Carries cfg net f ⟨.pktBuff n, 0, n, st.pktBuff⟩

/-- The length of the UDP header fits the datagram; it need not be one of a header where the
checksum turns out wrong. -/
def Datagram.Fits (cfg : Config) (d : Datagram) : Prop :=
  20 + d.udpLen ≤ d.size ∧ (¬ d.wrong cfg → 8 ≤ d.udpLen)

lemma Datagram.udpLen_lt : d.udpLen < 2 ^ 16 := by
  have high := (d.ip 24).toNat_lt
  have low := (d.ip (24 + 1)).toNat_lt
  rw [Datagram.udpLen, Mem.be16]
  omega

/-- The range given to a handler: the length went round when it was shorter than a header. -/
lemma udp_inside (hs : d.off + d.size = d.place.size f) (hn : d.place.size f < 2 ^ 31) :
    d.off + 28 + (d.udpLen + 2 ^ 32 - 8) % 2 ^ 32 ≤ d.place.size f ↔
      20 + d.udpLen ≤ d.size ∧ 8 ≤ d.udpLen := by
  have small := d.udpLen_lt
  by_cases header : 8 ≤ d.udpLen
  · have len : (d.udpLen + 2 ^ 32 - 8) % 2 ^ 32 = d.udpLen - 8 := by omega
    rw [len]
    omega
  · have len : (d.udpLen + 2 ^ 32 - 8) % 2 ^ 32 = d.udpLen + 2 ^ 32 - 8 := by omega
    rw [len]
    omega

/-- What is handed on of a datagram is inside exactly when its length fits. -/
lemma receiveUdp_iff (hs : d.off + d.size = d.place.size f) (hn : d.place.size f < 2 ^ 31) :
    (∀ c ∈ receiveUdp cfg d sip, c.Inside f) ↔ d.Fits cfg := by
  have summed : (Call.checksum d.place (d.off + 20) d.udpLen).Inside f ↔
      20 + d.udpLen ≤ d.size := by
    rw [Call.Inside]
    omega
  have passed := udp_inside hs hn
  rw [receiveUdp, Datagram.Fits]
  by_cases wrong : d.wrong cfg = true
  · have checked : d.checked cfg = true := by
      have both := wrong
      rw [Datagram.wrong, decide_eq_true_eq] at both
      exact both.1
    rw [if_pos wrong, if_pos checked, List.forall_mem_singleton, summed, and_iff_left]
    exact fun no => absurd wrong no
  · rw [if_neg wrong, forall_prop_of_true wrong]
    constructor
    · intro all
      have last := all (.udp d.place (d.off + 28) ((d.udpLen + 2 ^ 32 - 8) % 2 ^ 32) (d.ip.be16 22)
        (d.ip.be16 20) sip) (List.mem_append_right _ (List.mem_singleton_self _))
      exact passed.mp last
    · intro fits c hc
      have sum := summed.mpr fits.1
      have pass := passed.mpr fits
      simp only [List.mem_append, List.mem_singleton] at hc
      obtain (hc | hc) | rfl := hc
      · split at hc
        · obtain rfl := List.mem_singleton.mp hc
          exact sum
        · exact absurd hc List.not_mem_nil
      · split at hc
        · obtain rfl := List.mem_singleton.mp hc
          exact pass
        · exact absurd hc List.not_mem_nil
      · exact pass

/-- The frame is as long as its IP header says; the first comparison lets a negative length through,
the second does not. -/
lemma IsIp.size (h : IsIp cfg net f link) : link.off + (f.len - link.off) = f.len := by
  have accepted := h.accepted
  rw [ipAccepted, decide_eq_true_eq] at accepted
  obtain ⟨-, long, -⟩ := accepted
  omega

/-- The variable `total_len` keeps being a 16-bit number. -/
lemma truncate_total {st' : Defrag.State} {h start : Nat} {len : Int} {more : Bool}
    (hst : st.totalLen < 2 ^ 16) (e : Defrag.truncate st h start len more = .ok st') :
    st'.totalLen < 2 ^ 16 := by
  rw [Defrag.truncate] at e
  split at e
  · obtain rfl := Except.ok.inj e
    exact hst
  · obtain ⟨m, -, e⟩ := bind_eq_ok e
    obtain rfl := Except.ok.inj e
    exact Nat.mod_lt _ (by omega)

/-- A datagram that was put together has the length of `total_len` and a header. -/
lemma defragment_size (hst : st.totalLen < 2 ^ 16) {st' : Defrag.State} {ip : Mem}
    (h : Defrag.defragment st ip = .ok (st', some n)) : n < 2 ^ 16 + 20 := by
  have ready : (st.prepare ip).totalLen < 2 ^ 16 := by
    rw [Defrag.State.prepare]
    split
    · show (0xffff : Nat) < 2 ^ 16
      decide
    · exact hst
  rw [Defrag.defragment] at h
  split at h
  · exact absurd (congrArg Prod.snd (Except.ok.inj h)) (by simp)
  obtain ⟨hole, -, h⟩ := bind_eq_ok h
  split at h
  · exact absurd (congrArg Prod.snd (Except.ok.inj h)) (by simp)
  split at h
  · exact absurd (congrArg Prod.snd (Except.ok.inj h)) (by simp)
  obtain ⟨st1, cut, h⟩ := bind_eq_ok h
  obtain ⟨fixed, -, h⟩ := bind_eq_ok h
  obtain ⟨m, -, h⟩ := bind_eq_ok h
  have small := truncate_total ready cut
  split at h
  · have len := Option.some.inj (congrArg Prod.snd (Except.ok.inj h))
    have size : Defrag.ipHdrSize = 20 := rfl
    omega
  · exact absurd (congrArg Prod.snd (Except.ok.inj h)) (by simp)

lemma Carries.size (h : Carries cfg net f d) :
    d.off + d.size = d.place.size f ∧ d.place.size f < 2 ^ 31 := by
  cases h with
  | whole ip => exact ⟨ip.size, f.isInt⟩
  | assembled _ _ _ run =>
    have small := defragment_size net.isU16 run
    refine ⟨Nat.zero_add _, ?_⟩
    simp only [Place.size]
    omega

/-! ## What is called -/

/-- An IP packet for us is handed to the part of the code for it. -/
lemma IsIp.process (h : IsIp cfg net f link) :
    netProcessReceivedPacket cfg net f = receiveIp cfg net f link.off := by
  have room := h.room
  have vlan := h.vlan
  rw [netProcessReceivedPacket, if_neg (by omega), if_neg h.noApi]
  simp only [h.header]
  rw [if_neg h.noCdp, if_neg (by simp [vlan]), h.proto, if_neg (by decide), if_neg (by simp),
    if_pos rfl]

/-- What is done with a datagram. -/
def dispatch (cfg : Config) (st : Defrag.State) (d : Datagram) (len : Nat) (sip : List UInt8) :
    Defrag.State × List Call :=
  if d.ip 9 = 1 then (st, [.icmp d.place d.off len])
  else if d.ip 9 ≠ 17 then (st, [])
  else (st, receiveUdp cfg d sip)

/-- The datagram that is carried is dispatched. -/
lemma Carries.process (h : Carries cfg net f d) : ∃ st len sip,
    netProcessReceivedPacket cfg net f = .ok (dispatch cfg st d len sip) := by
  cases h with
  | @whole link ip notFrag =>
    refine ⟨net.defrag, Defrag.ipLen (f.from link.off), (f.from link.off).read 12 4, ?_⟩
    rw [ip.process, receiveIp, if_pos ip.accepted, netDefragment, if_pos notFrag, ok_bind]
    simp only [dispatch]
    split
    · rfl
    · split <;> rfl
  | @assembled link st n ip frag on run =>
    refine ⟨st, n, (f.from link.off).read 12 4, ?_⟩
    rw [ip.process, receiveIp, if_pos ip.accepted, netDefragment, if_neg frag, if_pos on, run]
    simp only [dispatch, ok_bind, Option.map_some]
    split
    · rfl
    · split <;> rfl

lemma inside_nil {st' : Defrag.State}
    (e : (.ok (st', []) : Except Defrag.Fault _) = .ok (st, calls)) : ∀ c ∈ calls, c.Inside f := by
  obtain rfl := congrArg Prod.snd (Except.ok.inj e)
  exact fun c hc => absurd hc List.not_mem_nil

lemma inside_one {st' : Defrag.State} (hc : c.Inside f)
    (e : (.ok (st', [c]) : Except Defrag.Fault _) = .ok (st, calls)) : ∀ c ∈ calls, c.Inside f := by
  obtain rfl := congrArg Prod.snd (Except.ok.inj e)
  rwa [List.forall_mem_singleton]

/-- Nothing is handed on as UDP where the frame carries no datagram. -/
lemma process_none (h : ∀ d, ¬ Carries cfg net f d)
    (e : netProcessReceivedPacket cfg net f = .ok (st, calls)) : ∀ c ∈ calls, c.Inside f := by
  rw [netProcessReceivedPacket] at e
  by_cases short : f.len < 14
  · rw [if_pos short] at e
    exact inside_nil e
  rw [if_neg short] at e
  by_cases api : cfg.api ∧ net.pushPacket
  · rw [if_pos api] at e
    exact inside_one (c := .api) trivial e
  rw [if_neg api] at e
  cases header : linkHeader cfg net f with
  | none =>
    simp only [header] at e
    exact inside_nil e
  | some link =>
    simp only [header] at e
    by_cases cdp : cfg.cdp ∧ f.isCdp
    · rw [if_pos cdp] at e
      exact inside_one (c := .cdp _ _) trivial e
    rw [if_neg cdp] at e
    by_cases vlan : vlanMatches net link.vlanid = true
    swap
    · rw [if_pos vlan] at e
      exact inside_nil e
    rw [if_neg (not_not.mpr vlan)] at e
    split at e
    · exact inside_one (c := .arp _ _) trivial e
    split at e
    · exact inside_one (c := .rarp _ _) trivial e
    by_cases proto : link.ethProto = 0x0800
    swap
    · rw [if_neg proto] at e
      exact inside_nil e
    rw [if_pos proto, receiveIp] at e
    by_cases accepted : ipAccepted net (f.from link.off) ((f.len : Int) - link.off) = true
    swap
    · rw [if_neg accepted] at e
      exact inside_nil e
    have ip : IsIp cfg net f link := ⟨by omega, api, header, cdp, vlan, proto, accepted⟩
    rw [if_pos accepted, netDefragment] at e
    by_cases notFrag : Defrag.ipOff (f.from link.off) &&& 0x3fff = 0
    · exact absurd (.whole ip notFrag) (h _)
    rw [if_neg notFrag] at e
    by_cases on : cfg.ipDefrag = true
    swap
    · rw [if_neg on] at e
      exact inside_nil e
    rw [if_pos on] at e
    cases run : Defrag.defragment net.defrag (f.from link.off) with
    | error fault =>
      rw [run] at e
      exact absurd e (by simp)
    | ok r =>
      obtain ⟨st', n⟩ := r
      cases n with
      | none =>
        rw [run] at e
        exact inside_nil e
      | some n => exact absurd (.assembled ip notFrag on run) (h _)

/-- The exact condition: the length of the UDP header of every datagram that a frame carries, or
completes, is one of a header at least and goes no further than the datagram; where the checksum is
computed and wrong the second is enough. -/
theorem calls_inside_iff (cfg : Config) (net : Globals) (f : Frame) :
    (∀ st calls, netProcessReceivedPacket cfg net f = .ok (st, calls) → ∀ c ∈ calls, c.Inside f) ↔
      ∀ d, Carries cfg net f d → d.ip 9 = 17 → d.Fits cfg := by
  constructor
  · intro all d carries udp
    obtain ⟨st, len, sip, e⟩ := carries.process
    obtain ⟨fits, small⟩ := carries.size
    rw [dispatch, udp, if_neg (by decide), if_neg (by decide)] at e
    exact (receiveUdp_iff fits small).mp (all _ _ e)
  · intro all st calls e
    by_cases some : ∃ d, Carries cfg net f d
    swap
    · exact process_none (fun d carries => some ⟨d, carries⟩) e
    obtain ⟨d, carries⟩ := some
    obtain ⟨st', len, sip, e'⟩ := carries.process
    obtain ⟨fits, small⟩ := carries.size
    rw [e', dispatch] at e
    split at e
    · exact inside_one (c := .icmp _ _ _) trivial e
    split at e
    · exact inside_nil e
    next udp =>
      obtain rfl := congrArg Prod.snd (Except.ok.inj e)
      exact (receiveUdp_iff fits small).mpr (all d carries (not_not.mp udp))

end

/-- A frame with the header of an empty UDP packet whose length is 0. -/
def emptyUdp : Frame where
  bytes := fun i => ([0, 0, 0, 0, 0, 0, 0, 0, 0, 0, 0, 0, 0x08, 0,
    0x45, 0, 0, 28, 0, 0, 0, 0, 64, 17, 0x7a, 0xd2, 0, 0, 0, 0, 0, 0, 0, 0,
    0, 68, 0, 67, 0, 0, 0, 0] : List UInt8).getD i 0
  len := 42
  isInt := by decide

/-- A board without VLAN and without an address, and no fragment so far. -/
def idle : Globals := ⟨false, 0xffff, 0xffff, 0, none, .init, by decide⟩

/-- The handler is given 4294967288 bytes. -/
theorem not_calls_inside : ¬ ∀ st calls,
    netProcessReceivedPacket ⟨false, false, false, false, false, false⟩ idle emptyUdp =
      .ok (st, calls) → ∀ c ∈ calls, c.Inside emptyUdp := by
  intro all
  have run : ∃ st, netProcessReceivedPacket ⟨false, false, false, false, false, false⟩ idle emptyUdp =
      .ok (st, [.udp .frame 42 4294967288 67 68 [0, 0, 0, 0]]) := ⟨.init, rfl⟩
  obtain ⟨st, e⟩ := run
  have inside : 42 + 4294967288 ≤ 42 := all _ _ e _ (.head _)
  omega

end Imx.Net
