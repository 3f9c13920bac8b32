import Mathlib.Data.Nat.Bitwise
import Mathlib.Logic.Function.Basic
import Imx.Base.Bytes
import Imx.Base.Packet
import Imx.Bootp.Ids

/-!
# The options of a DHCP reply

A reply is accepted from the length of a BOOTP header without its options on. `dhcp_message_type`
looks for the type of the message with no end at all; `dhcp_packet_process_options` walks the
options up to the size of a whole header behind their start, and then the `file` and `sname` fields
where an option says that these hold options too. What keeps either inside the packet is only what
the packet says. `walks_iff` is the exact condition, with the walk over the options given by
`nextOption` and `nextMessage`.
-/

namespace Imx.Bootp

open Imx.Base

/-! ## The packet that is accepted -/

section
variable {c : Config}

/-- `check_reply_packet`; the id is read as the machine has it. -/
def checkReplyPacket (s : Ids c) (pkt : List UInt8) (dest src : Nat) : Except Fault Int :=
  if dest ≠ 68 ∨ src ≠ 67 then .ok (-1)
  else if pkt.length < 236 then .ok (-2)
  else do
    if (← byteAt pkt 0) ≠ 2 then .ok (-3)
    else do
      if (← byteAt pkt 1) ≠ 1 then .ok (-4)
      else do
        if (← byteAt pkt 2) ≠ 6 then .ok (-5)
        else do
          let id ← bytesAt pkt 4 4
          match matchId s (ofLe id) with
          | none => .error .outside
          | some true => .ok 0
          | some false => .ok (-6)

end

/-! ## What an option is copied to -/

/-- The variables that options are copied to. -/
inductive Field
  | netmask
  | timeOffset
  | gateway
  | dnsServer
  | dnsServer2
  | hostname
  | rootPath
  | ntpServer
  | leasetime
  | overload
  | serverIp
  | bootFile
deriving DecidableEq

/-- What they hold; of a string the bytes in front of the NUL. -/
abbrev Lease := Field → List UInt8

/-- `CONFIG_CMD_SNTP` with `CONFIG_BOOTP_TIMEOFFSET`, `CONFIG_BOOTP_DNS2`, and `CONFIG_CMD_SNTP`
with `CONFIG_BOOTP_NTPSERVER`. -/
structure Options where
  timeOffset : Bool
  dns2 : Bool
  ntpServer : Bool

/-- `size` bytes at `off` from the option go to a variable. -/
structure Copy where
  field : Field
  off : Nat
  size : Nat

/-- `truncate_sz`. -/
def truncateSz (maxlen curlen : Nat) : Nat :=
  if curlen ≥ maxlen then maxlen - 1 else curlen

/-- The copies that the `switch` of `dhcp_process_options` makes for an option. -/
def copies (cfg : Options) (code oplen : Nat) : List Copy :=
  match code with
  | 1 => [⟨.netmask, 2, 4⟩]
  | 2 => if cfg.timeOffset then [⟨.timeOffset, 2, 4⟩] else []
  | 3 => [⟨.gateway, 2, 4⟩]
  | 6 => ⟨.dnsServer, 2, 4⟩ :: if cfg.dns2 ∧ oplen > 4 then [⟨.dnsServer2, 6, 4⟩] else []
  | 12 => [⟨.hostname, 2, truncateSz 32 oplen⟩]
  | 17 => [⟨.rootPath, 2, truncateSz 64 oplen⟩]
  | 42 => if cfg.ntpServer then [⟨.ntpServer, 2, 4⟩] else []
  | 51 => [⟨.leasetime, 2, 4⟩]
  | 52 => [⟨.overload, 2, 1⟩]
  | 54 => [⟨.serverIp, 2, 4⟩]
  | 67 => [⟨.bootFile, 2, truncateSz 1024 oplen⟩]
  | _ => []

/-- Make the copies for the option at `p`. -/
def copyAll (pkt : List UInt8) (p : Nat) : List Copy → Lease → Except Fault Lease
  | [], l => .ok l
  | c :: cs, l => do
    let v ← bytesAt pkt (p + c.off) c.size
    copyAll pkt p cs (Function.update l c.field v)

/-- `dhcp_option_overload`. -/
def Lease.overload (l : Lease) : Nat := octet (l .overload) 0

/-- `dhcp_option_overload = 0`. -/
def Lease.clear (l : Lease) : Lease := Function.update l .overload [0]

/-! ## The walks -/

/-- The loop of `dhcp_process_options`, with `popt` at `p` and the end at `e`. -/
def processOptions (cfg : Options) (pkt : List UInt8) (e : Nat) :
    Nat → Nat × Lease → Except Fault Lease
  | 0, _ => .error .endless
  | n + 1, (p, l) =>
    if p < e then do
      let code ← byteAt pkt p
      if code = 0xff then .ok l
      else do
        let oplen ← byteAt pkt (p + 1)
        let l' ← copyAll pkt p (copies cfg code oplen) l
        processOptions cfg pkt e n (if code = 0 then p + 1 else p + (oplen + 2), l')
    else .ok l

/-- `BOOTP_VENDOR_MAGIC` in network order. -/
def magic : List UInt8 := [0x63, 0x82, 0x53, 0x63]

/-- `dhcp_packet_process_options`: the options start at byte 240, `file` is the 128 bytes from 108
on, `sname` the 64 bytes from 44 on, and a whole header has 548 bytes. -/
def dhcpPacketProcessOptions (cfg : Options) (pkt : List UInt8) (l : Lease) (fuel : Nat) :
    Except Fault Lease := do
  if (← bytesAt pkt 236 4) ≠ magic then .ok l
  else do
    let l ← processOptions cfg pkt (240 + 548) fuel (240, l.clear)
    let l ← if l.overload &&& 1 ≠ 0 then processOptions cfg pkt (108 + 128) fuel (108, l) else .ok l
    if l.overload &&& 2 ≠ 0 then processOptions cfg pkt (44 + 64) fuel (44, l) else .ok l

/-- The loop of `dhcp_message_type`. -/
def messageLoop (pkt : List UInt8) : Nat → Nat → Except Fault Int
  | 0, _ => .error .endless
  | n + 1, p => do
    let code ← byteAt pkt p
    if code = 0xff then .ok (-1)
    else if code = 53 then do
      let type ← byteAt pkt (p + 2)
      .ok type
    else if code = 0 then messageLoop pkt n (p + 1)
    else do
      let oplen ← byteAt pkt (p + 1)
      messageLoop pkt n (p + (oplen + 2))

/-- `dhcp_message_type` on the options of a packet. -/
def dhcpMessageType (pkt : List UInt8) (fuel : Nat) : Except Fault Int := do
  if (← bytesAt pkt 236 4) ≠ magic then .ok (-1) else messageLoop pkt fuel 240

/-- Both walks over the options end and read nothing outside the packet. -/
def Walks (cfg : Options) (pkt : List UInt8) (l : Lease) : Prop :=
  (∃ type, Ends (dhcpMessageType pkt) type) ∧ ∃ l', Ends (dhcpPacketProcessOptions cfg pkt l) l'

section
variable {cfg : Options} {pkt : List UInt8} {e n p q v w : Nat} {l l' : Lease} {cs : List Copy}

/-! ## What the packet says -/

/-- The bytes an option takes: a pad has no length. -/
def optionStep (pkt : List UInt8) (p : Nat) : Nat :=
  if octet pkt p = 0 then 1 else octet pkt (p + 1) + 2

/-- The option behind the one at `p`, where it is not the last one, and the value of the overload
option so far. -/
def nextOption (pkt : List UInt8) (e : Nat) (s : Nat × Nat) : Option (Nat × Nat) :=
  if s.1 < e ∧ octet pkt s.1 ≠ 0xff then
    some (s.1 + optionStep pkt s.1,
      if octet pkt s.1 = 52 then octet pkt (s.1 + 2) else s.2)
  else none

/-- What is read of the option at `p` is in the packet. -/
def OptionInside (cfg : Options) (pkt : List UInt8) (e p : Nat) : Prop :=
  p < e → p < pkt.length ∧ (octet pkt p ≠ 0xff → p + 1 < pkt.length ∧
    ∀ c ∈ copies cfg (octet pkt p) (octet pkt (p + 1)), p + c.off + c.size ≤ pkt.length)

/-- What is read of all options of an area is in the packet. -/
def AreaInside (cfg : Options) (pkt : List UInt8) (e p v : Nat) : Prop :=
  ∀ t, Leads (nextOption pkt e) (p, v) t → OptionInside cfg pkt e t.1

/-- The value of the overload option is `w` after the options of an area. -/
def Overload (pkt : List UInt8) (e p v w : Nat) : Prop :=
  ∃ q, Leads (nextOption pkt e) (p, v) (q, w) ∧ nextOption pkt e (q, w) = none

/-- What is read of the three areas is in the packet. -/
def AreasInside (cfg : Options) (pkt : List UInt8) : Prop :=
  AreaInside cfg pkt 788 240 0 ∧ ∀ v, Overload pkt 788 240 0 v →
    (v &&& 1 ≠ 0 → AreaInside cfg pkt 236 108 v) ∧
    ∀ w, (if v &&& 1 ≠ 0 then Overload pkt 236 108 v w else w = v) →
      w &&& 2 ≠ 0 → AreaInside cfg pkt 108 44 w

/-- The option behind the one at `p` as long as the type of the message is looked for. -/
def nextMessage (pkt : List UInt8) (p : Nat) : Option Nat :=
  if octet pkt p = 0xff ∨ octet pkt p = 53 then none else some (p + optionStep pkt p)

/-- What is read of the option at `p` on the way to the type is in the packet. -/
def MessageInside (pkt : List UInt8) (p : Nat) : Prop :=
  p < pkt.length ∧ (octet pkt p = 53 → p + 2 < pkt.length) ∧
    (octet pkt p ≠ 0xff → octet pkt p ≠ 53 → octet pkt p ≠ 0 → p + 1 < pkt.length)

/-! ## The walk over the options of an area -/

/-- The variables after the copies of an option. -/
def copied (pkt : List UInt8) (p : Nat) (cs : List Copy) (l : Lease) : Lease :=
  cs.foldl (fun l c => Function.update l c.field ((pkt.drop (p + c.off)).take c.size)) l

lemma copyAll_inside (h : ∀ c ∈ cs, p + c.off + c.size ≤ pkt.length) :
    copyAll pkt p cs l = .ok (copied pkt p cs l) := by
  induction cs generalizing l with
  | nil => rfl
  | cons c cs ih =>
    rw [copyAll, bytesAt_inside (h c (.head _)), ok_bind, ih fun c hc => h c (.tail _ hc)]
    rfl

lemma copyAll_outside (h : ¬ ∀ c ∈ cs, p + c.off + c.size ≤ pkt.length) :
    copyAll pkt p cs l = .error .outside := by
  induction cs generalizing l with
  | nil => exact absurd (fun c hc => absurd hc List.not_mem_nil) h
  | cons c cs ih =>
    rw [copyAll]
    by_cases here : p + c.off + c.size ≤ pkt.length
    · rw [bytesAt_inside here, ok_bind]
      apply ih
      intro rest
      apply h
      intro c' hc'
      obtain rfl | tail := List.mem_cons.mp hc'
      · exact here
      · exact rest c' tail
    · rw [bytesAt_outside (by omega), error_bind]

/-- Only option 52 sets the overload. -/
lemma overload_copied : (copied pkt p (copies cfg (octet pkt p) n) l).overload =
    if octet pkt p = 52 then octet pkt (p + 2) else l.overload := by
  generalize octet pkt p = code
  unfold copies
  split <;> (try split) <;> simp [copied, Lease.overload, octet, Function.update] <;> grind

/-- The option behind the one at `p`, with the variables after it. -/
def nextLease (cfg : Options) (pkt : List UInt8) (e : Nat) (s : Nat × Lease) :
    Option (Nat × Lease) :=
  if s.1 < e ∧ octet pkt s.1 ≠ 0xff then
    some (s.1 + optionStep pkt s.1,
      copied pkt s.1 (copies cfg (octet pkt s.1) (octet pkt (s.1 + 1))) s.2)
  else none

/-- The part of the variables that decides where the walk goes. -/
def seen (s : Nat × Lease) : Nat × Nat := (s.1, s.2.overload)

lemma nextOption_seen (s : Nat × Lease) :
    nextOption pkt e (seen s) = (nextLease cfg pkt e s).map seen := by
  unfold nextOption nextLease seen
  by_cases on : s.1 < e ∧ octet pkt s.1 ≠ 0xff
  · rw [if_pos on, if_pos on, Option.map_some, overload_copied]
  · rw [if_neg on, if_neg on, Option.map_none]

/-- The loop walks the options. -/
lemma processOptions_walker : Walker (processOptions cfg pkt e)
    (fun s => OptionInside cfg pkt e s.1) (nextLease cfg pkt e) Prod.snd (fun s => e - s.1) where
  outside n := by
    rintro ⟨p, l⟩ no
    simp only [OptionInside, Classical.not_imp, not_and_or, not_lt] at no
    obtain ⟨here, no⟩ := no
    rw [processOptions, if_pos here]
    by_cases h0 : p < pkt.length
    swap
    · rw [byteAt_outside (by omega), error_bind]
    rw [byteAt_inside h0, ok_bind]
    have rest := no.resolve_left (by omega)
    obtain ⟨last, rest⟩ := rest
    rw [if_neg last]
    by_cases h1 : p + 1 < pkt.length
    swap
    · rw [byteAt_outside (by omega), error_bind]
    rw [byteAt_inside h1, ok_bind]
    rw [copyAll_outside (rest.resolve_left (by omega)), error_bind]
  step n := by
    rintro ⟨p, l⟩ s' inside e1
    simp only [nextLease, Option.ite_none_right_eq_some, Option.some.injEq] at e1
    obtain ⟨⟨here, last⟩, rfl⟩ := e1
    obtain ⟨h0, rest⟩ := inside here
    obtain ⟨h1, all⟩ := rest last
    rw [processOptions, if_pos here, byteAt_inside h0, ok_bind, if_neg last, byteAt_inside h1,
      ok_bind, copyAll_inside all, ok_bind, optionStep]
    split <;> rfl
  stop n := by
    rintro ⟨p, l⟩ inside e1
    rw [processOptions]
    by_cases here : p < e
    · obtain ⟨h0, -⟩ := inside here
      have last : octet pkt p = 0xff := by
        by_contra on
        rw [nextLease, if_pos ⟨here, on⟩] at e1
        exact absurd e1 (by simp)
      rw [if_pos here, byteAt_inside h0, ok_bind, if_pos last]
    · rw [if_neg here]
  less := by
    rintro ⟨p, l⟩ s' _ e1
    simp only [nextLease, Option.ite_none_right_eq_some, Option.some.injEq] at e1
    obtain ⟨⟨here, -⟩, rfl⟩ := e1
    have step : 0 < optionStep pkt p := by
      rw [optionStep]
      split <;> omega
    show e - (p + optionStep pkt p) < e - p
    omega

/-- An area that keeps inside is walked to its end. -/
lemma processOptions_ok (h : AreaInside cfg pkt e p l.overload) :
    ∃ l', Overload pkt e p l.overload l'.overload ∧
      ∀ n, e - p < n → processOptions cfg pkt e n (p, l) = .ok l' := by
  have all : ∀ t, Leads (nextLease cfg pkt e) (p, l) t → OptionInside cfg pkt e t.1 :=
    fun t leads => h (seen t) (leads.map nextOption_seen)
  obtain ⟨t, leads, last, run⟩ := processOptions_walker.ok all
  have last' : nextOption pkt e (seen t) = none := by
    rw [nextOption_seen, last, Option.map_none]
  exact ⟨t.2, ⟨t.1, leads.map nextOption_seen, last'⟩, run⟩

/-- An area that does not keep inside is a read outside. -/
lemma processOptions_outside (h : ¬ AreaInside cfg pkt e p l.overload) (hn : e - p < n) :
    processOptions cfg pkt e n (p, l) = .error .outside := by
  unfold AreaInside at h
  push Not at h
  obtain ⟨u, leads, no⟩ := h
  obtain ⟨t, leads', rfl⟩ := Leads.lift (s := (p, l)) nextOption_seen leads
  exact processOptions_walker.fault leads' no hn

lemma Overload.unique (h : Overload pkt e p v w) {w' : Nat} (h' : Overload pkt e p v w') :
    w = w' := by
  obtain ⟨q, leads, last⟩ := h
  obtain ⟨q', leads', last'⟩ := h'
  exact congrArg Prod.snd (leads.last_unique last leads' last')

/-! ## The walk to the type of the message -/

/-- The loop walks the options up to the type. -/
lemma messageLoop_walker : Walker (messageLoop pkt) (MessageInside pkt) (nextMessage pkt)
    (fun p => if octet pkt p = 0xff then -1 else octet pkt (p + 2)) (fun p => pkt.length - p) where
  outside n p no := by
    rw [messageLoop]
    by_cases h0 : p < pkt.length
    swap
    · rw [byteAt_outside (by omega), error_bind]
    rw [byteAt_inside h0, ok_bind]
    have last : octet pkt p ≠ 0xff := fun last => no ⟨h0, by omega, fun h => absurd last h⟩
    rw [if_neg last]
    by_cases type : octet pkt p = 53
    · have h2 : ¬ p + 2 < pkt.length := fun h2 => no ⟨h0, fun _ => h2, fun _ h => absurd type h⟩
      rw [if_pos type, byteAt_outside (by omega), error_bind]
    · have pad : octet pkt p ≠ 0 := fun pad =>
        no ⟨h0, fun h => absurd h type, fun _ _ h => absurd pad h⟩
      have h1 : ¬ p + 1 < pkt.length := fun h1 =>
        no ⟨h0, fun h => absurd h type, fun _ _ _ => h1⟩
      rw [if_neg type, if_neg pad, byteAt_outside (by omega), error_bind]
  step n p p' inside e := by
    obtain ⟨h0, -, h1⟩ := inside
    simp only [nextMessage, Option.ite_none_left_eq_some, Option.some.injEq, not_or] at e
    obtain ⟨⟨last, type⟩, rfl⟩ := e
    rw [messageLoop, byteAt_inside h0, ok_bind, if_neg last, if_neg type, optionStep]
    by_cases pad : octet pkt p = 0
    · rw [if_pos pad, if_pos pad]
    · rw [if_neg pad, if_neg pad, byteAt_inside (h1 last type pad), ok_bind]
  stop n p inside e := by
    obtain ⟨h0, h2, -⟩ := inside
    have found : octet pkt p = 0xff ∨ octet pkt p = 53 := by
      by_contra on
      rw [nextMessage, if_neg on] at e
      exact absurd e (by simp)
    rw [messageLoop, byteAt_inside h0, ok_bind]
    by_cases last : octet pkt p = 0xff
    · rw [if_pos last, if_pos last]
    · have type := found.resolve_left last
      rw [if_neg last, if_pos type, byteAt_inside (h2 type), ok_bind, if_neg last]
  less p p' inside e := by
    obtain ⟨h0, -⟩ := inside
    simp only [nextMessage, Option.ite_none_left_eq_some, Option.some.injEq] at e
    obtain ⟨-, rfl⟩ := e
    have step : 0 < optionStep pkt p := by
      rw [optionStep]
      split <;> omega
    omega

/-! ## The packet as a whole -/

/-- `dhcp_message_type` ends well exactly where what it reads is in the packet. -/
lemma dhcpMessageType_iff (h : 240 ≤ pkt.length) : (∃ type, Ends (dhcpMessageType pkt) type) ↔
    ((pkt.drop 236).take 4 = magic → ∀ p, Leads (nextMessage pkt) 240 p → MessageInside pkt p) := by
  have start : ∀ fuel, dhcpMessageType pkt fuel =
      if (pkt.drop 236).take 4 ≠ magic then .ok (-1) else messageLoop pkt fuel 240 := by
    intro fuel
    rw [dhcpMessageType, bytesAt_inside (by omega), ok_bind]
  by_cases hm : (pkt.drop 236).take 4 = magic
  · rw [forall_prop_of_true hm]
    constructor
    · rintro ⟨type, many, run⟩ p leads
      by_contra no
      have fault := messageLoop_walker.fault leads no (n := many + pkt.length) (by omega)
      have ok := run (many + pkt.length) (by omega)
      rw [start, if_neg (not_not.mpr hm), fault] at ok
      exact absurd ok (by simp)
    · intro inside
      obtain ⟨p, -, -, run⟩ := messageLoop_walker.ok inside
      have ends : ∀ fuel, pkt.length - 240 + 1 ≤ fuel → dhcpMessageType pkt fuel =
          .ok (if octet pkt p = 0xff then -1 else octet pkt (p + 2)) := by
        intro fuel hf
        rw [start, if_neg (not_not.mpr hm), run fuel (by omega)]
      exact ⟨_, _, ends⟩
  · refine iff_of_true ⟨-1, 0, ?_⟩ (fun h => absurd h hm)
    intro fuel _
    rw [start, if_pos hm]

@[simp] lemma Lease.overload_clear : l.clear.overload = 0 := by
  rw [Lease.overload, Lease.clear, Function.update_self]
  rfl

/-- An area keeps inside and is walked to its end, or the walk reads outside. -/
lemma processOptions_cases (cfg : Options) (pkt : List UInt8) (e p : Nat) (l : Lease) :
    AreaInside cfg pkt e p l.overload ∧ (∃ l' : Lease,
      Overload pkt e p l.overload l'.overload ∧
        ∀ n, e - p < n → processOptions cfg pkt e n (p, l) = .ok l') ∨
    ¬ AreaInside cfg pkt e p l.overload ∧
      ∀ n, e - p < n → processOptions cfg pkt e n (p, l) = .error .outside := by
  by_cases inside : AreaInside cfg pkt e p l.overload
  · exact .inl ⟨inside, processOptions_ok inside⟩
  · exact .inr ⟨inside, fun n hn => processOptions_outside inside hn⟩

/-- There is no result where each sufficient number of steps gives a fault. -/
lemma not_ends {f : Nat → Except Fault Lease} (h : ∀ n, 549 ≤ n → f n = .error .outside) :
    ¬ ∃ l, Ends f l := by
  rintro ⟨l, ends⟩
  rw [ends_iff h] at ends
  exact absurd ends (by simp)

/-- The `sname` field decides, where the overload option says that it holds options. -/
lemma sname_iff {f : Nat → Except Fault Lease} (h : ∀ n, 549 ≤ n → f n =
      if l.overload &&& 2 ≠ 0 then processOptions cfg pkt 108 n (44, l) else .ok l) :
    (∃ l', Ends f l') ↔ (l.overload &&& 2 ≠ 0 → AreaInside cfg pkt 108 44 l.overload) := by
  by_cases on : l.overload &&& 2 ≠ 0
  · rw [forall_prop_of_true on]
    obtain ⟨inside, l', -, run⟩ | ⟨outside, run⟩ :=
      processOptions_cases cfg pkt 108 44 l
    · refine iff_of_true ⟨l', 549, ?_⟩ inside
      intro fuel hf
      rw [h fuel hf, if_pos on, run fuel (by omega)]
    · refine iff_of_false (not_ends ?_) outside
      intro fuel hf
      rw [h fuel hf, if_pos on, run fuel (by omega)]
  · refine iff_of_true ⟨l, 549, ?_⟩ (fun h => absurd h on)
    intro fuel hf
    rw [h fuel hf, if_neg on]

/-- What holds of the one value of the overload holds of all there are. -/
lemma Overload.forall_iff (h : Overload pkt e p v w) {P : Nat → Prop} :
    (∀ w, Overload pkt e p v w → P w) ↔ P w := by
  constructor
  · intro all
    exact all _ h
  · intro here w' h'
    rwa [← h.unique h']

/-- The `file` field comes in front of it and can set the overload once more. -/
lemma file_iff {f : Nat → Except Fault Lease} (h : ∀ n, 549 ≤ n → f n = do
      let l ← if l.overload &&& 1 ≠ 0 then processOptions cfg pkt 236 n (108, l) else .ok l
      if l.overload &&& 2 ≠ 0 then processOptions cfg pkt 108 n (44, l) else .ok l) :
    (∃ l', Ends f l') ↔ (l.overload &&& 1 ≠ 0 → AreaInside cfg pkt 236 108 l.overload) ∧
      ∀ w, (if l.overload &&& 1 ≠ 0 then Overload pkt 236 108 l.overload w else w = l.overload) →
        w &&& 2 ≠ 0 → AreaInside cfg pkt 108 44 w := by
  by_cases on : l.overload &&& 1 ≠ 0
  · simp only [if_pos on] at h
    simp only [if_pos on, forall_prop_of_true on]
    obtain ⟨inside, l', last, run⟩ | ⟨outside, run⟩ :=
      processOptions_cases cfg pkt 236 108 l
    · rw [and_iff_right inside, last.forall_iff]
      apply sname_iff
      intro n hn
      rw [h n hn, run n (by omega), ok_bind]
    · refine iff_of_false (not_ends ?_) (fun h => outside h.1)
      intro fuel hf
      rw [h fuel hf, run fuel (by omega), error_bind]
  · simp only [if_neg on] at h
    simp only [if_neg on, forall_eq, and_iff_right (fun h => absurd h on)]
    exact sname_iff h

/-- The areas are walked one after the other, and each decides in its turn. -/
lemma processOptions_iff (hl : 240 ≤ pkt.length) :
    (∃ l', Ends (dhcpPacketProcessOptions cfg pkt l) l') ↔
      ((pkt.drop 236).take 4 = magic → AreasInside cfg pkt) := by
  by_cases hm : (pkt.drop 236).take 4 = magic
  swap
  · refine iff_of_true ⟨l, 0, ?_⟩ (fun h => absurd h hm)
    intro fuel _
    rw [dhcpPacketProcessOptions, bytesAt_inside (by omega), ok_bind, if_pos hm]
  have start : ∀ fuel, dhcpPacketProcessOptions cfg pkt l fuel = (do
      let l ← processOptions cfg pkt 788 fuel (240, l.clear)
      let l ← if l.overload &&& 1 ≠ 0 then processOptions cfg pkt 236 fuel (108, l) else .ok l
      if l.overload &&& 2 ≠ 0 then processOptions cfg pkt 108 fuel (44, l) else .ok l) := by
    intro fuel
    rw [dhcpPacketProcessOptions, bytesAt_inside (by omega), ok_bind, if_neg (not_not.mpr hm)]
  rw [forall_prop_of_true hm, AreasInside]
  obtain ⟨inside, l1, last, run⟩ | ⟨outside, run⟩ :=
    processOptions_cases cfg pkt 788 240 l.clear
  · rw [Lease.overload_clear] at inside last
    rw [and_iff_right inside, last.forall_iff]
    apply file_iff
    intro n hn
    rw [start, run n (by omega), ok_bind]
  · rw [Lease.overload_clear] at outside
    refine iff_of_false (not_ends ?_) (fun h => outside h.1)
    intro fuel hf
    rw [start, run fuel (by omega), error_bind]

/-- The exact condition: the magic number arrived, and where it is right what is read of each option
that the two walks come to. -/
theorem walks_iff (cfg : Options) (pkt : List UInt8) (l : Lease) : Walks cfg pkt l ↔
    240 ≤ pkt.length ∧ ((pkt.drop 236).take 4 = magic →
      (∀ p, Leads (nextMessage pkt) 240 p → MessageInside pkt p) ∧ AreasInside cfg pkt) := by
  by_cases hl : 240 ≤ pkt.length
  · rw [Walks, dhcpMessageType_iff hl, processOptions_iff hl, and_iff_right hl]
    constructor
    · rintro ⟨message, areas⟩ hm
      exact ⟨message hm, areas hm⟩
    · intro h
      exact ⟨fun hm => (h hm).1, fun hm => (h hm).2⟩
  · refine iff_of_false ?_ (fun h => hl h.1)
    rintro ⟨-, areas⟩
    refine not_ends ?_ areas
    intro fuel _
    rw [dhcpPacketProcessOptions, bytesAt_outside (by omega), error_bind]

/-- A reply that ends where the options start. -/
def short : List UInt8 := [2, 1, 6, 0, 1, 0, 0, 0] ++ List.replicate 228 0

lemma length_short : short.length = 236 := by
  rw [short, List.length_append, List.length_replicate]
  rfl

/-- It is accepted, and the walks read the magic number behind its end. -/
theorem not_walks_short : ¬ ∀ (cfg : Options) (c : Config) (s : Ids c) (pkt : List UInt8)
    (dest src : Nat) (l : Lease), checkReplyPacket s pkt dest src = .ok 0 → Walks cfg pkt l := by
  intro h
  have accepted : checkReplyPacket (c := wide) ⟨[1, 0, 0, 0], 1, rfl⟩ short 68 67 = .ok 0 := by
    have inside {i : Nat} (lt : i < 236) : byteAt short i = .ok (octet short i) :=
      byteAt_inside (by rwa [length_short])
    have id : bytesAt short 4 4 = .ok [1, 0, 0, 0] :=
      bytesAt_inside (by rw [length_short]; decide)
    rw [checkReplyPacket, if_neg (by decide), if_neg (by rw [length_short]; decide),
      inside (by decide), inside (by decide), inside (by decide), id]
    rfl
  obtain ⟨-, ends⟩ := h ⟨false, false, false⟩ wide _ short 68 67 (fun _ => []) accepted
  refine not_ends ?_ ends
  intro fuel _
  rw [dhcpPacketProcessOptions, bytesAt_outside (by rw [length_short]; decide), error_bind]

end

end Imx.Bootp
