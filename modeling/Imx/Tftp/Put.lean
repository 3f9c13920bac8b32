import Imx.Base.Run
import Imx.Tftp.Defs

/-!
# Uploads

A client that uploads a range of its memory to a server over a network that may lose, delay,
duplicate and reorder packets. The server takes the blocks in order and acknowledges each one it
takes; everything that was ever sent can arrive at any time and any number of times.

Blocks are counted from 1 on without a bound, and a packet has only the lowest 16 bits of the
count. Every block the client sends carries the part of the memory it stands for
(`run_sends_saved`), and the client completes only when the last block is acknowledged, as long as
the packets that arrive meet `Ok`. They do not in three cases: once the last block is out, any
acknowledgement completes the transfer; a copy of the option acknowledgement makes the client go on
past the last block; and `update_block_number` never sees a wrap, because `tftp_prev_block` is not
set during an upload.
-/

namespace Imx.Tftp.Put
open Imx.Base

/-- A server: the text of the options it acknowledges if it does, and its port. -/
structure Server where
  oack : Option (List UInt8)
  port : Nat

/-- The block size. -/
def Server.bs (sv : Server) : Nat := negotiated sv.oack

/-- A packet with a block of data: its number, its bytes, and which block it is. -/
structure Block where
  num : Nat
  bytes : List UInt8
  pos : Nat
deriving DecidableEq, Repr

/-- Both parties: the client, the number of blocks the server has taken, and what both have sent.
`pos` is the block the client is at, and each packet carries the block it is for or stands for;
neither is visible to the parties. -/
structure Sys where
  client : Client
  pos : Nat
  taken : Nat
  blocks : List Block
  acks : List (Nat × Nat)

/-- What happens next: a copy of a packet arrives, or the timer of the client expires. -/
inductive Action where
  | oack
  | ack (num pos : Nat)
  | block (b : Block)
  | timeout
deriving DecidableEq, Repr

/-- Only what was sent can arrive. -/
def Enabled (sv : Server) (s : Sys) : Action → Prop
  | .oack => sv.oack.isSome
  | .ack num pos => (num, pos) ∈ s.acks
  | .block b => b ∈ s.blocks
  | .timeout => True

instance {sv : Server} {s : Sys} : (a : Action) → Decidable (Enabled sv s a)
  | .oack => inferInstanceAs (Decidable (sv.oack.isSome = true))
  | .ack num pos => inferInstanceAs (Decidable ((num, pos) ∈ s.acks))
  | .block b => inferInstanceAs (Decidable (b ∈ s.blocks))
  | .timeout => inferInstanceAs (Decidable True)

/-- The blocks among the packets sent, when the client is at `pos`. -/
def blocksOf (pos : Nat) (sent : List Sent) : List Block :=
  sent.filterMap fun
    | .data num bytes => some ⟨num, bytes, pos⟩
    | _ => none

/-- The client has changed and sent something, being at `pos` now. -/
def Sys.update (s : Sys) (pos : Nat) (r : Client × List Sent) : Sys :=
  { s with client := r.1, pos, blocks := blocksOf pos r.2 ++ s.blocks }

/-- One step. Nothing reaches the client when its network loop has ended. -/
def step (sv : Server) (s : Sys) : Action → Sys
  | .oack =>
    if s.client.net = .run then
      s.update (s.pos + 1) (s.client.handler (oackPkt (sv.oack.getD []))
        (2 + (sv.oack.getD []).length) s.client.ourPort sv.port)
    else s
  | .ack num pos =>
    if s.client.net = .run then
      s.update (pos + 1) (s.client.handler (ackPkt num) 4 s.client.ourPort sv.port)
    else s
  | .block b =>
    if b.num = (s.taken + 1) % sequenceSize then
      { s with taken := s.taken + 1, acks := (b.num, s.taken + 1) :: s.acks }
    else s
  | .timeout => if s.client.net = .run then s.update s.pos s.client.timeout else s

/-- The request has been sent; a server without options acknowledges it as block 0. -/
def start (sv : Server) (c : Client) (ourPort remotePort timeoutCountMax : Nat) : Sys where
  client := (c.start true ourPort remotePort timeoutCountMax).1
  pos := 0
  taken := 0
  blocks := []
  acks := if sv.oack.isSome then [] else [(0, 0)]

/-- The packets that reach the client keep it below block 65536 and not behind the last block, and
once the last block is out only its acknowledgement arrives. -/
def Ok (sv : Server) (s : Sys) : Action → Prop
  | .oack => s.client.net = .run →
      s.client.curBlock < 65535 ∧ s.client.curBlock * sv.bs ≤ s.client.saveSize
  | .ack num _ => s.client.net = .run →
      if s.client.putFinalBlockSent then num = s.client.curBlock else num ≠ 65535
  | .block _ => True
  | .timeout => True

instance {sv : Server} {s : Sys} : (a : Action) → Decidable (Ok sv s a)
  | .oack => inferInstanceAs (Decidable (s.client.net = .run →
      s.client.curBlock < 65535 ∧ s.client.curBlock * sv.bs ≤ s.client.saveSize))
  | .ack num _ => inferInstanceAs (Decidable (s.client.net = .run →
      if s.client.putFinalBlockSent then num = s.client.curBlock else num ≠ 65535))
  | .block _ => inferInstanceAs (Decidable True)
  | .timeout => inferInstanceAs (Decidable True)

/-- The bytes of the memory that are to be saved. -/
def saved (c : Client) : List UInt8 := c.mem.read c.saveAddr c.saveSize

/-- The part of the saved memory that block `n` carries. -/
def part (sv : Server) (c : Client) (n : Nat) : List UInt8 :=
  ((saved c).drop ((n - 1) * sv.bs)).take sv.bs

/-- The number of blocks; the last one is short, and may be empty. -/
def count (sv : Server) (c : Client) : Nat := c.saveSize / sv.bs + 1

/-- Every block that was sent carries its part of what the client `c` had to save at the start, and
a client that has completed has had its last block acknowledged. -/
def Saves (sv : Server) (c : Client) (s : Sys) : Prop :=
  (∀ b ∈ s.blocks, b.bytes = part sv c b.pos) ∧
  (s.client.net = .success → (count sv c % sequenceSize, count sv c) ∈ s.acks)

instance {sv : Server} {c : Client} {s : Sys} : Decidable (Saves sv c s) :=
  inferInstanceAs (Decidable ((∀ b ∈ s.blocks, b.bytes = part sv c b.pos) ∧
    (s.client.net = .success → (count sv c % sequenceSize, count sv c) ∈ s.acks)))

variable {sv : Server} {s : Sys} {c c' : Client} {n num pos : Nat} {a : Action} {b : Block}

/-! ## Blocks of the saved memory -/

lemma length_part : (part sv c n).length = min sv.bs (c.saveSize - (n - 1) * sv.bs) := by
  rw [part, saved, List.length_take, List.length_drop, Mem.length_read]

/-- The range to be saved lies in the memory. -/
structure Fits (c : Client) : Prop where
  size : c.saveSize < 2 ^ 32
  range : c.saveAddr + c.saveSize ≤ 2 ^ 32

/-- The client has the memory that is to be saved, and no wrap was counted. -/
structure Keeps (c c' : Client) : Prop where
  mem : c'.mem = c.mem
  addr : c'.saveAddr = c.saveAddr
  size : c'.saveSize = c.saveSize
  fileSize : c'.netBootFileSize = c.saveSize
  prev : c'.prevBlock = 0
  offset : c'.blockWrapOffset = 0
  put : c'.putActive = true

/-- Loading a block that begins in the saved memory, or at its end. -/
lemma Keeps.loadBlock (keeps : Keeps c c') (fits : Fits c) (pos : 1 ≤ n) (small : n ≤ 65535)
    (le : (n - 1) * sv.bs ≤ c.saveSize) : c'.loadBlock (u32 n) sv.bs = part sv c n := by
  have size := fits.size
  have range := fits.range
  have off : u32 ((u32 n + (2 ^ 32 - 1)) * sv.bs + c'.blockWrapOffset) = (n - 1) * sv.bs := by
    have sum : n + (2 ^ 32 - 1) = n - 1 + 2 ^ 32 := by omega
    rw [keeps.offset, Nat.add_zero, u32_of_lt (show n < 2 ^ 32 from by omega), sum, Nat.add_mul,
      u32_add_mul, u32_of_lt (by omega)]
  have left : u32 (c'.netBootFileSize + (2 ^ 32 - (n - 1) * sv.bs)) =
      c.saveSize - (n - 1) * sv.bs := by
    rw [keeps.fileSize, u32]
    omega
  simp only [Client.loadBlock, off, left]
  rw [part, saved, Mem.read_drop, Mem.read_take, keeps.mem, keeps.addr, Nat.min_comm]
  rcases Nat.lt_or_ge (c.saveAddr + (n - 1) * sv.bs) (2 ^ 32) with lt | ge
  · rw [u32_of_lt lt]
  · -- nothing is left behind the end of the memory
    have none : c.saveSize - (n - 1) * sv.bs = 0 := by omega
    rw [none, Nat.min_zero]
    rfl

/-! ## The invariant -/

/-- Before the first block: the request is out, and only a server without options has answered. -/
structure Waiting (sv : Server) (s : Sys) : Prop where
  phase : s.client.phase = .sendWrq
  final : s.client.putFinalBlockSent = false
  taken : s.taken = 0
  blocks : s.blocks = []
  acks : ∀ a ∈ s.acks, a = (0, 0)
  oack : sv.oack.isSome → s.pos = 0 ∧ s.acks = [] ∧ s.client.blockSize = defaultBlockSize

/-- Blocks are being sent: the client is at a block of the saved memory, every block that is out but
the last one is full, and the last one is out exactly when the flag says so. -/
structure Sending (sv : Server) (c : Client) (s : Sys) : Prop where
  phase : s.client.phase = .data
  port : s.client.remotePort = sv.port
  size : s.client.blockSize = sv.bs
  pos : 1 ≤ s.pos
  begins : (s.pos - 1) * sv.bs ≤ c.saveSize
  going : s.client.putFinalBlockSent = false → ∀ b ∈ s.blocks, b.pos * sv.bs ≤ c.saveSize
  final : s.client.putFinalBlockSent = true → c.saveSize < s.pos * sv.bs

/-- What holds while the transfer goes on. -/
structure Live (sv : Server) (c : Client) (s : Sys) : Prop where
  keeps : Keeps c s.client
  phase : Waiting sv s ∨ Sending sv c s
  cur : s.client.curBlock = s.pos
  small : s.pos ≤ 65535

/-- What has been sent, also when the transfer has ended. -/
structure Wire (sv : Server) (c : Client) (s : Sys) : Prop where
  blocks : ∀ b ∈ s.blocks, b.num = b.pos ∧ 1 ≤ b.pos ∧ b.pos ≤ 65535 ∧ b.bytes = part sv c b.pos
  taken : s.taken = 0 ∨ ∃ b ∈ s.blocks, b.pos = s.taken
  acks : ∀ a ∈ s.acks, a.1 = a.2 ∧ (a.2 = 0 ∨ ∃ b ∈ s.blocks, b.pos = a.2)

/-- The invariant of a run. -/
structure Inv (sv : Server) (c : Client) (s : Sys) : Prop where
  wire : Wire sv c s
  live : s.client.net = .run → Live sv c s
  success : s.client.net = .success → (count sv c % sequenceSize, count sv c) ∈ s.acks

lemma Live.hears (live : Live sv c s) : Hears s.client sv.port := by
  rcases live.phase with wait | send
  · exact .inr (.inl wait.phase)
  · exact .inr (.inr send.port)

/-- More blocks are out. -/
lemma Wire.update {p : Nat} {r : Client × List Sent} (wire : Wire sv c s)
    (new : ∀ b ∈ blocksOf p r.2,
      b.num = b.pos ∧ 1 ≤ b.pos ∧ b.pos ≤ 65535 ∧ b.bytes = part sv c b.pos) :
    Wire sv c (s.update p r) := by
  have more : ∀ k, (∃ b ∈ s.blocks, b.pos = k) → ∃ b ∈ blocksOf p r.2 ++ s.blocks, b.pos = k := by
    rintro k ⟨b, mem, eq⟩
    exact ⟨b, List.mem_append_right _ mem, eq⟩
  refine ⟨?_, wire.taken.imp_right (more _), fun a mem => ?_⟩
  · intro b mem
    rcases List.mem_append.1 mem with mem | mem
    · exact new b mem
    · exact wire.blocks b mem
  · exact ⟨(wire.acks a mem).1, (wire.acks a mem).2.imp_right (more _)⟩

/-- The client sends the block it is at. -/
lemma Wire.sends {p : Nat} {c1 : Client} (wire : Wire sv c s) (fits : Fits c) (keeps : Keeps c c1)
    (phase : c1.phase = .data) (port : c1.remotePort = sv.port) (size : c1.blockSize = sv.bs)
    (cur : c1.curBlock = p) (net : c1.net = .run) (pos : 1 ≤ p) (small : p ≤ 65535)
    (begins : (p - 1) * sv.bs ≤ c.saveSize)
    (going : c1.putFinalBlockSent = false → ∀ b ∈ s.blocks, b.pos * sv.bs ≤ c.saveSize)
    (final : c1.putFinalBlockSent = true → c.saveSize < p * sv.bs) :
    Inv sv c (s.update p c1.send) := by
  have u : u16 p = p := Nat.mod_eq_of_lt (by omega)
  have send : c1.send = ({ c1 with putFinalBlockSent := (part sv c p).length < sv.bs },
      [.data p (part sv c p)]) := by
    rw [Client.send, phase]
    simp only [keeps.put, if_pos, cur, size, keeps.loadBlock fits pos small begins, u]
  have full : ¬ (part sv c p).length < sv.bs ↔ p * sv.bs ≤ c.saveSize := by
    have succ : p * sv.bs = (p - 1) * sv.bs + sv.bs := by
      rw [← Nat.succ_mul, Nat.succ_eq_add_one, Nat.sub_add_cancel pos]
    rw [length_part, succ]
    omega
  rw [send]
  refine ⟨wire.update ?_, fun _ => ⟨?_, .inr ?_, cur, small⟩, fun success => ?_⟩
  · intro b mem
    rw [show blocksOf p [.data p (part sv c p)] = [⟨p, part sv c p, p⟩] from rfl,
      List.mem_singleton] at mem
    subst mem
    exact ⟨rfl, pos, small, rfl⟩
  · exact ⟨keeps.mem, keeps.addr, keeps.size, keeps.fileSize, keeps.prev, keeps.offset, keeps.put⟩
  · refine ⟨phase, port, size, pos, begins, ?_, ?_⟩
    · intro h b mem
      have le := full.1 (of_decide_eq_false h)
      rcases List.mem_cons.1 mem with rfl | mem
      · exact le
      · cases old : c1.putFinalBlockSent with
        | false => exact going old b mem
        | true => exact absurd (final old) (Nat.not_lt.2 le)
    · intro h
      by_contra ge
      exact full.2 (Nat.not_lt.1 ge) (of_decide_eq_true h)
  · exact absurd (net.symm.trans success) (by simp)

/-- Nothing is sent, or nothing but the request. -/
lemma Wire.silent {p : Nat} {r : Client × List Sent} (wire : Wire sv c s)
    (none : blocksOf p r.2 = []) : Wire sv c (s.update p r) :=
  wire.update (by simp [none])

/-! ## Steps -/

/-- The options are acknowledged: the client goes on to the next block. -/
lemma Live.step_oack (live : Live sv c s) (wire : Wire sv c s) (fits : Fits c)
    (net : s.client.net = .run) (some : sv.oack.isSome) (ok : Ok sv s .oack) :
    Inv sv c (step sv s .oack) := by
  obtain ⟨text, eq⟩ := Option.isSome_iff_exists.1 some
  obtain ⟨small, begins⟩ := ok net
  rw [live.cur] at small begins
  rw [live.keeps.size] at begins
  have size : (Client.oackBlockSize (oackPkt text) text.length).getD s.client.blockSize = sv.bs := by
    rw [Server.bs, eq]
    apply oackBlockSize_getD
    rcases live.phase with wait | send
    · exact .inl (wait.oack some).2.2
    · exact .inr (by rw [send.size, Server.bs, eq])
  have final : s.client.putFinalBlockSent = false := by
    rcases live.phase with wait | send
    · exact wait.final
    · by_contra h
      exact absurd (send.final (by simpa using h)) (Nat.not_lt.2 begins)
  have going : ∀ b ∈ s.blocks, b.pos * sv.bs ≤ c.saveSize := by
    rcases live.phase with wait | send
    · simp [wait.blocks]
    · exact send.going final
  have cur : u32 (s.client.curBlock + 1) = s.pos + 1 := by
    rw [live.cur]
    exact u32_of_lt (by omega)
  have handled : s.client.handleOack (oackPkt text) text.length sv.port =
      { s.client with
        phase := .data
        remotePort := sv.port
        blockSize := sv.bs
        curBlock := s.pos + 1 }.send := by
    simp only [Client.handleOack, size, live.keeps.put, if_pos, cur]
  rw [step, if_pos net, eq, Option.getD_some, handler_oack live.hears, handled]
  obtain ⟨k1, k2, k3, k4, k5, k6, k7⟩ := live.keeps
  refine wire.sends fits ⟨k1, k2, k3, k4, k5, k6, k7⟩ rfl rfl rfl rfl net (by omega) (by omega)
    ?_ (fun _ => going) fun h => ?_
  · rwa [Nat.add_sub_cancel]
  · exact absurd (final.symm.trans h) (by simp)

/-- The last block is acknowledged. -/
lemma Live.completed (live : Live sv c s) (wire : Wire sv c s) (mem : (num, pos) ∈ s.acks)
    (final : s.client.putFinalBlockSent = true) (ok : num = s.client.curBlock) :
    (count sv c % sequenceSize, count sv c) ∈ s.acks := by
  obtain ⟨eq, _⟩ := wire.acks _ mem
  simp only at eq
  rcases live.phase with wait | send
  · exact absurd (wait.final.symm.trans final) (by simp)
  · have begins := send.begins
    have ends := send.final final
    have small := live.small
    have pos1 := send.pos
    have last : count sv c = s.pos := by
      have div : c.saveSize / sv.bs = s.pos - 1 := by
        apply Nat.div_eq_of_lt_le
        · exact begins
        · rwa [Nat.sub_add_cancel pos1]
      rw [count, div, Nat.sub_add_cancel pos1]
    rw [last, show sequenceSize = 65536 from rfl, Nat.mod_eq_of_lt (by omega), ← live.cur, ← ok]
    rw [← eq] at mem
    exact mem

/-- An acknowledgement before the last block is out sets the client behind the block it is for. -/
lemma Live.handleAck_eq (live : Live sv c s) (final : s.client.putFinalBlockSent = false)
    (lt : num < 65535) : s.client.handleAck num =
      if s.client.curBlock = num then { s.client with curBlock := num + 1 }.send
      else ({ s.client with curBlock := num + 1 }, []) := by
  have u : u16 (num + 1) = num + 1 := Nat.mod_eq_of_lt (by omega)
  simp only [Client.handleAck, live.keeps.put, final, u, if_pos]
  -- the new number is not 0, so that no wrap is counted
  rfl

/-- An acknowledgement arrives. -/
lemma Live.step_ack (live : Live sv c s) (wire : Wire sv c s) (fits : Fits c)
    (net : s.client.net = .run) (mem : (num, pos) ∈ s.acks) (ok : Ok sv s (.ack num pos)) :
    Inv sv c (step sv s (.ack num pos)) := by
  have okn := ok net
  obtain ⟨eq, sent⟩ := wire.acks _ mem
  simp only at eq sent
  have le : num ≤ 65535 := by
    rcases sent with zero | ⟨b, memb, rfl⟩
    · omega
    · have := wire.blocks b memb
      omega
  rw [step, if_pos net, handler_ack live.hears (by omega)]
  cases final : s.client.putFinalBlockSent with
  | true =>
    rw [final, if_pos rfl] at okn
    have handled : s.client.handleAck num = (s.client.complete, []) := by
      simp [Client.handleAck, live.keeps.put, final]
    rw [handled]
    exact ⟨wire.silent rfl, fun run => absurd run (by simp [Sys.update, Client.complete]),
      fun _ => live.completed wire mem final okn⟩
  | false =>
    rw [final, if_neg (by simp)] at okn
    have lt : num < 65535 := Nat.lt_of_le_of_ne le okn
    have small : pos + 1 ≤ 65535 := eq ▸ lt
    rw [live.handleAck_eq final lt]
    obtain ⟨k1, k2, k3, k4, k5, k6, k7⟩ := live.keeps
    have keeps : Keeps c { s.client with curBlock := num + 1 } := ⟨k1, k2, k3, k4, k5, k6, k7⟩
    rcases live.phase with wait | send
    · -- the request is still the packet to be sent
      have noOack : ¬ sv.oack.isSome := by
        intro some
        rw [(wait.oack some).2.1] at mem
        exact absurd mem (by simp)
      have quiet : ∀ sent : List Sent, blocksOf (pos + 1) sent = [] →
          Inv sv c (s.update (pos + 1) ({ s.client with curBlock := num + 1 }, sent)) := by
        intro sent none
        refine ⟨wire.silent none, fun _ => ⟨keeps, .inl ?_, ?_, ?_⟩, fun success => ?_⟩
        · refine ⟨wait.phase, final, wait.taken, ?_, wait.acks, fun some => absurd some noOack⟩
          show blocksOf (pos + 1) sent ++ s.blocks = []
          rw [none, wait.blocks]
          rfl
        · show num + 1 = pos + 1
          rw [eq]
        · exact small
        · exact absurd (net.symm.trans success) (by simp)
      split
      · have request : { s.client with curBlock := num + 1 }.send =
            ({ s.client with curBlock := num + 1 }, [.request true]) := by
          rw [Client.send]
          simp only [wait.phase]
        rw [request]
        exact quiet _ rfl
      · exact quiet _ rfl
    · have full : pos * sv.bs ≤ c.saveSize := by
        rcases sent with rfl | ⟨b, memb, rfl⟩
        · omega
        · exact send.going final b memb
      split
      · exact wire.sends fits keeps send.phase send.port send.size (by show num + 1 = _; rw [eq]) net
          (Nat.le_add_left ..) small (by rwa [Nat.add_sub_cancel]) (fun _ => send.going final)
          fun h => absurd (final.symm.trans h) (by simp)
      · refine ⟨wire.silent rfl, fun _ => ⟨keeps, .inr ?_, ?_, ?_⟩, fun success => ?_⟩
        · refine ⟨send.phase, send.port, send.size, by show 1 ≤ pos + 1; omega, ?_,
            fun _ => send.going final, fun h => absurd (final.symm.trans h) (by simp)⟩
          show (pos + 1 - 1) * sv.bs ≤ _
          rwa [Nat.add_sub_cancel]
        · show num + 1 = pos + 1
          rw [eq]
        · exact small
        · exact absurd (net.symm.trans success) (by simp)

/-- The timer of the client expires. -/
lemma Live.step_timeout (live : Live sv c s) (wire : Wire sv c s) (fits : Fits c)
    (net : s.client.net = .run) : Inv sv c (step sv s .timeout) := by
  rw [step, if_pos net]
  by_cases much : s.client.timeoutCount + 1 > s.client.timeoutCountMax
  · have again : s.client.timeout =
        ({ s.client with timeoutCount := s.client.timeoutCount + 1 }.startAgain, []) := by
      simp [Client.timeout, much]
    rw [again]
    exact ⟨wire.silent rfl, fun run => absurd run (by simp [Sys.update, Client.startAgain]),
      fun success => absurd success (by simp [Sys.update, Client.startAgain])⟩
  obtain ⟨k1, k2, k3, k4, k5, k6, k7⟩ := live.keeps
  have keeps : Keeps c { s.client with timeoutCount := s.client.timeoutCount + 1 } :=
    ⟨k1, k2, k3, k4, k5, k6, k7⟩
  rcases live.phase with wait | send
  · have request : s.client.timeout =
        ({ s.client with timeoutCount := s.client.timeoutCount + 1 }, [.request true]) := by
      simp [Client.timeout, much, wait.phase, Client.send]
    rw [request]
    refine ⟨wire.silent rfl, fun _ => ⟨keeps, .inl ?_, live.cur, live.small⟩, fun success => ?_⟩
    · exact ⟨wait.phase, wait.final, wait.taken, wait.blocks, wait.acks, wait.oack⟩
    · exact absurd (net.symm.trans success) (by simp)
  · have again : s.client.timeout =
        { s.client with timeoutCount := s.client.timeoutCount + 1 }.send := by
      simp [Client.timeout, much, send.phase]
    rw [again]
    exact wire.sends fits keeps send.phase send.port send.size live.cur net send.pos live.small
      send.begins send.going send.final

/-- The server takes the next block, and ignores any other. -/
lemma Inv.step_block (inv : Inv sv c s) (mem : b ∈ s.blocks) : Inv sv c (step sv s (.block b)) := by
  rw [step]
  split
  · rename_i next
    obtain ⟨num, pos, small, _⟩ := inv.wire.blocks b mem
    have taken_le : s.taken ≤ 65535 := by
      rcases inv.wire.taken with zero | ⟨b', mem', eq⟩
      · omega
      · have := inv.wire.blocks b' mem'
        omega
    have b_pos : b.pos = s.taken + 1 := by
      rw [show sequenceSize = 65536 from rfl] at next
      omega
    refine ⟨⟨inv.wire.blocks, .inr ⟨b, mem, b_pos⟩, ?_⟩, fun run => ?_, fun success => ?_⟩
    · intro a mema
      rcases List.mem_cons.1 mema with rfl | mema
      · exact ⟨num.trans b_pos, .inr ⟨b, mem, b_pos⟩⟩
      · exact inv.wire.acks a mema
    · obtain ⟨keeps, phase, cur, small⟩ := inv.live run
      refine ⟨keeps, .inr ?_, cur, small⟩
      rcases phase with wait | send
      · rw [wait.blocks] at mem
        exact absurd mem (by simp)
      · exact ⟨send.phase, send.port, send.size, send.pos, send.begins, send.going, send.final⟩
    · exact List.mem_cons_of_mem _ (inv.success success)
  · exact inv

/-- One step keeps the invariant. -/
lemma Inv.step (inv : Inv sv c s) (fits : Fits c) (en : Enabled sv s a) (ok : Ok sv s a) :
    Inv sv c (step sv s a) := by
  cases a with
  | oack =>
    by_cases net : s.client.net = .run
    · exact (inv.live net).step_oack inv.wire fits net en ok
    · rw [Put.step, if_neg net]
      exact inv
  | ack num pos =>
    by_cases net : s.client.net = .run
    · exact (inv.live net).step_ack inv.wire fits net en ok
    · rw [Put.step, if_neg net]
      exact inv
  | block b => exact inv.step_block en
  | timeout =>
    by_cases net : s.client.net = .run
    · exact (inv.live net).step_timeout inv.wire fits net
    · rw [Put.step, if_neg net]
      exact inv

lemma Inv.start {ourPort remotePort timeoutCountMax : Nat} :
    Inv sv c (start sv c ourPort remotePort timeoutCountMax) := by
  have acks : ∀ a ∈ (Put.start sv c ourPort remotePort timeoutCountMax).acks, a = (0, 0) := by
    intro a mem
    rw [Put.start] at mem
    split at mem
    · exact absurd mem (by simp)
    · exact List.mem_singleton.1 mem
  refine ⟨⟨fun b mem => absurd mem (by simp [Put.start]), .inl rfl, fun a mem => ?_⟩,
    fun _ => ⟨⟨rfl, rfl, rfl, rfl, rfl, rfl, rfl⟩, .inl ?_, rfl, Nat.zero_le _⟩, fun success => ?_⟩
  · rw [acks a mem]
    exact ⟨rfl, .inl rfl⟩
  · refine ⟨rfl, rfl, rfl, rfl, acks, fun some => ⟨rfl, ?_, rfl⟩⟩
    rw [Put.start, if_pos some]
  · exact absurd success (by simp [Put.start, Client.start, Client.newTransfer, Client.send])

/-- An upload sends exactly the saved memory: in every run from the request on in which the packets
that reach the client meet `Ok`, each block carries its part of the saved memory, and the client
completes only when the server has acknowledged the last, short block. -/
theorem run_sends_saved {ourPort remotePort timeoutCountMax : Nat} {as : List Action} (fits : Fits c)
    (run : Along (fun s a => Enabled sv s a ∧ Ok sv s a) (step sv)
      (start sv c ourPort remotePort timeoutCountMax) as) :
    Saves sv c (as.foldl (step sv) (start sv c ourPort remotePort timeoutCountMax)) := by
  have inv := run.invariant (P := Inv sv c) .start fun _ _ inv ok => inv.step fits ok.1 ok.2
  exact ⟨fun b mem => (inv.wire.blocks b mem).2.2.2, inv.success⟩

/-- Nine bytes to be saved. -/
def nineBytes : Client :=
  { Client.idle 0 4096 9 with mem := Mem.zero.write 4096 [1, 2, 3, 4, 5, 6, 7, 8, 9] }

/-- A server that takes blocks of eight bytes: the text is the option `blksize` with the value 8. -/
def eights : Server := ⟨some (Client.blksize ++ [56, 0]), 4000⟩

/-- An upload of nine bytes with a timeout. -/
def upload : List Action :=
  [.oack, .block ⟨1, [1, 2, 3, 4, 5, 6, 7, 8], 1⟩, .ack 1 1, .timeout, .block ⟨2, [9], 2⟩, .ack 2 2]

theorem run_sends_saved_nine :
    (upload.foldl (step eights) (start eights nineBytes 1024 69 10)).client.net = .success ∧
    Saves eights nineBytes (upload.foldl (step eights) (start eights nineBytes 1024 69 10)) :=
  ⟨by decide +kernel, run_sends_saved ⟨by decide, by decide⟩ (by decide +kernel)⟩

/-- The acknowledgement of the first block comes twice. -/
def doubleAck : List Action :=
  [.oack, .block ⟨1, [1, 2, 3, 4, 5, 6, 7, 8], 1⟩, .ack 1 1, .ack 1 1]

/-- A second copy of the acknowledgement for the first block completes the transfer, though the
server has not taken the last one. -/
theorem double_ack_completes :
    Along (Enabled eights) (step eights) (start eights nineBytes 1024 69 10) doubleAck ∧
    ¬ Saves eights nineBytes (doubleAck.foldl (step eights) (start eights nineBytes 1024 69 10)) := by
  decide +kernel

end Imx.Tftp.Put
