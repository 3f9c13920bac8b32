import Imx.Base.Run
import Imx.Tftp.Defs

/-!
# Downloads

A client that downloads a file from a server over a network that may lose, delay, duplicate and
reorder packets. The server is honest: it sends its file in blocks, and the next block only when
the block that is out is acknowledged. Everything that was ever sent can arrive at any time and any
number of times, so that the network is the history of the two parties.

Blocks are counted from 1 on without a bound; a packet has only the lowest 16 bits of that count.
`Ok` says that a packet is not taken for another one with the same number: it is the one place
where the count itself and what the client knows of it are compared.
-/

namespace Imx.Tftp
open Imx.Base

namespace Get

/-- A server with its file, the text of the options it acknowledges if it does, and its port. -/
structure Server where
  file : List UInt8
  oack : Option (List UInt8)
  port : Nat

namespace Server

/-- The block size: the one in the acknowledged options, or the default. -/
def bs (sv : Server) : Nat := negotiated sv.oack

/-- The number of blocks; the last one is short, and may be empty. -/
def count (sv : Server) : Nat := sv.file.length / sv.bs + 1

/-- The data of a block. -/
def block (sv : Server) (n : Nat) : List UInt8 := (sv.file.drop ((n - 1) * sv.bs)).take sv.bs

/-- The block that is out after the request: none while the options are to be acknowledged. -/
def first (sv : Server) : Nat := if sv.oack.isSome then 0 else 1

end Server

/-- Both parties: the client, the block the server has out, and every acknowledgement the client
has sent. `last` is the block the client has taken last, and each acknowledgement carries the block
it is for besides its number; neither is visible to the parties. -/
structure Sys where
  client : Client
  sent : Nat
  last : Nat
  acks : List (Nat × Nat)

/-- What happens next: a copy of a packet arrives, or the timer of the client expires. -/
inductive Action where
  | data (n : Nat)
  | oack
  | ack (num pos : Nat)
  | timeout
deriving DecidableEq, Repr

/-- Only what was sent can arrive. -/
def Enabled (sv : Server) (s : Sys) : Action → Prop
  | .data n => 1 ≤ n ∧ n ≤ s.sent
  | .oack => sv.oack.isSome
  | .ack num pos => (num, pos) ∈ s.acks
  | .timeout => True

instance {sv : Server} {s : Sys} : (a : Action) → Decidable (Enabled sv s a)
  | .data n => inferInstanceAs (Decidable (1 ≤ n ∧ n ≤ s.sent))
  | .oack => inferInstanceAs (Decidable (sv.oack.isSome = true))
  | .ack num pos => inferInstanceAs (Decidable ((num, pos) ∈ s.acks))
  | .timeout => inferInstanceAs (Decidable True)

/-- The acknowledgements among the packets sent, for the block `pos`. -/
def acksOf (pos : Nat) (sent : List Sent) : List (Nat × Nat) :=
  sent.filterMap fun
    | .ack num => some (num, pos)
    | _ => none

/-- The client has changed and sent something, its last block being `pos`. -/
def Sys.update (s : Sys) (pos : Nat) (r : Client × List Sent) : Sys :=
  { s with client := r.1, last := pos, acks := acksOf pos r.2 ++ s.acks }

/-- One step. Nothing reaches the client when its network loop has ended. -/
def step (sv : Server) (s : Sys) : Action → Sys
  | .data n =>
    if s.client.net = .run then
      s.update n (s.client.handler (dataPkt (n % sequenceSize) (sv.block n))
        (4 + (sv.block n).length) s.client.ourPort sv.port)
    else s
  | .oack =>
    if s.client.net = .run then
      s.update s.last (s.client.handler (oackPkt (sv.oack.getD [])) (2 + (sv.oack.getD []).length)
        s.client.ourPort sv.port)
    else s
  | .ack num _ =>
    if num = s.sent % sequenceSize ∧ s.sent < sv.count then { s with sent := s.sent + 1 } else s
  | .timeout => if s.client.net = .run then s.update s.last s.client.timeout else s

/-- The request has been sent. -/
def start (sv : Server) (c : Client) (ourPort remotePort timeoutCountMax : Nat) : Sys where
  client := (c.start false ourPort remotePort timeoutCountMax).1
  sent := sv.first
  last := 0
  acks := []

/-- How often the numbers have wrapped, as the client counts it, when block number `b` arrives. -/
def round (c : Client) (b : Nat) : Nat :=
  if c.first then 0 else if b = 0 ∧ c.prevBlock ≠ 0 then c.blockWrap + 1 else c.blockWrap

/-- A block that arrives belongs to the round of numbers the client is in, or makes it give up, and
an acknowledgement that makes the server go on is for the block that is out. -/
def Ok (sv : Server) (s : Sys) : Action → Prop
  | .data n => s.client.net = .run → n / sequenceSize = round s.client (n % sequenceSize) ∨
      (s.client.first ∧ n % sequenceSize ≠ 1)
  | .ack num pos => num = s.sent % sequenceSize ∧ s.sent < sv.count → pos = s.sent
  | .oack => True
  | .timeout => True

instance {sv : Server} {s : Sys} : (a : Action) → Decidable (Ok sv s a)
  | .data n => inferInstanceAs (Decidable (s.client.net = .run →
      n / sequenceSize = round s.client (n % sequenceSize) ∨
      (s.client.first ∧ n % sequenceSize ≠ 1)))
  | .ack num pos => inferInstanceAs (Decidable (num = s.sent % sequenceSize ∧ s.sent < sv.count →
      pos = s.sent))
  | .oack => inferInstanceAs (Decidable True)
  | .timeout => inferInstanceAs (Decidable True)

/-- A client that has completed holds the file at its load address, and its length. -/
def Loaded (sv : Server) (s : Sys) : Prop :=
  s.client.net = .success → s.client.mem.read s.client.loadAddr sv.file.length = sv.file ∧
    s.client.netBootFileSize = sv.file.length

instance {sv : Server} {s : Sys} : Decidable (Loaded sv s) :=
  inferInstanceAs (Decidable (s.client.net = .success →
    s.client.mem.read s.client.loadAddr sv.file.length = sv.file ∧
    s.client.netBootFileSize = sv.file.length))

variable {sv : Server} {s : Sys} {c : Client} {n k i b w addr : Nat} {a : Action}

/-! ## Blocks of the file -/

lemma Server.length_block : (sv.block n).length = min sv.bs (sv.file.length - (n - 1) * sv.bs) := by
  rw [Server.block, List.length_take, List.length_drop]

/-- Every block begins in the file or at its end. -/
lemma Server.begin_le (le : n ≤ sv.count) : (n - 1) * sv.bs ≤ sv.file.length := by
  have h : n - 1 ≤ sv.file.length / sv.bs := Nat.sub_le_of_le_add le
  exact Nat.le_trans (Nat.mul_le_mul_right _ h) (Nat.div_mul_le_self ..)

/-- A short block is the last one. -/
lemma Server.eq_count_of_short (pos : 1 ≤ n) (le : n ≤ sv.count) (short : (sv.block n).length < sv.bs) :
    n = sv.count ∧ sv.file.length = (n - 1) * sv.bs + (sv.block n).length := by
  have beg := Server.begin_le le
  rw [Server.length_block] at short ⊢
  have lt : sv.file.length < (n - 1) * sv.bs + sv.bs := by omega
  have ge : sv.count ≤ n := by
    have := Nat.div_lt_of_lt_mul (show sv.file.length < sv.bs * (n - 1 + 1) from by
      rw [Nat.mul_add, Nat.mul_comm sv.bs, Nat.mul_one]
      exact lt)
    rwa [Nat.sub_add_cancel pos] at this
  exact ⟨by omega, by omega⟩

/-- A byte of a block in the file. -/
lemma Server.getElem?_block (lt : i < (sv.block n).length) :
    (sv.block n)[i]? = sv.file[(n - 1) * sv.bs + i]? := by
  rw [Server.length_block] at lt
  rw [Server.block, List.getElem?_take_of_lt (by omega), List.getElem?_drop]

/-- Where a block goes: the 16 bits of its number and the offset for the wraps give its place. -/
lemma offset_eq {bs : Nat} (hn : n = 65536 * w + b) (hb : b < 65536) (pos : 1 ≤ n)
    (small : (n - 1) * bs < 2 ^ 32) :
    u32 (u32 (b + (2 ^ 32 - 1)) * bs + u32 (w * 65536 * bs)) = (n - 1) * bs := by
  have key : ∃ q, u32 (b + (2 ^ 32 - 1)) * bs + w * 65536 * bs = (n - 1) * bs + 2 ^ 32 * q := by
    rcases Nat.eq_zero_or_pos b with rfl | bpos
    · refine ⟨bs, ?_⟩
      have e1 : u32 (0 + (2 ^ 32 - 1)) = 2 ^ 32 - 1 := by decide
      have e2 : 2 ^ 32 - 1 + w * 65536 = n - 1 + 2 ^ 32 := by omega
      rw [e1, ← Nat.add_mul, e2, Nat.add_mul]
    · refine ⟨0, ?_⟩
      have e1 : u32 (b + (2 ^ 32 - 1)) = b - 1 := by
        rw [u32]
        omega
      have e2 : b - 1 + w * 65536 = n - 1 := by omega
      rw [e1, ← Nat.add_mul, e2, Nat.mul_zero, Nat.add_zero]
  obtain ⟨q, eq⟩ := key
  rw [u32_add_u32, eq, u32_add_mul, u32_of_lt small]

/-- The client has the bytes of a block in their place. -/
def Stored (sv : Server) (m : Mem) (addr n : Nat) : Prop :=
  ∀ i, (n - 1) * sv.bs ≤ i → i < (n - 1) * sv.bs + sv.bs → i < sv.file.length →
    sv.file[i]? = some (m (addr + i))

/-- Storing a block puts it in its place. -/
lemma Stored.write {m : Mem} :
    Stored sv (m.write (addr + (n - 1) * sv.bs) (sv.block n)) addr n := by
  intro i lo hi lt
  have inside : i - (n - 1) * sv.bs < (sv.block n).length := by
    rw [Server.length_block]
    omega
  have byte := @Server.getElem?_block sv n _ inside
  rw [show (n - 1) * sv.bs + (i - (n - 1) * sv.bs) = i from by omega] at byte
  rw [show addr + i = addr + (n - 1) * sv.bs + (i - (n - 1) * sv.bs) from by omega,
    Mem.write_at inside, ← byte, List.getElem?_eq_getElem inside]

/-- Storing a block keeps the blocks that are there. -/
lemma Stored.keep {m : Mem} (old : Stored sv m addr k) :
    Stored sv (m.write (addr + (n - 1) * sv.bs) (sv.block n)) addr k := by
  intro i lo hi lt
  by_cases own : (n - 1) * sv.bs ≤ i ∧ i < (n - 1) * sv.bs + sv.bs
  · exact Stored.write i own.1 own.2 lt
  · rw [old i lo hi lt]
    congr 1
    symm
    by_cases below : i < (n - 1) * sv.bs
    · exact Mem.write_below (by omega)
    · apply Mem.write_above
      rw [Server.length_block]
      omega

/-- All blocks together are the file. -/
lemma read_of_stored {m : Mem} (pos : 0 < sv.bs)
    (all : ∀ n, 1 ≤ n → n ≤ sv.count → Stored sv m addr n) :
    m.read addr sv.file.length = sv.file := by
  apply List.ext_getElem?
  intro i
  rw [Mem.getElem?_read]
  split
  · rename_i lt
    have le : i / sv.bs + 1 ≤ sv.count := by
      rw [Server.count]
      exact Nat.succ_le_succ (Nat.div_le_div_right (Nat.le_of_lt lt))
    refine (all (i / sv.bs + 1) (Nat.le_add_left ..) le i ?_ ?_ lt).symm
    · exact Nat.div_mul_le_self ..
    · have := Nat.div_add_mod i sv.bs
      have := Nat.mod_lt i pos
      rw [Nat.add_sub_cancel, Nat.mul_comm]
      omega
  · rename_i ge
    rw [List.getElem?_eq_none (Nat.not_lt.1 ge)]

/-! ## The invariant -/

/-- What holds while the transfer goes on. Whatever was acknowledged is stored, and so is everything
before the block that is out; the client knows the count of its last block. -/
structure Live (sv : Server) (addr : Nat) (s : Sys) : Prop where
  put : s.client.putActive = false
  load : s.client.loadAddr = addr
  phase : s.client.phase = .sendRrq ∨ s.client.phase = .oack ∨ s.client.phase = .data
  port : s.client.phase ≠ .sendRrq → s.client.remotePort = sv.port
  size : s.client.phase ≠ .sendRrq → s.client.blockSize = sv.bs
  idle : s.client.phase = .sendRrq →
    s.client.blockSize = defaultBlockSize ∧ s.sent = sv.first ∧ s.acks = [] ∧ s.last = 0
  sent : s.sent ≤ sv.count
  before : ∀ k, 1 ≤ k → k < s.sent → Stored sv s.client.mem addr k
  acks : ∀ a ∈ s.acks, a.1 = a.2 % sequenceSize ∧ (1 ≤ a.2 → Stored sv s.client.mem addr a.2)
  cur : s.client.curBlock = s.last % sequenceSize
  last : 1 ≤ s.last → Stored sv s.client.mem addr s.last
  data : s.client.phase = .data → 1 ≤ s.last ∧ s.client.prevBlock = s.last % sequenceSize ∧
    s.client.blockWrap = s.last / sequenceSize ∧
    s.client.blockWrapOffset = u32 (s.last / sequenceSize * sequenceSize * sv.bs)
  bound : s.client.netBootFileSize ≤ sv.file.length

/-- The invariant of a run. -/
def Inv (sv : Server) (addr : Nat) (s : Sys) : Prop :=
  (s.client.net = .run → Live sv addr s) ∧ Loaded sv s

lemma Live.hears (live : Live sv addr s) : Hears s.client sv.port := by
  by_cases rrq : s.client.phase = .sendRrq
  · exact .inl rrq
  · exact .inr (.inr (live.port rrq))

/-- Behind the first block the client waits for data. -/
lemma Live.phase_data (live : Live sv addr s) (first : ¬ s.client.first) :
    s.client.phase = .data := by
  rcases live.phase with ph | ph | ph
  · exact absurd (by simp [Client.first, ph]) first
  · exact absurd (by simp [Client.first, ph]) first
  · exact ph

/-- The client as it looks at a block. -/
structure Begun (sv : Server) (n : Nat) (c c' : Client) : Prop where
  phase : c'.phase = .data
  put : c'.putActive = c.putActive
  load : c'.loadAddr = c.loadAddr
  port : c'.remotePort = sv.port
  size : c'.blockSize = sv.bs
  cur : c'.curBlock = n % sequenceSize
  wrap : c'.blockWrap = n / sequenceSize
  offset : c'.blockWrapOffset = u32 (n / sequenceSize * sequenceSize * sv.bs)
  mem : c'.mem = c.mem
  fileSize : c'.netBootFileSize = c.netBootFileSize
  net : c'.net = c.net
  prev : c'.prevBlock = if c.first then 0 else c.prevBlock

/-- The first block. -/
lemma Live.begun_first (live : Live sv addr s) (first : s.client.first) (pos : 1 ≤ n)
    (le : n ≤ s.sent) (eq : n = 1) : Begun sv n s.client (s.client.beginData 1 sv.port) := by
  subst eq
  have size : s.client.blockSize = sv.bs := by
    by_cases rrq : s.client.phase = .sendRrq
    · obtain ⟨size, sent, _⟩ := live.idle rrq
      have none : sv.oack = none := by
        rw [sent, Server.first] at le
        split at le
        · omega
        · rename_i h
          simpa using h
      rw [size, Server.bs, none]
      rfl
    · exact live.size rrq
  rcases live.phase with ph | ph | ph
  · constructor <;> simp [Client.beginData, Client.updateBlockNumber, ph, Client.newTransfer, size,
      sequenceSize, u32, Client.first]
  · constructor <;> simp [Client.beginData, Client.updateBlockNumber, ph, Client.newTransfer, size,
      sequenceSize, u32, Client.first]
  · simp [Client.first, ph] at first

/-- A block behind the first one. -/
lemma Live.begun_next (live : Live sv addr s) (first : ¬ s.client.first) (le : n ≤ sv.count)
    (small : sv.file.length < 2 ^ 32)
    (eq : n / sequenceSize = round s.client (n % sequenceSize)) :
    Begun sv n s.client (s.client.beginData (n % sequenceSize) sv.port) := by
  have ph := live.phase_data first
  have ne : s.client.phase ≠ .sendRrq := by simp [ph]
  obtain ⟨_, prev, wrap, offset⟩ := live.data ph
  rw [round, if_neg first] at eq
  by_cases wraps : n % sequenceSize = 0 ∧ s.client.prevBlock ≠ 0
  · rw [if_pos wraps, wrap] at eq
    have wlt : u32 (s.client.blockWrap + 1) = n / sequenceSize := by
      have div := Nat.div_le_self sv.file.length sv.bs
      have lt : n / sequenceSize < 2 ^ 32 := by
        rw [Server.count] at le
        rw [Nat.div_lt_iff_lt_mul (by decide), show sequenceSize = 65536 from rfl]
        omega
      rw [wrap, ← eq, u32_of_lt lt]
    have off : u32 (s.client.blockWrapOffset + sv.bs * sequenceSize) =
        u32 (n / sequenceSize * sequenceSize * sv.bs) := by
      rw [offset, Nat.add_comm, u32_add_u32, eq, Nat.add_mul, Nat.add_mul, Nat.one_mul,
        Nat.add_comm, Nat.mul_comm sv.bs]
    constructor <;> simp [Client.beginData, Client.updateBlockNumber, ph, wraps, first,
      live.port ne, wlt, off, live.size ne]
  · rw [if_neg wraps, wrap] at eq
    constructor <;> simp [Client.beginData, Client.updateBlockNumber, ph, wraps, first,
      live.port ne, live.size ne, eq, wrap, offset]

/-- The client after it has taken a block. -/
def taken (sv : Server) (c : Client) (n : Nat) : Client :=
  { c with
    prevBlock := n % sequenceSize
    mem := c.mem.write (c.loadAddr + (n - 1) * sv.bs) (sv.block n)
    netBootFileSize := max c.netBootFileSize ((n - 1) * sv.bs + (sv.block n).length) }

/-- A client that downloads acknowledges its last block. -/
lemma send_data (ph : c.phase = .data) (put : c.putActive = false) :
    c.send = (c, [.ack (u16 c.curBlock)]) := by
  rw [Client.send, ph]
  simp [put]

/-- A block that is not the last one again is stored and acknowledged. -/
lemma Begun.handle (begun : Begun sv n c (c.beginData (n % sequenceSize) sv.port))
    (put : c.putActive = false) (pos : 1 ≤ n) (le : n ≤ sv.count)
    (small : c.loadAddr + sv.file.length < 2 ^ 32)
    (go : ¬ (c.first ∧ n % sequenceSize ≠ 1))
    (new : n % sequenceSize ≠ (c.beginData (n % sequenceSize) sv.port).prevBlock) :
    c.handleData (n % sequenceSize) (sv.block n) sv.port =
      (if (sv.block n).length < sv.bs then
          (taken sv (c.beginData (n % sequenceSize) sv.port) n).complete
        else taken sv (c.beginData (n % sequenceSize) sv.port) n, [.ack (n % sequenceSize)]) := by
  have beg := Server.begin_le le
  have len : (n - 1) * sv.bs + (sv.block n).length ≤ sv.file.length := by
    rw [Server.length_block]
    omega
  obtain ⟨c', eq⟩ : ∃ c', c' = c.beginData (n % sequenceSize) sv.port := ⟨_, rfl⟩
  rw [Client.handleData, if_neg go]
  rw [← eq] at begun new ⊢
  rw [if_neg new]
  have mod : u16 (n % sequenceSize) = n % sequenceSize := Nat.mod_mod ..
  have off : u32 (u32 (n % sequenceSize + (2 ^ 32 - 1)) * sv.bs + c'.blockWrapOffset) =
      (n - 1) * sv.bs := by
    rw [begun.offset]
    exact offset_eq (Nat.div_add_mod n sequenceSize).symm (Nat.mod_lt _ (by decide)) pos (by omega)
  have store : { c' with prevBlock := n % sequenceSize }.storeBlock
      (u32 (n % sequenceSize + (2 ^ 32 - 1))) (sv.block n) = taken sv c' n := by
    have load : u32 (c'.loadAddr + (n - 1) * sv.bs) = c'.loadAddr + (n - 1) * sv.bs :=
      u32_of_lt (by rw [begun.load]; omega)
    have size : u32 ((n - 1) * sv.bs + (sv.block n).length) =
        (n - 1) * sv.bs + (sv.block n).length := u32_of_lt (by omega)
    have greater : ∀ x y : Nat, (if x < y then y else x) = max x y := by
      intro x y
      split <;> omega
    simp only [Client.storeBlock, taken, begun.size, off, load, size, greater]
  have send : (taken sv c' n).send = (taken sv c' n, [.ack (n % sequenceSize)]) := by
    have cur : (taken sv c' n).curBlock = n % sequenceSize := begun.cur
    rw [@send_data (taken sv c' n) begun.phase (begun.put.trans put), cur, mod]
  simp only [store, send]
  have size : (taken sv c' n).blockSize = sv.bs := begun.size
  rw [size]
  split <;> rfl

/-- What the arrival of a block leads to: the client gives up, ignores the block it has taken last,
or takes the block. -/
inductive Outcome (sv : Server) (s : Sys) (n : Nat) : Client × List Sent → Prop where
  | again {c : Client} : c.net = .again → Outcome sv s n (c, [])
  | ignored {c : Client} :
    Begun sv n s.client c → n = s.last → c.prevBlock = n % sequenceSize → Outcome sv s n (c, [])
  | taken {c : Client} : Begun sv n s.client c →
    Outcome sv s n (if (sv.block n).length < sv.bs then (taken sv c n).complete else taken sv c n,
      [.ack (n % sequenceSize)])

/-- A block with the number of the last one is the last one. -/
lemma Live.eq_last (live : Live sv addr s) (first : ¬ s.client.first)
    (eq : n / sequenceSize = round s.client (n % sequenceSize))
    (same : n % sequenceSize = s.client.prevBlock) : n = s.last := by
  obtain ⟨_, prev, wrap, _⟩ := live.data (live.phase_data first)
  rw [round, if_neg first, if_neg (by rw [same]; exact fun h => h.2 h.1), wrap] at eq
  have h1 := Nat.div_add_mod n sequenceSize
  have h2 := Nat.div_add_mod s.last sequenceSize
  rw [eq, same, prev] at h1
  omega

/-- The client looks at a block of the round it is in. -/
lemma Live.begun (live : Live sv addr s) (small : addr + sv.file.length < 2 ^ 32) (pos : 1 ≤ n)
    (le : n ≤ s.sent) (go : ¬ (s.client.first ∧ n % sequenceSize ≠ 1))
    (eq : n / sequenceSize = round s.client (n % sequenceSize)) :
    Begun sv n s.client (s.client.beginData (n % sequenceSize) sv.port) := by
  by_cases first : s.client.first
  · have one : n % sequenceSize = 1 := by
      by_contra ne
      exact go ⟨first, ne⟩
    rw [round, if_pos first] at eq
    have n1 : n = 1 := by
      have := Nat.div_add_mod n sequenceSize
      rw [eq, one] at this
      omega
    rw [one]
    exact live.begun_first first pos le n1
  · exact live.begun_next first (Nat.le_trans le live.sent) (by omega) eq

/-- The arrival of a block has one of the outcomes. -/
lemma Live.outcome (live : Live sv addr s) (small : addr + sv.file.length < 2 ^ 32)
    (net : s.client.net = .run) (pos : 1 ≤ n) (le : n ≤ s.sent) (ok : Ok sv s (.data n)) :
    Outcome sv s n (s.client.handleData (n % sequenceSize) (sv.block n) sv.port) := by
  by_cases go : s.client.first ∧ n % sequenceSize ≠ 1
  · rw [Client.handleData, if_pos go]
    exact .again rfl
  have eq := (ok net).resolve_right go
  have begun := live.begun small pos le go eq
  by_cases same : n % sequenceSize = (s.client.beginData (n % sequenceSize) sv.port).prevBlock
  · have first : ¬ s.client.first := by
      intro first
      rw [begun.prev, if_pos first] at same
      exact go ⟨first, by omega⟩
    rw [Client.handleData, if_neg go]
    simp only [if_pos same]
    exact .ignored begun (live.eq_last first eq (same.trans (begun.prev.trans (if_neg first)))) same.symm
  · rw [begun.handle live.put pos (Nat.le_trans le live.sent) (by rw [live.load]; exact small) go same]
    exact .taken begun

/-- What stays and what is asked for when the client, having looked at block `n`, has it for its
last one, with the memory `mem` and the file size `size`. -/
lemma Live.heard {mem : Mem} {size : Nat} {sent : List Sent} (live : Live sv addr s)
    (begun : Begun sv n s.client c) (pos : 1 ≤ n)
    (before : ∀ k, Stored sv s.client.mem addr k → Stored sv mem addr k)
    (last : Stored sv mem addr n)
    (acks : ∀ a ∈ acksOf n sent, a = (n % sequenceSize, n)) (bound : size ≤ sv.file.length) :
    Live sv addr (s.update n
      ({ c with prevBlock := n % sequenceSize, mem := mem, netBootFileSize := size }, sent)) := by
  constructor
  · exact begun.put.trans live.put
  · exact begun.load.trans live.load
  · exact .inr (.inr begun.phase)
  · exact fun _ => begun.port
  · exact fun _ => begun.size
  · intro rrq
    exact absurd (begun.phase.symm.trans rrq) (by simp)
  · exact live.sent
  · exact fun k h1 h2 => before k (live.before k h1 h2)
  · intro a ha
    rcases List.mem_append.1 ha with ha | ha
    · rw [acks a ha]
      exact ⟨rfl, fun _ => last⟩
    · exact ⟨(live.acks a ha).1, fun h => before _ ((live.acks a ha).2 h)⟩
  · exact begun.cur
  · exact fun _ => last
  · exact fun _ => ⟨pos, rfl, begun.wrap, begun.offset⟩
  · exact bound

/-- The block that came last comes again, and is ignored. -/
lemma Live.ignored (live : Live sv addr s) (begun : Begun sv n s.client c) (pos : 1 ≤ n)
    (n_last : n = s.last) (prev : c.prevBlock = n % sequenceSize) :
    Live sv addr (s.update n (c, [])) := by
  have last : Stored sv c.mem addr n := by
    rw [begun.mem, n_last]
    exact live.last (n_last ▸ pos)
  have acks : ∀ a ∈ acksOf n [], a = (n % sequenceSize, n) := by
    intro a none
    cases none
  have heard := live.heard begun pos (begun.mem ▸ fun _ stored => stored) last acks
    (begun.fileSize ▸ live.bound)
  rw [← prev] at heard
  exact heard

/-- A block is taken, and it is not the last one. -/
lemma Live.taken (live : Live sv addr s) (begun : Begun sv n s.client c) (pos : 1 ≤ n)
    (le : n ≤ s.sent) :
    Live sv addr (s.update n (Get.taken sv c n, [.ack (n % sequenceSize)])) := by
  have mem : c.mem.write (c.loadAddr + (n - 1) * sv.bs) (sv.block n) =
      s.client.mem.write (addr + (n - 1) * sv.bs) (sv.block n) := by
    rw [begun.mem, begun.load, live.load]
  rw [Get.taken, mem]
  apply live.heard begun pos
  · exact fun k stored => stored.keep
  · exact .write
  · exact fun a one => List.mem_singleton.1 one
  · have beg := Server.begin_le (Nat.le_trans le live.sent)
    have := live.bound
    rw [begun.fileSize, Server.length_block]
    omega

/-- The last block is taken. -/
lemma Live.finished (live : Live sv addr s) (begun : Begun sv n s.client c) (pos : 1 ≤ n)
    (le : n ≤ s.sent) (short : (sv.block n).length < sv.bs) :
    Loaded sv (s.update n ((Get.taken sv c n).complete, [.ack (n % sequenceSize)])) := by
  have live' := live.taken begun pos le
  obtain ⟨last, len⟩ := Server.eq_count_of_short pos (Nat.le_trans le live.sent) short
  intro _
  constructor
  · show Mem.read _ _ _ = _
    have load : (Get.taken sv c n).loadAddr = addr := live'.load
    refine (congrArg (fun a => Mem.read _ a _) load).trans (read_of_stored (by omega) fun k h1 h2 => ?_)
    rcases Nat.lt_or_ge k n with lt | ge
    · exact live'.before k h1 (Nat.lt_of_lt_of_le lt le)
    · rw [show k = n from by omega]
      exact live'.last pos
  · show max _ _ = _
    have := begun.fileSize ▸ live.bound
    omega

/-- A block that is handled. -/
lemma Live.handled {r : Client × List Sent} (live : Live sv addr s) (net : s.client.net = .run)
    (pos : 1 ≤ n) (le : n ≤ s.sent) (out : Outcome sv s n r) : Inv sv addr (s.update n r) := by
  cases out with
  | again again =>
    exact ⟨fun run => absurd (again.symm.trans run) (by simp),
      fun success => absurd (again.symm.trans success) (by simp)⟩
  | ignored begun n_last prev =>
    refine ⟨fun _ => live.ignored begun pos n_last prev, fun success => ?_⟩
    exact absurd ((begun.net.trans net).symm.trans success) (by simp)
  | taken begun =>
    by_cases short : (sv.block n).length < sv.bs
    · rw [if_pos short]
      exact ⟨fun run => absurd run (by simp [Sys.update, Client.complete]),
        live.finished begun pos le short⟩
    · rw [if_neg short]
      refine ⟨fun _ => live.taken begun pos le, fun success => ?_⟩
      exact absurd ((begun.net.trans net).symm.trans success) (by simp)

/-- A block that arrives comes to the part of the handler for blocks. -/
lemma Live.step_data_eq (live : Live sv addr s) (net : s.client.net = .run) : step sv s (.data n) =
    s.update n (s.client.handleData (n % sequenceSize) (sv.block n) sv.port) := by
  rw [step, if_pos net,
    handler_data live.hears (show n % sequenceSize < 65536 from Nat.mod_lt _ (by decide))]

/-- A block arrives. -/
lemma Live.step_data (live : Live sv addr s) (small : addr + sv.file.length < 2 ^ 32)
    (net : s.client.net = .run) (pos : 1 ≤ n) (le : n ≤ s.sent) (ok : Ok sv s (.data n)) :
    Inv sv addr (step sv s (.data n)) := by
  rw [live.step_data_eq net]
  exact live.handled net pos le (live.outcome small net pos le ok)

/-- The number of an acknowledgement has 16 bits already. -/
lemma Live.u16_cur (live : Live sv addr s) : u16 s.client.curBlock = s.last % sequenceSize := by
  rw [live.cur]
  exact Nat.mod_mod ..

/-- The options are acknowledged: the block size is set, and the last block acknowledged. -/
lemma Live.step_oack_eq (live : Live sv addr s) (net : s.client.net = .run) (some : sv.oack.isSome) :
    step sv s .oack = s.update s.last
      ({ s.client with phase := .oack, remotePort := sv.port, blockSize := sv.bs },
        [.ack (s.last % sequenceSize)]) := by
  obtain ⟨text, eq⟩ := Option.isSome_iff_exists.1 some
  have size : (Client.oackBlockSize (oackPkt text) text.length).getD s.client.blockSize = sv.bs := by
    rw [Server.bs, eq]
    apply oackBlockSize_getD
    by_cases rrq : s.client.phase = .sendRrq
    · exact .inl (live.idle rrq).1
    · exact .inr (by rw [live.size rrq, Server.bs, eq])
  rw [step, if_pos net, eq, Option.getD_some, handler_oack live.hears]
  simp only [Client.handleOack, size, live.put, Client.send]
  rw [← live.u16_cur]
  rfl

/-- The options are acknowledged, again perhaps: the client is back before the first block. -/
lemma Live.step_oack (live : Live sv addr s) (net : s.client.net = .run) (some : sv.oack.isSome) :
    Inv sv addr (step sv s .oack) := by
  rw [live.step_oack_eq net some]
  refine ⟨fun _ => ?_, fun success => absurd (net.symm.trans success) (by simp)⟩
  constructor
  · exact live.put
  · exact live.load
  · exact .inr (.inl rfl)
  · exact fun _ => rfl
  · exact fun _ => rfl
  · exact fun rrq => absurd rrq (by simp [Sys.update])
  · exact live.sent
  · exact live.before
  · intro a mem
    rcases List.mem_cons.1 mem with rfl | mem
    · exact ⟨rfl, live.last⟩
    · exact live.acks a mem
  · exact live.cur
  · exact live.last
  · exact fun data => absurd data (by simp [Sys.update])
  · exact live.bound

/-- The timer of the client expires: it gives up, or sends again what it sent last. -/
lemma Live.timeout_cases (live : Live sv addr s) :
    (s.client.timeout.1.net = .again ∧ s.client.timeout.2 = []) ∨
    (s.client.timeout.1 = { s.client with timeoutCount := s.client.timeoutCount + 1 } ∧
      ∀ a ∈ acksOf s.last s.client.timeout.2,
        s.client.phase ≠ .sendRrq ∧ a = (s.last % sequenceSize, s.last)) := by
  by_cases much : s.client.timeoutCount + 1 > s.client.timeoutCountMax
  · left
    simp [Client.timeout, much, Client.startAgain]
  · right
    rw [← live.u16_cur]
    simp only [Client.timeout, if_neg much]
    rcases live.phase with ph | ph | ph
    · simp [Client.send, ph, acksOf]
    · simp [Client.send, ph, live.put, acksOf]
    · simp [Client.send, ph, live.put, acksOf]

/-- The timer of the client expires. -/
lemma Live.step_timeout (live : Live sv addr s) (net : s.client.net = .run) :
    Inv sv addr (step sv s .timeout) := by
  rw [step, if_pos net]
  rcases live.timeout_cases with ⟨again, _⟩ | ⟨same, tagged⟩
  · exact ⟨fun run => absurd (again.symm.trans run) (by simp),
      fun success => absurd (again.symm.trans success) (by simp)⟩
  · generalize s.client.timeout = r at same tagged ⊢
    obtain ⟨c', sent⟩ := r
    obtain rfl : c' = { s.client with timeoutCount := s.client.timeoutCount + 1 } := same
    refine ⟨fun _ => ?_, fun success => absurd (net.symm.trans success) (by simp)⟩
    constructor
    · exact live.put
    · exact live.load
    · exact live.phase
    · exact live.port
    · exact live.size
    · intro rrq
      obtain ⟨h1, h2, h3, h4⟩ := live.idle rrq
      refine ⟨h1, h2, ?_, h4⟩
      show acksOf s.last sent ++ s.acks = []
      rw [h3, List.append_nil, List.eq_nil_iff_forall_not_mem]
      exact fun a mem => (tagged a mem).1 rrq
    · exact live.sent
    · exact live.before
    · intro a mem
      rcases List.mem_append.1 mem with mem | mem
      · rw [(tagged a mem).2]
        exact ⟨rfl, live.last⟩
      · exact live.acks a mem
    · exact live.cur
    · exact live.last
    · exact live.data
    · exact live.bound

/-- The server goes on when its block is acknowledged. -/
lemma Live.step_ack {num pos : Nat} (live : Live sv addr s) (mem : (num, pos) ∈ s.acks)
    (ok : Ok sv s (.ack num pos)) : Live sv addr (step sv s (.ack num pos)) := by
  rw [step]
  split
  · rename_i go
    obtain rfl : pos = s.sent := ok go
    constructor
    · exact live.put
    · exact live.load
    · exact live.phase
    · exact live.port
    · exact live.size
    · intro rrq
      rw [(live.idle rrq).2.2.1] at mem
      exact absurd mem (by simp)
    · exact go.2
    · intro k h1 h2
      rcases Nat.lt_or_ge k s.sent with lt | ge
      · exact live.before k h1 lt
      · obtain rfl : k = s.sent := Nat.le_antisymm (Nat.le_of_lt_succ h2) ge
        exact (live.acks _ mem).2 h1
    · exact live.acks
    · exact live.cur
    · exact live.last
    · exact live.data
    · exact live.bound
  · exact live

/-- One step keeps the invariant. -/
lemma Inv.step (inv : Inv sv addr s) (small : addr + sv.file.length < 2 ^ 32)
    (en : Enabled sv s a) (ok : Ok sv s a) : Inv sv addr (step sv s a) := by
  cases a with
  | ack num pos =>
    have same : (Get.step sv s (.ack num pos)).client = s.client := by
      rw [Get.step]
      split <;> rfl
    refine ⟨fun run => (inv.1 (same ▸ run)).step_ack en ok, ?_⟩
    rw [Loaded, same]
    exact inv.2
  | data n =>
    by_cases net : s.client.net = .run
    · exact (inv.1 net).step_data small net en.1 en.2 ok
    · rw [Get.step, if_neg net]
      exact inv
  | oack =>
    by_cases net : s.client.net = .run
    · exact (inv.1 net).step_oack net en
    · rw [Get.step, if_neg net]
      exact inv
  | timeout =>
    by_cases net : s.client.net = .run
    · exact (inv.1 net).step_timeout net
    · rw [Get.step, if_neg net]
      exact inv

lemma Inv.start {ourPort remotePort timeoutCountMax : Nat} :
    Inv sv c.loadAddr (start sv c ourPort remotePort timeoutCountMax) := by
  refine ⟨fun _ => ?_, fun success => absurd success (by simp [Get.start, Client.start, Client.send])⟩
  constructor
  · rfl
  · rfl
  · exact .inl rfl
  · exact fun ne => absurd rfl ne
  · exact fun ne => absurd rfl ne
  · exact fun _ => ⟨rfl, rfl, rfl, rfl⟩
  · show sv.first ≤ sv.count
    rw [Server.first, Server.count]
    split <;> simp
  · intro k h1 h2
    have : sv.first ≤ 1 := by
      rw [Server.first]
      split <;> omega
    exact absurd h2 (by show ¬ k < sv.first; omega)
  · exact fun a mem => absurd mem (by simp [Get.start])
  · rfl
  · exact fun h => absurd h (by simp [Get.start])
  · exact fun data => absurd data (by simp [Get.start, Client.start, Client.send])
  · exact Nat.zero_le _

/-- A download stores the file it was sent: in every run from the request on in which no packet is
taken for another one with the same number, a client that completes has the file in its memory and
knows its length. -/
theorem run_loads_file {ourPort remotePort timeoutCountMax : Nat} {as : List Action}
    (small : c.loadAddr + sv.file.length < 2 ^ 32)
    (run : Along (fun s a => Enabled sv s a ∧ Ok sv s a) (step sv)
      (start sv c ourPort remotePort timeoutCountMax) as) :
    Loaded sv (as.foldl (step sv) (start sv c ourPort remotePort timeoutCountMax)) :=
  (run.invariant Inv.start fun _ _ inv ok => inv.step small ok.1 ok.2).2

/-- Ten bytes in blocks of eight: the text is the option `blksize` with the value 8. -/
def tenBytes : Server := ⟨[1, 2, 3, 4, 5, 6, 7, 8, 9, 10], some (Client.blksize ++ [56, 0]), 4000⟩

/-- A download with a block that comes twice and a timeout. -/
def twice : List Action :=
  [.oack, .ack 0 0, .data 1, .data 1, .timeout, .ack 1 1, .ack 1 1, .data 1, .data 2]

theorem run_loads_file_twice :
    (twice.foldl (step tenBytes) (start tenBytes (Client.idle 4096 0 0) 1024 69 10)).client.net = .success ∧
    Loaded tenBytes (twice.foldl (step tenBytes) (start tenBytes (Client.idle 4096 0 0) 1024 69 10)) :=
  ⟨by decide, run_loads_file (by decide) (by decide)⟩

/-! ## Files of at most 65536 blocks -/

/-- Nothing is ahead of the server, and the transfer goes on only while the last block has not been
taken. -/
structure Low (sv : Server) (s : Sys) : Prop where
  last : s.last ≤ s.sent
  acks : ∀ a ∈ s.acks, a.1 = a.2 % sequenceSize ∧ a.2 ≤ s.sent
  going : s.client.net = .run → s.last < sv.count

/-- With no more blocks than numbers, no packet can be taken for another one. -/
lemma Low.ok (low : Low sv s) (inv : Inv sv addr s) (few : sv.count ≤ sequenceSize)
    (en : Enabled sv s a) : Ok sv s a := by
  rw [show sequenceSize = 65536 from rfl] at few
  cases a with
  | data n =>
    obtain ⟨pos, le⟩ := en
    intro net
    have live := inv.1 net
    have sent := live.sent
    rw [show sequenceSize = 65536 from rfl]
    by_cases first : s.client.first
    · rw [round, if_pos first]
      by_cases one : n % 65536 = 1
      · exact .inl (by omega)
      · exact .inr ⟨first, one⟩
    · left
      obtain ⟨began, prev, wrap, _⟩ := live.data (live.phase_data first)
      have going := low.going net
      rw [round, if_neg first, prev, wrap, show sequenceSize = 65536 from rfl]
      split <;> omega
  | ack num pos =>
    intro go
    obtain ⟨num_eq, le⟩ := low.acks _ en
    rw [show sequenceSize = 65536 from rfl] at go num_eq
    simp only at num_eq le
    omega
  | oack => trivial
  | timeout => trivial

/-- The client changes by something else than a block. -/
lemma Low.update {r : Client × List Sent} (low : Low sv s)
    (tagged : ∀ a ∈ acksOf s.last r.2, a = (s.last % sequenceSize, s.last))
    (net : r.1.net = .run → s.client.net = .run) : Low sv (s.update s.last r) := by
  refine ⟨low.last, ?_, fun run => low.going (net run)⟩
  intro a mem
  rcases List.mem_append.1 mem with mem | mem
  · rw [tagged a mem]
    exact ⟨rfl, low.last⟩
  · exact low.acks a mem

/-- A block that is handled: if the transfer goes on, then it was not the last one. -/
lemma Low.handled {r : Client × List Sent} (low : Low sv s) (pos : 0 < sv.bs)
    (net : s.client.net = .run) (le : n ≤ s.sent) (lec : n ≤ sv.count) (out : Outcome sv s n r) :
    Low sv (s.update n r) := by
  cases out with
  | again again =>
    exact ⟨le, low.acks, fun run => absurd (again.symm.trans run) (by simp)⟩
  | ignored begun n_last prev => exact ⟨le, low.acks, fun _ => n_last ▸ low.going net⟩
  | taken begun =>
    refine ⟨le, ?_, fun run => ?_⟩
    · intro a mem
      rcases List.mem_cons.1 mem with rfl | mem
      · exact ⟨rfl, le⟩
      · exact low.acks a mem
    · rcases Nat.lt_or_ge n sv.count with lt | ge
      · exact lt
      · -- the last block is short
        have short : (sv.block n).length < sv.bs := by
          have lt := Nat.lt_div_mul_add pos (a := sv.file.length)
          have last : n - 1 = sv.file.length / sv.bs := by
            rw [Nat.le_antisymm lec ge]
            exact Nat.add_sub_cancel ..
          rw [Server.length_block, last]
          omega
        exact absurd run (by simp [Sys.update, if_pos short, Client.complete])

/-- One step keeps what holds when there are few blocks. -/
lemma Low.step (low : Low sv s) (inv : Inv sv addr s) (small : addr + sv.file.length < 2 ^ 32)
    (pos : 0 < sv.bs) (few : sv.count ≤ sequenceSize) (en : Enabled sv s a) :
    Low sv (step sv s a) := by
  have ok := low.ok inv few en
  cases a with
  | ack num k =>
    rw [Get.step]
    split
    · exact ⟨Nat.le_succ_of_le low.last,
        fun a mem => ⟨(low.acks a mem).1, Nat.le_succ_of_le (low.acks a mem).2⟩, low.going⟩
    · exact low
  | data n =>
    by_cases net : s.client.net = .run
    · have live := inv.1 net
      rw [live.step_data_eq net]
      exact low.handled pos net en.2 (Nat.le_trans en.2 live.sent)
        (live.outcome small net en.1 en.2 ok)
    · rw [Get.step, if_neg net]
      exact low
  | oack =>
    by_cases net : s.client.net = .run
    · rw [(inv.1 net).step_oack_eq net en]
      exact low.update (by simp [acksOf]) fun _ => net
    · rw [Get.step, if_neg net]
      exact low
  | timeout =>
    by_cases net : s.client.net = .run
    · rw [Get.step, if_pos net]
      rcases (inv.1 net).timeout_cases with ⟨_, none⟩ | ⟨_, tagged⟩
      · exact low.update (by simp [none, acksOf]) fun _ => net
      · exact low.update (fun a mem => (tagged a mem).2) fun _ => net
    · rw [Get.step, if_neg net]
      exact low

lemma Low.start {ourPort remotePort timeoutCountMax : Nat} :
    Low sv (start sv c ourPort remotePort timeoutCountMax) :=
  ⟨Nat.zero_le _, fun a mem => absurd mem (by simp [Get.start]), fun _ => Nat.succ_pos _⟩

/-- A file of at most 65536 blocks is stored in every run, whatever the network does. -/
theorem run_loads_short_file {ourPort remotePort timeoutCountMax : Nat} {as : List Action}
    (small : c.loadAddr + sv.file.length < 2 ^ 32) (short : sv.file.length < sequenceSize * sv.bs)
    (run : Along (Enabled sv) (step sv) (start sv c ourPort remotePort timeoutCountMax) as) :
    Loaded sv (as.foldl (step sv) (start sv c ourPort remotePort timeoutCountMax)) := by
  have pos : 0 < sv.bs := by
    rcases Nat.eq_zero_or_pos sv.bs with zero | pos
    · rw [zero] at short
      omega
    · exact pos
  have few : sv.count ≤ sequenceSize := Nat.div_lt_of_lt_mul (by rwa [Nat.mul_comm])
  apply run_loads_file small
  have both : Inv sv c.loadAddr (start sv c ourPort remotePort timeoutCountMax) ∧
      Low sv (start sv c ourPort remotePort timeoutCountMax) := ⟨.start, .start⟩
  refine run.guarantee (P := fun s => Inv sv c.loadAddr s ∧ Low sv s) both fun s a hs en => ?_
  have ok := hs.2.ok hs.1 few en
  exact ⟨⟨en, ok⟩, hs.1.step small en ok, hs.2.step hs.1 small pos few en⟩

theorem run_loads_short_file_twice :
    Loaded tenBytes (twice.foldl (step tenBytes) (start tenBytes (Client.idle 4096 0 0) 1024 69 10)) :=
  run_loads_short_file (by decide) (by decide) (by decide)

/-! ## A late copy after the numbers have wrapped -/

/-- The blocks up to `k` in order, each acknowledged at once. -/
def inOrder : Nat → List Action
  | 0 => []
  | k + 1 => inOrder k ++ [Action.data (k + 1), .ack ((k + 1) % sequenceSize) (k + 1)]

/-- The client has taken the blocks up to `k` in order. -/
structure Reached (sv : Server) (addr k : Nat) (s : Sys) : Prop where
  live : Live sv addr s
  net : s.client.net = .run
  sent : s.sent = k + 1
  last : s.last = k
  first : s.client.first = decide (k = 0)

/-- The next block in order. -/
lemma Reached.next (r : Reached sv addr k s) (small : addr + sv.file.length < 2 ^ 32)
    (lt : k + 1 < sv.count) :
    Along (Enabled sv) (step sv) s [.data (k + 1), .ack ((k + 1) % sequenceSize) (k + 1)] ∧
    Reached sv addr (k + 1)
      ([Action.data (k + 1), .ack ((k + 1) % sequenceSize) (k + 1)].foldl (step sv) s) := by
  obtain ⟨live, net, sent, last, first⟩ := r
  have go : ¬ (s.client.first ∧ (k + 1) % sequenceSize ≠ 1) := by
    rintro ⟨h, ne⟩
    rw [first, decide_eq_true_eq] at h
    subst h
    exact ne rfl
  have prev : ¬ s.client.first → 1 ≤ k ∧ s.client.prevBlock = k % sequenceSize ∧
      s.client.blockWrap = k / sequenceSize := by
    intro h
    obtain ⟨began, prev, wrap, _⟩ := live.data (live.phase_data h)
    rw [last] at began prev wrap
    exact ⟨began, prev, wrap⟩
  have eq : (k + 1) / sequenceSize = round s.client ((k + 1) % sequenceSize) := by
    rw [round]
    split
    · rename_i h
      rw [first, decide_eq_true_eq] at h
      subst h
      rfl
    · rename_i h
      obtain ⟨began, prev, wrap⟩ := prev h
      rw [prev, wrap, show sequenceSize = 65536 from rfl]
      split <;> omega
  have begun := live.begun small (show 1 ≤ k + 1 from by omega) (by omega) go eq
  have new : (k + 1) % sequenceSize ≠
      (s.client.beginData ((k + 1) % sequenceSize) sv.port).prevBlock := by
    rw [begun.prev]
    split
    · rename_i h
      rw [first, decide_eq_true_eq] at h
      subst h
      decide
    · rename_i h
      rw [(prev h).2.1, show sequenceSize = 65536 from rfl]
      omega
  have full : ¬ (sv.block (k + 1)).length < sv.bs := by
    intro short
    have := (Server.eq_count_of_short (by omega) (Nat.le_of_lt lt) short).1
    omega
  have one : step sv s (.data (k + 1)) = s.update (k + 1)
      (taken sv (s.client.beginData ((k + 1) % sequenceSize) sv.port) (k + 1),
        [.ack ((k + 1) % sequenceSize)]) := by
    rw [live.step_data_eq net, begun.handle live.put (by omega) (Nat.le_of_lt lt)
      (by rw [live.load]; exact small) go new, if_neg full]
  have live' := live.taken begun (by omega) (by omega)
  have mem : ((k + 1) % sequenceSize, k + 1) ∈ (s.update (k + 1)
      (taken sv (s.client.beginData ((k + 1) % sequenceSize) sv.port) (k + 1),
        [.ack ((k + 1) % sequenceSize)])).acks := List.mem_cons_self
  simp only [Along, List.foldl, one]
  have two : step sv (s.update (k + 1)
      (taken sv (s.client.beginData ((k + 1) % sequenceSize) sv.port) (k + 1),
        [.ack ((k + 1) % sequenceSize)])) (.ack ((k + 1) % sequenceSize) (k + 1)) =
      { s.update (k + 1) (taken sv (s.client.beginData ((k + 1) % sequenceSize) sv.port) (k + 1),
        [.ack ((k + 1) % sequenceSize)]) with sent := s.sent + 1 } := by
    rw [step]
    exact if_pos ⟨by rw [← sent]; rfl, by show s.sent < _; omega⟩
  refine ⟨⟨⟨by omega, by omega⟩, mem, trivial⟩, live'.step_ack mem fun _ => sent.symm, ?_, ?_, ?_, ?_⟩
  · rw [two]
    exact begun.net.trans net
  · rw [two, sent]
  · rw [two]
    rfl
  · rw [two]
    show Client.first (taken _ _ _) = _
    simp [Client.first, taken, begun.phase]

/-- The blocks in order arrive. -/
lemma reached_inOrder {ourPort remotePort timeoutCountMax : Nat}
    (small : c.loadAddr + sv.file.length < 2 ^ 32) (none : sv.oack = none) (lt : k < sv.count) :
    Along (Enabled sv) (step sv) (start sv c ourPort remotePort timeoutCountMax) (inOrder k) ∧
    Reached sv c.loadAddr k
      ((inOrder k).foldl (step sv) (start sv c ourPort remotePort timeoutCountMax)) := by
  induction k with
  | zero =>
    refine ⟨trivial, Inv.start.1 rfl, rfl, ?_, rfl, rfl⟩
    show sv.first = 1
    rw [Server.first, none]
    rfl
  | succ k ih =>
    obtain ⟨run, r⟩ := ih (Nat.lt_of_succ_lt lt)
    obtain ⟨run', r'⟩ := r.next small lt
    rw [inOrder, List.foldl_append]
    exact ⟨Along.append.2 ⟨run, run'⟩, r'⟩

/-- A block that is not the one before goes where its number and the wraps say. -/
lemma handleData_data {src : Nat} {bytes : List UInt8} (ph : c.phase = .data)
    (put : c.putActive = false) (lt : b < 65536) (ne : b ≠ 0) (new : b ≠ c.prevBlock) :
    c.handleData b bytes src =
      (if bytes.length < c.blockSize then
          ({ c with curBlock := b, prevBlock := b }.storeBlock (u32 (b + (2 ^ 32 - 1))) bytes).complete
        else { c with curBlock := b, prevBlock := b }.storeBlock (u32 (b + (2 ^ 32 - 1))) bytes,
        [.ack b]) := by
  have begun : c.beginData b src = { c with curBlock := b } := by
    simp [Client.beginData, Client.updateBlockNumber, ne, ph]
  have first : c.first = false := by simp [Client.first, ph]
  have u : u16 b = b := Nat.mod_eq_of_lt lt
  rw [Client.handleData, begun, if_neg (by simp [first])]
  simp only [if_neg new]
  have send := @send_data
    ({ c with curBlock := b, prevBlock := b }.storeBlock (u32 (b + (2 ^ 32 - 1))) bytes) ph put
  rw [send]
  have cur : ({ c with curBlock := b, prevBlock := b }.storeBlock
    (u32 (b + (2 ^ 32 - 1))) bytes).curBlock = b := rfl
  have size : ({ c with curBlock := b, prevBlock := b }.storeBlock
    (u32 (b + (2 ^ 32 - 1))) bytes).blockSize = c.blockSize := rfl
  rw [cur, u, size]
  split <;> rfl

/-- Storing a block never makes the file shorter, nor shorter than the end of the block. -/
lemma le_storeBlock {bytes : List UInt8} : c.netBootFileSize ≤ (c.storeBlock b bytes).netBootFileSize ∧
    u32 (u32 (b * c.blockSize + c.blockWrapOffset) + bytes.length) ≤
      (c.storeBlock b bytes).netBootFileSize := by
  simp only [Client.storeBlock]
  split <;> omega

/-- The blocks up to 65536 in order, a copy of the one before, and the next one. -/
def lateCopy : List Action := inOrder 65536 ++ [Action.data 65535, .data 65537]

/-- When the number 65535 comes once more after the number 0, the client takes it for a block of the
next round. With one block more the transfer then completes, and the file seems to be longer. -/
lemma Reached.late_copy (r : Reached sv addr 65536 s) (bs : sv.bs = 512)
    (len : sv.file.length = 65536 * 512) :
    Along (Enabled sv) (step sv) s [.data 65535, .data 65537] ∧
    ([Action.data 65535, .data 65537].foldl (step sv) s).client.net = .success ∧
    sv.file.length < ([Action.data 65535, .data 65537].foldl (step sv) s).client.netBootFileSize := by
  obtain ⟨live, net, sent, last, first⟩ := r
  have ph : s.client.phase = .data := live.phase_data (by simp [first])
  obtain ⟨_, prev, wrap, offset⟩ := live.data ph
  rw [last] at prev wrap offset
  have size : s.client.blockSize = 512 := (live.size (by simp [ph])).trans bs
  have length1 : (sv.block 65535).length = 512 := by
    rw [Server.length_block, bs, len]
    decide
  have length2 : (sv.block 65537).length = 0 := by
    rw [Server.length_block, bs, len]
    decide
  obtain ⟨c1, hc1⟩ : ∃ c1, c1 = { s.client with curBlock := 65535, prevBlock := 65535 }.storeBlock
    (u32 (65535 + (2 ^ 32 - 1))) (sv.block 65535) := ⟨_, rfl⟩
  have one : step sv s (.data 65535) = s.update 65535 (c1, [.ack 65535]) := by
    have full : ¬ (sv.block 65535).length < s.client.blockSize := by omega
    rw [live.step_data_eq net, show 65535 % sequenceSize = 65535 from rfl,
      handleData_data ph live.put (by omega) (by omega) (by rw [prev]; decide), if_neg full, hc1]
  have grown : 131071 * 512 ≤ c1.netBootFileSize := by
    have more := (@le_storeBlock { s.client with curBlock := 65535, prevBlock := 65535 }
      (u32 (65535 + (2 ^ 32 - 1))) (sv.block 65535)).2
    rw [← hc1, length1] at more
    have place : u32 (u32 (u32 (65535 + (2 ^ 32 - 1)) * s.client.blockSize +
        s.client.blockWrapOffset) + 512) = 131071 * 512 := by
      rw [size, offset, bs]
      decide
    exact place ▸ more
  have hears : Hears c1 sv.port := by
    refine .inr (.inr ?_)
    rw [hc1]
    exact live.port (by simp [ph])
  have facts : c1.phase = .data ∧ c1.putActive = false ∧ c1.prevBlock = 65535 ∧ c1.blockSize = 512 ∧
      c1.net = .run := by
    rw [hc1]
    exact ⟨ph, live.put, rfl, size, net⟩
  obtain ⟨ph1, put1, prev1, size1, net1⟩ := facts
  have two : (step sv (s.update 65535 (c1, [.ack 65535])) (.data 65537)).client =
      ({ c1 with curBlock := 1, prevBlock := 1 }.storeBlock
        (u32 (1 + (2 ^ 32 - 1))) (sv.block 65537)).complete := by
    have short : (sv.block 65537).length < c1.blockSize := by omega
    have handled := @handler_data c1 (65537 % sequenceSize) sv.port (sv.block 65537) hears (by decide)
    rw [show 65537 % sequenceSize = 1 from rfl,
      handleData_data ph1 put1 (by omega) (by omega) (by omega), if_pos short] at handled
    have run : (s.update 65535 (c1, [.ack 65535])).client.net = .run := net1
    rw [step, if_pos run]
    exact congrArg Prod.fst handled
  simp only [Along, List.foldl, one, two]
  refine ⟨⟨⟨by omega, by omega⟩, ⟨by omega, ?_⟩, trivial⟩, rfl, ?_⟩
  · show 65537 ≤ s.sent
    omega
  · have more := (@le_storeBlock { c1 with curBlock := 1, prevBlock := 1 }
      (u32 (1 + (2 ^ 32 - 1))) (sv.block 65537)).1
    rw [len]
    exact Nat.lt_of_lt_of_le (show _ < c1.netBootFileSize from by omega) more

/-- A file of 65536 blocks of the default size, and of an empty one. -/
def longFile : Server := ⟨List.replicate (65536 * 512) 0, none, 4000⟩

/-- A copy of block 65535 that comes after block 65536 spoils the download: the client completes and
takes the file for almost twice as long as it is. -/
theorem late_copy_spoils_file :
    Along (Enabled longFile) (step longFile) (start longFile (Client.idle 4096 0 0) 1024 69 10) lateCopy ∧
    ¬ Loaded longFile (lateCopy.foldl (step longFile) (start longFile (Client.idle 4096 0 0) 1024 69 10)) := by
  have len : longFile.file.length = 65536 * 512 := List.length_replicate ..
  have bs : longFile.bs = 512 := rfl
  have count : longFile.count = 65537 := by
    rw [Server.count, len, bs]
  have reached := @reached_inOrder longFile (Client.idle 4096 0 0) 65536 1024 69 10
    (by rw [len]; decide) rfl (by rw [count]; omega)
  rw [lateCopy, Along.append, List.foldl_append]
  -- the list of 131072 actions is not looked into
  generalize inOrder 65536 = xs at reached ⊢
  obtain ⟨run, r⟩ := reached
  obtain ⟨run', success, longer⟩ := r.late_copy bs len
  refine ⟨⟨run, run'⟩, fun loaded => ?_⟩
  have := (loaded success).2
  omega

end Get

end Imx.Tftp
