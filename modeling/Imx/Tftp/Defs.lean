import Imx.Base.Mem

/-!
# The TFTP client

Model of `net/tftp.c` with `CONFIG_CMD_TFTPPUT`, and without multicast, the server, `tsize` and
writing to flash. A `Client` holds the static variables of the file together with the memory they
are about and the state of the network loop. An `ulong` and an `unsigned` are numbers below
`2 ^ 32`, an `unsigned short` is one below `2 ^ 16`. A packet is the memory it lies in and its
length. What is printed and the timer itself are left out.

C → Lean naming (drop the `tftp_` prefix): `tftp_cur_block` → `curBlock`; `tftp_prev_block` →
`prevBlock`; `tftp_block_wrap_offset` → `blockWrapOffset`; `tftp_block_size` → `blockSize`;
`tftp_put_final_block_sent` → `putFinalBlockSent`; `net_boot_file_size` → `netBootFileSize`.
-/

namespace Imx.Tftp
open Imx.Base

/-- An unsigned number of 32 bits. -/
def u32 (n : Nat) : Nat := n % 2 ^ 32

lemma u32_of_lt {n : Nat} (lt : n < 2 ^ 32) : u32 n = n := Nat.mod_eq_of_lt lt

lemma u32_add_u32 {n k : Nat} : u32 (n + u32 k) = u32 (n + k) := Nat.add_mod_mod ..

lemma u32_add_mul {n k : Nat} : u32 (n + 2 ^ 32 * k) = u32 n := Nat.add_mul_mod_self_left ..

/-- An unsigned number of 16 bits. -/
def u16 (n : Nat) : Nat := n % 2 ^ 16

/-- The states of a transfer (C `STATE_*`). -/
inductive Phase where
  | sendRrq
  | data
  | tooLarge
  | badMagic
  | oack
  | recvWrq
  | sendWrq
deriving DecidableEq, Repr

/-- The state of the network loop. After anything but `run` the handlers are not called any more;
`again` is a transfer given up by `net_start_again`. -/
inductive NetState where
  | run
  | success
  | fail
  | again
deriving DecidableEq, Repr

/-- The variables of the client. -/
structure Client where
  phase : Phase
  curBlock : Nat
  prevBlock : Nat
  blockWrap : Nat
  blockWrapOffset : Nat
  blockSize : Nat
  remotePort : Nat
  ourPort : Nat
  putActive : Bool
  putFinalBlockSent : Bool
  timeoutCount : Nat
  timeoutCountMax : Nat
  netBootFileSize : Nat
  loadAddr : Nat
  saveAddr : Nat
  saveSize : Nat
  mem : Mem
  net : NetState

/-- What the client sends. -/
inductive Sent where
  | request (write : Bool)
  | ack (block : Nat)
  | data (block : Nat) (bytes : List UInt8)
  | error (code : Nat)
deriving DecidableEq, Repr

/-- The default block size (C `TFTP_BLOCK_SIZE`). -/
def defaultBlockSize : Nat := 512

/-- Block numbers have 16 bits (C `TFTP_SEQUENCE_SIZE`). -/
def sequenceSize : Nat := 65536

namespace Client

/-! ## Blocks -/

/-- Put the data of a block in its place (C `store_block`). -/
def storeBlock (c : Client) (block : Nat) (src : List UInt8) : Client :=
  let offset := u32 (block * c.blockSize + c.blockWrapOffset)
  let newsize := u32 (offset + src.length)
  { c with
    mem := c.mem.write (u32 (c.loadAddr + offset)) src
    netBootFileSize := if c.netBootFileSize < newsize then newsize else c.netBootFileSize }

/-- The data of a block to be sent (C `load_block`). -/
def loadBlock (c : Client) (block len : Nat) : List UInt8 :=
  let offset := u32 ((block + (2 ^ 32 - 1)) * len + c.blockWrapOffset)
  let tosend := min (u32 (c.netBootFileSize + (2 ^ 32 - offset))) len
  c.mem.read (u32 (c.saveAddr + offset)) tosend

/-- Clear the state for a new transfer (C `new_transfer`). -/
def newTransfer (c : Client) : Client :=
  { c with prevBlock := 0, blockWrap := 0, blockWrapOffset := 0, putFinalBlockSent := false }

/-- A block number 0 behind another one means that the numbers have wrapped
(C `update_block_number`). -/
def updateBlockNumber (c : Client) : Client :=
  if c.curBlock = 0 ∧ c.prevBlock ≠ 0 then
    { c with
      blockWrap := u32 (c.blockWrap + 1)
      blockWrapOffset := u32 (c.blockWrapOffset + c.blockSize * sequenceSize)
      timeoutCount := 0 }
  else
    c

/-- The transfer is complete (C `tftp_complete`). -/
def complete (c : Client) : Client := { c with net := .success }

/-- The transfer is given up (C `net_start_again`). -/
def startAgain (c : Client) : Client := { c with net := .again }

/-- Send what the phase asks for (C `tftp_send`). -/
def send (c : Client) : Client × List Sent :=
  match c.phase with
  | .sendRrq => (c, [.request false])
  | .sendWrq => (c, [.request true])
  | .oack | .recvWrq | .data =>
    if c.putActive then
      let loaded := c.loadBlock (u32 c.curBlock) c.blockSize
      ({ c with putFinalBlockSent := loaded.length < c.blockSize },
        [.data (u16 c.curBlock) loaded])
    else
      (c, [.ack (u16 c.curBlock)])
  | .tooLarge => (c, [.error 3])
  | .badMagic => (c, [.error 2])

/-! ## Packets -/

/-- The value of a digit of a number, in bases up to 16. -/
def digit (ch : UInt8) : Option Nat :=
  if 48 ≤ ch ∧ ch ≤ 57 then some (ch.toNat - 48)
  else if 97 ≤ ch ∧ ch ≤ 102 then some (ch.toNat - 87)
  else if 65 ≤ ch ∧ ch ≤ 70 then some (ch.toNat - 55)
  else none

/-- The digits of a number from an address on. -/
def digits (m : Mem) (base : Nat) : Nat → Nat → Nat → Nat
  | 0, _, result => result
  | fuel + 1, cp, result =>
    match digit (m cp) with
    | none => result
    | some value => if value < base then digits m base fuel (cp + 1) (u32 (result * base + value)) else result

/-- A number in a text, decimal unless it begins with `0x` (C `simple_strtoul` with base 10). -/
def simpleStrtoul (m : Mem) (cp : Nat) : Nat :=
  if m cp = 48 then
    if m (cp + 1) = 120 ∧ (digit (m (cp + 2))).isSome then
      digits m 16 65536 (cp + 2) 0
    else
      digits m 10 65536 (cp + 1) 0
  else
    digits m 10 65536 cp 0

/-- The text of the option for the block size, with the byte that ends it. -/
def blksize : List UInt8 := [98, 108, 107, 115, 105, 122, 101, 0]

/-- The block size an option acknowledgement names, the last one if there are several; `len` is
what is behind the opcode. -/
def oackBlockSize (pkt : Mem) (len : Nat) : Option Nat :=
  (List.range (len - 8)).foldl (fun found i =>
    if pkt.read (2 + i) 8 = blksize then some (u16 (simpleStrtoul pkt (2 + i + 8))) else found) none

/-- An option acknowledgement (C `case TFTP_OACK`). -/
def handleOack (c : Client) (pkt : Mem) (len src : Nat) : Client × List Sent :=
  let c := { c with
    phase := .oack
    remotePort := src
    blockSize := (oackBlockSize pkt len).getD c.blockSize }
  let c := if c.putActive then { c with phase := .data, curBlock := u32 (c.curBlock + 1) } else c
  c.send

/-- An acknowledgement (C `case TFTP_ACK`). -/
def handleAck (c : Client) (block : Nat) : Client × List Sent :=
  if c.putActive then
    if c.putFinalBlockSent then
      (c.complete, [])
    else
      let ackOk := c.curBlock = block
      let c := { c with curBlock := u16 (block + 1) }.updateBlockNumber
      if ackOk then c.send else (c, [])
  else
    (c, [])

/-- The first block of a transfer sets the state up (C `case TFTP_DATA`, up to the assertion on the
number of the first block). -/
def beginData (c : Client) (block src : Nat) : Client :=
  let c := { c with curBlock := block }.updateBlockNumber
  match c.phase with
  | .sendRrq | .oack | .recvWrq => { c with phase := .data, remotePort := src }.newTransfer
  | _ => c

/-- Is this the first block of a transfer. -/
def first (c : Client) : Bool :=
  match c.phase with
  | .sendRrq | .oack | .recvWrq => true
  | _ => false

/-- A block of data (C `case TFTP_DATA`). -/
def handleData (c : Client) (block : Nat) (bytes : List UInt8) (src : Nat) : Client × List Sent :=
  let c' := c.beginData block src
  if c.first ∧ block ≠ 1 then
    (c'.startAgain, [])
  else if block = c'.prevBlock then
    -- same block again; ignore it
    (c', [])
  else
    let (c', sent) := ({ c' with prevBlock := block }.storeBlock (u32 (block + (2 ^ 32 - 1))) bytes).send
    if bytes.length < c'.blockSize then (c'.complete, sent) else (c', sent)

/-- An error: a missing file or a denied access ends the transfer, anything else starts it again
(C `case TFTP_ERROR`). -/
def handleError (c : Client) (code : Nat) : Client :=
  if code = 1 ∨ code = 2 then { c with net := .fail } else c.startAgain

/-- A packet of `len` bytes arrives (C `tftp_handler`). -/
def handler (c : Client) (pkt : Mem) (len dest src : Nat) : Client × List Sent :=
  if dest ≠ c.ourPort then
    (c, [])
  else if c.phase ≠ .sendRrq ∧ src ≠ c.remotePort ∧ c.phase ≠ .recvWrq ∧ c.phase ≠ .sendWrq then
    (c, [])
  else if len < 2 then
    (c, [])
  else
    match pkt.be16 0 with
    | 3 => if len - 2 < 2 then (c, []) else c.handleData (pkt.be16 2) (pkt.read 4 (len - 4)) src
    | 4 => c.handleAck (pkt.be16 2)
    | 5 => (c.handleError (pkt.be16 2), [])
    | 6 => c.handleOack pkt (len - 2) src
    | _ => (c, [])

/-- The timer expires (C `tftp_timeout_handler`). -/
def timeout (c : Client) : Client × List Sent :=
  let c := { c with timeoutCount := c.timeoutCount + 1 }
  if c.timeoutCount > c.timeoutCountMax then
    (c.startAgain, [])
  else if c.phase ≠ .recvWrq then
    c.send
  else
    (c, [])

/-- A transfer begins, with the size set to 0 by the network loop (C `tftp_start`); the ports and
the limit on timeouts are chosen by the environment. -/
def start (c : Client) (put : Bool) (ourPort remotePort timeoutCountMax : Nat) : Client × List Sent :=
  let c := { c with
    putActive := put
    netBootFileSize := if put then c.saveSize else 0
    phase := if put then .sendWrq else .sendRrq
    net := .run }
  let c := if put then c.newTransfer else c
  { c with
    ourPort
    remotePort
    timeoutCountMax
    timeoutCount := 0
    curBlock := 0
    blockSize := defaultBlockSize }.send

/-- A client that was just switched on. -/
def idle (loadAddr saveAddr saveSize : Nat) : Client where
  phase := .sendRrq
  curBlock := 0
  prevBlock := 0
  blockWrap := 0
  blockWrapOffset := 0
  blockSize := 0
  remotePort := 0
  ourPort := 0
  putActive := false
  putFinalBlockSent := false
  timeoutCount := 0
  timeoutCountMax := 0
  netBootFileSize := 0
  loadAddr
  saveAddr
  saveSize
  mem := Mem.zero
  net := .run

end Client

/-! ## Packets as a server sends them -/

/-- The packet with a block of data. -/
def dataPkt (block : Nat) (bytes : List UInt8) : Mem :=
  Mem.zero.write 0 ([0, 3, UInt8.ofNat (block / 256), UInt8.ofNat block] ++ bytes)

/-- The packet with an acknowledgement. -/
def ackPkt (block : Nat) : Mem :=
  Mem.zero.write 0 [0, 4, UInt8.ofNat (block / 256), UInt8.ofNat block]

/-- The packet with an option acknowledgement. -/
def oackPkt (text : List UInt8) : Mem := Mem.zero.write 0 ([0, 6] ++ text)

/-- The block size of a transfer: the one in the options the server acknowledges, if it does, or
the default. -/
def negotiated (oack : Option (List UInt8)) : Nat :=
  match oack with
  | none => defaultBlockSize
  | some text => (Client.oackBlockSize (oackPkt text) text.length).getD defaultBlockSize

variable {c : Client} {b src : Nat} {bytes text : List UInt8}

/-- An option acknowledgement sets the block size of the transfer, also when it comes again. -/
lemma oackBlockSize_getD {size : Nat} (old : size = defaultBlockSize ∨ size = negotiated (some text)) :
    (Client.oackBlockSize (oackPkt text) text.length).getD size = negotiated (some text) := by
  simp only [negotiated] at old ⊢
  cases found : Client.oackBlockSize (oackPkt text) text.length with
  | some v => rfl
  | none =>
    rw [found] at old
    exact old.elim id id

lemma be16_dataPkt (lt : b < 65536) :
    (dataPkt b bytes).be16 0 = 3 ∧ (dataPkt b bytes).be16 2 = b := by
  constructor
  · simp [dataPkt, Mem.be16, Mem.write]
  · simp [dataPkt, Mem.be16, Mem.write]
    omega

lemma read_dataPkt : (dataPkt b bytes).read 4 bytes.length = bytes := by
  rw [dataPkt, Mem.write_append]
  exact Mem.read_write_self rfl

lemma be16_ackPkt (lt : b < 65536) : (ackPkt b).be16 0 = 4 ∧ (ackPkt b).be16 2 = b := by
  constructor
  · simp [ackPkt, Mem.be16, Mem.write]
  · simp [ackPkt, Mem.be16, Mem.write]
    omega

lemma be16_oackPkt : (oackPkt text).be16 0 = 6 := by
  simp [oackPkt, Mem.be16, Mem.write]

/-- The packets of the server the client talks to are not dropped. -/
def Hears (c : Client) (src : Nat) : Prop :=
  c.phase = .sendRrq ∨ c.phase = .sendWrq ∨ c.remotePort = src

lemma Hears.not_dropped (hears : Hears c src) :
    ¬ (c.phase ≠ .sendRrq ∧ src ≠ c.remotePort ∧ c.phase ≠ .recvWrq ∧ c.phase ≠ .sendWrq) := by
  rintro ⟨rrq, port, _, wrq⟩
  rcases hears with h | h | h
  · exact rrq h
  · exact wrq h
  · exact port h.symm

/-- A block of data comes to the part of the handler that is for it. -/
lemma handler_data (hears : Hears c src) (lt : b < 65536) :
    c.handler (dataPkt b bytes) (4 + bytes.length) c.ourPort src = c.handleData b bytes src := by
  obtain ⟨op, num⟩ := @be16_dataPkt b bytes lt
  rw [Client.handler, if_neg (by simp), if_neg hears.not_dropped, if_neg (by omega), op,
    if_neg (by omega), num, Nat.add_sub_cancel_left, read_dataPkt]
  rfl

/-- An acknowledgement comes to the part of the handler that is for it. -/
lemma handler_ack (hears : Hears c src) (lt : b < 65536) :
    c.handler (ackPkt b) 4 c.ourPort src = c.handleAck b := by
  obtain ⟨op, num⟩ := be16_ackPkt lt
  rw [Client.handler, if_neg (by simp), if_neg hears.not_dropped, if_neg (by omega), op, num]
  rfl

/-- An option acknowledgement comes to the part of the handler that is for it. -/
lemma handler_oack (hears : Hears c src) :
    c.handler (oackPkt text) (2 + text.length) c.ourPort src =
      c.handleOack (oackPkt text) text.length src := by
  rw [Client.handler, if_neg (by simp), if_neg hears.not_dropped, if_neg (by omega), be16_oackPkt,
    Nat.add_sub_cancel_left]
  rfl

end Imx.Tftp
