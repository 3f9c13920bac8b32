import Imx.Base.Mem
import Imx.Base.Run

/-!
# Device firmware update

Model of the transfers of `drivers/dfu/dfu.c`. The buffer all entities share is a memory; the three
pointers into it are offsets from its start, which is where `i_buf_start` points. The functions of
the medium are parameters on a device state, reading leaves the state as it is. The buffer has been
allocated, as `dfu_fill_entity` does, and a transfer has fewer bytes than the 64-bit offset can
count. `bad_skip` is not used by this file and left out, as is what
is printed.

C → Lean naming: `i_blk_seq_num` → `iBlkSeqNum`; `i_buf` → `iBuf`; `i_buf_end` → `iBufEnd`; `r_left`
→ `rLeft`; `b_left` → `bLeft`.
-/

namespace Imx.Dfu
open Imx.Base

/-- The functions of a medium. A read gives its result and the bytes it put into the buffer, at most
as many as asked for; a write gives its result and the size it wrote. -/
structure Medium (σ : Type) where
  getMediumSize : σ → Int
  readMedium : σ → Nat → Nat → Int × List UInt8
  writeMedium : σ → Nat → List UInt8 → σ × Int × Nat
  flushMedium : Option (σ → σ × Int)
  read_le : ∀ dev offset len, (readMedium dev offset len).2.length ≤ len

/-- Flush the medium, if it has a function for it. -/
def Medium.flush {σ : Type} (m : Medium σ) (dev : σ) : σ × Int :=
  match m.flushMedium with
  | none => (dev, 0)
  | some flush => flush dev

/-- What is configured: the size of the buffer and the hash of the data (C `dfu_hash_algo`). -/
structure Config where
  bufSize : Nat
  hashUpdate : Option (UInt32 → List UInt8 → UInt32)
  pos : 0 < bufSize

/-- The state of an entity with the shared buffer and its device (C `struct dfu_entity`). -/
structure Entity (σ : Type) where
  crc : UInt32
  offset : Nat
  iBlkSeqNum : Nat
  iBuf : Nat
  iBufEnd : Nat
  rLeft : Nat
  bLeft : Nat
  inited : Bool
  mem : Mem
  dev : σ

variable {σ : Type} (m : Medium σ) (cfg : Config)

/-- The hash after some more data. -/
def Config.hash (crc : UInt32) (data : List UInt8) : UInt32 :=
  match cfg.hashUpdate with
  | none => crc
  | some update => update crc data

/-! ## Writing -/

/-- Write what is in the buffer (C `dfu_write_buffer_drain`). -/
def dfuWriteBufferDrain (s : Entity σ) : Entity σ × Int :=
  if s.iBuf = 0 then (s, 0)
  else
    let data := s.mem.read 0 s.iBuf
    let r := m.writeMedium s.dev s.offset data
    ({ s with
        crc := cfg.hash s.crc data
        iBuf := 0
        offset := s.offset + r.2.2
        dev := r.1 }, r.2.1)

/-- C `dfu_write_transaction_cleanup`. -/
def dfuWriteTransactionCleanup (s : Entity σ) : Entity σ :=
  { s with crc := 0, offset := 0, iBlkSeqNum := 0, iBufEnd := 0, iBuf := 0, inited := false }

/-- C `dfu_flush`. -/
def dfuFlush (s : Entity σ) : Entity σ × Int :=
  let r := dfuWriteBufferDrain m cfg s
  if r.2 ≠ 0 then r
  else
    let f := m.flush r.1.dev
    (dfuWriteTransactionCleanup { r.1 with dev := f.1 }, f.2)

/-- The initial state of `dfu_write`. -/
def initWrite (s : Entity σ) : Entity σ :=
  if s.inited then s
  else
    { s with
      crc := 0, offset := 0, iBlkSeqNum := 0, iBufEnd := cfg.bufSize, iBuf := 0, inited := true }

/-- Drain the buffer if a condition holds; an error ends the transaction. -/
def drainIf (cond : Bool) (s : Entity σ) : Entity σ × Int :=
  if cond then
    let r := dfuWriteBufferDrain m cfg s
    if r.2 ≠ 0 then (dfuWriteTransactionCleanup r.1, r.2) else (r.1, 0)
  else (s, 0)

/-- The part of `dfu_write` behind the check of the number: make room, take the block, and drain
when it is the end or another block of the size does not fit. -/
def takeBlock (s : Entity σ) (buf : List UInt8) : Entity σ × Int :=
  let r := drainIf m cfg (s.iBufEnd < s.iBuf + buf.length) s
  if r.2 ≠ 0 then r
  else if r.1.iBufEnd < r.1.iBuf + buf.length then (dfuWriteTransactionCleanup r.1, -1)
  else
    let s := { r.1 with mem := r.1.mem.write r.1.iBuf buf, iBuf := r.1.iBuf + buf.length }
    drainIf m cfg (buf.length = 0 ∨ s.iBufEnd < s.iBuf + buf.length) s

/-- C `dfu_write`. -/
def dfuWrite (s : Entity σ) (buf : List UInt8) (blkSeqNum : Nat) : Entity σ × Int :=
  let s := initWrite cfg s
  if s.iBlkSeqNum ≠ blkSeqNum then (dfuWriteTransactionCleanup s, -1)
  else takeBlock m cfg { s with iBlkSeqNum := (s.iBlkSeqNum + 1) % 65536 } buf

/-! ## Reading -/

/-- Hand out bytes of the buffer. -/
def consume (s : Entity σ) (chunk : Nat) : Entity σ :=
  { s with
    crc := if 0 < chunk then cfg.hash s.crc (s.mem.read s.iBuf chunk) else s.crc
    iBuf := s.iBuf + chunk
    bLeft := s.bLeft - chunk }

/-- Read the next part of the medium into the buffer. -/
def refill (s : Entity σ) : Entity σ × Int :=
  let r := m.readMedium s.dev s.offset (min s.iBufEnd s.rLeft)
  let s := { s with iBuf := 0, bLeft := r.2.length, mem := s.mem.write 0 r.2 }
  if r.1 ≠ 0 then (s, r.1)
  else ({ s with offset := s.offset + s.bLeft, rLeft := s.rLeft - s.bLeft }, 0)

/-- The passes of the loop of `dfu_read_buffer_fill`, with what has been handed out. The result of a
read that failed is returned as it is. -/
def dfuReadBufferFill : Nat → Entity σ → Nat → List UInt8 →
    Option (Entity σ × Int × List UInt8)
  | 0, _, _, _ => none
  | fuel + 1, s, size, out =>
    let chunk := min size s.bLeft
    let out := out ++ s.mem.read s.iBuf chunk
    let s := consume cfg s chunk
    if size - chunk = 0 ∨ s.rLeft = 0 then some (s, out.length, out)
    else
      let r := refill m s
      if r.2 ≠ 0 then some (r.1, r.2, out) else dfuReadBufferFill fuel r.1 (size - chunk) out

/-- The initial state of `dfu_read`. -/
def initRead (s : Entity σ) : Entity σ :=
  { s with
    rLeft := (m.getMediumSize s.dev).toNat
    iBlkSeqNum := 0
    crc := 0
    offset := 0
    iBufEnd := cfg.bufSize
    iBuf := 0
    bLeft := 0
    inited := true }

/-- The state behind the last block that was read. -/
def endRead (s : Entity σ) : Entity σ :=
  { s with
    iBlkSeqNum := 0, crc := 0, offset := 0, iBufEnd := 0, iBuf := 0, bLeft := 0, inited := false }

/-- The part of `dfu_read` behind the check of the number. Every pass of the loop but the first
hands out a byte unless the medium delivers none, when the loop does not end (`none`). -/
def giveBlock (s : Entity σ) (size : Nat) : Option (Entity σ × Int × List UInt8) :=
  match dfuReadBufferFill m cfg (size + 1) s size [] with
  | none => none
  | some (s, ret, out) =>
    if ret < 0 then some (s, -1, out)
    else if ret < size then some (endRead s, ret, out)
    else some (s, ret, out)

/-- C `dfu_read`: the result and what is in the buffer of the caller. -/
def dfuRead (s : Entity σ) (size blkSeqNum : Nat) : Option (Entity σ × Int × List UInt8) :=
  if s.inited = false ∧ m.getMediumSize s.dev < 0 then some (s, m.getMediumSize s.dev, [])
  else
    let s := if s.inited then s else initRead m cfg s
    if s.iBlkSeqNum ≠ blkSeqNum then some (s, -1, [])
    else giveBlock m cfg { s with iBlkSeqNum := (s.iBlkSeqNum + 1) % 65536 } size

/-! ## Calls -/

/-- A call of the three functions. -/
inductive Call where
  | write (buf : List UInt8) (blkSeqNum : Nat)
  | read (size blkSeqNum : Nat)
  | flush

/-- A call: the state behind it, the result and the bytes read; `none` if it does not return. -/
def call (s : Entity σ) : Call → Option (Entity σ × Int × List UInt8)
  | .write buf seq => some ((dfuWrite m cfg s buf seq).1, (dfuWrite m cfg s buf seq).2, [])
  | .read size seq => dfuRead m cfg s size seq
  | .flush => some ((dfuFlush m cfg s).1, (dfuFlush m cfg s).2, [])

/-- The state behind a call. -/
def after (s : Entity σ) (c : Call) : Entity σ := ((call m cfg s c).map (·.1)).getD s

/-- What calls in a row return, the bytes they read and the device behind each. -/
def outcomes : Entity σ → List Call → List (Option (Int × List UInt8 × σ))
  | _, [] => []
  | s, c :: cs =>
    match call m cfg s c with
    | none => [none]
    | some (s', ret, out) => some (ret, out, s'.dev) :: outcomes s' cs

/-- An entity as `calloc` leaves it, with the device it is for and what is in the buffer. -/
def Entity.new (dev : σ) (mem : Mem) : Entity σ where
  crc := 0
  offset := 0
  iBlkSeqNum := 0
  iBuf := 0
  iBufEnd := 0
  rLeft := 0
  bLeft := 0
  inited := false
  mem
  dev

end Imx.Dfu
