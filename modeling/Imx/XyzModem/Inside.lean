import Imx.XyzModem.Block

/-!
# The receiver with its accesses checked

The header, the opening and the reading once more, as they take bytes out of the packet buffer and
put them into the buffer of the caller: `none` is an access outside of a buffer. The lengths are
unsigned and the length of a block an `int`, both of 32 bits. `get_hdr` writes a block from the
start of the packet buffer on and sums it up there.
-/

namespace Imx.XyzModem

/-! ## The packet buffer -/

/-- The byte at an offset from `bufp`. -/
def byteAt (s : Xyz) (i : Int) : Option UInt8 :=
  if 0 ≤ s.bufp + i then s.pkt[(s.bufp + i).toNat]? else none

/-- Copy bytes out of the buffer from `bufp` on (C `memcpy`). -/
def copyIn (s : Xyz) (len : Int) : Option (List UInt8) :=
  if len < 0 ∨ 0 < len ∧ s.pkt.length < s.bufp + len then none
  else some ((s.pkt.drop s.bufp).take len.toNat)

/-- A header, and the block behind it if it finds room. -/
def getHdrIn (s : Xyz) : Option (Stat × Xyz) :=
  match findHeader 0 0 s.line with
  | .header c _ => if blockLen c ≤ s.pkt.length then some (getHdr s) else none
  | .stopped _ _ => some (getHdr s)

/-! ## The header block -/

/-- Skip the file name and the NUL behind it. -/
def skipName : List UInt8 → Option (List UInt8)
  | [] => none
  | c :: s => if c = 0 then some s else skipName s

/-- Skip blanks. -/
def skipBlanks : List UInt8 → Option (List UInt8)
  | [] => none
  | c :: s => if c = 0x20 then skipBlanks s else some (c :: s)

/-- A digit of a radix. -/
def Digit (radix : Nat) (c : UInt8) : Prop := isHex c = true ∧ fromHex c < radix

instance (radix : Nat) (c : UInt8) : Decidable (Digit radix c) := instDecidableAnd

/-- The digits of a number up to a blank or a NUL; the inner `none` is a malformed number. -/
def parseDigitsIn (radix result : Nat) : List UInt8 → Option (Option Nat)
  | [] => none
  | c :: s =>
    if c = 0 then some (some result)
    else if Digit radix c then
      parseDigitsIn radix ((result * radix + fromHex c) % 2 ^ 32) s
    else if c = 0x20 then some (some result)
    else some none

/-- A number (C `parse_num`). Behind `0x` the first digit is taken unseen. -/
def parseNumIn (s : List UInt8) : Option (Option Nat) := do
  match ← skipBlanks s with
  | 0x30 :: x :: rest =>
    if x = 0x78 ∨ x = 0x58 then
      match rest with
      | [] => none
      | c :: _ => if c = 0 then some none else parseDigitsIn 16 0 rest
    else parseDigitsIn 10 0 (0x30 :: x :: rest)
  | s => parseDigitsIn 10 0 s

/-! ## Opening the stream -/

/-- Wait for the header block. -/
def openLoopIn : Nat → Int → Stat → Xyz → Option (Option Stat × Xyz)
  | 0, _, stat, s => some (some stat, s)
  | retries + 1, crcRetries, _, s => do
    let r ← getHdrIn s
    let s := r.2
    if r.1 = .ok then
      if s.blk = 0 then do
        let rest ← skipName s.pkt
        let length ← parseNumIn rest
        some (none, { s with
          bufp := s.pkt.length - rest.length, fileLength := length.getD s.fileLength
          txAck := true, nextBlk := 1, len := 0 })
      else some (none, { s with nextBlk := 1, len := 0 })
    else if r.1 = .timeout then
      openLoopIn retries (crcRetries - 1) r.1
        (ask (if crcRetries - 1 ≤ 0 then { s with crcMode := false } else s))
    else if r.1 = .cancel then some (some .cancel, s)
    else openLoopIn retries crcRetries r.1 s

/-- What is set before the header block is waited for. -/
def start (s : Xyz) (mode : Mode) : Xyz :=
  ask { s with
    len := 0, crcMode := true, atEof := false, txAck := false, mode := mode, readLength := 0,
    fileLength := 0 }

/-- C `xyzModem_stream_open`. -/
def streamOpenIn (s : Xyz) (mode : Mode) : Option (Option Stat × Xyz) :=
  if mode = .xmodem then some (none, { start s mode with nextBlk := 1 })
  else openLoopIn maxRetries maxRetriesWithCrc .ok (start s mode)

/-! ## Reading the stream -/

/-- Are these bytes pad characters? The first that is none ends the comparison. -/
def allPad (s : Xyz) : List Int → Option Bool
  | [] => some true
  | i :: is => do if (← byteAt s i) = padChar then allPad s is else some false

/-- The length without the pad characters at the end. -/
def stripLoop (s : Xyz) : Nat → Option Nat
  | 0 => some 0
  | len + 1 => do if (← byteAt s len) = padChar then stripLoop s len else some (len + 1)

/-- The length of the block without pad characters, if there are three or more. -/
def stripPadIn (s : Xyz) : Option Int := do
  if ← allPad s [s.len - 1, s.len - 2, s.len - 3] then (stripLoop s s.len.toNat).map Int.ofNat
  else some s.len

/-- The block that was expected: it is cut where the file ends. -/
def acceptIn (s : Xyz) : Option Xyz :=
  let s := { s with txAck := true, nextBlk := s.nextBlk + 1 }
  if s.mode = .xmodem ∨ s.fileLength = 0 then do
    let len ← stripPadIn s
    some { s with len := len }
  else
    let s := { s with readLength := (s.readLength + s.len.toNat) % 2 ^ 32 }
    if s.fileLength < s.readLength then
      some { s with len := (s.len - (s.readLength - s.fileLength : Nat)).bmod (2 ^ 32) }
    else some s

/-- The end of the file: with YMODEM a last header follows. -/
def endOfFileIn (s : Xyz) : Option (Stat × Xyz) :=
  let s := putc s ack
  if s.mode = .ymodem then do
    let r ← getHdrIn (ask s)
    some (r.1, { putc r.2 ack with atEof := true })
  else some (.eof, { s with atEof := true })

/-- Wait for the next block. -/
def waitLoopIn : Nat → Stat → Xyz → Option (Stat × Xyz)
  | 0, stat, s => some (stat, s)
  | retries + 1, _, s => do
    let r ← getHdrIn s
    let s := r.2
    if r.1 = .ok then
      if s.blk = s.nextBlk then do
        let s ← acceptIn s
        some (.ok, s)
      else if s.blk = s.nextBlk - 1 then waitLoopIn retries .ok (putc s ack)
      else waitLoopIn retries .sequence (ask s)
    else if r.1 = .cancel then some (.cancel, s)
    else if r.1 = .eof then endOfFileIn s
    else waitLoopIn retries r.1 (ask s)

/-- One turn of the loop that reads: what is copied, or an error. -/
def turn (s : Xyz) (size : Nat) : Option (Xyz × Except Stat (List UInt8)) := do
  let (stat, s) ← if s.len = 0 then waitLoopIn maxRetries .cancel s else some (.ok, s)
  if stat ≠ .ok then some ({ s with len := -1 }, .error stat)
  else if s.atEof then some (s, .ok [])
  else do
    let len := min (size : Int) s.len
    let copied ← copyIn s len
    some ({ s with len := s.len - len, bufp := s.bufp + len.toNat }, .ok copied)

/-- Get `size` characters into the buffer behind those of `buf`. -/
def readLoopIn : Nat → Xyz → Nat → List UInt8 → Option Ret
  | 0, _, _, _ => none
  | fuel + 1, s, size, buf =>
    if s.atEof ∨ size = 0 then some ⟨s, buf, none⟩
    else do
      match ← turn s size with
      | (s, .error stat) => some ⟨s, buf, some stat⟩
      | (s, .ok copied) => readLoopIn fuel s (size - copied.length) (buf ++ copied)

/-- C `xyzModem_stream_read`; a negative size reads nothing, like 0. Each turn takes something from
the line or puts something into the buffer. -/
def streamReadIn (s : Xyz) (size : Nat) : Option Ret :=
  readLoopIn (s.line.length + size + 1) s size []

/-- Reads of some sizes, one after another. -/
def readsIn : Xyz → List Nat → Option (List Ret)
  | _, [] => some []
  | s, size :: sizes => do
    let ret ← streamReadIn s size
    let rets ← readsIn ret.state sizes
    some (ret :: rets)

end Imx.XyzModem
