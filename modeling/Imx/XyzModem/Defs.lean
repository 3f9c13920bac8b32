import Imx.Base.Bytes

/-!
# The XMODEM and YMODEM receiver

Model of `common/xyzModem.c` and of `cyg_crc16` (`lib/crc16.c`). The line is the list of what each
wait for a character gives: a character, or `none` for two seconds of silence, which go on at the
end of the list. A length is a number that does not wrap. What `xyz` counts only to print it is left
out.

C → Lean naming (drop the `xyzModem_` prefix): `file_length` → `fileLength` etc.; `bufp` is an
offset in `pkt`.
-/

namespace Imx.XyzModem
open Imx.Base

def soh : UInt8 := 0x01
def stx : UInt8 := 0x02
def eot : UInt8 := 0x04
def ack : UInt8 := 0x06
def nak : UInt8 := 0x15
def can : UInt8 := 0x18

/-- The pad character (`EOF`). -/
def padChar : UInt8 := 0x1A

/-- The letter C, which asks for blocks with a CRC. -/
def wantCrc : UInt8 := 0x43

def maxRetries : Nat := 20
def maxRetriesWithCrc : Nat := 10
def canCount : Nat := 3

/-- What a function returns; all but `ok` are negative. -/
inductive Stat where
  | ok
  | timeout
  | eof
  | cancel
  | frame
  | cksum
  | sequence
deriving DecidableEq, Repr

/-! ## The check -/

def crc16Tab : List UInt16 :=
  [0x0000, 0x1021, 0x2042, 0x3063, 0x4084, 0x50a5, 0x60c6, 0x70e7,
    0x8108, 0x9129, 0xa14a, 0xb16b, 0xc18c, 0xd1ad, 0xe1ce, 0xf1ef,
    0x1231, 0x0210, 0x3273, 0x2252, 0x52b5, 0x4294, 0x72f7, 0x62d6,
    0x9339, 0x8318, 0xb37b, 0xa35a, 0xd3bd, 0xc39c, 0xf3ff, 0xe3de,
    0x2462, 0x3443, 0x0420, 0x1401, 0x64e6, 0x74c7, 0x44a4, 0x5485,
    0xa56a, 0xb54b, 0x8528, 0x9509, 0xe5ee, 0xf5cf, 0xc5ac, 0xd58d,
    0x3653, 0x2672, 0x1611, 0x0630, 0x76d7, 0x66f6, 0x5695, 0x46b4,
    0xb75b, 0xa77a, 0x9719, 0x8738, 0xf7df, 0xe7fe, 0xd79d, 0xc7bc,
    0x48c4, 0x58e5, 0x6886, 0x78a7, 0x0840, 0x1861, 0x2802, 0x3823,
    0xc9cc, 0xd9ed, 0xe98e, 0xf9af, 0x8948, 0x9969, 0xa90a, 0xb92b,
    0x5af5, 0x4ad4, 0x7ab7, 0x6a96, 0x1a71, 0x0a50, 0x3a33, 0x2a12,
    0xdbfd, 0xcbdc, 0xfbbf, 0xeb9e, 0x9b79, 0x8b58, 0xbb3b, 0xab1a,
    0x6ca6, 0x7c87, 0x4ce4, 0x5cc5, 0x2c22, 0x3c03, 0x0c60, 0x1c41,
    0xedae, 0xfd8f, 0xcdec, 0xddcd, 0xad2a, 0xbd0b, 0x8d68, 0x9d49,
    0x7e97, 0x6eb6, 0x5ed5, 0x4ef4, 0x3e13, 0x2e32, 0x1e51, 0x0e70,
    0xff9f, 0xefbe, 0xdfdd, 0xcffc, 0xbf1b, 0xaf3a, 0x9f59, 0x8f78,
    0x9188, 0x81a9, 0xb1ca, 0xa1eb, 0xd10c, 0xc12d, 0xf14e, 0xe16f,
    0x1080, 0x00a1, 0x30c2, 0x20e3, 0x5004, 0x4025, 0x7046, 0x6067,
    0x83b9, 0x9398, 0xa3fb, 0xb3da, 0xc33d, 0xd31c, 0xe37f, 0xf35e,
    0x02b1, 0x1290, 0x22f3, 0x32d2, 0x4235, 0x5214, 0x6277, 0x7256,
    0xb5ea, 0xa5cb, 0x95a8, 0x8589, 0xf56e, 0xe54f, 0xd52c, 0xc50d,
    0x34e2, 0x24c3, 0x14a0, 0x0481, 0x7466, 0x6447, 0x5424, 0x4405,
    0xa7db, 0xb7fa, 0x8799, 0x97b8, 0xe75f, 0xf77e, 0xc71d, 0xd73c,
    0x26d3, 0x36f2, 0x0691, 0x16b0, 0x6657, 0x7676, 0x4615, 0x5634,
    0xd94c, 0xc96d, 0xf90e, 0xe92f, 0x99c8, 0x89e9, 0xb98a, 0xa9ab,
    0x5844, 0x4865, 0x7806, 0x6827, 0x18c0, 0x08e1, 0x3882, 0x28a3,
    0xcb7d, 0xdb5c, 0xeb3f, 0xfb1e, 0x8bf9, 0x9bd8, 0xabbb, 0xbb9a,
    0x4a75, 0x5a54, 0x6a37, 0x7a16, 0x0af1, 0x1ad0, 0x2ab3, 0x3a92,
    0xfd2e, 0xed0f, 0xdd6c, 0xcd4d, 0xbdaa, 0xad8b, 0x9de8, 0x8dc9,
    0x7c26, 0x6c07, 0x5c64, 0x4c45, 0x3ca2, 0x2c83, 0x1ce0, 0x0cc1,
    0xef1f, 0xff3e, 0xcf5d, 0xdf7c, 0xaf9b, 0xbfba, 0x8fd9, 0x9ff8,
    0x6e17, 0x7e36, 0x4e55, 0x5e74, 0x2e93, 0x3eb2, 0x0ed1, 0x1ef0]

def cygCrc16 (buf : List UInt8) : UInt16 :=
  buf.foldl (fun cksum b => crc16Tab[((cksum >>> 8) ^^^ b.toUInt16).toNat % 256]! ^^^
    (cksum <<< 8)) 0

/-! ## Numbers -/

def isHex (c : UInt8) : Bool :=
  0x30 ≤ c ∧ c ≤ 0x39 ∨ 0x41 ≤ c ∧ c ≤ 0x46 ∨ 0x61 ≤ c ∧ c ≤ 0x66

def fromHex (c : UInt8) : Nat :=
  if 0x30 ≤ c ∧ c ≤ 0x39 then c.toNat - 0x30
  else if 0x61 ≤ c ∧ c ≤ 0x66 then c.toNat - 0x61 + 10
  else if 0x41 ≤ c ∧ c ≤ 0x46 then c.toNat - 0x41 + 10
  else 0

/-- The digits of a number up to a blank. -/
def parseDigits (radix result : Nat) : List UInt8 → Option Nat
  | [] => some result
  | c :: s =>
    if isHex c ∧ fromHex c < radix then parseDigits radix (result * radix + fromHex c) s
    else if c = 0x20 then some result
    else none

/-- A number with or without `0x` before it, with a blank as its delimiter. -/
def parseNum (s : List UInt8) : Option Nat :=
  match s.dropWhile (· = 0x20) with
  | 0x30 :: x :: rest =>
    if x = 0x78 ∨ x = 0x58 then if rest = [] then none else parseDigits 16 0 rest
    else parseDigits 10 0 (0x30 :: x :: rest)
  | s => parseDigits 10 0 s

/-! ## The state -/

inductive Mode where
  | xmodem
  | ymodem
deriving DecidableEq, Repr

/-- The state of the protocol, what is on the line, and what was sent. -/
structure Xyz where
  line : List (Option UInt8)
  out : List UInt8
  pkt : List UInt8
  bufp : Nat
  blk : UInt8
  nextBlk : UInt8
  len : Int
  mode : Mode
  crcMode : Bool
  atEof : Bool
  txAck : Bool
  fileLength : Nat
  readLength : Nat
deriving DecidableEq, Repr

def putc (s : Xyz) (c : UInt8) : Xyz := { s with out := s.out ++ [c] }

/-- Ask for a block again. -/
def ask (s : Xyz) : Xyz := putc s (if s.crcMode then wantCrc else nak)

/-- Wait for the line to go idle. -/
def flush : List (Option UInt8) → List (Option UInt8)
  | [] => []
  | none :: line => line
  | some _ :: line => flush line

/-! ## A block -/

/-- What the search for a header finds, with the rest of the line: its first character, or why
`get_hdr` returns. -/
inductive Found where
  | header (c : UInt8) (line : List (Option UInt8))
  | stopped (stat : Stat) (line : List (Option UInt8))
deriving DecidableEq, Repr

/-- Find the start of a header. -/
def findHeader (canTotal hdrChars : Nat) : List (Option UInt8) → Found
  | [] => .stopped .timeout []
  | none :: line => .stopped .timeout (flush line)
  | some c :: line =>
    if c = soh ∨ c = stx then .header c line
    else if c = can then
      if canTotal + 1 = canCount then .stopped .cancel line
      else findHeader (canTotal + 1) (hdrChars + 1) line
    -- supported only if no noise came before it
    else if c = eot ∧ hdrChars = 0 then .stopped .eof line
    else findHeader canTotal (hdrChars + 1) line

/-- Read characters, fewer if there is silence, and the rest of the line. -/
def readChars : Nat → List (Option UInt8) → List UInt8 × List (Option UInt8)
  | 0, line => ([], line)
  | _ + 1, [] => ([], [])
  | _ + 1, none :: line => ([], line)
  | n + 1, some c :: line => (c :: (readChars n line).1, (readChars n line).2)

/-- Verify the CRC or the checksum. -/
def verify (crcMode : Bool) (data crc : List UInt8) : Bool :=
  if crcMode then (cygCrc16 data).toNat = 256 * (crc.getD 0 0).toNat + (crc.getD 1 0).toNat
  else (crc.getD 0 0).toNat = (data.map UInt8.toNat).sum % 256

/-- The length of the block that a header begins. -/
def blockLen (c : UInt8) : Nat := if c = soh then 128 else 1024

/-- The length of what the block is checked with. -/
def checkLen (crcMode : Bool) : Nat := if crcMode then 2 else 1

/-- Read the block behind its first character. -/
def getBlock (s : Xyz) (c : UInt8) : Stat × Xyz :=
  let num := readChars 2 s.line
  let s := { s with line := num.2, blk := num.1.getD 0 s.blk }
  if num.1.length < 2 then (.timeout, s)
  else
    let data := readChars (blockLen c) s.line
    let s := { s with
      line := data.2, len := blockLen c, bufp := 0
      pkt := data.1 ++ s.pkt.drop data.1.length }
    if data.1.length < blockLen c then (.timeout, s)
    else
      let crc := readChars (checkLen s.crcMode) s.line
      let s := { s with line := crc.2 }
      if crc.1.length < checkLen s.crcMode then (.timeout, s)
      else if s.blk ^^^ num.1.getD 1 0 ≠ 0xFF then (.frame, { s with line := flush s.line })
      else if verify s.crcMode data.1 crc.1 then (.ok, s)
      else (.cksum, s)

/-- The acknowledgement of the block before is sent first. -/
def sendAck (s : Xyz) : Xyz := if s.txAck then { putc s ack with txAck := false } else s

def getHdr (s : Xyz) : Stat × Xyz :=
  let s := sendAck s
  match findHeader 0 0 s.line with
  | .header c line => getBlock { s with line := line } c
  | .stopped .eof line => (.eof, putc { s with line := line } ack)
  | .stopped stat line => (stat, { s with line := line })

/-! ## Opening the stream -/

/-- The length in the header block, behind the name. -/
def announced (pkt : List UInt8) : Option Nat :=
  parseNum (((pkt.dropWhile (· ≠ 0)).drop 1).takeWhile (· ≠ 0))

/-- Wait for the header block. -/
def openLoop : Nat → Int → Stat → Xyz → Option Stat × Xyz
  | 0, _, stat, s => (some stat, s)
  | retries + 1, crcRetries, _, s =>
    let r := getHdr s
    let s := r.2
    if r.1 = .ok then
      let s := if s.blk = 0 then
          { s with fileLength := (announced s.pkt).getD s.fileLength, txAck := true }
        else s
      (none, { s with nextBlk := 1, len := 0 })
    else if r.1 = .timeout then
      openLoop retries (crcRetries - 1) r.1
        (ask (if crcRetries - 1 ≤ 0 then { s with crcMode := false } else s))
    else if r.1 = .cancel then (some .cancel, s)
    else openLoop retries crcRetries r.1 s

/-- The first result is the error, if there is one. -/
def streamOpen (s : Xyz) (mode : Mode) : Option Stat × Xyz :=
  let s := ask { s with
    len := 0, crcMode := true, atEof := false, txAck := false, mode := mode, readLength := 0,
    fileLength := 0 }
  if mode = .xmodem then (none, { s with nextBlk := 1 })
  else openLoop maxRetries maxRetriesWithCrc .ok s

/-! ## Reading the stream -/

/-- The length of a block without the pad characters, of which it has three or more. -/
def stripPad (data : List UInt8) : Nat :=
  if data.drop (data.length - 3) = [padChar, padChar, padChar] then
    (data.reverse.dropWhile (· = padChar)).length
  else data.length

/-- The block that was expected: it is cut where the file ends. -/
def accept (s : Xyz) : Xyz :=
  let s := { s with txAck := true, nextBlk := s.nextBlk + 1 }
  if s.mode = .xmodem ∨ s.fileLength = 0 then
    { s with len := stripPad (s.pkt.take s.len.toNat) }
  else
    let s := { s with readLength := s.readLength + s.len.toNat }
    if s.fileLength < s.readLength then
      { s with len := s.len - (s.readLength - s.fileLength : Nat) }
    else s

/-- The end of the file: with YMODEM a last header follows. -/
def endOfFile (s : Xyz) : Stat × Xyz :=
  let s := putc s ack
  if s.mode = .ymodem then
    let r := getHdr (ask s)
    (r.1, { putc r.2 ack with atEof := true })
  else (.eof, { s with atEof := true })

/-- Wait for the next block. -/
def waitLoop : Nat → Stat → Xyz → Stat × Xyz
  | 0, stat, s => (stat, s)
  | retries + 1, _, s =>
    let r := getHdr s
    let s := r.2
    if r.1 = .ok then
      if s.blk = s.nextBlk then (.ok, accept s)
      else if s.blk = s.nextBlk - 1 then waitLoop retries .ok (putc s ack)
      else waitLoop retries .sequence (ask s)
    else if r.1 = .cancel then (.cancel, s)
    else if r.1 = .eof then endOfFile s
    else waitLoop retries r.1 (ask s)

/-- What a call returns: the characters in the buffer, and the error, if there is one. -/
structure Ret where
  state : Xyz
  buf : List UInt8
  err : Option Stat
deriving DecidableEq, Repr

/-- Get `size` characters into the buffer behind those of `buf`. It is `none` when `memcpy` is
called with a negative length. -/
def readLoop : Nat → Xyz → Nat → List UInt8 → Option Ret
  | 0, _, _, _ => none
  | fuel + 1, s, size, buf =>
    if s.atEof ∨ size = 0 then some ⟨s, buf, none⟩
    else
      let r := if s.len = 0 then waitLoop maxRetries .cancel s else (.ok, s)
      let s := r.2
      if r.1 ≠ .ok then some ⟨{ s with len := -1 }, buf, some r.1⟩
      else if s.atEof then readLoop fuel s size buf
      else if s.len < 0 then none
      else
        let len := min size s.len.toNat
        readLoop fuel { s with len := s.len - len, bufp := s.bufp + len } (size - len)
          (buf ++ (s.pkt.drop s.bufp).take len)

/-- Each round takes something from the line or puts something into the buffer. -/
def streamRead (s : Xyz) (size : Nat) : Option Ret :=
  readLoop (s.line.length + size + 1) s size []

end Imx.XyzModem
