import Mathlib.Algebra.Order.Ring.Int
import Mathlib.Data.List.Basic
import Mathlib.Tactic.Common

/-!
# S-records

Model of `common/s_record.c`, and of `load_serial` and `save_serial` of `cmd/load.c`. A line is the
list of its characters, the terminating NUL left out; a `char` of a checksum or of data is a
`UInt8`, and an address has 32 bits. Nobody interrupts a transfer, no address is in flash, and the
characters of a line are not echoed.
-/

namespace Imx.Srec

/-- The characters of a C string, the terminating NUL left out. -/
abbrev Str := List Char

/-! ## Decoding a record -/

/-- C `SREC_START`. -/
def srecStart : Int := 0
/-- C `SREC_DATA2`. -/
def srecData2 : Int := 1
/-- C `SREC_DATA3`. -/
def srecData3 : Int := 2
/-- C `SREC_DATA4`. -/
def srecData4 : Int := 3
/-- C `SREC_COUNT`. -/
def srecCount : Int := 5
/-- C `SREC_END4`. -/
def srecEnd4 : Int := 7
/-- C `SREC_END3`. -/
def srecEnd3 : Int := 8
/-- C `SREC_END2`. -/
def srecEnd2 : Int := 9
/-- C `SREC_EMPTY`. -/
def srecEmpty : Int := 10
/-- C `SREC_E_BADTYPE`. -/
def srecBadtype : Int := -1
/-- C `SREC_E_NOSREC`. -/
def srecNosrec : Int := -2
/-- C `SREC_E_BADCHKS`. -/
def srecBadchks : Int := -3

/-- The value of a hexadecimal digit (C `hex1_bin`). -/
def hex1Bin (c : Char) : Option Nat :=
  if '0' ≤ c ∧ c ≤ '9' then some (c.toNat - '0'.toNat)
  else if 'a' ≤ c ∧ c ≤ 'f' then some (c.toNat + 10 - 'a'.toNat)
  else if 'A' ≤ c ∧ c ≤ 'F' then some (c.toNat + 10 - 'A'.toNat)
  else none

/-- The value of two hexadecimal digits (C `hex2_bin`); the NUL behind the line is none. -/
def hex2Bin : Str → Option UInt8
  | a :: b :: _ => do
    let i ← hex1Bin a
    let j ← hex1Bin b
    some (UInt8.ofNat (16 * i + j))
  | _ => none

/-- What a record that is accepted says: the type that is returned, `*count`, `*addr` and `data`. -/
structure Record where
  type : Int
  count : Int
  addr : Nat
  data : List UInt8
deriving DecidableEq, Repr

/-- The text behind the first `S`. -/
def skip : Str → Str
  | [] => []
  | c :: input => if c = 'S' then input else skip input

/-- The type of a record and what `*count` becomes, by the character of the type. -/
def typeOf (v : Char) (count : Int) : Option (Int × Int) :=
  match v with
  | '0' => some (srecStart, count - 3)
  | '1' => some (srecData2, count - 3)
  | '2' => some (srecData3, count - 4)
  | '3' => some (srecData4, count - 5)
  | '5' => some (srecCount, 0)
  | '7' => some (srecEnd4, count - 5)
  | '8' => some (srecEnd3, count - 4)
  | '9' => some (srecEnd2, count - 3)
  | _ => none

/-- The number of bytes of the address field. -/
def addrBytes (v : Char) : Option Nat :=
  match v with
  | '3' | '7' => some 4
  | '2' | '8' => some 3
  | '0' | '1' | '5' | '9' => some 2
  | _ => none

/-- Read some bytes: the bytes, the checksum with them and the text behind. -/
def readBytes : Nat → Str → UInt8 → Option (List UInt8 × UInt8 × Str)
  | 0, input, chksum => some ([], chksum, input)
  | n + 1, input, chksum => do
    let v ← hex2Bin input
    let (bytes, chksum, input) ← readBytes n (input.drop 2) (chksum + v)
    some (v :: bytes, chksum, input)

/-- The value of an address field. -/
def number (bytes : List UInt8) : Nat := bytes.foldl (fun addr v => addr * 2 ^ 8 + v.toNat) 0

/-- Decode a line (C `srec_decode`): a record, or another return value. -/
def srecDecode (line : Str) : Except Int Record :=
  match skip line with
  | [] => .error srecEmpty
  | v :: input =>
    match hex2Bin input with
    | none => .error srecNosrec
    | some count =>
      match typeOf v count.toNat, addrBytes v with
      | some (type, rest), some n =>
        match readBytes n (input.drop 2) count with
        | none => .error srecNosrec
        | some (addr, chksum, input) =>
          match readBytes rest.toNat input chksum with
          | none => .error srecNosrec
          | some (data, chksum, input) =>
            match hex2Bin input with
            | none => .error srecNosrec
            | some v =>
              if v ≠ ~~~chksum then .error srecBadchks
              else .ok ⟨type, rest, number addr, data⟩
      | _, _ => .error srecBadtype

/-! ## Sending memory -/

/-- A memory with 32-bit addresses. -/
abbrev Memory := BitVec 32 → UInt8

/-- The digits of C `hex`. -/
def hex (v : Nat) : Char := "0123456789ABCDEF".toList.getD v '0'

/-- A number that has at most that many hexadecimal digits (C `%0nX`). -/
def printHex : Nat → Nat → Str
  | 0, _ => []
  | n + 1, v => printHex n (v / 16) ++ [hex (v % 16)]

/-- C `SREC3_START`. -/
def srec3Start : Str := "S0030000FC\n".toList

/-- C `SREC3_END`. -/
def srec3End : Str := "S70500000000FA\n".toList

/-- A data record (C `SREC3_FORMAT`). -/
def srec3Format (length : Nat) (address : BitVec 32) (data : Str) (checksum : Nat) : Str :=
  ['S', '3'] ++ printHex 2 length ++ printHex 8 address.toNat ++ data ++ printHex 2 checksum ++
    ['\n']

/-- C `SREC_BYTES_PER_RECORD`. -/
def srecBytesPerRecord : Nat := 16

/-- The sum of the low bytes of a number, as many as are asked for. -/
def sumBytes : Nat → Nat → Nat
  | 0, _ => 0
  | n + 1, v => v % 2 ^ 8 + sumBytes n (v / 2 ^ 8)

/-- The loop over the bytes, with those of an unfinished record. -/
def saveLoop (m : Memory) : Nat → BitVec 32 → Nat → Str → Nat → Str
  | 0, _, _, _, _ => []
  | count + 1, address, reclen, data, checksum =>
    let c := (m (address + BitVec.ofNat 32 reclen)).toNat
    let checksum := checksum + c
    let data := data ++ [hex (c / 16), hex (c % 16)]
    let reclen := reclen + 1
    if reclen = srecBytesPerRecord ∨ count = 0 then
      let length := 4 + reclen + 1
      let checksum := checksum + sumBytes 2 length + sumBytes 4 address.toNat
      srec3Format length address data (2 ^ 8 - 1 - checksum % 2 ^ 8) ++
        saveLoop m count (address + BitVec.ofNat 32 reclen) 0 [] 0
    else saveLoop m count address reclen data checksum

/-- The characters that are sent for some bytes (C `save_serial`). -/
def saveSerial (m : Memory) (address : BitVec 32) (count : Nat) : Str :=
  srec3Start ++ saveLoop m count address 0 [] 0 ++ srec3End

/-! ## Loading records -/

/-- C `SREC_MAXRECLEN`. -/
def srecMaxreclen : Nat := 512 + 4

/-- Read a line, at most `len` characters of it (C `read_record`): the line and the characters
behind it, or `none` when the transfer is aborted or nothing more comes. -/
def readRecord : Nat → Str → Option (Str × Str)
  | 0, input => some ([], input)
  | _ + 1, [] => none
  | len + 1, c :: input =>
    if c = '\r' ∨ c = '\n' then some ([], input)
    else if c = '\x00' ∨ c = '\x03' then none
    else (readRecord len input).map fun (line, input) => (c :: line, input)

/-- Copy bytes to memory (C `memcpy`). -/
def memcpy (dest : BitVec 32) (bytes : List UInt8) (m : Memory) : Memory := fun a =>
  bytes.getD (a - dest).toNat (m a)

/-- What is left of a download: the memory, and the first and last address written. -/
structure Load where
  memory : Memory
  startAddr : BitVec 32
  endAddr : BitVec 32

/-- Store the data of a record. -/
def Load.store (s : Load) (storeAddr : BitVec 32) (bytes : List UInt8) : Load where
  memory := memcpy storeAddr bytes s.memory
  startAddr := if storeAddr < s.startAddr then storeAddr else s.startAddr
  endAddr :=
    let last := storeAddr + BitVec.ofNat 32 bytes.length - 1
    if last > s.endAddr then last else s.endAddr

/-- The loop over the records, at most `fuel` of them. `none` is a download that is aborted; data
of a negative length is never stored and aborts the program. -/
def loadLoop (offset : BitVec 32) : Nat → Str → Load → Option (Option (Nat × Load))
  | 0, _, _ => none
  | fuel + 1, input, s =>
    match readRecord srecMaxreclen input with
    | none => some none
    | some (line, input) =>
      match srecDecode line with
      | .error type => if type < 0 then some none else loadLoop offset fuel input s
      | .ok r =>
        if r.type = srecData2 ∨ r.type = srecData3 ∨ r.type = srecData4 then
          if r.count < 0 then some none
          else loadLoop offset fuel input (s.store (BitVec.ofNat 32 r.addr + offset) r.data)
        else if r.type = srecEnd2 ∨ r.type = srecEnd3 ∨ r.type = srecEnd4 then
          some (some (r.addr, s))
        else loadLoop offset fuel input s

/-- Load records that are received (C `load_serial`): the address of the end record and what was
written. -/
def loadSerial (offset : BitVec 32) (input : Str) (m : Memory) (fuel : Nat) :
    Option (Option (Nat × Load)) :=
  loadLoop offset fuel input ⟨m, -1, 0⟩

end Imx.Srec
