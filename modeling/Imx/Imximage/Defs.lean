import Imx.Base.Bytes

/-!
# The i.MX image tool

Model of `tools/imximage.c` without `CONFIG_USE_PLUGIN` and `CONFIG_IMX_FIXED_IVT_OFFSET`, on a host
with little-endian words and a 64-bit `long`. The header is a memory that begins at zero; `written`
records where the functions that fill the configuration table store. A configuration file is a
text; a `char` is a `Char`, a function that exits gives `none`.

What is left out: what is printed, the part of `set_imx_hdr_v2` for images with a plugin, and the
variables that only that part reads.

C → Lean naming: `gd_last_cmd` → `gdLastCmd`, a pointer into the header is an offset. The function
pointers that `set_hdr_func` sets follow the version.
-/

namespace Imx.Imximage
open Imx.Base

/-- A C string. -/
abbrev Str := List Char

def u32 (n : Nat) : Nat := n % 2 ^ 32

def undefined : Nat := 2 ^ 32 - 1

def maxHwCfgSizeV1 : Nat := 60

def maxHwCfgSizeV2 : Nat := 220

/-- C `enum imximage_cmd`. -/
inductive Cmd where
  | imageVersion
  | bootFrom
  | bootOffset
  | writeData
  | writeClrBit
  | checkBitsSet
  | checkBitsClr
  | csf
deriving DecidableEq, Repr

def imximageCmds : List (Cmd × Str) :=
  [(.bootFrom, "BOOT_FROM".toList), (.bootOffset, "BOOT_OFFSET".toList),
    (.writeData, "DATA".toList), (.writeClrBit, "CLR_BIT".toList),
    (.checkBitsSet, "CHECK_BITS_SET".toList), (.checkBitsClr, "CHECK_BITS_CLR".toList),
    (.csf, "CSF".toList), (.imageVersion, "IMAGE_VERSION".toList)]

def imximageBootOffset : List (Nat × Str) :=
  [(0x100, "onenand".toList), (0x400, "nand".toList), (0x1000, "nor".toList),
    (0x400, "sata".toList), (0x400, "sd".toList), (0x400, "spi".toList), (0x1000, "qspi".toList)]

def imximageBootLoadsize : List (Nat × Str) :=
  [(0x400, "onenand".toList), (0x1000, "nand".toList), (0, "nor".toList),
    (0x1000, "sata".toList), (0x1000, "sd".toList), (0x1000, "spi".toList), (0, "qspi".toList)]

/-- The entry of a table with a name, in upper or lower case. -/
def getTableEntryId {α : Type} (table : List (α × Str)) (name : Str) : Option α :=
  (table.find? fun t => t.2.map Char.toLower = name.map Char.toLower).map Prod.fst

/-! ## Text -/

/-- The tokens `strtok_r` returns one after the other. -/
def strtok (delims : List Char) (p : Str) : List Str :=
  (p.splitOnP (· ∈ delims)).filter (· ≠ [])

/-- The tokens of the lines of a file, without the comments. -/
def cfgLines (file : Str) : List (List Str) :=
  (file.splitOnP (· = '\n')).map fun line =>
    match strtok ['\r', '\n'] (line.takeWhile (· ≠ '\x00')) with
    | [] => []
    | token :: _ => (strtok [' ', '\t'] token).takeWhile (·.head? ≠ some '#')

def isspace (c : Char) : Bool := c ∈ [' ', '\t', '\n', '\x0b', '\x0c', '\r']

def isxdigit (c : Char) : Bool :=
  '0' ≤ c ∧ c ≤ '9' ∨ 'a' ≤ c ∧ c ≤ 'f' ∨ 'A' ≤ c ∧ c ≤ 'F'

/-- The value of a digit. -/
def digitValue (c : Char) : Nat :=
  if c.isDigit then c.toNat - '0'.toNat else c.toUpper.toNat - 'A'.toNat + 10

/-- The sign of a number, and what follows it. -/
def sign : Str → Bool × Str
  | '-' :: p => (true, p)
  | '+' :: p => (false, p)
  | p => (false, p)

/-- A number in base 16 without what may stand before it. -/
def hexPrefix : Str → Str
  | '0' :: x :: d :: p => if (x = 'x' ∨ x = 'X') ∧ isxdigit d then d :: p else '0' :: x :: d :: p
  | p => p

/-- `strtoul` with base 16, without a number or with one out of range. -/
def strtoul (token : Str) : Option Nat :=
  let p := sign (token.dropWhile isspace)
  let digits := (hexPrefix p.2).takeWhile isxdigit
  let value := digits.foldl (fun value c => 16 * value + digitValue c) 0
  if digits = [] ∨ 2 ^ 64 ≤ value then none
  else some (if p.1 then (2 ^ 64 - value) % 2 ^ 64 else value)

def getCfgValue (token : Str) : Option Nat := (strtoul token).map u32

/-! ## The header -/

/-- The header, and where the table was written. -/
structure Header where
  mem : Mem
  written : List (Nat × Nat)

/-- Store a field of the table. -/
def Header.store (h : Header) (a : Nat) (bs : List UInt8) : Header :=
  ⟨h.mem.write a bs, h.written ++ [(a, bs.length)]⟩

/-- A little-endian word. -/
def get32 (m : Mem) (a : Nat) : Nat := ofLe (m.read a 4)

/-- C `sizeof(imx_header_v2_t)`. -/
def sizeofHeader : Nat := 1816

/-- The offset of `dcd_table` in the header. -/
def dcdTable : Nat := 44

/-- C `sizeof(dcd_v2_t)`. -/
def sizeofDcd : Nat := 1772

/-- The offset of `dcd_cmd`. -/
def dcdCmd : Nat := dcdTable + 4

/-- The offset of `boot_data.plugin`. -/
def bootDataPlugin : Nat := 40

/-- The static variables, with the header that is filled in. `cmdVerFirst` is `none` for `~0`. -/
structure Img where
  version : Nat
  ivtOffset : Nat
  csfSize : Nat
  initLoadsize : Nat
  cmdVerFirst : Option Bool
  gdLastCmd : Option Nat
  hdr : Header

/-- The header before it is filled in, in front of the payload. -/
def blank (payload : Mem) : Header := ⟨fun i => if i < sizeofHeader then 0 else payload i, []⟩

/-! ## The table -/

/-- The tag and the parameter of a command of the table. -/
def dcdCommand : Cmd → Option (UInt8 × UInt8)
  | .writeData => some (0xCC, 0x4)
  | .writeClrBit => some (0xCC, 0xC)
  | .checkBitsSet => some (0xCF, 0x14)
  | .checkBitsClr => some (0xCF, 0x04)
  | _ => none

/-- Only writes go on in the command before them. -/
def goesOn (s : Img) (d : Nat) (cmd : Cmd) (tag param : UInt8) : Bool :=
  (cmd = .writeData ∨ cmd = .writeClrBit) ∧ s.hdr.mem d = tag ∧ s.hdr.mem (d + 3) = param

def setDcdParamV2 (s : Img) (cmd : Cmd) : Img :=
  let d := s.gdLastCmd.getD dcdCmd
  let len := s.hdr.mem.be16 (d + 1)
  let d2 := if 4 < len then d + len else d
  match dcdCommand cmd with
  | none => { s with gdLastCmd := some d }
  | some (tag, param) =>
    if goesOn s d cmd tag param then { s with gdLastCmd := some d }
    else
      { s with
        gdLastCmd := some d2
        hdr := ((s.hdr.store d2 [tag]).store (d2 + 1) (bytesBe 2 4)).store (d2 + 3) [param] }

def setDcdValV2 (s : Img) (fld value : Nat) : Img :=
  match s.gdLastCmd with
  | none => s
  | some d =>
    let off := (s.hdr.mem.be16 (d + 1) - 4) / 8
    if fld = 2 then { s with hdr := s.hdr.store (d + 4 + 8 * off) (bytesBe 4 value) }
    else if fld = 3 then
      { s with
        hdr := (s.hdr.store (d + 8 + 8 * off) (bytesBe 4 value)).store (d + 1)
          (bytesBe 2 (8 * (off + 1) + 4)) }
    else s

def setDcdRstV2 (s : Img) : Img :=
  if get32 s.hdr.mem bootDataPlugin ≠ 0 then s
  else
    let d := s.gdLastCmd.getD dcdCmd
    let len := s.hdr.mem.be16 (d + 1)
    let d := if 4 < len then d + len else d
    { s with
      hdr := ((s.hdr.store dcdTable [0xD2]).store (dcdTable + 1) (bytesBe 2 (d - dcdTable))).store
        (dcdTable + 3) [0x40] }

/-- A field of entry `off` of the table of version 1. -/
def setDcdValV1 (s : Img) (fld value off : Nat) : Option Img :=
  let entry := 36 + 12 * off
  if fld = 1 then
    if value ≠ 1 ∧ value ≠ 2 ∧ value ≠ 4 then none
    else some { s with hdr := s.hdr.store entry (bytesLe 4 value) }
  else if fld = 2 then some { s with hdr := s.hdr.store (entry + 4) (bytesLe 4 value) }
  else if fld = 3 then some { s with hdr := s.hdr.store (entry + 8) (bytesLe 4 value) }
  else some s

def setDcdRstV1 (s : Img) (dcdLen : Nat) : Img :=
  { s with hdr := (s.hdr.store 28 (bytesLe 4 0xB17219E9)).store 32 (bytesLe 4 (12 * dcdLen)) }

/-- The functions `set_dcd_param` and `set_dcd_val`. -/
def setDcd (s : Img) (cmd : Cmd) (fld value dcdLen : Nat) : Option Img :=
  if s.version = 2 then some (setDcdValV2 (setDcdParamV2 s cmd) fld value)
  else setDcdValV1 s fld value dcdLen

def setDcdRst (s : Img) (dcdLen : Nat) : Img :=
  if s.version = 2 then setDcdRstV2 s else setDcdRstV1 s dcdLen

def maxDcdEntries (s : Img) : Nat := if s.version = 2 then maxHwCfgSizeV2 else maxHwCfgSizeV1

/-! ## The configuration file -/

def setHdrFunc (s : Img) : Option Img :=
  if s.version = 1 then some s
  else if s.version = 2 then some { s with gdLastCmd := none }
  else none

/-- A command that is not the version came first. -/
def notFirst (s : Img) : Img :=
  if s.cmdVerFirst = some true then s else { s with cmdVerFirst := some false }

def parseCfgCmd (s : Img) (cmd : Cmd) (token : Str) (fld dcdLen : Nat) : Option Img :=
  match cmd with
  | .imageVersion =>
    (getCfgValue token).bind fun version =>
      if s.cmdVerFirst = some false then none
      else setHdrFunc { s with version := version, cmdVerFirst := some true }
  | .bootFrom =>
    (getTableEntryId imximageBootOffset token).bind fun offset =>
      (getTableEntryId imximageBootLoadsize token).map fun loadsize =>
        notFirst { s with ivtOffset := offset, initLoadsize := max loadsize offset }
  | .bootOffset =>
    (getCfgValue token).map fun offset => notFirst { s with ivtOffset := offset }
  | .writeData | .writeClrBit | .checkBitsSet | .checkBitsClr =>
    (getCfgValue token).bind fun value => (setDcd s cmd fld value dcdLen).map notFirst
  | .csf =>
    if s.version ≠ 2 then none
    else (getCfgValue token).map fun size => notFirst { s with csfSize := size }

/-- What a line is parsed with: the variables, the command and the number of entries. -/
structure Line where
  img : Img
  cmd : Option Cmd
  dcdLen : Nat

def parseCfgFld (r : Line) (token : Str) (fld : Nat) : Option Line :=
  if fld = 0 then
    (getTableEntryId imximageCmds token).map fun cmd => { r with cmd := some cmd }
  else
    match r.cmd with
    | none => some r
    | some cmd =>
      if fld = 1 then
        (parseCfgCmd r.img cmd token fld r.dcdLen).map fun img => { r with img := img }
      else if (fld = 2 ∨ fld = 3) ∧ (dcdCommand cmd).isSome then
        (getCfgValue token).bind fun value =>
          (setDcd r.img cmd fld value r.dcdLen).bind fun img =>
            if fld = 2 then some { r with img := img }
            else if maxDcdEntries img < r.dcdLen + 1 then none
            else some { r with img := img, dcdLen := r.dcdLen + 1 }
      else some r

/-- The fields of a line. -/
def parseFlds (r : Line) (fld : Nat) : List Str → Option Line
  | [] => some r
  | token :: tokens => (parseCfgFld r token fld).bind fun r => parseFlds r (fld + 1) tokens

/-- A line. -/
def parseLine (s : Img × Nat) (tokens : List Str) : Option (Img × Nat) :=
  (parseFlds ⟨s.1, none, s.2⟩ 0 tokens).map fun r => (r.img, r.dcdLen)

def parseCfgFile (s : Img) (file : Str) : Option (Img × Nat) :=
  ((cfgLines file).foldlM parseLine (s, 0)).bind fun r =>
    let s := setDcdRst r.1 r.2
    if s.ivtOffset = undefined then none else some (s, r.2)

/-! ## The image -/

/-- Fill in a word of the header. -/
def Img.put32 (s : Img) (a value : Nat) : Img :=
  { s with hdr := { s.hdr with mem := s.hdr.mem.write a (bytesLe 4 (u32 value)) } }

/-- Round up to a multiple. -/
def round (a b : Nat) : Nat := (a + b - 1) / b * b

/-- `set_imx_hdr_v1`, and the size of the image behind it. -/
def setImxHdrV1 (s : Img) (dcdLen entryPoint fileSize : Nat) : Img :=
  let hdrBase := u32 (entryPoint + 2 ^ 32 - 4096)
  ((((((((s.put32 4 0xB1).put32 24 (hdrBase + 2 ^ 32 - s.ivtOffset)).put32 0 entryPoint).put32 12
    (hdrBase + 20)).put32 20 (hdrBase + 28)).put32 8 0).put32 16 0).put32 (36 + 12 * dcdLen)
      (round (fileSize + s.ivtOffset) 4096))

/-- `set_imx_hdr_v2` without a plugin, and the size of the image behind it. -/
def setImxHdrV2 (s : Img) (dcdLen entryPoint fileSize : Nat) : Img :=
  let hdrBase := u32 (entryPoint + 2 ^ 32 - s.initLoadsize + s.ivtOffset)
  let size := u32 (round (fileSize + s.ivtOffset) 4096)
  let s := { s with hdr := { s.hdr with
    mem := s.hdr.mem.write 0 ([0xD1] ++ bytesBe 2 32 ++ [0x40]) } }
  let s := ((((((s.put32 4 entryPoint).put32 8 0).put32 28 0).put32 20 hdrBase).put32 12
    (if 0 < dcdLen then hdrBase + dcdTable else 0)).put32 16 (hdrBase + 32)).put32 32
      (entryPoint + 2 ^ 32 - s.initLoadsize)
  if s.csfSize = 0 then (s.put32 24 0).put32 36 size
  else
    (s.put32 24 (entryPoint + 2 ^ 32 - s.initLoadsize + size)).put32 36 (size + s.csfSize)

/-- The variables and the header that `imximage_set_header` begins with. -/
def start (s : Img) (payload : Mem) : Img :=
  { s with version := 1, ivtOffset := undefined, csfSize := 0, hdr := blank payload }

/-- The load size is no less than what it has to hold. -/
def growLoadsize (s : Img) : Img :=
  if s.initLoadsize < s.ivtOffset + sizeofHeader then
    { s with initLoadsize := u32 (s.ivtOffset + sizeofHeader) }
  else s

/-- The second result is what `parse_cfg_file` left. -/
def imximageSetHeader (s : Img) (payload : Mem) (file : Str) (entryPoint fileSize : Nat) :
    Option (Img × Img) :=
  (parseCfgFile (start s payload) file).map fun r =>
    if r.1.version = 2 then (setImxHdrV2 (growLoadsize r.1) r.2 entryPoint fileSize, r.1)
    else (setImxHdrV1 r.1 r.2 entryPoint fileSize, r.1)

/-! ## Checks -/

def detectImximageVersion (m : Mem) : Option Nat :=
  if get32 m 4 = 0xB1 ∧ get32 m 28 = 0xB17219E9 then some 1
  else if m 0 = 0xD1 ∧ m dcdTable = 0xD2 then some 2
  else if m 0 = 0xD1 ∧ get32 m bootDataPlugin ≠ 0 then some 2
  else none

def imximageVerifyHeader (m : Mem) : Bool := (detectImximageVersion m).isSome

/-- The size of the table that is printed is checked. -/
def printHdrV1 (m : Mem) : Bool := get32 m 32 ≤ maxHwCfgSizeV1 * 12

def printHdrV2 (m : Mem) : Bool :=
  get32 m bootDataPlugin ≠ 0 ∨ u32 (m.be16 (dcdTable + 1) + 2 ^ 32 - 8) ≤ maxHwCfgSizeV2 * 8

/-- Whether `imximage_print_header` returns. -/
def imximagePrintHeader (m : Mem) : Bool :=
  match detectImximageVersion m with
  | some 1 => printHdrV1 m
  | some _ => printHdrV2 m
  | none => false

end Imx.Imximage
