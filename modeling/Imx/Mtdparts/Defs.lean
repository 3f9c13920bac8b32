import Mathlib.Algebra.Group.Nat.Even
import Mathlib.Tactic.Common

/-!
# MTD partitions

Model of `cmd/mtdparts.c` without `CONFIG_CMD_MTDPARTS_SPREAD`, after relocation. A `Mtd` holds the
static variables of the file together with the environment variables it uses. A device or a
partition is known by the number of the `malloc` that made it (`ptr`). A `char` is a `Char`, and the
parsers return what is left of their text. `flash` is what `get_mtd_info` finds, `junk` is what lies
behind the 16 bytes of `tmp_ep` in `mtdparts_init`.

What is left out: what is printed; `mtddevnum` and `mtddevname`, which `index_partitions` sets and
nothing here reads; the sector size of a partition. A block or an array is as large as what is
written into it, so that the generated name (cut afterwards) and a text of more than `last_parts`
harm nothing else.

C → Lean naming: `current_mtd_dev` → `currentDev`, `current_mtd_partnum` → `currentPartnum`,
`num_parts` → `numParts`; a status of 0 is `true`.
-/

namespace Imx.Mtdparts

/-- A C string. -/
abbrev Str := List Char

def u8 (n : Nat) : Nat := n % 2 ^ 8

def u16 (n : Nat) : Nat := n % 2 ^ 16

def u64 (n : Nat) : Nat := n % 2 ^ 64

def sizeRemaining : Nat := 2 ^ 64 - 1

def offsetNotSpecified : Nat := 2 ^ 64 - 1

def minPartSize : Nat := 4096

def mtdidsMaxlen : Nat := 128

def mtdpartsMaxlen : Nat := 512

def partitionMaxlen : Nat := 16

def partAddDescMaxlen : Nat := 64

/-! ## Strings and numbers -/

/-- The text before the first `c` and the text behind it (C `strchr`). -/
def strchr (c : Char) : Str → Option (Str × Str)
  | [] => none
  | a :: p => if a = c then some ([], p) else (strchr c p).map fun r => (a :: r.1, r.2)

/-- What follows a given beginning (C `strncmp`). -/
def behind (head p : Str) : Option Str := if head <+: p then some (p.drop head.length) else none

def isxdigit (c : Char) : Bool :=
  '0' ≤ c ∧ c ≤ '9' ∨ 'a' ≤ c ∧ c ≤ 'f' ∨ 'A' ≤ c ∧ c ≤ 'F'

/-- The value of a digit. -/
def digitValue (c : Char) : Nat :=
  if c.isDigit then c.toNat - '0'.toNat else c.toUpper.toNat - 'A'.toNat + 10

/-- The loop of `simple_strtoull` in numbers below `m`. -/
def digits (m base : Nat) : Nat → Str → Nat × Str
  | acc, [] => (acc, [])
  | acc, c :: cs =>
    if isxdigit c ∧ digitValue c < base then digits m base ((acc * base + digitValue c) % m) cs
    else (acc, c :: cs)

/-- The base a number is written in, and its digits. -/
def radix (cp : Str) : Nat × Str :=
  match cp with
  | '0' :: 'x' :: d :: cs => if isxdigit d then (16, d :: cs) else (8, 'x' :: d :: cs)
  | '0' :: cs => (8, cs)
  | _ => (10, cp)

/-- `simple_strtoull` with base 0, and `simple_strtoul`, which has a smaller `m`. -/
def simpleStrtoull (m : Nat) (cp : Str) : Nat × Str :=
  digits m (radix cp).1 0 (radix cp).2

/-- `%llu` and `%d`. -/
def dec (n : Nat) : Str := Nat.toDigits 10 n

/-- `%08llx`. -/
def hex8 (n : Nat) : Str :=
  List.replicate (8 - (Nat.toDigits 16 n).length) '0' ++ Nat.toDigits 16 n

/-- A number and its suffix. -/
def memsizeParse (p : Str) : Nat × Str :=
  let r := simpleStrtoull (2 ^ 64) p
  match r.2 with
  | [] => r
  | c :: cs =>
    if c = 'G' ∨ c = 'g' then (u64 (r.1 * 2 ^ 30), cs)
    else if c = 'M' ∨ c = 'm' then (u64 (r.1 * 2 ^ 20), cs)
    else if c = 'K' ∨ c = 'k' then (u64 (r.1 * 2 ^ 10), cs)
    else r

def memsizeFormat (size : Nat) : Str :=
  if size % 2 ^ 30 = 0 then dec (size / 2 ^ 30) ++ ['g']
  else if size % 2 ^ 20 = 0 then dec (size / 2 ^ 20) ++ ['m']
  else if size % 2 ^ 10 = 0 then dec (size / 2 ^ 10) ++ ['k']
  else dec size

/-! ## The tables -/

/-- The types of a device. -/
inductive DevType where
  | nor
  | nand
  | onenand
deriving DecidableEq, Repr

/-- C `MTD_DEV_TYPE`. -/
def DevType.name : DevType → Str
  | .nand => "nand".toList
  | .onenand => "onenand".toList
  | .nor => "nor".toList

/-- C `struct mtdids`. -/
structure MtdIds where
  type : DevType
  num : Nat
  size : Nat
  mtdId : Str
deriving DecidableEq, Repr

/-- A region of blocks of one size. -/
structure EraseRegion where
  offset : Nat
  numblocks : Nat
  erasesize : Nat

/-- What is used of `struct mtd_info`. -/
structure MtdInfo where
  size : Nat
  erasesize : Nat
  eraseregions : List EraseRegion
  size_lt : size < 2 ^ 64

/-- C `struct part_info`. -/
structure Part where
  ptr : Nat
  name : Str
  autoName : Bool
  size : Nat
  offset : Nat
  maskFlags : Nat
deriving DecidableEq, Repr

/-- C `struct mtd_device`. -/
structure Device where
  ptr : Nat
  id : MtdIds
  numParts : Nat
  parts : List Part
deriving DecidableEq, Repr

/-- The environment variables. -/
structure Env where
  mtdids : Option Str
  mtdparts : Option Str
  partition : Option Str
deriving DecidableEq, Repr

/-- The variables of the file. `next` is the number of the next `malloc`. -/
structure Mtd where
  env : Env
  ids : List MtdIds
  devices : List Device
  currentDev : Option Nat
  currentPartnum : Nat
  lastIds : Str
  lastParts : Str
  lastPartition : Str
  next : Nat
deriving DecidableEq, Repr

/-- The variables at the first command. -/
def Mtd.boot (env : Env) : Mtd := ⟨env, [], [], none, 0, [], [], [], 0⟩

variable (flash : DevType → Nat → Option MtdInfo) (mtdidsDefault : Option Str) (junk : Str)

/-! ## The current partition -/

/-- The partition of a number. -/
def mtdPartInfo (dev : Device) (partNum : Nat) : Option Part :=
  if dev.numParts ≤ partNum then none else dev.parts[partNum]?

/-- The current device. -/
def Mtd.current (s : Mtd) : Option Device :=
  s.currentDev.bind fun ptr => s.devices.find? (·.ptr = ptr)

/-- Save the current partition in the variable `partition`. -/
def currentSave (s : Mtd) : Mtd :=
  match s.current with
  | some dev =>
    let buf := dev.id.type.name ++ dec dev.id.num ++ ',' :: dec s.currentPartnum
    { s with env := { s.env with partition := some buf }, lastPartition := buf.take partitionMaxlen }
  | none => { s with env := { s.env with partition := none }, lastPartition := [] }

/-- Make a partition the current one and save it. -/
def Mtd.setCurrent (s : Mtd) (dev : Device) (pnum : Nat) : Mtd :=
  currentSave { s with currentDev := some dev.ptr, currentPartnum := pnum }

/-- The partition that is denoted. -/
def Mtd.denoted (s : Mtd) : Option (Nat × Part) :=
  s.current.bind fun dev => (mtdPartInfo dev s.currentPartnum).map (dev.ptr, ·)

/-- Store a device that was changed. -/
def Mtd.putDevice (s : Mtd) (dev : Device) : Mtd :=
  { s with devices := s.devices.map fun d => if d.ptr = dev.ptr then dev else d }

/-! ## Partitions -/

/-- The offsets a region of `n` blocks begins a block at. -/
def EraseRegion.starts (r : EraseRegion) : List Nat :=
  (List.range r.numblocks).map fun j => (r.offset + j * r.erasesize) % 2 ^ 32

/-- Where the last of the regions ends. -/
def lastStart (regions : List EraseRegion) : Option Nat :=
  regions.getLast?.map fun r => (r.offset + r.numblocks * r.erasesize) % 2 ^ 32

def partValidateEraseblock (id : MtdIds) (part : Part) : Bool :=
  match flash id.type id.num with
  | none => false
  | some mtd =>
    if mtd.eraseregions = [] then
      part.offset % mtd.erasesize = 0 ∧ part.size % mtd.erasesize = 0
    else
      let starts := mtd.eraseregions.flatMap EraseRegion.starts
      part.offset ∈ starts ∧
        (u64 (part.offset + part.size) ∈ starts ∨
          some (u64 (part.offset + part.size)) = lastStart mtd.eraseregions)

/-- A size that refers to all the remaining space. -/
def fillSize (id : MtdIds) (part : Part) : Part :=
  if part.size = sizeRemaining then { part with size := u64 (id.size + 2 ^ 64 - part.offset) }
  else part

/-- The partition with its size filled in, when it is a valid one. -/
def partValidate (id : MtdIds) (part : Part) : Option Part :=
  let part := fillSize id part
  if id.size < part.offset then none
  else if u64 (part.offset + part.size) ≤ part.offset then none
  else if id.size < u64 (part.offset + part.size) then none
  else if partValidateEraseblock flash id part then some part
  else none

/-- Put a partition before the first that does not begin before it. The second result is that one. -/
def sortInsert (part : Part) : List Part → Option (List Part × Option Part)
  | [] => some ([part], none)
  | pi :: ps =>
    -- be compliant with kernel cmdline, allow only one partition at offset zero
    if part.offset = pi.offset ∧ pi.offset = 0 then none
    else if part.offset ≤ pi.offset then some (part :: pi :: ps, some pi)
    else (sortInsert part ps).map fun r => (pi :: r.1, r.2)

/-- The partition info of the current partition, when we are updating the current device. -/
def currPi (s : Mtd) (dev : Device) : Option Part :=
  if s.currentDev = some dev.ptr then mtdPartInfo dev s.currentPartnum else none

/-- The current partition moves on when one is put before it. -/
def updateCurrent (s : Mtd) (dev : Device) (before : Option Part) : Mtd :=
  match currPi s dev, before with
  | some curr, some pi =>
    if pi.offset ≤ curr.offset then
      currentSave { s with currentPartnum := u8 (s.currentPartnum + 1) }
    else s
  | _, _ => s

/-- Add a partition to the list of a device. -/
def partSortAdd (s : Mtd) (dev : Device) (part : Part) : Option (Mtd × Device) :=
  (sortInsert part dev.parts).map fun r =>
    (updateCurrent s dev r.2, { dev with parts := r.1, numParts := u16 (dev.numParts + 1) })

def partAdd (s : Mtd) (dev : Device) (part : Part) : Option (Mtd × Device) :=
  (partValidate flash dev.id part).bind (partSortAdd s dev)

/-! ## Devices -/

def deviceDel (s : Mtd) (dev : Device) : Mtd :=
  let s := { s with devices := s.devices.filter (·.ptr ≠ dev.ptr) }
  if s.currentDev = some dev.ptr then
    match s.devices with
    | [] => currentSave { s with currentDev := none }
    | first :: _ => s.setCurrent first 0
  else s

def partDel (s : Mtd) (dev : Device) (part : Part) : Mtd :=
  if dev.numParts = 1 then deviceDel s dev
  else
    let dev' := { dev with
      parts := dev.parts.filter (·.ptr ≠ part.ptr), numParts := u16 (dev.numParts + (2 ^ 16 - 1)) }
    match currPi s dev with
    | none => s.putDevice dev'
    | some curr =>
      let partnum :=
        if curr.ptr = part.ptr then 0
        else if part.offset ≤ curr.offset then u8 (s.currentPartnum + (2 ^ 8 - 1))
        else s.currentPartnum
      currentSave ({ s with currentPartnum := partnum }.putDevice dev')

def deviceFind (s : Mtd) (type : DevType) (num : Nat) : Option Device :=
  s.devices.find? fun dev => dev.id.type = type ∧ dev.id.num = num

def deviceAdd (s : Mtd) (dev : Device) : Mtd :=
  if s.devices = [] then { s with devices := s.devices ++ [dev] }.setCurrent dev 0
  else { s with devices := s.devices ++ [dev] }

def mtdDevicesInit (s : Mtd) : Mtd :=
  { currentSave { s with lastParts := [], currentDev := none } with devices := [] }

def idFind (s : Mtd) (type : DevType) (num : Nat) : Option MtdIds :=
  s.ids.find? fun id => id.type = type ∧ id.num = num

def idFindByMtdId (s : Mtd) (mtdId : Str) : Option MtdIds := s.ids.find? (·.mtdId = mtdId)

/-! ## The parser -/

/-- The size of a partition. -/
def parseSize : Str → Option (Nat × Str)
  | '-' :: p => some (sizeRemaining, p)
  | p =>
    let r := memsizeParse p
    if r.1 < minPartSize then none else some r

/-- Its offset. -/
def parseOffset : Str → Nat × Str
  | '@' :: p => memsizeParse p
  | p => (offsetNotSpecified, p)

/-- Its name. -/
def parseName : Str → Option (Option Str × Str)
  | '(' :: p =>
    match strchr ')' p with
    | none => none
    | some (name, p) => if name = [] then none else some (some name, p)
  | p => some (none, p)

/-- Its options. -/
def parseOptions : Str → Nat × Str
  | 'r' :: 'o' :: p => (1, p)
  | p => (0, p)

/-- The end of its definition. -/
def parseEnd (size : Nat) : Str → Option Str
  | ',' :: p => if size = sizeRemaining then none else some p
  | ';' :: p => some (';' :: p)
  | [] => some []
  | _ => none

/-- A new partition. A generated name is cut to what it was given room for. -/
def newPart (ptr size offset maskFlags : Nat) : Option Str → Part
  | some name => ⟨ptr, name, false, size, offset, maskFlags⟩
  | none =>
    ⟨ptr, ("0x".toList ++ hex8 size ++ "@0x".toList ++ hex8 offset).take 21, true, size, offset,
      maskFlags⟩

/-- One partition definition. -/
def partParse (ptr : Nat) (p : Str) : Option (Part × Str) :=
  (parseSize p).bind fun size =>
    let offset := parseOffset size.2
    (parseName offset.2).bind fun name =>
      let options := parseOptions name.2
      (parseEnd size.1 options.2).map fun p =>
        (newPart ptr size.1 offset.1 options.1 name.1, p)

/-- The end of the text of a device. -/
def atEnd (p : Str) : Bool := p.head?.all (· = ';')

/-- The offset of a partition when it was not specified. -/
def fillOffset (part : Part) (offset : Nat) : Part :=
  if part.offset = offsetNotSpecified then { part with offset := offset } else part

/-- The partition definitions of a device. -/
def parseParts (id : MtdIds) : Nat → Nat → Str → Nat → Option (List Part × Str)
  | 0, _, _, _ => none
  | fuel + 1, ptr, p, offset =>
    if atEnd p then some ([], p)
    else
      (partParse ptr p).bind fun r =>
        (partValidate flash id (fillOffset r.1 offset)).bind fun part =>
          (parseParts id fuel (ptr + 1) r.2 (u64 (part.offset + part.size))).map fun q =>
            (part :: q.1, q.2)

/-- Where a partition without an offset goes: behind the last one of the device. -/
def firstOffset (s : Mtd) (id : MtdIds) : Nat :=
  match (deviceFind s id.type id.num).bind (·.parts.getLast?) with
  | some part => u64 (part.offset + part.size)
  | none => 0

/-- The next device definition. -/
def nextDevice : Str → Str
  | ';' :: p => p
  | p => p

/-- One device with its partitions. -/
def deviceParse (s : Mtd) (mtdDev : Str) : Option (Mtd × Device × Str) :=
  (strchr ':' mtdDev).bind fun head =>
    (idFindByMtdId s head.1).bind fun id =>
      (parseParts flash id (head.2.length + 1) s.next head.2 (firstOffset s id)).bind fun r =>
        if r.1 = [] then none
        else
          let dev : Device := ⟨s.next + r.1.length, id, 0, []⟩
          let s := { s with next := s.next + r.1.length + 1 }
          (r.1.foldlM (fun t part => partSortAdd t.1 t.2 part) (s, dev)).map fun t =>
            (t.1, t.2, nextDevice r.2)

/-- The devices of the variable `mtdparts`. -/
def parseDevices : Nat → Mtd → Str → Mtd × Bool
  | 0, s, _ => (s, false)
  | fuel + 1, s, p =>
    if p = [] then (s, true)
    else
      match deviceParse flash s p with
      | none => (s, false)
      | some (s, dev, p) =>
        if (deviceFind s dev.id.type dev.id.num).isSome then (s, false)
        else parseDevices fuel { s with devices := s.devices ++ [dev] } p

def parseMtdparts (s : Mtd) : Mtd × Bool :=
  let s := mtdDevicesInit s
  -- re-read 'mtdparts' variable
  match s.env.mtdparts.bind (behind "mtdparts=".toList) with
  | none => (s, false)
  | some p =>
    if p = [] then ({ s with devices := [] }, false)
    else
      let r := parseDevices flash (p.length + 1) s p
      if r.2 then r else ({ r.1 with devices := [] }, false)

/-- The number of a device id. -/
def mtdIdNumber (type : DevType) : Str → Option (DevType × Nat × Str)
  | [] => none
  | c :: cs =>
    if c.isDigit then
      let r := simpleStrtoull (2 ^ 32) (c :: cs)
      some (type, u8 r.1, r.2)
    else none

/-- A device id: its type and its number. -/
def mtdIdParse (id : Str) : Option (DevType × Nat × Str) :=
  match behind "nand".toList id, behind "nor".toList id, behind "onenand".toList id with
  | some p, _, _ => mtdIdNumber .nand p
  | none, some p, _ => mtdIdNumber .nor p
  | none, none, some p => mtdIdNumber .onenand p
  | none, none, none => none

/-- The entries of the variable `mtdids`. A device that does not exist leaves what was found. -/
def parseIds : Nat → List MtdIds → Str → List MtdIds × Bool
  | 0, ids, _ => (ids, false)
  | fuel + 1, ids, p =>
    if p = [] then (ids, true)
    else
      match mtdIdParse p with
      | some (type, num, '=' :: p) =>
        match flash type num with
        | none => (ids, false)
        | some mtd =>
          let entry := (strchr ',' p).getD (p, [])
          if ids.any fun id => id.type = type ∧ id.num = num then ([], false)
          else parseIds fuel (ids ++ [⟨type, num, mtd.size, entry.1⟩]) entry.2
      | _ => ([], false)

def parseMtdids (s : Mtd) (ids : Str) : Mtd × Bool :=
  let r := if ids = [] then ([], false) else parseIds flash (ids.length + 1) [] ids
  ({ s with lastIds := [], ids := r.1 }, r.2)

/-! ## The text -/

/-- Write a piece of text when there is room for it. -/
def emit (piece : Str) (out : Str × Nat) : Option (Str × Nat) :=
  if out.2 < piece.length then none else some (out.1 ++ piece, out.2 - piece.length)

/-- The pieces of a partition. The offset is left out when the one before ends there. -/
def partPieces (prev : Option Part) (part : Part) (more : Bool) : List Str :=
  let gap : Bool :=
    match prev with
    | none => part.offset ≠ 0
    | some prev => u64 (prev.offset + prev.size) ≠ part.offset
  [memsizeFormat part.size] ++
    (if gap then ['@' :: memsizeFormat part.offset] else []) ++
    (if part.autoName then [] else ['(' :: part.name ++ [')']]) ++
    (if part.maskFlags ≠ 0 then ["ro".toList] else []) ++
    (if more then [[',']] else [])

/-- The pieces of the partitions of a device with `numParts` of them. -/
def partsPieces (numParts : Nat) : Nat → Option Part → List Part → List Str
  | _, _, [] => []
  | partCnt, prev, part :: parts =>
    partPieces prev part (partCnt + 1 < numParts) ++
      partsPieces numParts (partCnt + 1) (some part) parts

def devicesPieces : List Device → List Str
  | [] => []
  | dev :: devices =>
    (dev.id.mtdId ++ [':']) :: partsPieces dev.numParts 0 none dev.parts ++
      (if devices = [] then [] else [[';']]) ++ devicesPieces devices

/-- The text of all devices. The room does not count the word it begins with. -/
def generateMtdparts (s : Mtd) (buflen : Nat) : Option Str :=
  if s.devices = [] then some []
  else
    ((devicesPieces s.devices).foldlM (fun out piece => emit piece out)
      ("mtdparts=".toList, buflen - 1)).map Prod.fst

def generateMtdpartsSave (s : Mtd) : Mtd × Bool :=
  match generateMtdparts s mtdpartsMaxlen with
  | none => ({ s with lastParts := [], env := { s.env with mtdparts := none } }, false)
  | some buf =>
    ({ s with
        lastParts := buf
        env := { s.env with mtdparts := if buf = [] then none else some buf } }, true)

/-! ## Commands -/

/-- A partition by its name, else by its device and number. -/
def findDevAndPart (s : Mtd) (id : Str) : Option (Device × Nat × Part) :=
  match s.devices.findSome? fun dev =>
    (dev.parts.zipIdx.find? (·.1.name = id)).map fun r => (dev, u8 r.2, r.1) with
  | some r => some r
  | none =>
    match mtdIdParse id with
    | some (type, dnum, ',' :: c :: p) =>
      let r := simpleStrtoull (2 ^ 32) (c :: p)
      if r.2 ≠ [] then none
      else
        (deviceFind s type dnum).bind fun dev =>
          (mtdPartInfo dev (u8 r.1)).map fun part => (dev, u8 r.1, part)
    | _ => none

/-- Use the partition that was set in the environment. -/
def useCurrent (s : Mtd) (tmpEp : Str) : Mtd :=
  if tmpEp ≠ [] ∧ tmpEp ≠ s.lastPartition then
    match findDevAndPart s tmpEp with
    | some (dev, pnum, _) => s.setCurrent dev pnum
    | none => s
  else if s.env.partition = none then currentSave s
  else s

/-- The partition variable as it was copied. -/
def copyPartition (partition : Str) : Str :=
  if partition.length < partitionMaxlen then partition
  else partition.take partitionMaxlen ++ junk

/-- The part of `mtdparts_init` behind the variable `mtdids`. -/
def initParts (s : Mtd) (idsChanged : Bool) (tmpEp : Str) : Mtd × Bool :=
  match s.env.mtdparts with
  | none => if s.lastParts ≠ [] then (mtdDevicesInit s, true) else (s, true)
  | some parts =>
    if s.lastParts = [] ∨ s.lastParts ≠ parts ∨ idsChanged then
      let r := parseMtdparts flash s
      match r.2, r.1.devices with
      | true, first :: _ => (useCurrent ({ r.1 with lastParts := parts }.setCurrent first 0) tmpEp, true)
      | _, _ => (r.1, false)
    else (useCurrent s tmpEp, true)

/-- If the variable `mtdids` is empty try to use defaults. -/
def useDefaults (s : Mtd) : Mtd :=
  { s with env := { s.env with mtdids := s.env.mtdids.or mtdidsDefault } }

/-- The part of `mtdparts_init` that reads the variables. -/
def initIds (s : Mtd) (tmpEp : Str) : Mtd × Bool :=
  match s.env.mtdids with
  | none => (s, false)
  | some ids =>
    if mtdidsMaxlen - 1 < ids.length then (s, false)
    else if mtdpartsMaxlen - 1 < (s.env.mtdparts.getD []).length then (s, false)
    else if s.lastIds ≠ [] ∧ s.lastIds = ids then initParts flash s false tmpEp
    else
      let r := parseMtdids flash s ids
      if r.2 then initParts flash { r.1 with lastIds := ids } true tmpEp
      else (mtdDevicesInit r.1, false)

def mtdpartsInit (s : Mtd) : Mtd × Bool :=
  initIds flash (useDefaults mtdidsDefault s) (copyPartition junk (s.env.partition.getD []))

/-- The text of the partition to add. -/
def addDesc (id : MtdIds) (size name : Str) (ro : Option Str) : Str :=
  id.mtdId ++ ':' :: size ++ '(' :: name ++ ')' :: ro.getD []

/-- The length that is checked, in eight bits. -/
def addLen (id : MtdIds) (size name : Str) (ro : Option Str) : Nat :=
  u8 (id.mtdId.length + 1 + size.length + (name.length + 2) +
    if ro.any fun ro => ro.length = 2 then 2 else 0)

/-- `mtdparts add`, when the variables are in sync with the environment. -/
def mtdpartsAdd (s : Mtd) (mtdDev size name : Str) (ro : Option Str) : Mtd × Bool :=
  match (mtdIdParse mtdDev).bind fun r => idFind s r.1 r.2.1 with
  | none => (s, false)
  | some id =>
    if partAddDescMaxlen ≤ addLen id size name ro then (s, false)
    else
      match deviceParse flash s (addDesc id size name ro) with
      | none => (s, false)
      | some (s, dev, _) =>
        match deviceFind s dev.id.type dev.id.num, dev.parts with
        | none, _ => generateMtdpartsSave (deviceAdd s dev)
        | some devTmp, p :: _ =>
          match partAdd flash s devTmp p with
          | none => (deviceDel s dev, false)
          | some (s, devTmp) => generateMtdpartsSave (s.putDevice devTmp)
        | some _, [] => (s, false)

def deletePartition (s : Mtd) (id : Str) : Mtd × Bool :=
  match findDevAndPart s id with
  | none => (s, false)
  | some (dev, _, part) => generateMtdpartsSave (partDel s dev part)

def chpart (s : Mtd) (id : Str) : Mtd × Bool :=
  match findDevAndPart s id with
  | none => (s, false)
  | some (dev, pnum, _) => (s.setCurrent dev pnum, true)

/-- The commands. -/
inductive Command where
  | init
  | add (mtdDev size name : Str) (ro : Option Str)
  | del (id : Str)
  | chpart (id : Str)
deriving DecidableEq, Repr

/-- What a command does once `mtdparts_init` succeeded. -/
def perform (s : Mtd) : Command → Mtd × Bool
  | .init => (s, true)
  | .add mtdDev size name ro => mtdpartsAdd flash s mtdDev size name ro
  | .del id => deletePartition s id
  | .chpart id => chpart s id

/-- One command (`mtdparts_init`, `do_mtdparts`, `do_chpart`). -/
def command (s : Mtd) (c : Command) : Mtd :=
  let r := mtdpartsInit flash mtdidsDefault junk s
  if r.2 then (perform flash r.1 c).1 else r.1

end Imx.Mtdparts
