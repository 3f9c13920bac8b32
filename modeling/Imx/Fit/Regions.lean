import Mathlib
import Imx.Fit.Defs

/-!
# The signed regions of a configuration

Model of `fit_config_check_sig` and `fit_region_make_list` of `common/image-sig.c`, and of
`fdt_find_regions` (`lib/libfdt/fdt_wip.c`). A structure block is the list of its tags; the numbers
of the header are those the blob states. Regions are offsets from the start of the blob, as an
`int`. An array is a list of its elements, `none` where nothing was written; a result of `none` is
an access outside of `node_inc`, `fdt_regions` or `region`. What is around the stack of
`fdt_find_regions` is other memory.
-/

namespace Imx.Fit.Regions
open Imx.Fit

/-! ## Blobs -/

/-- A tag with what belongs to it, and the bytes up to the next one. -/
inductive Tag
  | prop (nameoff : Nat) (value pad : List UInt8)
  | nop
  | beginNode (name pad : List UInt8)
  | endNode

/-- A big-endian number of 32 bits. -/
def word (n : Nat) : List UInt8 :=
  [.ofNat (n / 2 ^ 24), .ofNat (n / 2 ^ 16), .ofNat (n / 2 ^ 8), .ofNat n]

/-- The bytes of a tag. -/
def Tag.bytes : Tag → List UInt8
  | .prop nameoff value pad => word 3 ++ word value.length ++ word nameoff ++ value ++ pad
  | .nop => word 4
  | .beginNode name pad => word 1 ++ name ++ 0 :: pad
  | .endNode => word 2

/-- A blob. The tags are those that `fdt_next_tag` comes to before it returns `FDT_END`, at such a
tag or where the block ends too early. -/
structure Blob where
  totalsize : Nat
  offDtStruct : Nat
  offDtStrings : Nat
  sizeDtStruct : Nat
  /-- C `fdt_string`. -/
  string : Nat → List UInt8
  tags : List Tag
  /-- What is in memory behind the tags. -/
  behind : List UInt8
  aligned : ∀ tag ∈ tags, 4 ∣ tag.bytes.length
  /-- The offsets are `int`s. -/
  small : totalsize < 2 ^ 31 ∧ sizeDtStruct < 2 ^ 31 ∧
    offDtStruct + (tags.flatMap Tag.bytes).length + 4 < 2 ^ 31

/-- The tags from an offset on. -/
def tagsFrom : Nat → List Tag → Option (List Tag)
  | 0, tags => some tags
  | _ + 1, [] => none
  | n + 1, tag :: tags =>
    if tag.bytes.length ≤ n + 1 then tagsFrom (n + 1 - tag.bytes.length) tags else none

/-- The property with a name among those at the start: its value, and what is in memory from there
on. -/
def Blob.propLoop (fit : Blob) (name : List UInt8) : List Tag → Option (List UInt8 × List UInt8)
  | .prop nameoff value pad :: tags =>
    if fit.string nameoff = name then
      some (value, value ++ pad ++ tags.flatMap Tag.bytes ++ fit.behind)
    else fit.propLoop name tags
  | .nop :: tags => fit.propLoop name tags
  | _ => none

/-- C `fdt_getprop`, at the offset of a node. -/
def Blob.getprop (fit : Blob) (noffset : Nat) (name : String) : Option (List UInt8 × List UInt8) :=
  match tagsFrom noffset fit.tags with
  | some (.beginNode _ _ :: tags) => fit.propLoop name.toUTF8.toList tags
  | _ => none

/-! ## Regions of a blob -/

/-- Write an element of an array. -/
def putAt {α : Type} (array : List (Option α)) (i : Nat) (a : α) : Option (List (Option α)) :=
  if i < array.length then some (array.set i (some a)) else none

/-- C `struct fdt_region`. -/
structure FdtRegion where
  offset : Int
  size : Int

/-- The variables of `fdt_find_regions`; `start` is -1 outside of a region. -/
structure Walk where
  count : Nat
  start : Int
  depth : Int
  want : Int
  stack : Int → Int
  path : List UInt8
  region : List (Option FdtRegion)

def fdtErrNospace : Int := 3
def fdtErrBadlayout : Int := 10
def fdtErrBadstructure : Int := 11
/-- C `FDT_MAX_DEPTH`. -/
def fdtMaxDepth : Int := 32
/-- The size of the buffer for a path. -/
def pathLen : Nat := 200

def slash : UInt8 := 0x2f

/-- One tag (the `switch`): whether it is included, where a region in front of it stops, and the
variables, or the return value for an error. -/
def Walk.turn (fit : Blob) (inc excProp : List (List UInt8)) (offset : Nat) (w : Walk) :
    Tag → Except Int (Bool × Nat × Walk)
  | .prop nameoff _ _ =>
    .ok (decide (2 ≤ w.want) && decide (fit.string nameoff ∉ excProp), offset, w)
  | .nop => .ok (decide (2 ≤ w.want), offset, w)
  | .beginNode name pad =>
    let depth := w.depth + 1
    if depth = fdtMaxDepth then .error (-fdtErrBadstructure)
    else if pathLen ≤ w.path.length + 2 + name.length then .error (-fdtErrNospace)
    else
      let path := (if w.path.length ≠ 1 then w.path ++ [slash] else w.path) ++ name
      let stack := fun i => if i = depth then w.want else w.stack i
      let nextoffset := offset + (Tag.beginNode name pad).bytes.length
      let stopAt := if w.want = 1 then offset else nextoffset
      let (want, stopAt) :=
        if path ∈ inc then (2, stopAt)
        else if w.want ≠ 0 then (w.want - 1, stopAt)
        else (w.want, offset)
      .ok (want ≠ 0, stopAt, { w with depth, want, stack, path })
  | .endNode =>
    .ok (w.want ≠ 0, offset + Tag.endNode.bytes.length, { w with
      want := w.stack w.depth, depth := w.depth - 1
      path := ((w.path.reverse.dropWhile (· ≠ slash)).drop 1).reverse })

/-- A region begins, and it may go on with the previous one. -/
def Walk.opens (base : Int) (maxRegions : Nat) (incl : Bool) (offset : Nat) (w : Walk) :
    Option Walk :=
  if incl ∧ w.start = -1 then
    if w.count ≠ 0 ∧ w.count ≤ maxRegions then do
      let region ← w.region[w.count - 1]?
      let region ← region
      if (offset : Int) = region.offset + region.size - base then
        some { w with count := w.count - 1, start := region.offset - base }
      else some { w with start := offset }
    else some { w with start := offset }
  else some w

/-- The region at hand is stored, if there is room, and it is counted. -/
def Walk.store (base : Int) (maxRegions : Nat) (stopAt : Nat) (w : Walk) : Option Walk := do
  let region ← (if w.count < maxRegions then
    putAt w.region w.count ⟨base + w.start, stopAt - w.start⟩ else some w.region)
  some { w with region, count := w.count + 1, start := -1 }

/-- A region stops. -/
def Walk.closes (base : Int) (maxRegions : Nat) (incl : Bool) (stopAt : Nat) (w : Walk) :
    Option Walk :=
  if incl = false ∧ w.start ≠ -1 then w.store base maxRegions stopAt else some w

/-- The loop over the tags, from an offset on. -/
def findLoop (fit : Blob) (inc excProp : List (List UInt8)) (maxRegions : Nat) :
    List Tag → Nat → Walk → Option (Int × List (Option FdtRegion))
  | [], offset, w => do
    let w ← w.opens fit.offDtStruct maxRegions true offset
    if fit.behind.take 4 = word 9 ∧ offset + 4 = fit.sizeDtStruct then do
      let w ← w.store fit.offDtStruct maxRegions (offset + 4)
      some (w.count, w.region)
    else some (-fdtErrBadlayout, w.region)
  | tag :: tags, offset, w =>
    match w.turn fit inc excProp offset tag with
    | .error err => some (err, w.region)
    | .ok (incl, stopAt, w) => do
      let w ← w.opens fit.offDtStruct maxRegions incl offset
      let w ← w.closes fit.offDtStruct maxRegions incl stopAt
      findLoop fit inc excProp maxRegions tags (offset + tag.bytes.length) w

/-- Find the regions of some nodes without some properties: their number or an error, and the array
(C `fdt_find_regions`). -/
def fdtFindRegions (fit : Blob) (inc excProp : List (List UInt8)) (region : List (Option FdtRegion))
    (maxRegions : Nat) (stack : Int → Int) : Option (Int × List (Option FdtRegion)) :=
  findLoop fit inc excProp maxRegions fit.tags 0
    { count := 0, start := -1, depth := -1, want := 0, stack, path := [], region }

/-! ## Checking a signature -/

/-- C `struct image_region`, with the offset of its data in the blob. -/
structure ImageRegion where
  data : Int
  size : Int

/-- C `IMAGE_MAX_HASHED_NODES`. -/
def imageMaxHashedNodes : Nat := 100

/-- The strings that a loop over a property comes to, going on behind the end of each one. -/
def namesOf : List UInt8 → List (List UInt8)
  | [] => []
  | b :: bs =>
    if b = 0 then [] :: namesOf bs
    else
      match namesOf bs with
      | [] => [[b]]
      | name :: names => (b :: name) :: names

/-- Write elements of an array one behind the other. -/
def putAll {α : Type} : List α → Nat → List (Option α) → Option (List (Option α))
  | [], _, array => some array
  | a :: as, i, array => (putAt array i a).bind (putAll as (i + 1))

def FdtRegion.image (r : FdtRegion) : ImageRegion := ⟨r.offset, r.size⟩

/-- The loop of `fit_region_make_list`. -/
def fitRegionMakeList (fdtRegions : List (Option FdtRegion)) :
    Nat → Nat → List (Option ImageRegion) → Option (List (Option ImageRegion))
  | 0, _, region => some region
  | n + 1, i, region => do
    let r ← fdtRegions[i]?
    let r ← r
    let region ← putAt region i r.image
    fitRegionMakeList fdtRegions n (i + 1) region

/-- The value of an `int` that an unsigned number is stored in. -/
def toInt32 (n : Nat) : Int := (n : Int).bmod (2 ^ 32)

/-- What else a call depends on. -/
structure Setup where
  /-- The message of `fit_image_setup_verify` for an error. -/
  error : Option String
  /-- `fit_image_hash_get_value` finds the value. -/
  hashValue : Bool
  stack : Int → Int
  /-- The verifier of the algorithm. -/
  verify : List ImageRegion → Int

/-- The return value, the message, and the regions the verifier gets. -/
structure Checked where
  ret : Int
  errMsg : Option String
  passed : Option (List ImageRegion)

def Checked.error (msg : String) : Checked := ⟨-1, some msg, none⟩

/-- The value of a property, empty if there is none. -/
def Blob.hashedNodes (fit : Blob) (noffset : Nat) : List UInt8 :=
  ((fit.getprop noffset "hashed-nodes").map Prod.fst).getD []

/-- The region of the strings, as the property states it. -/
def Blob.stringsRegion (fit : Blob) (noffset : Nat) : Option FdtRegion :=
  (fit.getprop noffset "hashed-strings").map fun (_, strings) =>
    ⟨toInt32 (fit.offDtStrings + be32 strings), toInt32 (be32 (strings.drop 4))⟩

/-- The size of the array of regions for a number of nodes. -/
def maxRegions (count : Nat) : Nat := 20 + count * 7

/-- The regions of the nodes with some names. -/
def Blob.findRegions (fit : Blob) (inc : List (List UInt8)) (count : Nat) (stack : Int → Int) :
    Option (Int × List (Option FdtRegion)) :=
  fdtFindRegions fit inc ["data".toUTF8.toList] (List.replicate (maxRegions count) none)
    (maxRegions count - 1) stack

/-- The part of `fit_config_check_sig` behind the list of the names. -/
def checkRegions (fit : Blob) (noffset : Nat) (s : Setup) (count : Nat) (inc : List (List UInt8)) :
    Option Checked := do
  let (ret, fdtRegions) ← fit.findRegions inc count s.stack
  if ret < 0 then some (.error "Failed to hash configuration")
  else if ret = 0 then some (.error "No data to hash")
  else if (maxRegions count : Int) - 1 ≤ ret then some (.error "Too many hash regions")
  else do
    let (count, fdtRegions) ← (match fit.stringsRegion noffset with
      | some r => (putAt fdtRegions ret.toNat r).map fun fdtRegions => (ret.toNat + 1, fdtRegions)
      | none => some (ret.toNat, fdtRegions))
    let region ← fitRegionMakeList fdtRegions count 0 (List.replicate count none)
    let passed := region.filterMap id
    if s.verify passed ≠ 0 then some ⟨-1, some "Verification failed", some passed⟩
    else some ⟨0, none, some passed⟩

/-- Check the signature of a configuration (C `fit_config_check_sig`). -/
def fitConfigCheckSig (fit : Blob) (noffset : Nat) (s : Setup) : Option Checked :=
  match s.error with
  | some msg => some (.error msg)
  | none =>
    if s.hashValue = false then some (.error "Can't get hash value property")
    else
      let prop := fit.hashedNodes noffset
      let count := prop.count 0
      if count = 0 then some (.error "Can't get hashed-nodes property")
      else if imageMaxHashedNodes < count then
        some (.error "Number of hashed nodes exceeds maximum")
      else do
        let nodeInc ← putAll (namesOf prop) 0 (List.replicate count none)
        checkRegions fit noffset s count (nodeInc.filterMap id)

end Imx.Fit.Regions
