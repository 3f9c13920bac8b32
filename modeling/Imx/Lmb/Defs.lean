import Mathlib.Algebra.Order.Ring.Int
import Mathlib.Data.List.Basic
import Mathlib.Tactic.Common

/-!
# Logical memory blocks

The allocator of `lib/lmb.c`: a table of memory regions and a table of reserved ones, each an array
of `MAX_LMB_REGIONS + 1` properties of which the first `cnt` count. Addresses and sizes are numbers
below `2 ^ w`, where `w` is the width of `phys_addr_t` (and of `ulong`), and every sum and
difference is taken modulo `2 ^ w`. The C names drop the prefix: `lmb_add_region` is `addRegion`.

What lies in the array behind `cnt` is kept, since the code reads it when a table has become empty;
`none` stands for a loop over the array that would leave it.
-/

namespace Imx.Lmb

/-- A range of addresses (C `struct lmb_property`). -/
structure Property where
  base : Nat
  size : Nat
deriving DecidableEq, Repr

/-- A table of ranges (C `struct lmb_region`). -/
structure Region where
  cnt : Nat
  region : Nat → Property

/-- Store into an entry of the table. -/
def Region.set (rgn : Region) (i : Nat) (p : Property) : Region :=
  { rgn with region := fun j => if j = i then p else rgn.region j }

/-- The two tables (C `struct lmb`). -/
structure Blocks where
  memory : Region
  reserved : Region

/-- The most regions a table holds (C `MAX_LMB_REGIONS`). -/
def maxLmbRegions : Nat := 8

/-- A table with one region of size zero. -/
def Region.init : Region :=
  { cnt := 1, region := fun _ => ⟨0, 0⟩ }

/-- The tables to begin with (C `lmb_init`). -/
def init : Blocks :=
  { memory := Region.init, reserved := Region.init }

section Arith

variable (w : Nat)

/-- A sum of addresses. -/
def add (a b : Nat) : Nat := (a + b) % 2 ^ w

/-- A difference of addresses. -/
def sub (a b : Nat) : Nat := (a + (2 ^ w - b)) % 2 ^ w

/-- `addr & ~(size - 1)` (C `lmb_align_down`). -/
def alignDown (addr size : Nat) : Nat := addr &&& (2 ^ w - 1 - sub w size 1)

/-- `(addr + (size - 1)) & ~(size - 1)` (C `lmb_align_up`). -/
def alignUp (addr size : Nat) : Nat := add w addr (sub w size 1) &&& (2 ^ w - 1 - sub w size 1)

/-- The ranges share an address (C `lmb_addrs_overlap`). -/
def addrsOverlap (base1 size1 base2 size2 : Nat) : Bool :=
  base1 < add w base2 size2 && base2 < add w base1 size1

/-- 1 if the second range follows the first, -1 if the first follows the second
(C `lmb_addrs_adjacent`). -/
def addrsAdjacent (base1 size1 base2 size2 : Nat) : Int :=
  if base2 = add w base1 size1 then 1
  else if base1 = add w base2 size2 then -1
  else 0

end Arith

/-! ## Adding a range -/

section Add

variable (w : Nat) (rgn : Region) (base size : Nat)

/-- Are two regions of the table adjacent (C `lmb_regions_adjacent`). -/
def regionsAdjacent (r1 r2 : Nat) : Int :=
  addrsAdjacent w (rgn.region r1).base (rgn.region r1).size (rgn.region r2).base
    (rgn.region r2).size

/-- Move the regions behind `r` down by one (C `lmb_remove_region`, for `cnt ≠ 0`). -/
def removeRegion (r : Nat) : Region :=
  { cnt := rgn.cnt - 1
    region := fun i => if r ≤ i ∧ i < rgn.cnt - 1 then rgn.region (i + 1) else rgn.region i }

/-- Let `r1` take in `r2` (C `lmb_coalesce_regions`). -/
def coalesceRegions (r1 r2 : Nat) : Region :=
  let p := rgn.region r1
  removeRegion (rgn.set r1 { p with size := add w p.size (rgn.region r2).size }) r2

/-- What the first loop of `lmb_add_region` comes to. -/
inductive Touch where
  | no
  | same
  | below (i : Nat)
  | above (i : Nat)
deriving DecidableEq, Repr

/-- The first loop: the first region that is the range itself or adjacent to it. -/
def touch : List Nat → Touch
  | [] => .no
  | i :: is =>
    let p := rgn.region i
    if p.base = base ∧ p.size = size then .same
    else if addrsAdjacent w base size p.base p.size > 0 then .below i
    else if addrsAdjacent w base size p.base p.size < 0 then .above i
    else touch is

/-- Region `i` has just been extended: let it take in the next one if they are adjacent now. The
number counts both changes. -/
def coalesceNext (i : Nat) : Region × Int :=
  if i < rgn.cnt - 1 ∧ regionsAdjacent w rgn i (i + 1) ≠ 0 then
    (coalesceRegions w rgn i (i + 1), 2)
  else (rgn, 1)

/-- The second loop: from region `n - 1` down, make room and store the range. -/
def insertLoop (rgn : Region) : Nat → Region
  | 0 => rgn
  | n + 1 =>
    if base < (rgn.region n).base then insertLoop (rgn.set (n + 1) (rgn.region n)) n
    else rgn.set (n + 1) ⟨base, size⟩

/-- Add the range to the sorted table. -/
def insertRegion : Region :=
  let rgn := insertLoop base size rgn rgn.cnt
  let rgn := if base < (rgn.region 0).base then rgn.set 0 ⟨base, size⟩ else rgn
  { rgn with cnt := rgn.cnt + 1 }

/-- Add a range to a table (C `lmb_add_region`), with the returned number. -/
def addRegion : Option (Region × Int) :=
  if rgn.cnt = 1 ∧ (rgn.region 0).size = 0 then some (rgn.set 0 ⟨base, size⟩, 0)
  else
    match touch w rgn base size (List.range rgn.cnt) with
    | .same => some (rgn, 0)
    | .below i =>
      let p := rgn.region i
      some (coalesceNext w (rgn.set i ⟨sub w p.base size, add w p.size size⟩) i)
    | .above i =>
      let p := rgn.region i
      some (coalesceNext w (rgn.set i { p with size := add w p.size size }) i)
    | .no =>
      -- with `cnt` 0 the comparison `i < cnt - 1` holds and the code looks at stale regions
      if rgn.cnt = 0 ∧ regionsAdjacent w rgn 0 1 ≠ 0 then none
      else if maxLmbRegions ≤ rgn.cnt then some (rgn, -1)
      else some (insertRegion rgn base size, 0)

end Add

/-! ## The interface -/

section Interface

variable (w : Nat) (lmb : Blocks)

/-- Add memory (C `lmb_add`). -/
def lmbAdd (base size : Nat) : Option (Blocks × Int) :=
  (addRegion w lmb.memory base size).map fun (r : Region × Int) =>
    ({ lmb with memory := r.1 }, r.2)

/-- Reserve a range (C `lmb_reserve`). -/
def lmbReserve (base size : Nat) : Option (Blocks × Int) :=
  (addRegion w lmb.reserved base size).map fun (r : Region × Int) =>
    ({ lmb with reserved := r.1 }, r.2)

/-- The first region the range belongs to. -/
def findRegion (rgn : Region) (base size : Nat) : Option Nat :=
  (List.range rgn.cnt).find? fun i =>
    (rgn.region i).base ≤ base &&
      add w base size ≤ add w (rgn.region i).base (rgn.region i).size

/-- Take the range out of region `i`, which it belongs to. -/
def freeFrom (rgn : Region) (i base size : Nat) : Option (Region × Int) :=
  let p := rgn.region i
  let stop := add w base size
  let rgnend := add w p.base p.size
  if p.base = base ∧ rgnend = stop then some (removeRegion rgn i, 0)
  else if p.base = base then some (rgn.set i ⟨stop, sub w p.size size⟩, 0)
  else if rgnend = stop then some (rgn.set i { p with size := sub w p.size size }, 0)
  else addRegion w (rgn.set i { p with size := sub w base p.base }) stop (sub w rgnend stop)

/-- Free a reserved range (C `lmb_free`). -/
def lmbFree (base size : Nat) : Option (Blocks × Int) :=
  match findRegion w lmb.reserved base size with
  | none => some (lmb, -1)
  | some i => (freeFrom w lmb.reserved i base size).map fun (r : Region × Int) =>
      ({ lmb with reserved := r.1 }, r.2)

/-- The first region that overlaps the range (C `lmb_overlaps_region`). -/
def overlapsRegion (rgn : Region) (base size : Nat) : Option Nat :=
  (List.range rgn.cnt).find? fun i =>
    addrsOverlap w base size (rgn.region i).base (rgn.region i).size

/-- The first address to try in a memory region, if it is to be tried. -/
def startBase (p : Property) (size align maxAddr : Nat) : Option Nat :=
  if p.size < size then none
  else if maxAddr = 0 then some (alignDown w (sub w (add w p.base p.size) size) align)
  else if p.base < maxAddr then
    let base := add w p.base p.size
    let base := if base < p.base then 2 ^ w - 1 else base
    some (alignDown w (sub w (min base maxAddr) size) align)
  else none

/-- How the search in one memory region ends: go on with the next one, or return. -/
inductive Tried where
  | next
  | done (reserved : Region) (addr : Nat)

/-- The `while` loop of `__lmb_alloc_base`, at most `fuel` turns. -/
def tryLoop (reserved : Region) (lmbbase size align : Nat) : Nat → Nat → Option Tried
  | 0, _ => none
  | fuel + 1, base =>
    if base ≠ 0 ∧ lmbbase ≤ base then
      match overlapsRegion w reserved base size with
      | none =>
        (addRegion w reserved base (alignUp w size align)).map fun (r : Region × Int) =>
          if r.2 < 0 then .done r.1 0 else .done r.1 base
      | some j =>
        let resBase := (reserved.region j).base
        if resBase < size then some .next
        else tryLoop reserved lmbbase size align fuel (alignDown w (sub w resBase size) align)
    else some .next

/-- The `for` loop, from memory region `n - 1` down. -/
def allocLoop (size align maxAddr : Nat) : Nat → Option (Blocks × Nat)
  | 0 => some (lmb, 0)
  | n + 1 =>
    match startBase w (lmb.memory.region n) size align maxAddr with
    | none => allocLoop size align maxAddr n
    | some base =>
      match tryLoop w lmb.reserved (lmb.memory.region n).base size align (base + 1) base with
      | none => none
      | some .next => allocLoop size align maxAddr n
      | some (.done reserved addr) => some ({ lmb with reserved }, addr)

/-- Allocate below `maxAddr`, or anywhere when it is 0 (C `lmb_alloc_base`, `__lmb_alloc_base`). -/
def lmbAllocBase (size align maxAddr : Nat) : Option (Blocks × Nat) :=
  allocLoop w lmb size align maxAddr lmb.memory.cnt

/-- Allocate anywhere (C `lmb_alloc`). -/
def lmbAlloc (size align : Nat) : Option (Blocks × Nat) :=
  lmbAllocBase w lmb size align 0

/-- Is the address reserved (C `lmb_is_reserved`). -/
def lmbIsReserved (addr : Nat) : Bool :=
  (List.range lmb.reserved.cnt).any fun i =>
    let p := lmb.reserved.region i
    p.base ≤ addr && addr ≤ sub w (add w p.base p.size) 1

end Interface

end Imx.Lmb
