import Mathlib.Data.List.Forall2
import Imx.Mtdparts.Current
import Imx.Mtdparts.Text

/-!
# The text and the tables

What `parse_mtdparts` makes of the text of a table: the same devices, with the partitions that
begin at one offset in the opposite order.
-/

namespace Imx.Mtdparts

variable {flash : DevType → Nat → Option MtdInfo} {s t : Mtd} {id : MtdIds} {ids : List MtdIds}
  {dev dev' : Device} {ds : List Device} {part part' : Part} {ps qs : List Part}
  {prev : Option Part} {p rest : Str} {fuel ptr cnt numParts : Nat}

/-- What the text says of a partition. -/
def Part.view (part : Part) : Nat × Nat × Nat × Option Str :=
  (part.offset, part.size, part.maskFlags, part.userName)

/-- What it says of a device. -/
def Device.view (dev : Device) : MtdIds × Nat × List (Nat × Nat × Nat × Option Str) :=
  (dev.id, dev.numParts, dev.parts.map Part.view)

/-- The partitions of a device that begin at an offset. -/
def Device.group (dev : Device) (offset : Nat) : List (Nat × Nat × Nat × Option Str) :=
  (dev.parts.filter (·.offset = offset)).map Part.view

/-- The partitions that begin at one offset look the same from behind. -/
def Alike (dev : Device) : Prop := ∀ offset, dev.group offset = (dev.group offset).reverse

/-- The text of a list of devices. -/
def mtdpartsText (ds : List Device) : Str := "mtdparts=".toList ++ (devicesPieces ds).flatten

/-! ## Partitions -/

section
variable {α : Type} {key : α → Nat} {x : α} {xs ys : List α} {k : Nat}

end

/-! ## Devices -/

variable (ds) in
lemma length_mtdpartsText :
    (mtdpartsText ds).length = "mtdparts=".toList.length + (devicesPieces ds).flatten.length :=
  List.length_append

end Imx.Mtdparts
