import Imx.Base.Digits
import Imx.Mtdparts.Table

/-!
# The text of the tables

Each parser takes back what the generator wrote, when what follows begins with a character that the
generator writes there.
-/

namespace Imx.Mtdparts
open Imx.Base

variable {flash : DevType → Nat → Option MtdInfo} {id : MtdIds} {part part' : Part}
  {prev : Option Part} {more : Bool} {p rest : Str} {n m ptr : Nat}

/-! ## Numbers -/

/-- What can follow a number. -/
def Follows (p : Str) : Prop :=
  ∀ c ∈ p.head?, c = '@' ∨ c = '(' ∨ c = 'r' ∨ c = ',' ∨ c = ';'

lemma Follows.stop (h : Follows rest) :
    ∀ c ∈ rest.head?, ¬ (isxdigit c = true ∧ digitValue c < 10) := by
  intro c mem
  obtain rfl | rfl | rfl | rfl | rfl := h c mem
  · decide
  · decide
  · decide
  · decide
  · decide

/-- What can end a definition. -/
def Ends (p : Str) : Prop := ∀ c ∈ p.head?, c = ',' ∨ c = ';'

/-- The name that the user gave. -/
def Part.userName (part : Part) : Option Str := if part.autoName then none else some part.name

/-- What a valid partition begins and ends with. -/
lemma PartOk.bounds (h : PartOk flash id part) (fits : id.size < 2 ^ 64) :
    0 < part.size ∧ part.offset < offsetNotSpecified := by
  obtain ⟨_, _, lt, le⟩ := partValidate_eq h.valid
  have room : u64 (part.offset + part.size) < 2 ^ 64 := Nat.mod_lt _ (by decide)
  constructor
  · apply Nat.pos_of_ne_zero
    intro zero
    rw [zero, Nat.add_zero, u64, Nat.mod_eq_of_lt (by omega)] at lt
    omega
  · rw [offsetNotSpecified]
    omega

end Imx.Mtdparts
