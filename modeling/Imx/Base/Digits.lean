import Mathlib.Data.List.Basic
import Mathlib.Tactic.Common

/-!
# Decimal digits

How the digits of a number in base 10 look: facts for the readers of numbers in a text.
-/

namespace Imx.Base

variable {c : Char} {n : Nat}

end Imx.Base
