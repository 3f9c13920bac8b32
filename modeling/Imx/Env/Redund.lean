import Mathlib.Tactic.Common

/-!
# Redundant environment storage

What the two back ends with a redundant copy (`common/env_mmc.c` and `common/env_sf.c` under
`CONFIG_ENV_OFFSET_REDUND`) share: a device holds two copies of the environment, each with a flags
byte and a checksum over its data alone, and `gd->env_valid` names the copy in use.
-/

namespace Imx.Env

/-- The copy that `gd->env_valid` names: `1` is `first`, `2` is `second`. -/
inductive Which where
  | first
  | second
  deriving DecidableEq, Repr

/-- The copy that is not in use. -/
def Which.other : Which → Which
  | .first => .second
  | .second => .first

@[simp]
lemma Which.other_ne {w : Which} : w.other ≠ w := by
  cases w <;> decide

@[simp]
lemma Which.other_other {w : Which} : w.other.other = w := by
  cases w <;> rfl

lemma Which.eq_or_other (w v : Which) : v = w ∨ v = w.other := by
  cases w <;> cases v <;> decide

/-- One stored copy (C `env_t`); `crcOk` is the outcome of checking `crc` against `data`. -/
structure Copy (α : Type) where
  data : α
  flags : UInt8
  crcOk : Bool
  deriving DecidableEq

/-- The storage with its two copies. -/
structure Device (α : Type) where
  first : Copy α
  second : Copy α
  deriving DecidableEq

/-- What a boot ends up with: a stored environment, or the default one and the reason why. -/
inductive Import (α : Type) where
  | env (data : α)
  | default (errmsg : String)
  deriving DecidableEq

namespace Device

variable {α : Type} {d : Device α} {c : Copy α} {w : Which}

/-- The named copy. -/
def get (d : Device α) : Which → Copy α
  | .first => d.first
  | .second => d.second

/-- Replace the named copy. -/
def set (d : Device α) (w : Which) (c : Copy α) : Device α :=
  match w with
  | .first => { d with first := c }
  | .second => { d with second := c }

@[simp]
lemma get_set_self : (d.set w c).get w = c := by
  cases w <;> rfl

@[simp]
lemma get_set_other : (d.set w c).get w.other = d.get w.other := by
  cases w <;> rfl

@[simp]
lemma get_set_of_other : (d.set w.other c).get w = d.get w := by
  cases w <;> rfl

end Device

end Imx.Env
