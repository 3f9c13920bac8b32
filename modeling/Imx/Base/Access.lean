import Mathlib.Data.List.Basic
import Mathlib.Tactic.Common

/-!
# Accesses to buffers

A trace of the ranges of bytes that a piece of code reads or writes, each with the size of the buffer
it is in. `AllInside` says that none of them leaves its buffer; its lemmas take a trace apart the way
the code puts it together.
-/

namespace Imx.Base

/-- A range of bytes in a buffer of `room` bytes. -/
structure Access where
  room : Nat
  start : Nat
  len : Nat
deriving DecidableEq, Repr

/-- The range lies in its buffer. -/
def Access.Inside (a : Access) : Prop := a.start + a.len ≤ a.room

instance (a : Access) : Decidable a.Inside := inferInstanceAs (Decidable (_ ≤ _))

/-- All ranges lie in their buffers. -/
def AllInside (as : List Access) : Prop := ∀ a ∈ as, a.Inside

instance (as : List Access) : Decidable (AllInside as) :=
  inferInstanceAs (Decidable (∀ a ∈ as, a.Inside))

variable {a : Access} {as bs : List Access} {c : Prop} [Decidable c]

@[simp]
lemma allInside_nil : AllInside [] := fun _ none => absurd none List.not_mem_nil

@[simp]
lemma allInside_cons : AllInside (a :: as) ↔ a.Inside ∧ AllInside as := List.forall_mem_cons

@[simp]
lemma allInside_append : AllInside (as ++ bs) ↔ AllInside as ∧ AllInside bs :=
  List.forall_mem_append

@[simp]
lemma inside_mk {room start len : Nat} : (Access.mk room start len).Inside ↔ start + len ≤ room :=
  Iff.rfl

/-- A branch that touches nothing is inside. -/
lemma allInside_ite : AllInside (if c then as else []) ↔ (c → AllInside as) := by
  by_cases h : c
  · rw [if_pos h]
    exact ⟨fun inside _ => inside, fun inside => inside h⟩
  · rw [if_neg h]
    exact iff_of_true allInside_nil fun yes => absurd yes h

lemma allInside_ite_not : AllInside (if c then [] else as) ↔ (¬ c → AllInside as) := by
  by_cases h : c
  · rw [if_pos h]
    exact iff_of_true allInside_nil fun no => absurd h no
  · rw [if_neg h]
    exact ⟨fun inside _ => inside, fun inside => inside h⟩

end Imx.Base
