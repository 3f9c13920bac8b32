import Mathlib.Tactic.Common

/-!
# Runs

A machine is a step function from a state and an action; a run is the left fold of a list of
actions. `Along ok step s as` says that every action of the run `as` from `s` meets the condition
`ok` in the state it is taken in. `Along.invariant` is the induction every safety result of the
development goes through: what holds at the start and is kept by each step that meets `ok` holds
at the end.
-/

namespace Imx.Base

variable {S A : Type*} {ok ok' : S → A → Prop} {step : S → A → S} {s : S} {as bs : List A}

/-- Every action of the run meets `ok` in the state it is taken in. -/
def Along (ok : S → A → Prop) (step : S → A → S) : S → List A → Prop
  | _, [] => True
  | s, a :: as => ok s a ∧ Along ok step (step s a) as

/-- Checking a run is decidable when checking a step is. -/
instance Along.decidable [∀ s a, Decidable (ok s a)] :
    (s : S) → (as : List A) → Decidable (Along ok step s as)
  | _, [] => isTrue trivial
  | s, a :: as =>
    have : Decidable (Along ok step (step s a) as) := Along.decidable (step s a) as
    inferInstanceAs (Decidable (ok s a ∧ Along ok step (step s a) as))

/-- A run of two parts is the first followed by the second. -/
lemma Along.append :
    Along ok step s (as ++ bs) ↔ Along ok step s as ∧ Along ok step (as.foldl step s) bs := by
  induction as generalizing s with
  | nil => simp [Along]
  | cons a as ih => simp only [List.cons_append, Along, ih, List.foldl_cons, and_assoc]

/-- An invariant kept by every step that meets the condition holds after the run. -/
lemma Along.invariant {P : S → Prop} (run : Along ok step s as) (h0 : P s)
    (hs : ∀ s a, P s → ok s a → P (step s a)) : P (as.foldl step s) := by
  induction as generalizing s with
  | nil => exact h0
  | cons a as ih =>
    obtain ⟨ha, run⟩ := run
    exact ih run (hs s a h0 ha)

/-- What each step that meets the condition guarantees under an invariant holds all along the run. -/
lemma Along.guarantee {P : S → Prop} (run : Along ok step s as) (h0 : P s)
    (hs : ∀ s a, P s → ok s a → ok' s a ∧ P (step s a)) : Along ok' step s as := by
  induction as generalizing s with
  | nil => trivial
  | cons a as ih =>
    obtain ⟨ha, run⟩ := run
    obtain ⟨good, h1⟩ := hs s a h0 ha
    exact ⟨good, ih run h1⟩

end Imx.Base
