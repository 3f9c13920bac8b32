import Mathlib.Data.List.Basic
import Mathlib.Tactic.Common

/-!
# Calls without a bound

A recursive function that nothing bounds is run with a count of the calls it may nest, and `none` is
a run that has not come back by then. `Gives f a` says that the function comes back with `a`: from
some count on that is the result. It is closed under the ways such functions are put together.
-/

namespace Imx.Base

variable {α β : Type*} {f g : Nat → Option α} {a b : α}

/-- From some count on, the result is `a`. -/
def Gives (f : Nat → Option α) (a : α) : Prop := ∃ n, ∀ k, n ≤ k → f k = some a

/-- There is only one result. -/
lemma Gives.unique (ha : Gives f a) (hb : Gives f b) : a = b := by
  obtain ⟨n, ha⟩ := ha
  obtain ⟨m, hb⟩ := hb
  have eq := (ha (max n m) (Nat.le_max_left n m)).symm.trans (hb (max n m) (Nat.le_max_right n m))
  exact Option.some.inj eq

/-- A call that comes back does so with a larger count, too. -/
lemma gives_of_mono {k : Nat} (mono : ∀ k, f k = some a → f (k + 1) = some a) (h : f k = some a) :
    Gives f a := by
  refine ⟨k, fun j le => ?_⟩
  induction le with
  | refl => exact h
  | step _ ih => exact mono _ ih

/-- A call that is the same as another one. -/
lemma Gives.congr (ha : Gives f a) (eq : ∀ k, g k = f k) : Gives g a := by
  rwa [funext eq]

/-- A call that comes back at once. -/
lemma gives_of_succ (h : ∀ k, f (k + 1) = some a) : Gives f a := by
  refine ⟨1, fun k le => ?_⟩
  obtain ⟨k, rfl⟩ := Nat.exists_eq_add_of_le le
  rw [Nat.add_comm]
  exact h k

/-- A call that comes back with what another one gives. -/
lemma Gives.succ (ha : Gives g a) (h : ∀ k, f (k + 1) = g k) : Gives f a := by
  obtain ⟨n, ha⟩ := ha
  refine ⟨n + 1, fun k le => ?_⟩
  obtain ⟨k, rfl⟩ : ∃ j, k = j + 1 := ⟨k - 1, by omega⟩
  rw [h]
  exact ha k (Nat.le_of_succ_le_succ le)

/-- The result of a call is changed. -/
lemma Gives.map (ha : Gives f a) (h : α → β) : Gives (fun k => (f k).map h) (h a) := by
  obtain ⟨n, ha⟩ := ha
  refine ⟨n, fun k le => ?_⟩
  simp only [ha k le, Option.map_some]

/-- One call after another. -/
lemma Gives.bind {h : Nat → α → Option β} {b : β} (ha : Gives f a) (hb : Gives (fun k => h k a) b) :
    Gives (fun k => (f k).bind (h k)) b := by
  obtain ⟨n, ha⟩ := ha
  obtain ⟨m, hb⟩ := hb
  refine ⟨max n m, fun k le => ?_⟩
  simp only [ha k (Nat.le_trans (Nat.le_max_left n m) le), Option.bind_some]
  exact hb k (Nat.le_trans (Nat.le_max_right n m) le)

/-- One call for each member of a list. -/
lemma gives_mapM {ι : Type*} {h : Nat → ι → Option β} {xs : List ι}
    (each : ∀ x ∈ xs, ∃ b, Gives (fun k => h k x) b) :
    ∃ bs, Gives (fun k => xs.mapM (h k)) bs := by
  induction xs with
  | nil => exact ⟨[], 0, fun _ _ => rfl⟩
  | cons x xs ih =>
    obtain ⟨b, here⟩ := each x List.mem_cons_self
    obtain ⟨bs, there⟩ := ih fun y mem => each y (List.mem_cons_of_mem x mem)
    refine ⟨b :: bs, ?_⟩
    simp only [List.mapM_cons, Option.bind_eq_bind, Option.pure_def]
    exact here.bind (there.bind ⟨0, fun _ _ => rfl⟩)

end Imx.Base
