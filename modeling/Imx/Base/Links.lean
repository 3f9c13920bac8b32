import Mathlib.Data.List.Basic
import Mathlib.Logic.Function.Basic
import Mathlib.Tactic.Common

/-!
# Doubly linked lists

Lists threaded through an array of nodes. The links are indices, and the array is a function `d`
from indices to nodes. `Seg d p q xs` says that the nodes `xs` are linked one after the other in
both directions, with `p` before the first and `q` behind the last. Two segments that meet are one
(`Seg.append`), a change elsewhere is not seen (`Seg.congr`), and an end is bound to a new neighbour
by changing one link (`Seg.bindNext`, `Seg.bindPrev`).
-/

namespace Imx.Base

/-- A node: what it holds and its two links. -/
@[ext]
structure Node (α : Type*) where
  val : α
  next : Nat
  prev : Nat
deriving DecidableEq, Repr

variable {α : Type*} {d d' : Nat → Node α} {p q p' q' i v : Nat} {xs ys : List (Nat × α)}

/-- The index of the first node, `q` if there is none. -/
def headIdx (q : Nat) : List (Nat × α) → Nat
  | [] => q
  | x :: _ => x.1

/-- The index of the last node, `p` if there is none. -/
def lastIdx (p : Nat) : List (Nat × α) → Nat
  | [] => p
  | x :: xs => lastIdx x.1 xs

/-- The nodes are linked in both directions, between `p` and `q`. -/
def Seg (d : Nat → Node α) (p q : Nat) : List (Nat × α) → Prop
  | [] => True
  | x :: xs => d x.1 = ⟨x.2, headIdx q xs, p⟩ ∧ Seg d x.1 q xs

/-- Change the link to the next node. -/
def setNext (d : Nat → Node α) (i v : Nat) : Nat → Node α :=
  Function.update d i { d i with next := v }

/-- Change the link to the previous node. -/
def setPrev (d : Nat → Node α) (i v : Nat) : Nat → Node α :=
  Function.update d i { d i with prev := v }

/-- Let the last node be followed by `v`. -/
def bindNext (d : Nat → Node α) (xs : List (Nat × α)) (v : Nat) : Nat → Node α :=
  if xs = [] then d else setNext d (lastIdx 0 xs) v

/-- Let the first node be preceded by `v`. -/
def bindPrev (d : Nat → Node α) (xs : List (Nat × α)) (v : Nat) : Nat → Node α :=
  if xs = [] then d else setPrev d (headIdx 0 xs) v

lemma headIdx_append : headIdx q (xs ++ ys) = headIdx (headIdx q ys) xs := by
  cases xs <;> rfl

lemma lastIdx_append : lastIdx p (xs ++ ys) = lastIdx (lastIdx p xs) ys := by
  induction xs generalizing p with
  | nil => rfl
  | cons x xs ih => exact ih

lemma headIdx_of_ne_nil (h : xs ≠ []) : headIdx q xs = headIdx q' xs := by
  cases xs with
  | nil => exact absurd rfl h
  | cons x xs => rfl

lemma headIdx_mem (h : xs ≠ []) : headIdx q xs ∈ xs.map Prod.fst := by
  cases xs with
  | nil => exact absurd rfl h
  | cons x xs => simp [headIdx]

lemma lastIdx_mem (h : xs ≠ []) : lastIdx p xs ∈ xs.map Prod.fst := by
  induction xs generalizing p with
  | nil => exact absurd rfl h
  | cons x xs ih =>
    cases xs with
    | nil => simp [lastIdx]
    | cons y ys =>
      rw [lastIdx, List.map_cons]
      exact List.mem_cons_of_mem _ (ih (by simp))

/-- Two segments that meet are one segment. -/
lemma Seg.append :
    Seg d p q (xs ++ ys) ↔ Seg d p (headIdx q ys) xs ∧ Seg d (lastIdx p xs) q ys := by
  induction xs generalizing p with
  | nil => simp [Seg, lastIdx]
  | cons x xs ih => simp only [List.cons_append, Seg, headIdx_append, ih, lastIdx, and_assoc]

/-- Only the nodes of the segment matter. -/
lemma Seg.congr (seg : Seg d p q xs) (h : ∀ i ∈ xs.map Prod.fst, d' i = d i) : Seg d' p q xs := by
  induction xs generalizing p with
  | nil => trivial
  | cons x xs ih =>
    obtain ⟨eq, seg⟩ := seg
    rw [List.map_cons] at h
    refine ⟨?_, ih seg fun i hi => h i (List.mem_cons_of_mem _ hi)⟩
    rw [h x.1 List.mem_cons_self, eq]

/-- The node in the middle of a segment. -/
lemma Seg.node {x : Nat × α} (seg : Seg d p q (xs ++ x :: ys)) :
    d x.1 = ⟨x.2, headIdx q ys, lastIdx p xs⟩ :=
  (append.1 seg).2.1

lemma bindNext_of_notMem (h : i ∉ xs.map Prod.fst) : bindNext d xs v i = d i := by
  rw [bindNext]
  split
  · rfl
  · rename_i ne
    apply Function.update_of_ne
    rintro rfl
    exact h (lastIdx_mem ne)

lemma bindPrev_of_notMem (h : i ∉ xs.map Prod.fst) : bindPrev d xs v i = d i := by
  rw [bindPrev]
  split
  · rfl
  · rename_i ne
    apply Function.update_of_ne
    rintro rfl
    exact h (headIdx_mem ne)

/-- The end of a segment is bound to a new neighbour. -/
lemma Seg.bindNext (seg : Seg d p q xs) (nd : (xs.map Prod.fst).Nodup) :
    Seg (bindNext d xs q') p q' xs := by
  induction xs generalizing p with
  | nil => trivial
  | cons x xs ih =>
    obtain ⟨eq, seg⟩ := seg
    rw [List.map_cons, List.nodup_cons] at nd
    cases xs with
    | nil =>
      refine ⟨?_, trivial⟩
      simp [Base.bindNext, setNext, lastIdx, eq, headIdx]
    | cons y ys =>
      have same : Base.bindNext d (x :: y :: ys) q' = Base.bindNext d (y :: ys) q' := by
        simp [Base.bindNext, lastIdx]
      rw [same]
      refine ⟨?_, ih seg nd.2⟩
      rw [bindNext_of_notMem nd.1, eq]
      rfl

/-- The start of a segment is bound to a new neighbour. -/
lemma Seg.bindPrev (seg : Seg d p q xs) (nd : (xs.map Prod.fst).Nodup) :
    Seg (bindPrev d xs p') p' q xs := by
  cases xs with
  | nil => trivial
  | cons x xs =>
    obtain ⟨eq, seg⟩ := seg
    rw [List.map_cons, List.nodup_cons] at nd
    refine ⟨by simp [Base.bindPrev, setPrev, headIdx, eq], seg.congr fun i hi => ?_⟩
    simp only [Base.bindPrev, setPrev, headIdx]
    apply Function.update_of_ne
    rintro rfl
    exact nd.1 hi

/-- Binding the end to the neighbour it has changes nothing. -/
lemma Seg.bindNext_self (seg : Seg d p q xs) : Base.bindNext d xs q = d := by
  induction xs generalizing p with
  | nil => rfl
  | cons x xs ih =>
    cases xs with
    | nil =>
      rw [Base.bindNext, if_neg (by simp), setNext, Function.update_eq_self_iff]
      simp [lastIdx, seg.1, headIdx]
    | cons y ys => exact ih seg.2

/-- Binding the start to the neighbour it has changes nothing. -/
lemma Seg.bindPrev_self (seg : Seg d p q xs) : Base.bindPrev d xs p = d := by
  cases xs with
  | nil => rfl
  | cons x xs =>
    rw [Base.bindPrev, if_neg (by simp), setPrev, Function.update_eq_self_iff]
    simp [headIdx, seg.1]

/-- Binding the end looks at the nodes of the list only. -/
lemma bindNext_congr (h : ∀ i ∈ xs.map Prod.fst, d' i = d i) (mem : i ∈ xs.map Prod.fst) :
    bindNext d' xs v i = bindNext d xs v i := by
  rw [bindNext, bindNext]
  split
  · exact h i mem
  · rename_i ne
    rw [setNext, setNext, h _ (lastIdx_mem ne)]
    by_cases eq : i = lastIdx 0 xs
    · rw [eq, Function.update_self, Function.update_self]
    · rw [Function.update_of_ne eq, Function.update_of_ne eq, h i mem]

/-- Binding the start looks at the nodes of the list only. -/
lemma bindPrev_congr (h : ∀ i ∈ xs.map Prod.fst, d' i = d i) (mem : i ∈ xs.map Prod.fst) :
    bindPrev d' xs v i = bindPrev d xs v i := by
  rw [bindPrev, bindPrev]
  split
  · exact h i mem
  · rename_i ne
    rw [setPrev, setPrev, h _ (headIdx_mem ne)]
    by_cases eq : i = headIdx 0 xs
    · rw [eq, Function.update_self, Function.update_self]
    · rw [Function.update_of_ne eq, Function.update_of_ne eq, h i mem]

/-- The middle of a segment is exchanged: the ends are bound to what stands there now. -/
lemma Seg.replace {zs ys' : List (Nat × α)} (seg : Seg d p q (xs ++ ys ++ zs))
    (ndx : (xs.map Prod.fst).Nodup) (ndz : (zs.map Prod.fst).Nodup)
    (left : ∀ i ∈ xs.map Prod.fst, d' i = Base.bindNext d xs (headIdx (headIdx q zs) ys') i)
    (right : ∀ i ∈ zs.map Prod.fst, d' i = Base.bindPrev d zs (lastIdx (lastIdx p xs) ys') i)
    (mid : Seg d' (lastIdx p xs) (headIdx q zs) ys') : Seg d' p q (xs ++ ys' ++ zs) := by
  rw [append, append] at seg ⊢
  refine ⟨⟨?_, mid⟩, ?_⟩
  · exact (seg.1.1.bindNext ndx).congr left
  · rw [lastIdx_append]
    exact (seg.2.bindPrev ndz).congr right

end Imx.Base
