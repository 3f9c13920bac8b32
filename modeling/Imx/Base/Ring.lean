import Mathlib.Data.Nat.ModEq
import Mathlib.Tactic.Common

/-!
# Rings

A queue in a ring of `n` slots, between a producer that fills slots in order and a consumer that
takes their contents and gives slots back later. `Queue` counts in positions that never wrap: what
was put, how many of them were taken, how many slots were given back. `Queue.In` says that the ring
is what the queue says, slot `q % n` for position `q`; it is kept by each operation, and the two
ends of the queue can be read off the ring.
-/

namespace Imx.Base

variable {α : Type*} {n : Nat}

/-- What was put in a ring of `n` slots, how many of them were taken and given back. -/
structure Queue (α : Type*) (n : Nat) where
  put : List α
  taken : Nat
  freed : Nat
  freed_le : freed ≤ taken
  taken_le : taken ≤ put.length
  put_le : put.length ≤ freed + n

namespace Queue

variable {q : Queue α n} {ring : Nat → Option α} {x : α} {i j : Nat}

/-- Nothing was put. -/
def empty : Queue α n := ⟨[], 0, 0, Nat.le_refl 0, Nat.le_refl 0, Nat.zero_le _⟩

/-- Put something in the next slot. -/
def enqueue (q : Queue α n) (x : α) (room : q.put.length < q.freed + n) : Queue α n where
  put := q.put ++ [x]
  taken := q.taken
  freed := q.freed
  freed_le := q.freed_le
  taken_le := by
    rw [List.length_append]
    exact Nat.le_add_right_of_le q.taken_le
  put_le := by
    rw [List.length_append]
    exact room

/-- Take what is in front. -/
def dequeue (q : Queue α n) (some : q.taken < q.put.length) : Queue α n where
  put := q.put
  taken := q.taken + 1
  freed := q.freed
  freed_le := Nat.le_succ_of_le q.freed_le
  taken_le := some
  put_le := q.put_le

/-- Give a slot back. -/
def free (q : Queue α n) (done : q.freed < q.taken) : Queue α n where
  put := q.put
  taken := q.taken
  freed := q.freed + 1
  freed_le := done
  taken_le := q.taken_le
  put_le := by
    have le := q.put_le
    omega

/-- The ring holds the queue: what was put at a position, in its slot, until the slot is given
back. -/
def In (q : Queue α n) (ring : Nat → Option α) : Prop :=
  ∀ p, q.freed ≤ p → p < q.freed + n → ring (p % n) = q.put[p]?

/-- Positions of one turn have slots of their own. -/
lemma slot_ne {a p p' : Nat} (low : a ≤ p) (lt : p < p') (high : p' < a + n) : p % n ≠ p' % n := by
  intro eq
  have dvd : n ∣ p' - p := (Nat.modEq_iff_dvd' (Nat.le_of_lt lt)).mp eq
  have le := Nat.le_of_dvd (by omega) dvd
  omega

/-- The slot behind a slot. -/
lemma next_slot {p : Nat} (pos : 0 < n) :
    (if p % n = n - 1 then 0 else p % n + 1) = (p + 1) % n := by
  have lt := Nat.mod_lt p pos
  rw [← Nat.mod_add_mod]
  split
  · rename_i last
    rw [last, Nat.sub_add_cancel pos, Nat.mod_self]
  · rename_i more
    rw [Nat.mod_eq_of_lt (show p % n + 1 < n by omega)]

lemma In.empty (none : ∀ i < n, ring i = none) : (Queue.empty : Queue α n).In ring := by
  intro p _ high
  have high : p < 0 + n := high
  have pos : 0 < n := by omega
  rw [none _ (Nat.mod_lt p pos)]
  rfl

/-- The next slot is free only if there is room. -/
lemma In.room (here : q.In ring) (pos : 0 < n) (none : ring (q.put.length % n) = none) :
    q.put.length < q.freed + n := by
  have le := q.put_le
  by_contra full
  have eq : q.put.length = q.freed + n := by omega
  have first := here q.freed (Nat.le_refl _) (by omega)
  rw [eq, Nat.add_mod_right, first, List.getElem?_eq_none_iff] at none
  omega

/-- What is in front, if something is. -/
lemma In.front (here : q.In ring) (turn : q.taken < q.freed + n) :
    ring (q.taken % n) = q.put[q.taken]? :=
  here q.taken q.freed_le turn

lemma In.enqueue (here : q.In ring) (room : q.put.length < q.freed + n) :
    (q.enqueue x room).In (Function.update ring (q.put.length % n) (some x)) := by
  intro p low high
  show _ = (q.put ++ [x])[p]?
  have low : q.freed ≤ p := low
  have high : p < q.freed + n := high
  have le := Nat.le_trans q.freed_le q.taken_le
  obtain lt | rfl | gt := Nat.lt_trichotomy p q.put.length
  · rw [Function.update_of_ne (slot_ne low lt room), here p low high, List.getElem?_append_left lt]
  · rw [Function.update_self, List.getElem?_concat_length]
  · rw [Function.update_of_ne (slot_ne le gt high).symm, here p low high,
      List.getElem?_eq_none (by omega), List.getElem?_eq_none (by simp; omega)]

lemma In.dequeue (here : q.In ring) (some : q.taken < q.put.length) : (q.dequeue some).In ring :=
  here

lemma In.free (here : q.In ring) (done : q.freed < q.taken) :
    (q.free done).In (Function.update ring (q.freed % n) none) := by
  intro p low high
  show _ = q.put[p]?
  have low : q.freed + 1 ≤ p := low
  have high : p < q.freed + 1 + n := high
  have le := q.put_le
  by_cases last : p = q.freed + n
  · rw [last, Nat.add_mod_right, Function.update_self, List.getElem?_eq_none le]
  · rw [Function.update_of_ne (slot_ne (Nat.le_refl _) low (by omega)).symm]
    exact here p (by omega) (by omega)

end Queue

end Imx.Base
