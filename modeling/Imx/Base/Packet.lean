import Mathlib.Algebra.Order.Ring.Int
import Mathlib.Data.List.Basic
import Mathlib.Logic.Relation
import Mathlib.Tactic.Common

/-!
# Reading a packet

A handler is given the bytes of a packet and may read only these. `byteAt`, `net16At` and `bytesAt`
read at an offset and are faults behind the last byte; `octet` and `net16` are the numbers they
read. A loop of the source that may not end is run with a count of steps and is a fault of its own
when they are used up: `Ends f out` says that `f` has the result `out` from some count on. `Walker` is a loop that
goes from place to place and reads something at each: it ends well exactly when every place it leads
to is inside (`Walker.ok`, `Walker.fault`).
-/

namespace Imx.Base

/-- What must not happen: a read outside the packet, and a loop that does not end. -/
inductive Fault
  | outside
  | endless
deriving DecidableEq

variable {α β ε : Type} {bs : List UInt8} {i n : Nat}

/-- The byte at an offset. -/
def octet (bs : List UInt8) (i : Nat) : Nat := (bs.getD i 0).toNat

/-- The 16-bit number in network order at an offset. -/
def net16 (bs : List UInt8) (i : Nat) : Nat := 256 * octet bs i + octet bs (i + 1)

/-- Read a byte. -/
def byteAt (bs : List UInt8) (i : Nat) : Except Fault Nat :=
  if i < bs.length then .ok (octet bs i) else .error .outside

/-- Read a 16-bit number in network order. -/
def net16At (bs : List UInt8) (i : Nat) : Except Fault Nat :=
  if i + 2 ≤ bs.length then .ok (net16 bs i) else .error .outside

/-- Read `n` bytes. -/
def bytesAt (bs : List UInt8) (i n : Nat) : Except Fault (List UInt8) :=
  if i + n ≤ bs.length then .ok ((bs.drop i).take n) else .error .outside

lemma byteAt_inside (h : i < bs.length) : byteAt bs i = .ok (octet bs i) := if_pos h

lemma byteAt_outside (h : bs.length ≤ i) : byteAt bs i = .error .outside :=
  if_neg (Nat.not_lt.mpr h)

lemma net16At_inside (h : i + 2 ≤ bs.length) : net16At bs i = .ok (net16 bs i) := if_pos h

lemma net16At_outside (h : bs.length < i + 2) : net16At bs i = .error .outside :=
  if_neg (Nat.not_le.mpr h)

lemma bytesAt_inside (h : i + n ≤ bs.length) : bytesAt bs i n = .ok ((bs.drop i).take n) :=
  if_pos h

lemma bytesAt_outside (h : bs.length < i + n) : bytesAt bs i n = .error .outside :=
  if_neg (Nat.not_le.mpr h)

@[simp] lemma ok_bind {x : α} {f : α → Except ε β} :
    (Except.ok x >>= f) = f x := rfl

@[simp] lemma error_bind {e : ε} {f : α → Except ε β} :
    (Except.error e >>= f) = .error e := rfl

/-- A computation of two parts has a result where both have one. -/
lemma bind_eq_ok {x : Except ε α} {f : α → Except ε β} {b : β} (h : (x >>= f) = .ok b) :
    ∃ a, x = .ok a ∧ f a = .ok b := by
  cases x with
  | error e => exact absurd h (by simp)
  | ok a => exact ⟨a, rfl, h⟩

/-- The computation ends with this result, given enough steps. -/
def Ends (f : Nat → Except Fault α) (out : α) : Prop :=
  ∃ n, ∀ fuel, n ≤ fuel → f fuel = .ok out

/-- What is the case for enough steps decides the result. -/
lemma ends_iff {f : Nat → Except Fault α} {r : Except Fault α} {out : α}
    (h : ∀ fuel, n ≤ fuel → f fuel = r) : Ends f out ↔ r = .ok out := by
  constructor
  · rintro ⟨m, e⟩
    rw [← h (max n m) (Nat.le_max_left _ _), e _ (Nat.le_max_right _ _)]
  · rintro rfl
    exact ⟨n, h⟩

/-! ## Walks -/

section
variable {σ τ : Type} {inside : σ → Prop} {next : σ → Option σ} {next' : τ → Option τ} {f : σ → τ}
  {res : σ → α} {loop : Nat → σ → Except Fault α} {size : σ → Nat} {s t t' : σ}

/-- A walk that starts at one place comes to the other. -/
def Leads (next : σ → Option σ) : σ → σ → Prop :=
  Relation.ReflTransGen fun s s' => next s = some s'

lemma Leads.here : Leads next s s := Relation.ReflTransGen.refl

lemma Leads.step (e : next s = some t) (h : Leads next t t') : Leads next s t' :=
  Relation.ReflTransGen.head e h

/-- A walk has gone nowhere, or takes the one step there is. -/
lemma leads_iff : Leads next s t ↔ s = t ∨ ∃ s', next s = some s' ∧ Leads next s' t :=
  Relation.ReflTransGen.cases_head_iff

/-- A walk ends at one place. -/
lemma Leads.last_unique (h : Leads next s t) (e : next t = none) (h' : Leads next s t')
    (e' : next t' = none) : t = t' := by
  induction h using Relation.ReflTransGen.head_induction_on with
  | refl =>
    obtain rfl | ⟨s', e1, -⟩ := leads_iff.mp h'
    · rfl
    · rw [e] at e1
      exact absurd e1 (by simp)
  | head e1 _ ih =>
    apply ih
    obtain rfl | ⟨s', e2, rest⟩ := leads_iff.mp h'
    · rw [e'] at e1
      exact absurd e1 (by simp)
    · rw [e1] at e2
      obtain rfl := Option.some.inj e2
      exact rest

/-- A walk over more data is one over less. -/
lemma Leads.map (sim : ∀ s, next' (f s) = (next s).map f) (h : Leads next s t) :
    Leads next' (f s) (f t) := by
  have one : ∀ a b, next a = some b → next' (f a) = some (f b) := by
    intro a b e
    rw [sim, e, Option.map_some]
  exact Relation.ReflTransGen.lift f one _ _ h

/-- A walk over less data is one over more. -/
lemma Leads.lift {u : τ} (sim : ∀ s, next' (f s) = (next s).map f) (h : Leads next' (f s) u) :
    ∃ t, Leads next s t ∧ f t = u := by
  generalize start : f s = v at h
  induction h using Relation.ReflTransGen.head_induction_on generalizing s with
  | refl => exact ⟨s, .here, start⟩
  | head e1 _ ih =>
    rw [← start, sim, Option.map_eq_some_iff] at e1
    obtain ⟨s', e2, same⟩ := e1
    obtain ⟨t, rest, e3⟩ := ih same
    exact ⟨t, .step e2 rest, e3⟩

/-- The loop goes from place to place, each smaller than the one before; it reads outside exactly at
places that are not inside, and its result is what it finds at the last one. -/
structure Walker (loop : Nat → σ → Except Fault α) (inside : σ → Prop) (next : σ → Option σ)
    (res : σ → α) (size : σ → Nat) : Prop where
  outside : ∀ n s, ¬ inside s → loop (n + 1) s = .error .outside
  step : ∀ n s s', inside s → next s = some s' → loop (n + 1) s = loop n s'
  stop : ∀ n s, inside s → next s = none → loop (n + 1) s = .ok (res s)
  less : ∀ s s', inside s → next s = some s' → size s' < size s

/-- A walk that stays inside ends. -/
lemma Walker.ok (w : Walker loop inside next res size) (h : ∀ t, Leads next s t → inside t) :
    ∃ t, Leads next s t ∧ next t = none ∧ ∀ n, size s < n → loop n s = .ok (res t) := by
  induction k : size s using Nat.strongRecOn generalizing s with
  | ind k ih =>
    subst k
    cases e : next s with
    | none =>
      refine ⟨s, .here, e, ?_⟩
      intro n hn
      obtain ⟨n, rfl⟩ := Nat.exists_eq_succ_of_ne_zero (Nat.ne_of_gt (Nat.zero_lt_of_lt hn))
      exact w.stop n s (h s .here) e
    | some s' =>
      have less := w.less s s' (h s .here) e
      obtain ⟨t, leads, last, run⟩ := ih _ less (fun t ht => h t (.step e ht)) rfl
      refine ⟨t, .step e leads, last, ?_⟩
      intro n hn
      obtain ⟨n, rfl⟩ := Nat.exists_eq_succ_of_ne_zero (Nat.ne_of_gt (Nat.zero_lt_of_lt hn))
      rw [w.step n s s' (h s .here) e]
      exact run n (by omega)

/-- A walk that leads outside is a read outside. -/
lemma Walker.fault (w : Walker loop inside next res size) (h : Leads next s t)
    (no : ¬ inside t) {n : Nat} (hn : size s < n) : loop n s = .error .outside := by
  induction h using Relation.ReflTransGen.head_induction_on generalizing n with
  | refl =>
    obtain ⟨n, rfl⟩ := Nat.exists_eq_succ_of_ne_zero (Nat.ne_of_gt (Nat.zero_lt_of_lt hn))
    exact w.outside n t no
  | @head s s' e _ ih =>
    obtain ⟨n, rfl⟩ := Nat.exists_eq_succ_of_ne_zero (Nat.ne_of_gt (Nat.zero_lt_of_lt hn))
    by_cases here : inside s
    · have less := w.less s s' here e
      rw [w.step n s s' here e]
      exact ih (by omega)
    · exact w.outside n s here

end

end Imx.Base
