import Imx.HashTable.Defs

/-!
# What a search finds

The probe sequence of a key and the specification of `hsearch_r` against it: on a table of prime
size the search always ends, either at the first probe that holds the key or, when there is none
before the first slot never used, there or back at the first slot.
-/

namespace Imx.HashTable
open Imx.Base

variable {hk : Hooks} {t : Htab} {item : Item} {action : Action} {flag : Int} {k : CStr}
variable {i j fuel hval : Nat} {s : Slot} {e : Entry}

@[simp] lemma Htab.set_self : (t.set i s).table i = s := Function.update_self ..

lemma Htab.set_ne (ne : j ≠ i) : (t.set i s).table j = t.table j :=
  Function.update_of_ne ne ..

@[simp] lemma hdelete_size : (hdelete t i).size = t.size := rfl
@[simp] lemma hdelete_filled : (hdelete t i).filled = decFilled t.filled := rfl

lemma hdelete_table : (hdelete t i).table = (t.set i .deleted).table := rfl

@[simp] lemma hdelete_table_self : (hdelete t i).table i = .deleted := by
  rw [hdelete_table, Htab.set_self]

lemma hdelete_table_ne (ne : j ≠ i) : (hdelete t i).table j = t.table j := by
  rw [hdelete_table, Htab.set_ne ne]

/-- The size is one `hcreate_r` picks: a prime that leaves room for the second hash function and
fits an unsigned int. -/
structure GoodSize (size : Nat) : Prop where
  prime : size.Prime
  five : 5 ≤ size
  bound : size < 2 ^ 32

/-- The `j`-th slot probed for a key. -/
def probe (size : Nat) (k : CStr) (j : Nat) : Nat :=
  probeAt size (secondHash size (firstHash size k)) (firstHash size k) j

@[simp] lemma probe_zero {size : Nat} : probe size k 0 = firstHash size k := rfl

section Probe

variable {size : Nat} (good : GoodSize size)
include good

lemma firstHash_mem : 1 ≤ firstHash size k ∧ firstHash size k < size := by
  have five := good.five
  have lt := Nat.mod_lt (hashKey k) good.prime.pos
  rw [firstHash]
  split <;> omega

lemma secondHash_mem : 1 ≤ secondHash size hval ∧ secondHash size hval < size := by
  have five := good.five
  have lt := Nat.mod_lt hval (show 0 < size - 2 from by omega)
  rw [secondHash]
  omega

lemma probe_mem : 1 ≤ probe size k j ∧ probe size k j ≤ size :=
  probeAt_mem (secondHash_mem good).1 (secondHash_mem good).2 (firstHash_mem good).1
    (firstHash_mem good).2.le

lemma probe_inj (ip : i < size) (jp : j < size) (e : probe size k i = probe size k j) : i = j :=
  probeAt_inj good.prime (secondHash_mem good).1 (secondHash_mem good).2 (firstHash_mem good).1
    (firstHash_mem good).2.le ip jp e

lemma probe_period : probe size k size = firstHash size k :=
  probeAt_period (secondHash_mem good).1 (secondHash_mem good).2 (firstHash_mem good).1
    (firstHash_mem good).2.le

lemma probe_surj (i1 : 1 ≤ i) (ip : i ≤ size) : ∃ j < size, probe size k j = i :=
  probeAt_surj good.prime (secondHash_mem good).1 (secondHash_mem good).2 (firstHash_mem good).1
    (firstHash_mem good).2.le i1 ip

lemma probe_eq_start (j0 : 0 < j) (jp : j ≤ size) (e : probe size k j = firstHash size k) :
    j = size := by
  rcases Nat.lt_or_ge j size with lt | ge
  · have := probe_inj good lt good.prime.pos (e.trans probe_zero.symm)
    omega
  · omega

end Probe

/-- Slot `i` holds the key `k` in the entry `e`. -/
def HoldsAt (t : Htab) (k : CStr) (i : Nat) (e : Entry) : Prop :=
  t.table i = .used (firstHash t.size k) e ∧ e.key = some k

/-- The first `j` probes for `k` neither hold `k` nor end the search. -/
def Passed (t : Htab) (k : CStr) (j : Nat) : Prop :=
  ∀ j' < j, t.table (probe t.size k j') ≠ .free ∧ ∀ e, ¬ HoldsAt t k (probe t.size k j') e

lemma Passed.succ (h : Passed t k j) (nf : t.table (probe t.size k j) ≠ .free)
    (nk : ∀ e, ¬ HoldsAt t k (probe t.size k j) e) : Passed t k (j + 1) := by
  intro j' lt
  rcases Nat.lt_succ_iff_lt_or_eq.1 lt with lt | rfl
  · exact h j' lt
  · exact ⟨nf, nk⟩

/-- A slot that matches answers for the search; any other slot lets it go on. -/
lemma compareAndOverwriteEntry_cases (hk : Hooks) (action : Action) (flag : Int) (i : Nat)
    (hh : hval = firstHash t.size item.key) :
    (∃ e, HoldsAt t item.key i e ∧
      compareAndOverwriteEntry hk t item action flag hval i =
        some (overwriteEntry hk t item action flag hval i e)) ∨
    ((∀ e, ¬ HoldsAt t item.key i e) ∧
      compareAndOverwriteEntry hk t item action flag hval i = none) := by
  subst hh
  rw [compareAndOverwriteEntry]
  cases eq : t.table i with
  | free => exact .inr ⟨fun e h => by rw [h.1] at eq; contradiction, rfl⟩
  | deleted => exact .inr ⟨fun e h => by rw [h.1] at eq; contradiction, rfl⟩
  | used u e =>
    by_cases m : u = firstHash t.size item.key ∧ e.key = some item.key
    · exact .inl ⟨e, ⟨by rw [eq, m.1], m.2⟩, if_pos m⟩
    · refine .inr ⟨fun e' h => m ?_, if_neg m⟩
      obtain ⟨h1, h2⟩ := h
      rw [eq] at h1
      obtain ⟨rfl, rfl⟩ := Slot.used.inj h1
      exact ⟨rfl, h2⟩

/-- What the search for a key finds: the entry that holds it, … -/
def Finds (t : Htab) (k : CStr) (j : Nat) (e : Entry) : Prop :=
  j < t.size ∧ Passed t k j ∧ HoldsAt t k (probe t.size k j) e

/-- … or the end of the sequence: a slot never used, or the first slot again. -/
def Ends (t : Htab) (k : CStr) (j : Nat) : Prop :=
  j ≤ t.size ∧ Passed t k j ∧ (t.table (probe t.size k j) = .free ∨ j = t.size)

/-- The loop goes on from the `j`-th probe to where the search finds the key or ends. -/
lemma searchLoop_spec (hk : Hooks) (action : Action) (flag : Int) (fuel : Nat)
    (good : GoodSize t.size) (hh : hval = firstHash t.size item.key)
    (lt : j < t.size) (enough : t.size ≤ j + fuel) (passed : Passed t item.key (j + 1)) :
    (∃ j' e, Finds t item.key j' e ∧
      searchLoop hk t item action flag hval fuel (probe t.size item.key j) =
        some (.inl (overwriteEntry hk t item action flag hval (probe t.size item.key j') e))) ∨
    (∃ j', Ends t item.key j' ∧
      searchLoop hk t item action flag hval fuel (probe t.size item.key j) =
        some (.inr (probe t.size item.key j'))) := by
  induction fuel generalizing j with
  | zero => omega
  | succ fuel ih =>
    have next : probeNext t.size (secondHash t.size hval) (probe t.size item.key j) =
        probe t.size item.key (j + 1) := by
      rw [hh]
      rfl
    rw [searchLoop, next]
    by_cases back : probe t.size item.key (j + 1) = hval
    · refine .inr ⟨j + 1, ⟨by omega, passed, .inr ?_⟩, if_pos back⟩
      exact probe_eq_start good (by omega) (by omega) (back.trans hh)
    · have lt' : j + 1 < t.size := by
        rcases Nat.lt_or_ge (j + 1) t.size with h | h
        · exact h
        · have : j + 1 = t.size := by omega
          rw [this, probe_period good] at back
          exact absurd hh.symm back
      simp only [if_neg back]
      rcases compareAndOverwriteEntry_cases hk action flag
        (probe t.size item.key (j + 1)) hh with ⟨e, holds, eq⟩ | ⟨none, eq⟩
      · exact .inl ⟨j + 1, e, ⟨lt', passed, holds⟩, by rw [eq]⟩
      · rw [eq]
        by_cases free : t.table (probe t.size item.key (j + 1)) = .free
        · exact .inr ⟨j + 1, ⟨by omega, passed, .inl free⟩, if_pos free⟩
        · simp only [if_neg free]
          exact ih lt' (by omega) (passed.succ free none)

/-- The slot remembered as reusable: only ever the first one. -/
def firstDeleted (t : Htab) (k : CStr) : Option Nat :=
  if t.table (firstHash t.size k) = .deleted then some (firstHash t.size k) else none

/-- A search ends, and does what its end calls for. -/
lemma hsearchR_spec (hk : Hooks) (item : Item) (action : Action) (flag : Int)
    (good : GoodSize t.size) :
    (∃ j e, Finds t item.key j e ∧
      hsearchR hk t item action flag = some (overwriteEntry hk t item action flag
        (firstHash t.size item.key) (probe t.size item.key j) e)) ∨
    (∃ j, Ends t item.key j ∧
      hsearchR hk t item action flag = some (notFound hk t item action flag
        (firstHash t.size item.key) (firstDeleted t item.key) (probe t.size item.key j))) := by
  have start : Passed t item.key 0 := fun j' lt => absurd lt (Nat.not_lt_zero j')
  rw [hsearchR]
  by_cases free : t.table (firstHash t.size item.key) = .free
  · refine .inr ⟨0, ⟨Nat.zero_le _, start, .inl free⟩, ?_⟩
    simp [free, firstDeleted]
  · simp only []
    rcases compareAndOverwriteEntry_cases hk action flag
      (firstHash t.size item.key) rfl with ⟨e, holds, eq⟩ | ⟨none, eq⟩
    · exact .inl ⟨0, e, ⟨good.prime.pos, start, holds⟩, by rw [eq]; rfl⟩
    · rw [eq]
      rcases searchLoop_spec hk action flag t.size good rfl
        good.prime.pos (by omega) (start.succ free none) with ⟨j', e, finds, eq⟩ | ⟨j', ends, eq⟩
      · exact .inl ⟨j', e, finds, by rw [probe_zero] at eq; rw [eq]⟩
      · exact .inr ⟨j', ends, by rw [probe_zero] at eq; rw [eq]; rfl⟩

/-! ## Every call ends -/

lemma overwriteEntry_size {idx : Nat} :
    (overwriteEntry hk t item action flag hval idx e).1.size = t.size := by
  rw [overwriteEntry]
  dsimp only
  split_ifs <;> rfl

lemma notFound_size {firstDeleted : Option Nat} {idx : Nat} :
    (notFound hk t item action flag hval firstDeleted idx).1.size = t.size := by
  cases action with
  | find => rfl
  | enter =>
    rw [notFound]
    split_ifs
    · rfl
    · rw [createEntry]
      dsimp only
      split_ifs <;> rfl

/-- A search ends on every table of good size and keeps its size. -/
lemma hsearchR_total (hk : Hooks) (item : Item) (action : Action) (flag : Int)
    (good : GoodSize t.size) :
    ∃ r, hsearchR hk t item action flag = some r ∧ r.1.size = t.size := by
  rcases hsearchR_spec hk item action flag good with ⟨j, e, -, eq⟩ | ⟨j, -, eq⟩
  · exact ⟨_, eq, overwriteEntry_size⟩
  · exact ⟨_, eq, notFound_size⟩

/-- So does a deletion. -/
lemma hdeleteR_total (hk : Hooks) (k : CStr) (flag : Int) (good : GoodSize t.size) :
    ∃ r, hdeleteR hk t k flag = some r ∧ r.1.size = t.size := by
  obtain ⟨⟨t', r⟩, eq, -⟩ := hsearchR_total hk { key := k, data := none } .find 0 good
  rw [hdeleteR, eq]
  cases r with
  | fail errno => exact ⟨_, rfl, rfl⟩
  | ok ret idx =>
    dsimp only
    cases t.table idx with
    | free => exact ⟨_, rfl, rfl⟩
    | deleted => exact ⟨_, rfl, rfl⟩
    | used u e =>
      dsimp only
      split_ifs
      · exact ⟨_, rfl, rfl⟩
      · exact ⟨_, rfl, rfl⟩
      · exact ⟨_, rfl, rfl⟩

/-- A deletion changes nothing or deletes one slot. -/
lemma hdeleteR_cases {r : Htab × Bool} (eq : hdeleteR hk t k flag = some r) :
    r.1 = t ∨ ∃ i, r.1 = hdelete t i := by
  rw [hdeleteR] at eq
  split at eq
  · cases eq
  · exact .inl (by rw [← Option.some.inj eq])
  · split at eq
    · split_ifs at eq
      · exact .inl (by rw [← Option.some.inj eq])
      · exact .inl (by rw [← Option.some.inj eq])
      · exact .inr ⟨_, by rw [← Option.some.inj eq]⟩
    · exact .inl (by rw [← Option.some.inj eq])

end Imx.HashTable
