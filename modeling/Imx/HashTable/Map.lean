import Mathlib.Data.List.AList
import Imx.Base.Run
import Imx.HashTable.Create
import Imx.HashTable.Search

/-!
# The hash table as a finite map

`Rep t m` says that the table `t` holds exactly the map `m`: every key of the map is in exactly one
slot, on its own probe sequence with no slot never used before it, and `filled` counts the keys.
Entering, finding and deleting keep the representation, entering a new key under the condition
`Roomy`: only the first slot probed is ever reused, so without a slot never used the entry would
replace the one found there. `run_refines_map` is the refinement over whole runs.
-/

namespace Imx.HashTable
open Imx.Base

/-- A finite map from keys to values. -/
abbrev Map := AList fun _ : CStr => CStr

variable {hk : Hooks} {t : Htab} {m : Map} {k k' : CStr} {v : CStr} {flag : Int}
variable {i j f u : Nat} {e e' : Entry}

section Count

variable {α : Type*} {β : α → Type*} [DecidableEq α] {s : AList β} {a : α} {b : β a}

lemma length_keys_erase (h : a ∈ s) : (s.erase a).keys.length = s.keys.length - 1 := by
  rw [AList.keys_erase, List.length_erase_of_mem (AList.mem_keys.1 h)]

lemma length_keys_insert_of_mem (h : a ∈ s) : (s.insert a b).keys.length = s.keys.length := by
  have pos := List.length_pos_of_mem (AList.mem_keys.1 h)
  rw [AList.keys_insert, List.length_cons, List.length_erase_of_mem (AList.mem_keys.1 h)]
  omega

lemma length_keys_insert_of_notMem (h : a ∉ s) :
    (s.insert a b).keys.length = s.keys.length + 1 := by
  rw [AList.keys_insert, List.length_cons, List.erase_of_not_mem (h ∘ AList.mem_keys.2)]

end Count

/-- Slot `i` is on the probe sequence of `k` and no slot before it was never used. -/
def Reach (t : Htab) (k : CStr) (i : Nat) : Prop :=
  ∃ j < t.size, i = probe t.size k j ∧ ∀ j' < j, t.table (probe t.size k j') ≠ .free

/-- The table holds the map. -/
structure Rep (t : Htab) (m : Map) : Prop where
  good : GoodSize t.size
  filled : t.filled = m.keys.length
  room : m.keys.length ≤ t.size
  slot : ∀ {k v}, m.lookup k = some v → ∃ i e, HoldsAt t k i e ∧ e.data = some v
  live : ∀ {i u e}, t.table i = .used u e → ∃ k v, u = firstHash t.size k ∧ e.key = some k ∧
    e.data = some v ∧ m.lookup k = some v ∧ Reach t k i
  uniq : ∀ {k i j e e'}, HoldsAt t k i e → HoldsAt t k j e' → i = j

/-- A new table holds the empty map. -/
lemma Rep.empty {size : Nat} (good : GoodSize size) : Rep (Htab.empty size) ∅ where
  good := good
  filled := rfl
  room := Nat.zero_le _
  slot h := by simp at h
  live h := by cases h
  uniq h := by cases h.1

/-- A change that frees no slot shortens no probe sequence. -/
lemma Reach.mono {t' : Htab} (h : Reach t k j) (size : t'.size = t.size)
    (used : ∀ i, t.table i ≠ .free → t'.table i ≠ .free) : Reach t' k j := by
  obtain ⟨n, lt, eq, before⟩ := h
  refine ⟨n, by rwa [size], by rwa [size], fun j' lt' => ?_⟩
  rw [size]
  exact used _ (before j' lt')

/-- Storing an entry or a deletion mark frees no slot. -/
lemma set_ne_free {s : Slot} (nf : s ≠ .free) (h : t.table j ≠ .free) :
    (t.set i s).table j ≠ .free := by
  by_cases ji : j = i
  · rwa [ji, Htab.set_self]
  · rwa [Htab.set_ne ji]

section Find

variable (rep : Rep t m)
include rep

/-- The entry that holds a key has its value. -/
lemma Rep.lookup_of_holds (h : HoldsAt t k i e) :
    ∃ v, e.data = some v ∧ m.lookup k = some v ∧ Reach t k i := by
  obtain ⟨k', v, -, key, data, look, reach⟩ := rep.live h.1
  obtain rfl : k' = k := Option.some.inj (key.symm.trans h.2)
  exact ⟨v, data, look, reach⟩

/-- A search that ends without the key ends because the key is not there. -/
lemma Rep.lookup_of_ends (ends : Ends t k j) : m.lookup k = none := by
  obtain ⟨-, passed, stop⟩ := ends
  rw [Option.eq_none_iff_forall_ne_some]
  intro v look
  obtain ⟨i, e, holds, -⟩ := rep.slot look
  obtain ⟨-, -, -, n, lt, rfl, before⟩ := rep.lookup_of_holds holds
  rcases Nat.lt_trichotomy n j with h | h | h
  · exact (passed n h).2 e holds
  · subst h
    rcases stop with free | full
    · rw [holds.1] at free
      contradiction
    · omega
  · rcases stop with free | full
    · exact before j h free
    · omega

end Find

/-- Storing the value of `k` in slot `i`, which is its own or holds no entry. -/
lemma Rep.put (rep : Rep t m) (e' : Entry) (f : Nat) (reach : Reach t k i)
    (own : ∀ {u e}, t.table i = .used u e → e.key = some k)
    (only : ∀ {j e}, HoldsAt t k j e → j = i)
    (key : e'.key = some k) (data : e'.data = some v)
    (count : f = (m.insert k v).keys.length) (room : f ≤ t.size) :
    Rep { t.set i (.used (firstHash t.size k) e') with filled := f } (m.insert k v) where
  good := rep.good
  filled := count
  room := count ▸ room
  slot {k' v'} look := by
    by_cases ek : k' = k
    · subst ek
      rw [AList.lookup_insert] at look
      obtain rfl := Option.some.inj look
      exact ⟨i, e', ⟨Htab.set_self, key⟩, data⟩
    · rw [AList.lookup_insert_ne ek] at look
      obtain ⟨j, e, holds, d⟩ := rep.slot look
      have ne : j ≠ i := by
        rintro rfl
        exact ek (Option.some.inj (holds.2.symm.trans (own holds.1)))
      exact ⟨j, e, ⟨(Htab.set_ne ne).trans holds.1, holds.2⟩, d⟩
  live {j u e} h := by
    by_cases ne : j = i
    · subst ne
      obtain ⟨rfl, rfl⟩ := Slot.used.inj (Htab.set_self.symm.trans h)
      exact ⟨k, v, rfl, key, data, AList.lookup_insert m,
        reach.mono rfl fun _ => set_ne_free (by simp)⟩
    · have h' := (Htab.set_ne ne).symm.trans h
      obtain ⟨k', v', hu, key', data', look, reach'⟩ := rep.live h'
      have ek : k' ≠ k := by
        rintro rfl
        exact ne (only ⟨hu ▸ h', key'⟩)
      refine ⟨k', v', hu, key', data', ?_, reach'.mono rfl fun _ => set_ne_free (by simp)⟩
      rwa [AList.lookup_insert_ne ek]
  uniq {k' a b ea eb} ha hb := by
    -- a slot other than `i` that holds `k` would be the slot of `k` before
    have old {c ec} (h : HoldsAt (t.set i (.used (firstHash t.size k) e')) k' c ec)
        (ne : c ≠ i) : HoldsAt t k' c ec :=
      ⟨(Htab.set_ne ne).symm.trans h.1, h.2⟩
    have mine {ec} (h : HoldsAt (t.set i (.used (firstHash t.size k) e')) k' i ec) : k' = k := by
      obtain ⟨-, rfl⟩ := Slot.used.inj (Htab.set_self.symm.trans h.1)
      exact Option.some.inj (h.2.symm.trans key)
    by_cases hai : a = i
    · by_cases hbi : b = i
      · rw [hai, hbi]
      · subst hai
        have h := old hb hbi
        rw [mine ha] at h
        exact (only h).symm
    · by_cases hbi : b = i
      · subst hbi
        have h := old ha hai
        rw [mine hb] at h
        exact only h
      · exact rep.uniq (old ha hai) (old hb hbi)

/-- Deleting the entry of `k`. -/
lemma Rep.drop (rep : Rep t m) (holds : HoldsAt t k i e) : Rep (hdelete t i) (m.erase k) := by
  obtain ⟨v, -, look, -⟩ := rep.lookup_of_holds holds
  have mem : k ∈ m := AList.lookup_isSome.1 (by rw [look]; rfl)
  have pos := List.length_pos_of_mem (AList.mem_keys.1 mem)
  have len := length_keys_erase mem
  have bound := rep.good.bound
  have room := rep.room
  have fill := rep.filled
  have old {k' c ec} (h : HoldsAt (hdelete t i) k' c ec) : HoldsAt t k' c ec ∧ c ≠ i := by
    have ne : c ≠ i := by
      rintro rfl
      have := h.1
      rw [hdelete_table_self] at this
      contradiction
    have h1 := h.1
    rw [hdelete_table_ne ne, hdelete_size] at h1
    exact ⟨⟨h1, h.2⟩, ne⟩
  exact {
    good := rep.good
    filled := by
      rw [hdelete_filled, decFilled, len]
      omega
    room := by
      rw [len, hdelete_size]
      omega
    slot := fun {k' v'} look' => by
      have ek : k' ≠ k := by
        rintro rfl
        rw [AList.lookup_erase] at look'
        contradiction
      rw [AList.lookup_erase_ne ek] at look'
      obtain ⟨j, e', h, d⟩ := rep.slot look'
      have ne : j ≠ i := by
        rintro rfl
        obtain ⟨-, rfl⟩ := Slot.used.inj (h.1.symm.trans holds.1)
        exact ek (Option.some.inj (h.2.symm.trans holds.2))
      exact ⟨j, e', ⟨(hdelete_table_ne ne).trans h.1, h.2⟩, d⟩
    live := fun {j u e'} h => by
      have ne : j ≠ i := by
        rintro rfl
        rw [hdelete_table_self] at h
        contradiction
      have h' := (hdelete_table_ne ne).symm.trans h
      obtain ⟨k', v', hu, key', data', look', reach'⟩ := rep.live h'
      have ek : k' ≠ k := by
        rintro rfl
        exact ne (rep.uniq ⟨hu ▸ h', key'⟩ holds)
      refine ⟨k', v', hu, key', data', ?_, reach'.mono hdelete_size fun _ nf => ?_⟩
      · rwa [AList.lookup_erase_ne ek]
      · rw [hdelete_table]
        exact set_ne_free (by simp) nf
    uniq := fun ha hb => rep.uniq (old ha).1 (old hb).1 }

/-- A map has as many keys as variables. -/
lemma length_keys : m.keys.length = m.entries.length := by
  simp [AList.keys, List.keys]

/-- The same variables in another order are the same map. -/
lemma Rep.perm {m' : Map} (rep : Rep t m) (p : m.entries.Perm m'.entries) : Rep t m' where
  good := rep.good
  filled := by rw [rep.filled, length_keys, length_keys, p.length_eq]
  room := by
    have room := rep.room
    rwa [length_keys, p.length_eq, ← length_keys] at room
  slot look := rep.slot (by rwa [AList.perm_lookup p])
  live h := by
    obtain ⟨k, v, hu, key, data, look, reach⟩ := rep.live h
    exact ⟨k, v, hu, key, data, by rwa [← AList.perm_lookup p], reach⟩
  uniq := rep.uniq

/-! ## Calls and their answers -/

/-- The operations on a table. -/
inductive Op where
  | enter (k v : CStr)
  | find (k : CStr)
  | delete (k : CStr)
deriving DecidableEq

/-- What an operation tells its caller: whether `*retval` is an entry, the value of the entry
found, the return value. -/
inductive Ans where
  | entered (ok : Bool)
  | found (data : Option CStr)
  | deleted (ok : Bool)
deriving DecidableEq

/-- A call with what it meets outside the table. -/
structure Call where
  hk : Hooks
  op : Op
  flag : Int

/-- The value of the entry in a slot. -/
def dataAt (t : Htab) (idx : Nat) : Option CStr :=
  match t.table idx with
  | .used _ e => e.data
  | _ => none

/-- The entry a search returns, by its value. -/
def Res.data (t : Htab) : Res → Option CStr
  | .ok _ idx => dataAt t idx
  | .fail _ => none

/-- The search returned an entry. -/
def Res.isOk : Res → Bool
  | .ok _ _ => true
  | .fail _ => false

/-- One call on the table. -/
def exec (t : Htab) (c : Call) : Option (Htab × Ans) :=
  match c.op with
  | .enter k v => (hsearchR c.hk t { key := k, data := some v } .enter c.flag).map
      fun (r : Htab × Res) => (r.1, .entered r.2.isOk)
  | .find k => (hsearchR c.hk t { key := k, data := none } .find c.flag).map
      fun (r : Htab × Res) => (r.1, .found (r.2.data r.1))
  | .delete k => (hdeleteR c.hk t k c.flag).map fun (r : Htab × Bool) => (r.1, .deleted r.2)

/-- The same operation on a map that holds at most `size` keys. -/
def specExec (size : Nat) (m : Map) : Op → Map × Ans
  | .enter k v =>
    if k ∈ m ∨ m.keys.length < size then (m.insert k v, .entered true) else (m, .entered false)
  | .find k => (m, .found (m.lookup k))
  | .delete k => (m.erase k, .deleted (decide (k ∈ m)))

/-- A run of calls with all their answers. -/
def run (t : Htab) : List Call → Option (Htab × List Ans)
  | [] => some (t, [])
  | c :: cs =>
    match exec t c with
    | none => none
    | some (t, a) => (run t cs).map fun (r : Htab × List Ans) => (r.1, a :: r.2)

/-- The same run on a map. -/
def specRun (size : Nat) (m : Map) : List Call → Map × List Ans
  | [] => (m, [])
  | c :: cs =>
    let r := specExec size m c.op
    let rs := specRun size r.1 cs
    (rs.1, r.2 :: rs.2)

/-- Nothing refuses a change and memory does not run out. -/
structure Hooks.Accepting (hk : Hooks) : Prop where
  rejects : ∀ e v op flag, hk.rejects e v op flag = false
  vetoes : ∀ cb k v op flag, hk.vetoes cb k v op flag = false
  dupKey : hk.dupKey = true
  dupData : hk.dupData = true

/-- The slot holds an entry with key `k`. -/
def Slot.HasKey (k : CStr) : Slot → Prop
  | .used _ e => e.key = some k
  | _ => False

instance (s : Slot) : Decidable (s.HasKey k) :=
  match s with
  | .used _ e => inferInstanceAs (Decidable (e.key = some k))
  | .free => isFalse id
  | .deleted => isFalse id

/-- Entering `k` replaces no other entry: `k` is there already, or some slot was never used, or
the first slot probed holds no entry, or `filled` says that the table is full. -/
def Roomy (t : Htab) (k : CStr) : Prop :=
  (∃ i < t.size, (t.table (i + 1)).HasKey k) ∨ (∃ i < t.size, t.table (i + 1) = .free) ∨
    ¬ (t.table (firstHash t.size k)).Live ∨ t.filled = t.size

instance : Decidable (Roomy t k) := by
  unfold Roomy
  infer_instance

/-- A call enters a key only where there is room for it. -/
def Call.Ok (t : Htab) (c : Call) : Prop :=
  match c.op with
  | .enter k _ => Roomy t k
  | _ => True

instance {c : Call} : Decidable (c.Ok t) :=
  match c with
  | ⟨_, .enter k _, _⟩ => inferInstanceAs (Decidable (Roomy t k))
  | ⟨_, .find _, _⟩ => isTrue trivial
  | ⟨_, .delete _, _⟩ => isTrue trivial

/-- The table after a call. -/
def afterCall (t : Htab) (c : Call) : Htab :=
  match exec t c with
  | none => t
  | some (t, _) => t

/-! ## Each call refines its specification -/

/-- The slot chosen for a new key is on its probe sequence and holds no entry. -/
lemma Rep.chosen (rep : Rep t m) (ends : Ends t k j) (roomy : Roomy t k)
    (notFull : t.filled ≠ t.size) :
    Reach t k ((firstDeleted t k).getD (probe t.size k j)) ∧
      ∀ u e, t.table ((firstDeleted t k).getD (probe t.size k j)) ≠ .used u e := by
  have absent := rep.lookup_of_ends ends
  obtain ⟨le, passed, stop⟩ := ends
  by_cases del : t.table (firstHash t.size k) = .deleted
  · simp only [firstDeleted, del, if_true, Option.getD_some]
    exact ⟨⟨0, rep.good.prime.pos, rfl, fun j' h => absurd h (Nat.not_lt_zero j')⟩, by simp⟩
  · simp only [firstDeleted, del, if_false, Option.getD_none]
    have free : t.table (probe t.size k j) = .free := by
      rcases stop with free | rfl
      · exact free
      · -- all probes passed: no slot is free, none holds `k`, and the first one is live
        exfalso
        rcases roomy with ⟨i, lt, has⟩ | ⟨i, lt, free⟩ | dead | fl
        · cases eq : t.table (i + 1) with
          | free => rw [eq] at has; exact has
          | deleted => rw [eq] at has; exact has
          | used u e =>
            rw [eq] at has
            obtain ⟨k', v', -, key, -, look, -⟩ := rep.live eq
            obtain rfl : k' = k := Option.some.inj (key.symm.trans has)
            rw [absent] at look
            contradiction
        · obtain ⟨n, nlt, eq⟩ :=
            probe_surj (k := k) rep.good (i := i + 1) (by omega) (by omega)
          exact (passed n nlt).1 (eq ▸ free)
        · have first := (passed 0 rep.good.prime.pos).1
          rw [probe_zero] at first
          cases eq : t.table (firstHash t.size k) with
          | free => exact first eq
          | deleted => exact del eq
          | used u e => rw [eq] at dead; exact dead trivial
        · exact notFull fl
    have jlt : j < t.size := by
      rcases Nat.lt_or_ge j t.size with h | h
      · exact h
      · have first := (passed 0 (by have := rep.good.five; omega)).1
        have : j = t.size := by omega
        rw [this, probe_period rep.good] at free
        exact absurd free first
    refine ⟨⟨j, jlt, rfl, fun j' h => (passed j' h).1⟩, fun u e h => ?_⟩
    rw [free] at h
    contradiction

/-- No slot is deleted that was not deleted before. -/
def NoNewHoles (t t' : Htab) : Prop :=
  ∀ i, t'.table i = .deleted → t.table i = .deleted

lemma noNewHoles_set {s : Slot} (nd : s ≠ .deleted) : NoNewHoles t (t.set i s) := by
  intro j h
  by_cases ji : j = i
  · rw [ji, Htab.set_self] at h
    exact absurd h nd
  · rwa [Htab.set_ne ji] at h

/-- Storing a new value in the slot of a key. -/
lemma Rep.overwritten (rep : Rep t m) (v : CStr) (holds : HoldsAt t k i e) :
    Rep (t.set i (.used (firstHash t.size k) { e with data := some v })) (m.insert k v) := by
  obtain ⟨v0, -, look, reach⟩ := rep.lookup_of_holds holds
  have mem : k ∈ m := AList.lookup_isSome.1 (by rw [look]; rfl)
  have len : (m.insert k v).keys.length = m.keys.length := length_keys_insert_of_mem mem
  refine rep.put { e with data := some v } t.filled reach ?_ ?_ holds.2 rfl ?_ ?_
  · intro u e' h
    obtain ⟨-, rfl⟩ := Slot.used.inj (holds.1.symm.trans h)
    exact holds.2
  · intro j e' h
    exact rep.uniq h holds
  · rw [len, rep.filled]
  · rw [rep.filled]
    exact rep.room

/-- Storing the entry of a new key in a slot that holds none. -/
lemma Rep.created (rep : Rep t m) (absent : m.lookup k = none) (reach : Reach t k i)
    (vacant : ∀ u e, t.table i ≠ .used u e) (room : t.filled < t.size) (key : e.key = some k)
    (data : e.data = some v) :
    Rep { t.set i (.used (firstHash t.size k) e) with filled := t.filled + 1 } (m.insert k v) := by
  have notMem : k ∉ m := AList.lookup_eq_none.1 absent
  refine rep.put e (t.filled + 1) reach ?_ ?_ key data ?_ room
  · intro u e' h
    exact absurd h (vacant u e')
  · intro j e' h
    obtain ⟨v', -, look, -⟩ := rep.lookup_of_holds h
    rw [absent] at look
    contradiction
  · rw [length_keys_insert_of_notMem notMem, rep.filled]

/-- Where nothing refuses it, an entry found gets the new value. -/
lemma overwriteEntry_eq (acc : hk.Accepting) (k v : CStr) (flag : Int) {hval : Nat} :
    overwriteEntry hk t { key := k, data := some v } .enter flag hval i e =
      (t.set i (.used hval { e with data := some v }), .ok i i) := by
  simp [overwriteEntry, acc.rejects, acc.vetoes, strdup, acc.dupData]

/-- Where nothing refuses it, a new entry stays in its slot. -/
lemma createEntry_eq (acc : hk.Accepting) (k v : CStr) (flag : Int) {hval : Nat} :
    createEntry hk t { key := k, data := some v } flag hval i =
      ({ t.set i (.used hval (initEntry hk { key := k, data := some v }
          (newEntry hk { key := k, data := some v } (t.table i)))) with
        filled := (t.filled + 1) % 2 ^ 32 }, .ok 1 i) := by
  simp [createEntry, acc.rejects, acc.vetoes, newEntry, strdup, acc.dupData, acc.dupKey]

/-- The key and the value of a new entry. -/
lemma initEntry_newEntry (acc : hk.Accepting) (k v : CStr) (s : Slot) :
    (initEntry hk { key := k, data := some v } (newEntry hk { key := k, data := some v } s)).key =
        some k ∧
      (initEntry hk { key := k, data := some v } (newEntry hk { key := k, data := some v } s)).data =
        some v := by
  simp [initEntry, newEntry, strdup, acc.dupKey, acc.dupData]

section Steps

variable (acc : hk.Accepting) (rep : Rep t m)
include acc rep

/-- A key that is there is overwritten in its own slot. -/
lemma Rep.overwrite (v : CStr) (flag : Int) (holds : HoldsAt t k i e) :
    ∃ t', overwriteEntry hk t { key := k, data := some v } .enter flag (firstHash t.size k) i e =
      (t', .ok i i) ∧ Rep t' (m.insert k v) ∧ t'.size = t.size ∧ NoNewHoles t t' := by
  exact ⟨t.set i (.used (firstHash t.size k) { e with data := some v }),
    overwriteEntry_eq acc k v flag, rep.overwritten v holds, rfl, noNewHoles_set (by simp)⟩

/-- A new key goes into a slot that holds no entry. -/
lemma Rep.create (v : CStr) (flag : Int) (absent : m.lookup k = none) (reach : Reach t k i)
    (vacant : ∀ u e, t.table i ≠ .used u e) (room : t.filled < t.size) :
    ∃ t', createEntry hk t { key := k, data := some v } flag (firstHash t.size k) i =
      (t', .ok 1 i) ∧ Rep t' (m.insert k v) ∧ t'.size = t.size ∧ NoNewHoles t t' := by
  have bound := rep.good.bound
  have wrap : (t.filled + 1) % 2 ^ 32 = t.filled + 1 := Nat.mod_eq_of_lt (by omega)
  obtain ⟨key, data⟩ := initEntry_newEntry acc k v (t.table i)
  refine ⟨_, createEntry_eq acc k v flag, ?_, rfl, noNewHoles_set (t := t) (by simp)⟩
  rw [wrap]
  exact rep.created absent reach vacant room key data

/-- Where a search that ended puts the new entry. -/
lemma Rep.notFound (v : CStr) (flag : Int) (ends : Ends t k j) (roomy : Roomy t k) :
    ∃ t' r, notFound hk t { key := k, data := some v } .enter flag (firstHash t.size k)
        (firstDeleted t k) (probe t.size k j) = (t', r) ∧
      r.isOk = decide (m.keys.length < t.size) ∧ t'.size = t.size ∧ NoNewHoles t t' ∧
      Rep t' (if m.keys.length < t.size then m.insert k v else m) := by
  have absent := rep.lookup_of_ends ends
  have room := rep.room
  rw [HashTable.notFound]
  by_cases full : t.filled = t.size
  · have nlt : ¬ m.keys.length < t.size := by
      have := rep.filled
      omega
    exact ⟨t, .fail .enomem, by simp [full], by simp [nlt, Res.isOk], rfl,
      fun _ => id, by rwa [if_neg nlt]⟩
  · have lt : m.keys.length < t.size := by
      have := rep.filled
      omega
    have lt' : t.filled < t.size := by rwa [rep.filled]
    obtain ⟨reach, vacant⟩ := rep.chosen ends roomy full
    obtain ⟨t', eq, rep', size, holes⟩ :=
      rep.create acc v flag absent reach vacant lt'
    refine ⟨t', .ok 1 ((firstDeleted t k).getD (probe t.size k j)), ?_, by simp [Res.isOk, lt],
      size, holes, by rwa [if_pos lt]⟩
    simp only [if_neg full]
    exact eq

/-- Entering a key, new or not. -/
lemma Rep.enter (v : CStr) (flag : Int) (roomy : Roomy t k) :
    ∃ t' r, hsearchR hk t { key := k, data := some v } .enter flag = some (t', r) ∧
      t'.size = t.size ∧ NoNewHoles t t' ∧ Rep t' (specExec t.size m (.enter k v)).1 ∧
      .entered r.isOk = (specExec t.size m (.enter k v)).2 := by
  rcases hsearchR_spec hk { key := k, data := some v } .enter flag
    rep.good with ⟨j, e, ⟨-, -, holds⟩, eq⟩ | ⟨j, ends, eq⟩
  · obtain ⟨v', -, look, -⟩ := rep.lookup_of_holds holds
    have mem : k ∈ m := AList.lookup_isSome.1 (by rw [look]; rfl)
    obtain ⟨t', eq', rep', size, holes⟩ := rep.overwrite acc v flag holds
    refine ⟨t', _, eq.trans (congrArg some eq'), size, holes, ?_⟩
    simp only [specExec, if_pos (Or.inl mem : k ∈ m ∨ _)]
    exact ⟨rep', rfl⟩
  · have notMem : k ∉ m := AList.lookup_eq_none.1 (rep.lookup_of_ends ends)
    obtain ⟨t', r, eq', ok, size, holes, rep'⟩ :=
      rep.notFound acc v flag ends roomy
    refine ⟨t', r, eq.trans (congrArg some eq'), size, holes, ?_⟩
    rw [ok]
    by_cases lt : m.keys.length < t.size
    · rw [if_pos lt] at rep'
      rw [specExec, if_pos (.inr lt), decide_eq_true lt]
      exact ⟨rep', rfl⟩
    · rw [if_neg lt] at rep'
      rw [specExec, if_neg (by tauto), decide_eq_false lt]
      exact ⟨rep', rfl⟩

end Steps

/-! ## Changes that may be refused -/

/-- What entering a key can do to a table when changes may be refused. -/
inductive Entered (hk : Hooks) (t : Htab) (m : Map) (k v : CStr) : Htab → Res → Prop where
  | kept {errno : Errno} : Entered hk t m k v t (.fail errno)
  | overwritten {i : Nat} {e : Entry} : HoldsAt t k i e →
      Entered hk t m k v (t.set i (.used (firstHash t.size k) { e with data := some v })) (.ok i i)
  | created {i : Nat} {e : Entry} : m.lookup k = none → t.filled ≠ t.size →
      (∀ u e, t.table i ≠ .used u e) →
      e = initEntry hk { key := k, data := some v }
        (newEntry hk { key := k, data := some v } (t.table i)) →
      Entered hk t m k v
        { t.set i (.used (firstHash t.size k) e) with filled := t.filled + 1 } (.ok 1 i)
  | dropped {i : Nat} {e : Entry} {errno : Errno} : m.lookup k = none →
      (∀ u e, t.table i ≠ .used u e) →
      Entered hk t m k v
        (hdelete { t.set i (.used (firstHash t.size k) e) with filled := t.filled + 1 } i)
        (.fail errno)

/-- The copies a change asks for find memory: that of the value where the entry may be overwritten,
those of the name and the value where there is room for a new entry. -/
structure Copied (hk : Hooks) (t : Htab) (k v : CStr) (flag : Int) : Prop where
  value : ∀ {i e}, HoldsAt t k i e → ¬ hk.rejects e (some v) .overwrite flag = true →
    ¬ hk.vetoes e.callback k (some v) .overwrite flag = true → hk.dupData = true
  entry : (∀ i e, ¬ HoldsAt t k i e) → t.filled ≠ t.size → hk.dupKey = true ∧ hk.dupData = true

/-- Entering a key, where memory does not run out but the change may be refused. -/
lemma Rep.entered (rep : Rep t m) {flag : Int} (copied : Copied hk t k v flag)
    (roomy : m.lookup k = none → t.filled ≠ t.size → Roomy t k) :
    ∃ t' r, hsearchR hk t { key := k, data := some v } .enter flag = some (t', r) ∧
      Entered hk t m k v t' r ∧ Rep t' (if r.isOk then m.insert k v else m) := by
  rcases hsearchR_spec hk { key := k, data := some v } .enter flag
    rep.good with ⟨j, e, ⟨-, -, holds⟩, eq⟩ | ⟨j, ends, eq⟩
  · rw [overwriteEntry, if_pos (by simp)] at eq
    split_ifs at eq with rejected vetoed
    · exact ⟨_, _, eq, .kept, rep⟩
    · exact ⟨_, _, eq, .kept, rep⟩
    · have dupData := copied.value holds rejected vetoed
      simp only [strdup, dupData, if_true, reduceCtorEq, if_false] at eq
      exact ⟨_, _, eq, .overwritten holds, rep.overwritten v holds⟩
  · have absent := rep.lookup_of_ends ends
    rw [HashTable.notFound] at eq
    by_cases full : t.filled = t.size
    · simp only [if_pos full] at eq
      exact ⟨_, _, eq, .kept, rep⟩
    · have fill := rep.filled
      have room := rep.room
      have bound := rep.good.bound
      have wrap : (t.filled + 1) % 2 ^ 32 = t.filled + 1 := Nat.mod_eq_of_lt (by omega)
      obtain ⟨reach, vacant⟩ := rep.chosen ends (roomy absent full) full
      obtain ⟨dupKey, dupData⟩ := copied.entry (fun i e holds => by
        obtain ⟨w, -, look, -⟩ := rep.lookup_of_holds holds
        rw [absent] at look
        cases look) full
      have some' : ¬ ((newEntry hk { key := k, data := some v } (t.table
          ((firstDeleted t k).getD (probe t.size k j)))).key = none ∨
          (newEntry hk { key := k, data := some v } (t.table
            ((firstDeleted t k).getD (probe t.size k j)))).data = none) := by
        simp [newEntry, strdup, dupKey, dupData]
      simp only [if_neg full, createEntry, if_neg some', wrap] at eq
      -- the table with the new entry, and the same after it is deleted again
      have new := @Rep.created t m k v _ (initEntry hk { key := k, data := some v }
        (newEntry hk { key := k, data := some v } (t.table
          ((firstDeleted t k).getD (probe t.size k j))))) rep absent reach vacant (by omega)
        (by simp [initEntry, newEntry, strdup, dupKey])
        (by simp [initEntry, newEntry, strdup, dupData])
      have gone := new.drop ⟨Htab.set_self, by simp [initEntry, newEntry, strdup, dupKey]⟩
      have notMem : k ∉ m := AList.lookup_eq_none.1 absent
      have same : ((m.insert k v).erase k).entries.Perm m.entries := by
        have erase : ((m.insert k v).erase k).entries = (m.insert k v).entries.kerase k := rfl
        rw [erase, AList.entries_insert_of_notMem notMem,
          @List.kerase_cons_eq _ _ _ k ⟨k, v⟩ m.entries rfl]
      have kept : Rep _ m := gone.perm same
      split_ifs at eq
      · exact ⟨_, _, eq, .dropped absent vacant, kept⟩
      · exact ⟨_, _, eq, .dropped absent vacant, kept⟩
      · exact ⟨_, _, eq, .created absent full vacant rfl, new⟩

/-- Finding a key changes nothing and gives its value. -/
lemma Rep.find (rep : Rep t m) (hk : Hooks) (k : CStr) (flag : Int) :
    ∃ r, hsearchR hk t { key := k, data := none } .find flag = some (t, r) ∧
      r.data t = m.lookup k ∧
      ((∃ i e, HoldsAt t k i e ∧ r = .ok i i) ∨ (m.lookup k = none ∧ r = .fail .esrch)) := by
  rcases hsearchR_spec hk { key := k, data := none } .find flag
    rep.good with ⟨j, e, ⟨-, -, holds⟩, eq⟩ | ⟨j, ends, eq⟩
  · obtain ⟨v, data, look, -⟩ := rep.lookup_of_holds holds
    refine ⟨_, eq, ?_, .inl ⟨_, e, holds, rfl⟩⟩
    have eq1 : t.table (probe t.size k j) = _ := holds.1
    simp [Res.data, dataAt, eq1, data, look]
  · have absent := rep.lookup_of_ends ends
    exact ⟨_, eq, absent.symm, .inr ⟨absent, rfl⟩⟩

/-- Deleting a key, where the change may be refused. -/
lemma Rep.deleted (rep : Rep t m) (hk : Hooks) (k : CStr) (flag : Int) :
    hdeleteR hk t k flag = some (t, false) ∨
      ∃ i e, HoldsAt t k i e ∧ hdeleteR hk t k flag = some (hdelete t i, true) := by
  obtain ⟨r, eq, -, ⟨i, e, holds, rfl⟩ | ⟨absent, rfl⟩⟩ := rep.find hk k 0
  · rw [hdeleteR, eq]
    simp only [holds.1]
    split_ifs
    · exact .inl rfl
    · exact .inl rfl
    · exact .inr ⟨i, e, holds, rfl⟩
  · refine .inl ?_
    rw [hdeleteR, eq]

/-- Deleting a key. -/
lemma Rep.delete (acc : hk.Accepting) (rep : Rep t m) (k : CStr) (flag : Int) :
    ∃ t', hdeleteR hk t k flag = some (t', decide (k ∈ m)) ∧ t'.size = t.size ∧
      Rep t' (m.erase k) := by
  obtain ⟨r, eq, -, ⟨i, e, holds, rfl⟩ | ⟨absent, rfl⟩⟩ := rep.find hk k 0
  · obtain ⟨v, -, look, -⟩ := rep.lookup_of_holds holds
    have mem : k ∈ m := AList.lookup_isSome.1 (by rw [look]; rfl)
    refine ⟨hdelete t i, ?_, hdelete_size, rep.drop holds⟩
    rw [hdeleteR, eq]
    simp [holds.1, acc.rejects, acc.vetoes, mem]
  · have notMem : k ∉ m := AList.lookup_eq_none.1 absent
    refine ⟨t, ?_, rfl, ?_⟩
    · rw [hdeleteR, eq]
      simp [notMem]
    · have same : m.erase k = m := by
        apply AList.ext
        exact List.kerase_of_notMem_keys (mt AList.mem_keys.2 notMem)
      rwa [same]

/-- One call refines the operation on the map. -/
lemma exec_refines {c : Call} (rep : Rep t m) (acc : c.hk.Accepting) (ok : c.Ok t) :
    ∃ t', exec t c = some (t', (specExec t.size m c.op).2) ∧ t'.size = t.size ∧
      Rep t' (specExec t.size m c.op).1 := by
  obtain ⟨hk, op, flag⟩ := c
  cases op with
  | enter k v =>
    obtain ⟨t', r, eq, size, -, rep', ans⟩ := rep.enter acc v flag ok
    exact ⟨t', by simp only [exec, eq, Option.map_some, ans], size, rep'⟩
  | find k =>
    obtain ⟨r, eq, data, -⟩ := rep.find hk k flag
    exact ⟨t, by simp only [exec, eq, Option.map_some, data, specExec], rfl, rep⟩
  | delete k =>
    obtain ⟨t', eq, size, rep'⟩ := rep.delete acc k flag
    exact ⟨t', by simp only [exec, eq, Option.map_some, specExec], size, rep'⟩

/-- A run of calls refines the same run on the map. -/
lemma Rep.run {cs : List Call} (rep : Rep t m) (acc : ∀ c ∈ cs, c.hk.Accepting)
    (ok : Along (fun t c => c.Ok t) afterCall t cs) :
    ∃ t', run t cs = some (t', (specRun t.size m cs).2) ∧ t'.size = t.size ∧
      Rep t' (specRun t.size m cs).1 := by
  induction cs generalizing t m with
  | nil => exact ⟨t, rfl, rfl, rep⟩
  | cons c cs ih =>
    obtain ⟨okc, okcs⟩ := ok
    obtain ⟨t1, eq, size, rep1⟩ := exec_refines rep (acc c List.mem_cons_self) okc
    simp only [afterCall, eq] at okcs
    obtain ⟨t2, eq2, size2, rep2⟩ := ih rep1 (fun c h => acc c (List.mem_cons_of_mem _ h)) okcs
    rw [size] at eq2 rep2
    refine ⟨t2, ?_, size2.trans size, rep2⟩
    simp only [HashTable.run, eq, eq2, Option.map_some, specRun]

/-- The environment hash table behaves as a finite map: in every run of calls that enter keys only
where there is room, from a table made by `hcreate_r`, every answer is that of the map, and the
table left holds the map's keys in one slot each and counts them in `filled`. -/
theorem run_refines_map {nel : Nat} {cs : List Call} (two : 2 ≤ nel) (small : nel < 2 ^ 30)
    (acc : ∀ c ∈ cs, c.hk.Accepting) :
    ∃ t, hcreateR nel = some t ∧ t.size.Prime ∧
      (Along (fun t c => c.Ok t) afterCall t cs →
        ∃ t', run t cs = some (t', (specRun t.size ∅ cs).2) ∧ Rep t' (specRun t.size ∅ cs).1) := by
  obtain ⟨size, eq, prime, five, -, le⟩ := hcreateR_prime two
  refine ⟨Htab.empty size, eq, prime, fun ok => ?_⟩
  have good : GoodSize size := ⟨prime, five, by omega⟩
  obtain ⟨t', eq', -, rep'⟩ := (Rep.empty good).run acc ok
  exact ⟨t', eq', rep'⟩

/-- A table whose changes nothing refuses, with no attributes for any name. -/
def plainHooks : Hooks where
  changeOk := none
  runCallback _ _ _ _ _ := false
  callbackInit _ := none
  flagsInit _ := none
  dupKey := true
  dupData := true

lemma plainHooks_accepting : plainHooks.Accepting :=
  ⟨fun _ _ _ _ => rfl, fun cb _ _ _ _ => by cases cb <;> rfl, rfl, rfl⟩

/-- A call with nothing in its way. -/
def plainCall (op : Op) : Call :=
  { hk := plainHooks, op, flag := 0 }

/-- Enter the one-byte keys 1, …, `n`. -/
def enterMany (n : Nat) : List Call :=
  (List.range n).map fun (c : Nat) =>
    plainCall (.enter [UInt8.ofNat (c + 1)] [UInt8.ofNat (c + 1)])

lemma enterMany_accepting (n : Nat) (cs : List Op) :
    ∀ c ∈ enterMany n ++ cs.map plainCall, c.hk.Accepting := by
  intro c mem
  simp only [enterMany, List.mem_append, List.mem_map] at mem
  obtain ⟨-, -, rfl⟩ | ⟨-, -, rfl⟩ := mem
  · exact plainHooks_accepting
  · exact plainHooks_accepting

/-- A key is entered where its first slot holds no entry, or while the last slot was never used. -/
def FirstSlotOk (t : Htab) (c : Call) : Prop :=
  match c.op with
  | .enter k _ => ¬ (t.table (firstHash t.size k)).Live ∨ 0 < t.size ∧ t.table t.size = .free
  | _ => True

instance {c : Call} {t : Htab} : Decidable (FirstSlotOk t c) :=
  match c with
  | ⟨_, .enter k _, _⟩ => inferInstanceAs
      (Decidable (¬ (t.table (firstHash t.size k)).Live ∨ 0 < t.size ∧ t.table t.size = .free))
  | ⟨_, .find _, _⟩ => isTrue trivial
  | ⟨_, .delete _, _⟩ => isTrue trivial

/-- Such a run enters keys only where there is room. -/
lemma Along.ok_of_firstSlotOk {t : Htab} {cs : List Call}
    (run : Along FirstSlotOk afterCall t cs) : Along (fun t c => c.Ok t) afterCall t cs := by
  refine run.guarantee (P := fun _ => True) trivial fun t c _ first => ⟨?_, trivial⟩
  obtain ⟨hk, op, flag⟩ := c
  cases op with
  | enter k v =>
    obtain dead | ⟨pos, free⟩ := first
    · exact .inr (.inr (.inl dead))
    · have last : t.size - 1 + 1 = t.size := Nat.sub_one_add_one_eq_of_pos pos
      exact .inr (.inl ⟨t.size - 1, Nat.sub_one_lt_of_lt pos, last.symm ▸ free⟩)
  | find k => trivial
  | delete k => trivial

/-- The run that refines and the run that loses a key, computed in the kernel one by one. -/
lemma full_runs :
    Along FirstSlotOk afterCall (Htab.empty 67)
        (enterMany 67 ++ [Op.delete [3], .enter [70] [7], .find [70]].map plainCall) ∧
      ((run (Htab.empty 67) (enterMany 67 ++
        [Op.delete [1], .enter [70] [7], .find [3]].map plainCall)).map
          fun (r : Htab × List Ans) => r.2.getLast?) = some (some (.found none)) ∧
      (specRun 67 ∅
        (enterMany 67 ++ [Op.delete [1], .enter [70] [7], .find [3]].map plainCall)).2.getLast? =
          some (.found (some [3])) := by
  refine ⟨?_, ?_, ?_⟩ <;> decide +kernel

/-- Filling a table of 67 slots, deleting the key in the first slot of a new key and entering the
new key. -/
theorem run_refines_map_full :
    ∃ t, hcreateR 64 = some t ∧ t.size.Prime ∧
      ∃ t', run t (enterMany 67 ++ [Op.delete [3], .enter [70] [7], .find [70]].map plainCall) =
          some (t', (specRun t.size ∅
            (enterMany 67 ++ [Op.delete [3], .enter [70] [7], .find [70]].map plainCall)).2) ∧
        Rep t' (specRun t.size ∅
          (enterMany 67 ++ [Op.delete [3], .enter [70] [7], .find [70]].map plainCall)).1 := by
  obtain ⟨t, eq, prime, refines⟩ := @run_refines_map 64 _ (by decide) (by decide)
    (enterMany_accepting 67 [Op.delete [3], .enter [70] [7], .find [70]])
  refine ⟨t, eq, prime, refines ?_⟩
  obtain rfl : Htab.empty 67 = t := Option.some.inj eq
  exact Along.ok_of_firstSlotOk full_runs.1

/-- Once no slot is left that was never used, a new key replaces a live one: after filling the 67
slots and deleting key 1, entering key 70, whose first slot is that of key 3, loses key 3. -/
theorem run_loses_live_key :
    ∃ t t' ans, hcreateR 64 = some t ∧
      run t (enterMany 67 ++ [Op.delete [1], .enter [70] [7], .find [3]].map plainCall) =
        some (t', ans) ∧
      ans.getLast? = some (.found none) ∧
      (specRun t.size ∅
        (enterMany 67 ++ [Op.delete [1], .enter [70] [7], .find [3]].map plainCall)).2.getLast? =
          some (.found (some [3])) := by
  obtain ⟨r, eq1, eq2⟩ := Option.map_eq_some_iff.1 full_runs.2.1
  exact ⟨Htab.empty 67, r.1, r.2, rfl, eq1, eq2, full_runs.2.2⟩

end Imx.HashTable
