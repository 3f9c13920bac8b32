import Imx.HashTable.Lines

/-!
# Variables an import loses

`himport_r` makes its table for a number of entries it guesses from the size of the text, and goes
on when an entry does not get in. Which variables are lost is told by the table before each line:
a new name is lost where the table is full, and where all its slots were used a new name takes the
first slot it probes from the name there. `Loose` is the table as a map when that has happened,
with a count that is no longer exact.
-/

namespace Imx.HashTable
open Imx.Base

variable {hk : Hooks} {t : Htab} {m : Map} {k v x : CStr} {flag : Int} {i : Nat} {e : Entry}

/-! ## Tables that took slots from others -/

/-- The slots of the table hold the map; the count may be too large. -/
structure Loose (t : Htab) (m : Map) : Prop where
  rep : Rep { t with filled := m.keys.length } m
  lower : m.keys.length ≤ t.filled
  upper : t.filled ≤ t.size

lemma Rep.loose (rep : Rep t m) : Loose t m where
  rep := by
    rw [← rep.filled]
    exact rep
  lower := rep.filled.ge
  upper := rep.filled ▸ rep.room

/-- The key in a slot. -/
def Slot.key : Slot → Option CStr
  | .used _ e => e.key
  | _ => none

/-- The name that is lost when `k` is entered: `k` itself where it is new and the table full, and
the name in the first slot of `k` where no other slot is left. -/
def lostBy (t : Htab) (k : CStr) : Option CStr :=
  if ∃ i < t.size, (t.table (i + 1)).HasKey k then none
  else if t.filled = t.size then some k
  else if ∃ i < t.size, t.table (i + 1) = .free then none
  else (t.table (firstHash t.size k)).key

/-- Where there is room, nothing is lost. -/
lemma lostBy_of_roomy (roomy : Roomy t k) (noKey : ¬ ∃ i < t.size, (t.table (i + 1)).HasKey k)
    (notFull : t.filled ≠ t.size) : lostBy t k = none := by
  rw [lostBy, if_neg noKey, if_neg notFull]
  split_ifs with free
  · rfl
  · rcases roomy with has | free' | dead | full
    · exact absurd has noKey
    · exact absurd free' free
    · cases eq : t.table (firstHash t.size k) with
      | free => rfl
      | deleted => rfl
      | used u e => rw [eq] at dead; exact absurd trivial dead
    · exact absurd full notFull

section Loose

variable (loose : Loose t m)
include loose

lemma Loose.good : GoodSize t.size := loose.rep.good

lemma Loose.lookup_of_holds (h : HoldsAt t k i e) :
    ∃ v, e.data = some v ∧ m.lookup k = some v ∧ Reach t k i :=
  loose.rep.lookup_of_holds (t := { t with filled := m.keys.length }) h

/-- Some slot has the key of every variable, and of no other name. -/
lemma Loose.hasKey_iff : (∃ i < t.size, (t.table (i + 1)).HasKey k) ↔ m.lookup k ≠ none := by
  constructor
  · rintro ⟨i, -, has⟩
    cases eq : t.table (i + 1) with
    | free => rw [eq] at has; exact has.elim
    | deleted => rw [eq] at has; exact has.elim
    | used u e =>
      rw [eq] at has
      obtain ⟨k', v, -, key, -, look, -⟩ := loose.rep.live eq
      obtain rfl : k' = k := Option.some.inj (key.symm.trans has)
      rw [look]
      exact Option.some_ne_none v
  · intro ne
    obtain ⟨v, look⟩ := Option.ne_none_iff_exists'.1 ne
    obtain ⟨i, e, holds, -⟩ := loose.rep.slot look
    obtain ⟨-, -, -, j, -, rfl, -⟩ := loose.lookup_of_holds holds
    obtain ⟨ge, le⟩ := probe_mem (k := k) (j := j) loose.good
    obtain ⟨i, eq⟩ : ∃ i, probe t.size k j = i + 1 := ⟨probe t.size k j - 1, by omega⟩
    refine ⟨i, by omega, ?_⟩
    rw [← eq]
    have at' : t.table (probe t.size k j) = _ := holds.1
    rw [at']
    exact holds.2

/-- Finding a key. -/
lemma Loose.find (hk : Hooks) (k : CStr) (flag : Int) :
    ∃ r, hsearchR hk t { key := k, data := none } .find flag = some (t, r) ∧
      r.data t = m.lookup k ∧
      ((∃ i e, HoldsAt t k i e ∧ r = .ok i i) ∨ (m.lookup k = none ∧ r = .fail .esrch)) := by
  rcases hsearchR_spec hk { key := k, data := none } .find flag
    loose.good with ⟨j, e, ⟨-, -, holds⟩, eq⟩ | ⟨j, ends, eq⟩
  · obtain ⟨v, data, look, -⟩ := loose.lookup_of_holds holds
    refine ⟨_, eq, ?_, .inl ⟨_, e, holds, rfl⟩⟩
    have eq1 : t.table (probe t.size k j) = _ := holds.1
    simp [Res.data, dataAt, eq1, data, look]
  · have absent := loose.rep.lookup_of_ends (t := { t with filled := m.keys.length }) ends
    exact ⟨_, eq, absent.symm, .inr ⟨absent, rfl⟩⟩

/-- The slot of an entry that is found cannot be lost. -/
lemma Loose.lostBy_held (h : HoldsAt t k i e) : lostBy t k = none := by
  obtain ⟨v, -, look, -⟩ := loose.lookup_of_holds h
  have ne : m.lookup k ≠ none := by
    rw [look]
    exact Option.some_ne_none v
  exact if_pos (loose.hasKey_iff.2 ne)

/-- A name that is lost to another one was in the table. -/
lemma Loose.held_of_lost (lost : lostBy t k = some x) (ne : x ≠ k) : m.lookup x ≠ none := by
  rw [lostBy] at lost
  split_ifs at lost with has full free
  · exact absurd (Option.some.inj lost).symm ne
  · cases eq : t.table (firstHash t.size k) with
    | free => rw [eq] at lost; cases lost
    | deleted => rw [eq] at lost; cases lost
    | used u e =>
      obtain ⟨y, v, -, key, -, look, -⟩ := loose.rep.live eq
      rw [eq] at lost
      obtain rfl : y = x := Option.some.inj (key.symm.trans lost)
      rw [look]
      exact Option.some_ne_none v

/-- Storing a new key in its first slot, which another key had. -/
lemma Loose.replace {y : CStr} {e' : Entry} (holds : HoldsAt t y (firstHash t.size k) e)
    (absent : m.lookup k = none) (notFull : t.filled ≠ t.size) (key : e'.key = some k)
    (data : e'.data = some v) :
    Loose { t.set (firstHash t.size k) (.used (firstHash t.size k) e') with
      filled := t.filled + 1 } ((m.erase y).insert k v) := by
  obtain ⟨w, -, look, -⟩ := loose.lookup_of_holds holds
  have ne : k ≠ y := by
    rintro rfl
    rw [absent] at look
    cases look
  have mem : y ∈ m := AList.lookup_isSome.1 (by rw [look]; rfl)
  have pos := List.length_pos_of_mem (AList.mem_keys.1 mem)
  have less := length_keys_erase mem
  have absent' : (m.erase y).lookup k = none := by rw [AList.lookup_erase_ne ne, absent]
  have count : ((m.erase y).insert k v).keys.length = m.keys.length := by
    rw [length_keys_insert_of_notMem (AList.lookup_eq_none.1 absent'), less]
    omega
  have upper := loose.upper
  have lower := loose.lower
  -- first the entry of the other key goes, then the new one comes
  have gone := loose.rep.drop (t := { t with filled := m.keys.length }) holds
  have reach : Reach (hdelete { t with filled := m.keys.length } (firstHash t.size k)) k
      (firstHash t.size k) :=
    ⟨0, loose.good.prime.pos, rfl, fun j' h => absurd h (Nat.not_lt_zero j')⟩
  have come := gone.created absent' reach (fun u e h => by
    rw [hdelete_table_self] at h
    cases h) (by rw [gone.filled, less, hdelete_size]; dsimp only; omega) key data
  refine ⟨?_, by rw [count]; exact lower.trans (Nat.le_succ _),
    Nat.succ_le_of_lt (Nat.lt_of_le_of_ne upper notFull)⟩
  have filled : decFilled m.keys.length + 1 = ((m.erase y).insert k v).keys.length := come.filled
  have twice : Function.update (Function.update t.table (firstHash t.size k) .deleted)
      (firstHash t.size k) (.used (firstHash t.size k) e') =
        Function.update t.table (firstHash t.size k) (.used (firstHash t.size k) e') :=
    Function.update_idem ..
  rw [← filled]
  exact (congrArg (fun table => Rep ⟨table, t.size, decFilled m.keys.length + 1⟩
    ((m.erase y).insert k v)) twice).mp come

/-- Entering a key: it is there afterwards unless it was lost, and no other name is lost but the
one it was taken for. -/
lemma Loose.enter (acc : hk.Accepting) (k v : CStr) (flag : Int) :
    ∃ t' r m', hsearchR hk t { key := k, data := some v } .enter flag = some (t', r) ∧
      t'.size = t.size ∧ Loose t' m' ∧
      ∀ x, m'.lookup x = if lostBy t k = some x then none else if x = k then some v
        else m.lookup x := by
  have bound := loose.good.bound
  rcases hsearchR_spec hk { key := k, data := some v } .enter flag
    loose.good with ⟨j, e, ⟨-, -, holds⟩, eq⟩ | ⟨j, ends, eq⟩
  · rw [overwriteEntry_eq acc] at eq
    have rep' := loose.rep.overwritten (t := { t with filled := m.keys.length }) v holds
    obtain ⟨v', -, look, -⟩ := loose.lookup_of_holds holds
    have same : (m.insert k v).keys.length = m.keys.length :=
      length_keys_insert_of_mem (AList.lookup_isSome.1 (by rw [look]; rfl))
    refine ⟨_, _, m.insert k v, eq, rfl, ⟨?_, ?_, loose.upper⟩, fun x => ?_⟩
    · rw [same]
      exact rep'
    · rw [same]
      exact loose.lower
    · rw [loose.lostBy_held holds, if_neg (Option.some_ne_none x ∘ Eq.symm)]
      split_ifs with h
      · rw [h, AList.lookup_insert]
      · rw [AList.lookup_insert_ne h]
  · have absent : m.lookup k = none :=
      loose.rep.lookup_of_ends (t := { t with filled := m.keys.length }) ends
    have noKey : ¬ ∃ i < t.size, (t.table (i + 1)).HasKey k :=
      fun h => loose.hasKey_iff.1 h absent
    have lower := loose.lower
    have upper := loose.upper
    rw [notFound] at eq
    by_cases full : t.filled = t.size
    · rw [if_pos full] at eq
      refine ⟨t, _, m, eq, rfl, loose, fun x => ?_⟩
      rw [lostBy, if_neg noKey, if_pos full]
      split_ifs with h1 h2
      · rw [← Option.some.inj h1, absent]
      · exact absurd (congrArg some h2.symm) h1
      · rfl
    · rw [if_neg full, createEntry_eq acc, Nat.mod_eq_of_lt (by omega)] at eq
      obtain ⟨key, data⟩ := initEntry_newEntry acc k v
        (t.table ((firstDeleted t k).getD (probe t.size k j)))
      by_cases roomy : Roomy t k
      · have roomy' : Roomy { t with filled := m.keys.length } k :=
          roomy.imp_right (.imp_right (.imp_right fun h => absurd h full))
        have vacant := loose.rep.chosen (t := { t with filled := m.keys.length }) ends roomy'
          (show m.keys.length ≠ t.size by omega)
        have rep' := loose.rep.created (t := { t with filled := m.keys.length }) absent vacant.1
          vacant.2 (show m.keys.length < t.size by omega) key data
        have more : (m.insert k v).keys.length = m.keys.length + 1 :=
          length_keys_insert_of_notMem (AList.lookup_eq_none.1 absent)
        refine ⟨_, _, m.insert k v, eq, rfl, ⟨?_, ?_, ?_⟩, fun x => ?_⟩
        · rw [more]
          exact rep'
        · rw [more]
          exact Nat.succ_le_succ lower
        · exact Nat.succ_le_of_lt (Nat.lt_of_le_of_ne upper full)
        · rw [lostBy_of_roomy roomy noKey full, if_neg (Option.some_ne_none x ∘ Eq.symm)]
          split_ifs with h
          · rw [h, AList.lookup_insert]
          · rw [AList.lookup_insert_ne h]
      · -- every slot was used, and the first one has the entry of another name
        obtain ⟨-, noFree, alive, -⟩ : _ ∧ (¬ ∃ i < t.size, t.table (i + 1) = .free) ∧
            (t.table (firstHash t.size k)).Live ∧ _ := by
          simpa only [Roomy, not_or, not_not] using roomy
        obtain ⟨-, -, stop⟩ := ends
        obtain rfl : j = t.size := by
          refine stop.resolve_left fun free => noFree ⟨probe t.size k j - 1, ?_⟩
          have mem := probe_mem (k := k) (j := j) loose.good
          exact ⟨by omega, by rwa [Nat.sub_add_cancel mem.1]⟩
        cases first : t.table (firstHash t.size k) with
        | free => rw [first] at alive; exact alive.elim
        | deleted => rw [first] at alive; exact alive.elim
        | used u e₀ =>
          obtain ⟨y, w, rfl, key₀, -, look₀, -⟩ := loose.rep.live first
          have slot : (firstDeleted t k).getD (probe t.size k t.size) = firstHash t.size k := by
            rw [firstDeleted, first, if_neg (by simp), Option.getD_none, probe_period loose.good]
          rw [slot] at eq key data
          refine ⟨_, _, (m.erase y).insert k v, eq, rfl,
            loose.replace ⟨first, key₀⟩ absent full key data, fun x => ?_⟩
          have lost : lostBy t k = some y := by
            rw [lostBy, if_neg noKey, if_neg full, if_neg noFree, first]
            exact key₀
          rw [lost]
          split_ifs with hy hk'
          · obtain rfl := Option.some.inj hy
            rw [AList.lookup_insert_ne, AList.lookup_erase]
            rintro rfl
            rw [absent] at look₀
            cases look₀
          · rw [hk', AList.lookup_insert]
          · rw [AList.lookup_insert_ne hk', AList.lookup_erase_ne (hy ∘ congrArg some ∘ Eq.symm)]

/-- Deleting a key loses no other. -/
lemma Loose.delete (acc : hk.Accepting) (k : CStr) (flag : Int) :
    ∃ t' b m', hdeleteR hk t k flag = some (t', b) ∧ t'.size = t.size ∧ Loose t' m' ∧
      ∀ x, m'.lookup x = if x = k then none else m.lookup x := by
  obtain ⟨r, eq, -, ⟨i, e, holds, rfl⟩ | ⟨absent, rfl⟩⟩ := loose.find hk k 0
  · obtain ⟨v, -, look, -⟩ := loose.lookup_of_holds holds
    have mem : k ∈ m := AList.lookup_isSome.1 (by rw [look]; rfl)
    have pos := List.length_pos_of_mem (AList.mem_keys.1 mem)
    have less := length_keys_erase mem
    have bound := loose.good.bound
    have lower := loose.lower
    have upper := loose.upper
    have gone := loose.rep.drop (t := { t with filled := m.keys.length }) holds
    have filled : decFilled m.keys.length = (m.erase k).keys.length := gone.filled
    have count : decFilled t.filled = t.filled - 1 := by
      rw [decFilled]
      omega
    refine ⟨hdelete t i, true, m.erase k, ?_, hdelete_size, ⟨?_, ?_, ?_⟩, fun x => ?_⟩
    · rw [hdeleteR, eq]
      simp [holds.1, acc.rejects, acc.vetoes]
    · rw [← filled]
      exact gone
    · rw [hdelete_filled, count, less]
      omega
    · rw [hdelete_filled, count, hdelete_size]
      omega
    · split_ifs with h
      · rw [h, AList.lookup_erase]
      · rw [AList.lookup_erase_ne h]
  · refine ⟨t, false, m, by rw [hdeleteR, eq], rfl, loose, fun x => ?_⟩
    split_ifs with h
    · rw [h, absent]
    · rfl

end Loose

/-! ## Scripts that lose nothing -/

/-- The name a line is about. -/
def Line.name : Line → Option CStr
  | .comment => none
  | .remove name => some name
  | .assign name _ => some name

/-- What a line says about the values of the names. -/
def Line.settle (l : Line) (values : CStr → Option CStr) : CStr → Option CStr :=
  match l with
  | .comment => values
  | .remove name => Function.update values name none
  | .assign name value => Function.update values name (some value)

/-- The value a script gives a name: that of the last line about it. -/
def settled (ls : List Line) : CStr → Option CStr :=
  ls.foldl (fun values l => l.settle values) fun _ => none

/-- The name a line loses. -/
def Line.loses (t : Htab) : Line → Option CStr
  | .comment => none
  | .remove _ => none
  | .assign name _ => lostBy t name

/-- The table after a line. -/
def afterLine (hk : Hooks) (flag : Nat) (t : Htab) (l : Line) : Htab :=
  ((runLine hk flag t [] l).map Prod.fst).getD t

/-- Every name a line loses is the name of a later line. -/
def Kept (hk : Hooks) (flag : Nat) (t : Htab) : List Line → Prop
  | [] => True
  | l :: ls => (∀ x, l.loses t = some x → ∃ l' ∈ ls, l'.name = some x) ∧
      Kept hk flag (afterLine hk flag t l) ls

section Script

variable {flag : Nat} {l : Line} {ls : List Line} {values : CStr → Option CStr}

/-- The table has no values but those the script gave. -/
def Said (m : Map) (values : CStr → Option CStr) : Prop :=
  ∀ x v, m.lookup x = some v → values x = some v

/-- The script gave the name a value, and the table does not have it. -/
def Missing (m : Map) (values : CStr → Option CStr) (x : CStr) : Prop :=
  values x ≠ none ∧ m.lookup x = none

/-- One line: what is missing behind it was lost by it, or was missing and not its name. -/
lemma Loose.line (acc : hk.Accepting) (loose : Loose t m) (said : Said m values) (flag : Nat)
    (l : Line) :
    ∃ m', runLine hk flag t [] l = some (afterLine hk flag t l, []) ∧
      Loose (afterLine hk flag t l) m' ∧ Said m' (l.settle values) ∧
      ∀ x, Missing m' (l.settle values) x ↔
        l.loses t = some x ∨ (Missing m values x ∧ l.name ≠ some x) := by
  cases l with
  | comment =>
    refine ⟨m, rfl, loose, said, fun x => ?_⟩
    simp [Line.settle, Line.loses, Line.name]
  | remove name =>
    obtain ⟨t', b, m', run, -, loose', look⟩ := loose.delete acc name flag
    have line : runLine hk flag t [] (.remove name) = some (t', []) := by
      simp [runLine, dropVarFromSet, run]
    have after : afterLine hk flag t (.remove name) = t' := by
      rw [afterLine, line]
      rfl
    rw [after]
    refine ⟨m', line, loose', fun x v h => ?_, fun x => ?_⟩
    · rw [look] at h
      split_ifs at h with eq
      rw [Line.settle, Function.update_of_ne eq]
      exact said x v h
    · rw [Missing, Missing, look, Line.settle, Line.loses, Line.name]
      by_cases eq : x = name
      · simp [eq]
      · simp [eq, Ne.symm eq]
  | assign name value =>
    obtain ⟨t', r, m', run, -, loose', look⟩ := loose.enter acc name value flag
    have line : runLine hk flag t [] (.assign name value) = some (t', []) := by
      simp [runLine, dropVarFromSet, run]
    have after : afterLine hk flag t (.assign name value) = t' := by
      rw [afterLine, line]
      rfl
    rw [after]
    refine ⟨m', line, loose', fun x v h => ?_, fun x => ?_⟩
    · rw [look] at h
      split_ifs at h with lost eq
      · rw [eq, Line.settle, Function.update_self, h]
      · rw [Line.settle, Function.update_of_ne eq]
        exact said x v h
    · rw [Missing, Missing, look, Line.settle, Line.loses, Line.name]
      by_cases lost : lostBy t name = some x
      · rw [if_pos lost]
        refine ⟨fun _ => .inl lost, fun _ => ⟨?_, rfl⟩⟩
        by_cases eq : x = name
        · rw [eq, Function.update_self]
          exact Option.some_ne_none value
        · obtain ⟨v, held⟩ := Option.ne_none_iff_exists'.1 (loose.held_of_lost lost eq)
          rw [Function.update_of_ne eq, said x v held]
          exact Option.some_ne_none v
      · rw [if_neg lost]
        by_cases eq : x = name
        · simp [eq, eq ▸ lost]
        · simp [eq, Ne.symm eq, lost]

/-- Running a script: nothing is missing behind it exactly when it keeps what it says, and says
something about everything missing before. -/
lemma Loose.script (acc : hk.Accepting) (loose : Loose t m) (said : Said m values) (flag : Nat)
    (named : ∀ l ∈ ls, l.nameless = false) :
    ∃ t' m', runLines hk flag t [] ls = some (t', [], true) ∧ Loose t' m' ∧
      Said m' (ls.foldl (fun values l => l.settle values) values) ∧
      ((∀ x, ¬ Missing m' (ls.foldl (fun values l => l.settle values) values) x) ↔
        Kept hk flag t ls ∧ ∀ x, Missing m values x → ∃ l ∈ ls, l.name = some x) := by
  induction ls generalizing t m values with
  | nil =>
    refine ⟨t, m, rfl, loose, said, fun none => ⟨trivial, fun x h => absurd h (none x)⟩, ?_⟩
    rintro ⟨-, none⟩ x h
    obtain ⟨l, mem, -⟩ := none x h
    cases mem
  | cons l ls ih =>
    obtain ⟨m₁, line, loose₁, said₁, missing⟩ := loose.line acc said flag l
    obtain ⟨t', m', run, loose', said', iff⟩ :=
      ih loose₁ said₁ fun l h => named l (List.mem_cons_of_mem _ h)
    refine ⟨t', m', ?_, loose', said', iff.trans ⟨?_, ?_⟩⟩
    · rw [runLines, named l List.mem_cons_self, if_neg Bool.false_ne_true, line, Option.bind_some]
      exact run
    · rintro ⟨kept, later⟩
      refine ⟨⟨fun x lost => later x ((missing x).2 (.inl lost)), kept⟩, fun x h => ?_⟩
      by_cases here : l.name = some x
      · exact ⟨l, List.mem_cons_self, here⟩
      · obtain ⟨l', mem, name⟩ := later x ((missing x).2 (.inr ⟨h, here⟩))
        exact ⟨l', List.mem_cons_of_mem _ mem, name⟩
    · rintro ⟨⟨now, kept⟩, before⟩
      refine ⟨kept, fun x h => ?_⟩
      rcases (missing x).1 h with lost | ⟨h, other⟩
      · exact now x lost
      · obtain ⟨l', mem, name⟩ := before x h
        rcases List.mem_cons.1 mem with rfl | mem
        · exact absurd name other
        · exact ⟨l', mem, name⟩

end Script

/-! ## Running out of memory -/

/-- The callbacks refuse nothing; memory may run out. -/
structure Hooks.Consenting (hk : Hooks) : Prop where
  rejects : ∀ e v op flag, hk.rejects e v op flag = false
  vetoes : ∀ cb k v op flag, hk.vetoes cb k v op flag = false

/-- No entry has a string of a kind there is no memory for. -/
def Stripped (hk : Hooks) (t : Htab) : Prop :=
  ∀ i u e, t.table i = .used u e →
    (hk.dupKey = false → e.key = none) ∧ (hk.dupData = false → e.data = none)

section Stripped

variable {flag : Nat} {l : Line} {ls : List Line} {t' : Htab} {s : Slot}

lemma Stripped.set (h : Stripped hk t) (new : ∀ u e, s = .used u e →
    (hk.dupKey = false → e.key = none) ∧ (hk.dupData = false → e.data = none)) :
    Stripped hk (t.set i s) := by
  intro j u e eq
  by_cases ji : j = i
  · rw [ji, Htab.set_self] at eq
    exact new u e eq
  · rw [Htab.set_ne ji] at eq
    exact h j u e eq

lemma Stripped.count {filled : Nat} (h : Stripped hk t) :
    Stripped hk { t with filled := filled } := h

lemma Stripped.delete (h : Stripped hk t) : Stripped hk (hdelete t i) := by
  have gone : Stripped hk (t.set i .deleted) := h.set fun u e eq => by cases eq
  rw [hdelete]
  exact gone.count

lemma strdup_none {mem : Bool} {str : Option CStr} (no : mem = false) : strdup mem str = none := by
  rw [strdup, no, if_neg Bool.false_ne_true]

/-- What a search leaves in the table is stripped, too. -/
lemma Stripped.search {item : Item} {action : Action} {flag : Int} {r : Htab × Res}
    (h : Stripped hk t) (good : GoodSize t.size)
    (eq : hsearchR hk t item action flag = some r) : Stripped hk r.1 := by
  rcases hsearchR_spec hk item action flag good with ⟨j, e, finds, eq'⟩ | ⟨j, ends, eq'⟩
  · obtain rfl := Option.some.inj (eq.symm.trans eq')
    have old := h _ _ _ finds.2.2.1
    have new : Stripped hk (t.set (probe t.size item.key j)
        (.used (firstHash t.size item.key) { e with data := strdup hk.dupData item.data })) :=
      h.set fun u e' eq => by
        obtain ⟨-, rfl⟩ := Slot.used.inj eq
        exact ⟨old.1, fun no => strdup_none no⟩
    rw [overwriteEntry]
    dsimp only
    split_ifs
    · exact h
    · exact h
    · exact new
    · exact new
    · exact h
  · obtain rfl := Option.some.inj (eq.symm.trans eq')
    cases action with
    | find => exact h
    | enter =>
      rw [notFound]
      have copied {i : Nat} {e : Entry} (key : e.key = strdup hk.dupKey (some item.key))
          (data : e.data = strdup hk.dupData item.data) :
          Stripped hk (t.set i (.used (firstHash t.size item.key) e)) :=
        h.set fun u e' eq => by
          obtain ⟨-, rfl⟩ := Slot.used.inj eq
          exact ⟨fun no => key.trans (strdup_none no), fun no => data.trans (strdup_none no)⟩
      split_ifs
      · exact h
      · rw [createEntry]
        dsimp only
        split_ifs
        · exact copied rfl rfl
        · exact (copied rfl rfl).count.delete
        · exact (copied rfl rfl).count.delete
        · exact (copied rfl rfl).count

/-- Running a script leaves a stripped table stripped. -/
lemma Stripped.script (h : Stripped hk t) (good : GoodSize t.size) (flag : Nat)
    (named : ∀ l ∈ ls, l.nameless = false) :
    ∃ t', runLines hk flag t [] ls = some (t', [], true) ∧ Stripped hk t' ∧ GoodSize t'.size := by
  induction ls generalizing t with
  | nil => exact ⟨t, rfl, h, good⟩
  | cons l ls ih =>
    have one : ∃ t₁, runLine hk flag t [] l = some (t₁, []) ∧ Stripped hk t₁ ∧ GoodSize t₁.size := by
      cases l with
      | comment => exact ⟨t, rfl, h, good⟩
      | remove name =>
        obtain ⟨⟨t₁, b⟩, eq, size⟩ := hdeleteR_total hk name flag good
        refine ⟨t₁, by simp [runLine, dropVarFromSet, eq], ?_, size ▸ good⟩
        rcases hdeleteR_cases eq with rfl | ⟨i, rfl⟩
        · exact h
        · exact h.delete
      | assign name value =>
        obtain ⟨⟨t₁, r⟩, eq, size⟩ :=
          hsearchR_total hk { key := name, data := some value } .enter flag good
        exact ⟨t₁, by simp [runLine, dropVarFromSet, eq], h.search good eq, size ▸ good⟩
    obtain ⟨t₁, line, h₁, good₁⟩ := one
    obtain ⟨t', run, h', good'⟩ := ih h₁ good₁ fun l h => named l (List.mem_cons_of_mem _ h)
    refine ⟨t', ?_, h', good'⟩
    rw [runLines, named l List.mem_cons_self, if_neg Bool.false_ne_true, line, Option.bind_some]
    exact run

/-- Nothing is found in a table there was no memory for. -/
lemma Stripped.find (h : Stripped hk t) (good : GoodSize t.size) (flag : Int)
    (no : ¬ (hk.dupKey = true ∧ hk.dupData = true)) {r : Htab × Res}
    (eq : hsearchR hk t { key := k, data := none } .find flag = some r) : r.2.data r.1 = none := by
  rcases hsearchR_spec hk { key := k, data := none } .find flag
    good with ⟨j, e, ⟨-, -, holds⟩, eq'⟩ | ⟨j, -, eq'⟩
  · obtain rfl := Option.some.inj (eq.symm.trans eq')
    obtain ⟨key, data⟩ := h _ _ _ holds.1
    have at' : t.table (probe t.size k j) = _ := holds.1
    have found : (overwriteEntry hk t { key := k, data := none } .find flag (firstHash t.size k)
        (probe t.size k j) e) = (t, .ok (probe t.size k j) (probe t.size k j)) := rfl
    rw [found]
    simp only [Res.data, dataAt, at']
    rw [not_and_or, Bool.not_eq_true, Bool.not_eq_true] at no
    rcases no with noKey | noData
    · cases holds.2.symm.trans (key noKey)
    · exact data noData
  · obtain rfl := Option.some.inj (eq.symm.trans eq')
    rfl

end Stripped

/-! ## Imports that lose nothing -/

section Import

variable {old : Option Htab} {env : Mem} {size : Nat} {sep : UInt8} {crlfIsLf : Bool}

/-- An empty text has one line, and that one removes nothing. -/
lemma importScript_empty : importScript sep crlfIsLf env 0 = [.remove []] := by
  have copy : importCopy env 0 crlfIsLf = ([0], 0) := by
    cases crlfIsLf <;> rfl
  have line : parseLine sep [0] = (.remove [], []) := by
    simp [parseLine, isblank, nameByte]
  rw [importScript, copy, script, line]
  rfl

lemma startTable_new : startTable old 0 size = hcreateR (importEntries size) := rfl

/-- The import reports success only if every name has the value the text gives it. -/
def Truthful (hk : Hooks) (old : Option Htab) (env : Mem) (size : Nat) (sep : UInt8)
    (crlfIsLf : Bool) : Prop :=
  ∀ t', himportR hk old env size sep 0 crlfIsLf [] = some (t', true) →
    ∀ k v, settled (importScript sep crlfIsLf env size) k = some v →
      ∃ r, hsearchR hk t' { key := k, data := none } .find 0 = some (t', r) ∧ r.data t' = some v

/-- `himport_r` reports success truthfully exactly when a line names no variable, so that it fails,
or nothing is left to find, or memory is found and every name a line loses is named again later. -/
theorem import_truthful_iff (consents : hk.Consenting) :
    Truthful hk old env size sep crlfIsLf ↔
      (∃ l ∈ importScript sep crlfIsLf env size, l.nameless = true) ∨
      (∀ k, settled (importScript sep crlfIsLf env size) k = none) ∨
      (hk.dupKey = true ∧ hk.dupData = true ∧
        Kept hk 0 (Htab.empty (importSize size)) (importScript sep crlfIsLf env size)) := by
  obtain ⟨create, good⟩ := hcreateR_import size
  by_cases pos : size = 0
  · have nothing : ∀ k, settled (importScript sep crlfIsLf env size) k = none := by
      subst pos
      intro k
      rw [importScript_empty]
      simp [settled, Line.settle]
    refine iff_of_true (fun t' _ k v value => ?_) (.inr (.inl nothing))
    rw [nothing] at value
    cases value
  have imported := himportR_script hk old env sep 0 crlfIsLf [] pos
  rw [startTable_new, create, Option.bind_some, List.map_nil] at imported
  rw [Truthful, imported]
  generalize importScript sep crlfIsLf env size = ls
  by_cases nameless : ∃ l ∈ ls, l.nameless = true
  · refine iff_of_true (fun t' ok => ?_) (.inl nameless)
    rw [runScript] at ok
    obtain ⟨r, run, ok⟩ := Option.bind_eq_some_iff.1 ok
    rw [runLines_nameless run nameless, if_neg Bool.false_ne_true] at ok
    cases ok
  have named : ∀ l ∈ ls, l.nameless = false := fun l mem =>
    Bool.not_eq_true _ ▸ fun h => nameless ⟨l, mem, h⟩
  -- the table a run leaves is the one the import returns
  have result {t' : Htab} (run : runLines hk 0 (Htab.empty (importSize size)) [] ls =
      some (t', [], true)) :
      runScript hk 0 (Htab.empty (importSize size)) [] ls = some (t', true) := by
    rw [runScript, run]
    rfl
  by_cases memory : hk.dupKey = true ∧ hk.dupData = true
  · have acc : hk.Accepting := ⟨consents.rejects, consents.vetoes, memory.1, memory.2⟩
    have unsaid : Said ∅ fun _ => none := fun x v h => by simp at h
    obtain ⟨t', m', run, loose, said, kept⟩ := (Rep.empty good).loose.script acc unsaid 0 named
    have full : (∀ x, ¬ Missing m' (settled ls) x) ↔
        Kept hk 0 (Htab.empty (importSize size)) ls :=
      kept.trans (and_iff_left fun x h => absurd rfl h.1)
    rw [result run, or_iff_right nameless]
    constructor
    · intro truthful
      refine .inr ⟨memory.1, memory.2, full.1 fun x h => ?_⟩
      obtain ⟨v, value⟩ := Option.ne_none_iff_exists'.1 h.1
      obtain ⟨r, eq, data⟩ := truthful t' rfl x v value
      obtain ⟨r', eq', data', -⟩ := loose.find hk x 0
      obtain ⟨-, rfl⟩ := Prod.mk.inj (Option.some.inj (eq.symm.trans eq'))
      rw [data', h.2] at data
      cases data
    · rintro (nothing | ⟨-, -, keeps⟩) t'' eq k v value
      · rw [nothing] at value
        cases value
      · obtain ⟨rfl, -⟩ := Prod.mk.inj (Option.some.inj eq)
        obtain ⟨r, find, data, -⟩ := loose.find hk k 0
        refine ⟨r, find, data.trans ?_⟩
        have held : m'.lookup k ≠ none := fun none =>
          full.2 keeps k ⟨value ▸ Option.some_ne_none v, none⟩
        obtain ⟨w, look⟩ := Option.ne_none_iff_exists'.1 held
        rw [look, ← value]
        exact (said k w look).symm
  · have stripped : Stripped hk (Htab.empty (importSize size)) := fun i u e h => by cases h
    obtain ⟨t', run, stripped', good'⟩ := stripped.script good 0 named
    rw [result run, or_iff_right nameless, or_iff_left fun h => memory ⟨h.1, h.2.1⟩]
    constructor
    · intro truthful k
      by_contra value
      obtain ⟨v, value⟩ := Option.ne_none_iff_exists'.1 value
      obtain ⟨r, eq, data⟩ := truthful t' rfl k v value
      have none := stripped'.find good' 0 memory eq
      rw [data] at none
      cases none
    · intro nothing t'' _ k v value
      rw [nothing] at value
      cases value

/-- A text with one line keeps its variable. -/
theorem import_truthful_iff_line :
    Truthful plainHooks none (Mem.zero.write 0 [97, 61, 49]) 3 0 false ↔
      (∃ l ∈ importScript 0 false (Mem.zero.write 0 [97, 61, 49]) 3, l.nameless = true) ∨
      (∀ k, settled (importScript 0 false (Mem.zero.write 0 [97, 61, 49]) 3) k = none) ∨
      (plainHooks.dupKey = true ∧ plainHooks.dupData = true ∧
        Kept plainHooks 0 (Htab.empty (importSize 3))
          (importScript 0 false (Mem.zero.write 0 [97, 61, 49]) 3)) :=
  import_truthful_iff ⟨plainHooks_accepting.rejects, plainHooks_accepting.vetoes⟩

/-- Variables with names of two letters and a value of one digit. -/
def tinyVars (n : Nat) : List Var :=
  (List.range n).map fun i => ⟨[UInt8.ofNat (97 + i / 16), UInt8.ofNat (97 + i % 16)], [49]⟩

lemma length_rawLines_tinyVars (n : Nat) : (rawLines 0 (tinyVars n)).length = n * 5 := by
  simp [rawLines, tinyVars, rawLine, List.length_flatMap, Function.comp_def]

lemma tinyVars_good {n : Nat} (le : n ≤ 256) :
    ∀ y ∈ tinyVars n, GoodName 0 y.1 ∧ GoodText 0 y.2 := by
  intro y mem
  obtain ⟨i, lt, rfl⟩ := List.mem_map.1 mem
  have letter : ∀ j < 16, UInt8.ofNat (97 + j) ≠ 0 ∧ UInt8.ofNat (97 + j) ≠ 61 ∧
      isblank (UInt8.ofNat (97 + j)) = false ∧ UInt8.ofNat (97 + j) ≠ 35 := by decide
  obtain ⟨nul, eq, blank, hash⟩ := letter (i / 16) (by rw [List.mem_range] at lt; omega)
  obtain ⟨nul', eq', -, -⟩ := letter (i % 16) (by omega)
  generalize UInt8.ofNat (97 + i / 16) = c at *
  generalize UInt8.ofNat (97 + i % 16) = d at *
  refine ⟨⟨List.cons_ne_nil _ _, ?_, ?_, ?_, ?_⟩, ⟨⟨49, [], rfl, by decide, by decide⟩, fun rest => ?_⟩⟩
  · simp [Ne.symm nul, Ne.symm nul']
  · simp [Ne.symm eq, Ne.symm eq']
  · simp [Ne.symm nul, Ne.symm nul']
  · rintro x ⟨⟩
    exact ⟨blank, hash⟩
  · cases rest with
    | nil => rfl
    | cons d rest => rfl

lemma tinyVars_nodup {n : Nat} (le : n ≤ 256) : ((tinyVars n).map fun x => x.1).Nodup := by
  rw [tinyVars, List.map_map]
  refine List.Nodup.map_on (fun i hi j hj eq => ?_) List.nodup_range
  rw [List.mem_range] at hi hj
  simp only [Function.comp_apply, List.cons.injEq, and_true] at eq
  have high := congrArg UInt8.toNat eq.1
  have low := congrArg UInt8.toNat eq.2
  rw [UInt8.toNat_ofNat', UInt8.toNat_ofNat'] at high low
  omega

/-- Lines about other names leave the value of a name. -/
lemma settled_other {vs : List Var} (values : CStr → Option CStr)
    (other : k ∉ vs.map fun x => x.1) :
    (assigns sep vs).foldl (fun values l => l.settle values) values k = values k := by
  induction vs generalizing values with
  | nil => rfl
  | cons x vs ih =>
    obtain ⟨ne, other⟩ := not_or.1 (mt List.mem_cons.2 other)
    exact (ih _ other).trans (Function.update_of_ne ne ..)

/-- Lines that assign different names settle all of them. -/
lemma settled_assigns {vs : List Var} {y : Var} (values : CStr → Option CStr)
    (nodup : (vs.map fun x => x.1).Nodup) (mem : y ∈ vs) :
    (assigns sep vs).foldl (fun values l => l.settle values) values y.1 =
      some (readValue sep y.2) := by
  induction vs generalizing values with
  | nil => cases mem
  | cons x vs ih =>
    obtain ⟨new, nodup⟩ := List.nodup_cons.1 nodup
    rcases List.mem_cons.1 mem with rfl | mem
    · exact (settled_other _ new).trans (Function.update_self ..)
    · exact ih _ nodup mem

/-- A table of `size` slots holds no more names than slots. -/
lemma enterAll_room {slots : Nat} {vs : List Var} (room : m.keys.length ≤ slots) :
    (enterAll sep slots m vs).keys.length ≤ slots := by
  induction vs generalizing m with
  | nil => exact room
  | cons x vs ih =>
    refine ih ?_
    simp only [specExec]
    split_ifs with fits
    · by_cases mem : x.1 ∈ m
      · rwa [length_keys_insert_of_mem mem]
      · rw [length_keys_insert_of_notMem mem]
        exact fits.resolve_left mem
    · exact room

/-- 175 variables of five bytes each do not fit the 173 slots made for their text: the import
reports success without one of them. -/
theorem import_loses_tiny_variables :
    ∃ env, env.read 0 876 = rawLines 0 (tinyVars 175) ++ [0] ∧
      ¬ Truthful plainHooks none env 876 0 false := by
  have length : (rawLines 0 (tinyVars 175) ++ [0]).length = 876 := by
    rw [List.length_append, length_rawLines_tinyVars]
    rfl
  have read : (Mem.zero.write 0 (rawLines 0 (tinyVars 175) ++ [0])).read 0 876 =
      rawLines 0 (tinyVars 175) ++ [0] := by
    rw [← length]
    exact Mem.read_write_self rfl
  have good := tinyVars_good (show 175 ≤ 256 by decide)
  have nodup := tinyVars_nodup (show 175 ≤ 256 by decide)
  have slots : importSize 876 = 173 := by decide
  refine ⟨_, read, fun truthful => ?_⟩
  obtain ⟨t', ok, rep⟩ := himportR_lines plainHooks_accepting (by decide) (by decide) good read
  rw [slots] at rep
  have room : (enterAll 0 173 ∅ (tinyVars 175)).keys.length ≤ 173 := enterAll_room (Nat.zero_le _)
  generalize enterAll 0 173 ∅ (tinyVars 175) = held at rep room
  -- every one of the 175 names would be a key of the table
  have all : ((tinyVars 175).map fun x => x.1) ⊆ held.keys := by
    intro k mem
    obtain ⟨y, there, rfl⟩ := List.mem_map.1 mem
    have said := @settled_assigns 0 _ y (fun _ => none) nodup there
    rw [← importScript_lines (by decide) (by decide) good read] at said
    obtain ⟨r, eq, data⟩ := truthful t' ok _ _ said
    obtain ⟨r', eq', data', -⟩ := rep.find plainHooks y.1 0
    obtain ⟨-, rfl⟩ := Prod.mk.inj (Option.some.inj (eq.symm.trans eq'))
    exact AList.mem_keys.1 (AList.lookup_isSome.1 (by rw [← data', data]; rfl))
  have count := (List.subperm_of_subset nodup all).length_le
  rw [List.length_map, tinyVars, List.length_map, List.length_range] at count
  omega

end Import

end Imx.HashTable
