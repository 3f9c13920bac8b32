import Imx.HashTable.Map

/-!
# Enumerating the table

`hmatch_r` finds the next entry behind an index whose key starts with a string, and gives 0 where
there is none. The completion of names (C `env_complete`) calls it from index 0 on, each time with
the index it gave, until it gives 0. The slots are numbered `1..size`, but `hmatch_r` looks at those
below `size` only: the last slot is never seen.
-/

namespace Imx.HashTable

/-- The entry in the slot has a key that starts with `match_`: `!strncmp(match, key, key_len)` for
a slot whose `used` field is positive. -/
def Slot.starts (match_ : CStr) : Slot → Bool
  | .used _ e => e.key.any fun k => match_.isPrefixOf k
  | _ => false

section Match

variable (t : Htab) (match_ : CStr)

/-- The loop over the slots from `idx` on, at most `fuel` turns. -/
def hmatchLoop : Nat → Nat → Nat
  | 0, _ => 0
  | fuel + 1, idx =>
    if idx < t.size then
      if (t.table idx).starts match_ then idx else hmatchLoop fuel (idx + 1)
    else 0

/-- The index of the next entry that matches behind `lastIdx`, or 0 (C `hmatch_r`). -/
def hmatchR (lastIdx : Nat) : Nat :=
  hmatchLoop t match_ t.size (lastIdx + 1)

/-- The indices `hmatch_r` gives one after the other, at most `fuel` calls; `none` means that it did
not give 0 so far. -/
def matchLoop : Nat → Nat → Option (List Nat)
  | 0, _ => none
  | fuel + 1, idx =>
    if hmatchR t match_ idx = 0 then some []
    else (matchLoop fuel (hmatchR t match_ idx)).map (hmatchR t match_ idx :: ·)

/-- The slots from `idx` on that match, as far as `hmatch_r` looks. -/
def matching (idx : Nat) : List Nat :=
  (List.range' idx (t.size - idx)).filter fun i => (t.table i).starts match_

/-- Calling `hmatch_r` until it gives 0 visits each slot with a matching entry once. -/
def VisitsAll : Prop :=
  ∃ visited, matchLoop t match_ (t.size + 1) 0 = some visited ∧ visited.Nodup ∧
    ∀ i, i ∈ visited ↔ 1 ≤ i ∧ i ≤ t.size ∧ (t.table i).starts match_ = true

variable {t match_} {fuel idx i : Nat} {rest : List Nat}

lemma matching_end (le : t.size ≤ idx) : matching t match_ idx = [] := by
  rw [matching, Nat.sub_eq_zero_of_le le]
  rfl

lemma matching_next (lt : idx < t.size) :
    matching t match_ idx =
      if (t.table idx).starts match_ then idx :: matching t match_ (idx + 1)
      else matching t match_ (idx + 1) := by
  rw [matching, show t.size - idx = t.size - (idx + 1) + 1 from by omega, List.range'_succ,
    List.filter_cons]
  rfl

lemma mem_matching : i ∈ matching t match_ idx ↔
    (idx ≤ i ∧ i < t.size) ∧ (t.table i).starts match_ = true := by
  rw [matching, List.mem_filter, List.mem_range'_1]
  refine and_congr_left fun _ => ?_
  omega

/-- Behind the first matching slot come those from the next slot on. -/
lemma matching_tail (h : matching t match_ idx = i :: rest) : rest = matching t match_ (i + 1) := by
  induction fuel : t.size - idx generalizing idx with
  | zero =>
    rw [matching_end (Nat.sub_eq_zero_iff_le.1 fuel)] at h
    cases h
  | succ fuel ih =>
    rw [matching_next (by omega)] at h
    split_ifs at h with here
    · obtain ⟨rfl, rfl⟩ := List.cons.inj h
      rfl
    · exact ih h (by omega)

/-- The loop gives the first matching slot. -/
lemma hmatchLoop_eq (enough : t.size ≤ idx + fuel) :
    hmatchLoop t match_ fuel idx = (matching t match_ idx).headD 0 := by
  induction fuel generalizing idx with
  | zero =>
    rw [matching_end (show t.size ≤ idx from enough)]
    rfl
  | succ fuel ih =>
    rw [hmatchLoop]
    by_cases lt : idx < t.size
    · rw [if_pos lt, matching_next lt, ih (by omega)]
      split_ifs
      · rfl
      · rfl
    · rw [if_neg lt, matching_end (Nat.not_lt.1 lt)]
      rfl

/-- The calls give the matching slots one after the other. -/
lemma matchLoop_eq (enough : t.size < idx + fuel) (le : idx ≤ t.size) :
    matchLoop t match_ fuel idx = some (matching t match_ (idx + 1)) := by
  induction fuel generalizing idx with
  | zero => omega
  | succ fuel ih =>
    have next : hmatchR t match_ idx = (matching t match_ (idx + 1)).headD 0 :=
      hmatchLoop_eq (by omega)
    rw [matchLoop, next]
    cases found : matching t match_ (idx + 1) with
    | nil => rfl
    | cons i rest =>
      have first : i ∈ matching t match_ (idx + 1) := by simp [found]
      obtain ⟨⟨above, below⟩, -⟩ := mem_matching.1 first
      rw [List.headD_cons, if_neg (by omega), ih (by omega) (by omega), matching_tail found]
      rfl

/-- The enumeration is complete exactly when the last slot of the table has no matching entry. -/
theorem visits_all_iff (t : Htab) (match_ : CStr) :
    VisitsAll t match_ ↔ ¬ (1 ≤ t.size ∧ (t.table t.size).starts match_ = true) := by
  have visited := @matchLoop_eq t match_ (t.size + 1) 0 (by omega) (Nat.zero_le _)
  constructor
  · rintro ⟨is, eq, -, all⟩ ⟨pos, last⟩
    obtain rfl := Option.some.inj (visited.symm.trans eq)
    have mem := (all t.size).2 ⟨pos, Nat.le_refl _, last⟩
    exact Nat.lt_irrefl _ (mem_matching.1 mem).1.2
  · refine fun last => ⟨_, visited, List.Nodup.filter _ List.nodup_range', fun i => ?_⟩
    rw [mem_matching]
    constructor
    · rintro ⟨⟨above, below⟩, starts⟩
      exact ⟨above, Nat.le_of_lt below, starts⟩
    · rintro ⟨above, below, starts⟩
      refine ⟨⟨above, Nat.lt_of_le_of_ne below ?_⟩, starts⟩
      rintro rfl
      exact last ⟨above, starts⟩

/-- Four names with the same first slot: the last one comes into slot 67 of 67. -/
theorem visits_miss_last :
    ∃ t t' ans, hcreateR 64 = some t ∧
      run t ([Op.enter [83] [49], .enter [112, 97] [49], .enter [115, 101] [49],
        .enter [99, 102] [49]].map plainCall) = some (t', ans) ∧ ¬ VisitsAll t' [99] := by
  have last : ((run (Htab.empty 67) ([Op.enter [83] [49], .enter [112, 97] [49],
      .enter [115, 101] [49], .enter [99, 102] [49]].map plainCall)).map
        fun (r : Htab × List Ans) => (matchLoop r.1 [99] 68 0, (r.1.table 67).starts [99], r.1.size)) =
      some (some [], true, 67) := by decide
  obtain ⟨r, eq, eq'⟩ := Option.map_eq_some_iff.1 last
  obtain ⟨none, starts, size⟩ : _ ∧ _ ∧ _ := by simpa using eq'
  refine ⟨Htab.empty 67, r.1, r.2, rfl, eq, ?_⟩
  rintro ⟨visited, eq, -, all⟩
  rw [size, none] at eq
  obtain rfl := Option.some.inj eq
  exact absurd ((all 67).2 ⟨by decide, size.ge, starts⟩) List.not_mem_nil

end Match

end Imx.HashTable
