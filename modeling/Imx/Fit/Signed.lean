import Mathlib.Algebra.Order.Ring.Int
import Imx.Fit.Regions

/-!
# Which regions the verifier gets

`checked_iff` says when `fit_config_check_sig` writes its arrays inside and passes only regions of
the blob. The names are counted by their ends and stored by their starts, so the last one has to
end in the property; `fdt_find_regions` stays inside of the structure block as the header states it
(`findRegions_spec`), and the region of the strings is what the property says.
-/

namespace Imx.Fit.Regions
open Imx.Fit

variable {α : Type} {fit : Blob} {noffset count n i : Nat} {s : Setup}

/-! ## Arrays -/

lemma putAt_next {as : List α} {a : α} {array : List (Option α)} (x : Option α) :
    putAt (as.map some ++ x :: array) as.length a = some ((as ++ [a]).map some ++ array) := by
  rw [putAt, if_pos (by simp), List.set_append_right _ _ (by simp)]
  simp

/-- Elements behind the others fit as long as the array is long enough. -/
lemma putAll_eq {as bs : List α} {array : List (Option α)} (le : bs.length ≤ array.length) :
    putAll bs as.length (as.map some ++ array) =
      some ((as ++ bs).map some ++ array.drop bs.length) := by
  induction bs generalizing as array with
  | nil => simp [putAll]
  | cons b bs ih =>
    cases array with
    | nil => simp at le
    | cons x array =>
      have next := @ih (as ++ [b]) array (by simpa using le)
      rw [List.length_append, List.length_singleton] at next
      rw [putAll, putAt_next, Option.bind_some, next]
      simp

lemma putAll_none {as bs : List α} {array : List (Option α)} (lt : array.length < bs.length) :
    putAll bs as.length (as.map some ++ array) = none := by
  induction bs generalizing as array with
  | nil => simp at lt
  | cons b bs ih =>
    cases array with
    | nil =>
      rw [putAll, putAt, if_neg (by simp)]
      rfl
    | cons x array =>
      have next := @ih (as ++ [b]) array (by simpa using lt)
      rw [List.length_append, List.length_singleton] at next
      rw [putAll, putAt_next, Option.bind_some, next]

/-! ## Names -/

lemma namesOf_cons (b : UInt8) (bs : List UInt8) : namesOf (b :: bs) ≠ [] := by
  rw [namesOf]
  split
  · exact List.cons_ne_nil _ _
  · split
    · exact List.cons_ne_nil _ _
    · exact List.cons_ne_nil _ _

/-- There are as many names as terminators, and one more if the last name has none. -/
lemma namesOf_length (prop : List UInt8) :
    (namesOf prop).length =
      prop.count 0 + (if prop = [] ∨ prop.getLast? = some 0 then 0 else 1) := by
  induction prop with
  | nil => rfl
  | cons b bs ih =>
    cases bs with
    | nil =>
      rw [namesOf]
      by_cases zero : b = 0
      · simp [zero, namesOf]
      · simp [zero, namesOf]
    | cons c cs =>
      have last : (b :: c :: cs).getLast? = (c :: cs).getLast? := List.getLast?_cons_cons
      rw [namesOf, last]
      simp only [List.cons_ne_nil, false_or] at ih ⊢
      by_cases zero : b = 0
      case pos =>
        rw [if_pos zero, List.length_cons, ih, zero, List.count_cons_self]
        omega
      case neg =>
        rw [if_neg zero, List.count_cons_of_ne zero]
        cases names : namesOf (c :: cs) with
        | nil => exact absurd names (namesOf_cons c cs)
        | cons name names =>
          rw [names] at ih
          exact ih

/-- The names fit in an array for the terminators exactly if the last one has its own. -/
lemma putAll_names {prop : List UInt8} (some_ : prop.count 0 ≠ 0) :
    (∃ nodeInc, putAll (namesOf prop) 0 (List.replicate (prop.count 0) none) = some nodeInc) ↔
      prop.getLast? = some 0 := by
  have length := namesOf_length prop
  have ne : prop ≠ [] := fun nil => some_ (by rw [nil]; rfl)
  simp only [ne, false_or] at length
  constructor
  case mp =>
    rintro ⟨nodeInc, stored⟩
    by_contra last
    rw [if_neg last] at length
    have full := @putAll_none _ [] (namesOf prop) (List.replicate (prop.count 0) none)
      (by rw [List.length_replicate]; omega)
    cases full.symm.trans stored
  case mpr =>
    intro last
    rw [if_pos last] at length
    exact ⟨_, @putAll_eq _ [] (namesOf prop) (List.replicate (prop.count 0) none)
      (by rw [List.length_replicate]; omega)⟩

/-! ## Regions of the structure block -/

/-- A region that lies in front of an offset of the structure block. -/
def Within (base : Int) (o : Nat) (r : FdtRegion) : Prop :=
  base ≤ r.offset ∧ 0 ≤ r.size ∧ r.offset + r.size ≤ base + o

lemma Within.mono {base : Int} {o o' : Nat} {r : FdtRegion} (within : Within base o r)
    (le : o ≤ o') : Within base o' r := by
  obtain ⟨low, size, high⟩ := within
  exact ⟨low, size, by omega⟩

/-- What the variables are like at an offset: the regions that were stored lie in front of it. -/
structure Collected (base : Int) (max o : Nat) (w : Walk) : Prop where
  room : max < w.region.length
  start : w.start = -1 ∨ 0 ≤ w.start ∧ w.start ≤ o
  stored : ∀ i, i < w.count → i < max → ∃ r, w.region[i]? = some (some r) ∧ Within base o r

variable {base : Int} {max o o' : Nat} {w : Walk}

lemma Collected.mono (collected : Collected base max o w) (le : o ≤ o') :
    Collected base max o' w := by
  obtain ⟨room, start, stored⟩ := collected
  refine ⟨room, start.imp_right fun both => by omega, fun i lt lt' => ?_⟩
  obtain ⟨r, at_, within⟩ := stored i lt lt'
  exact ⟨r, at_, within.mono le⟩

/-- A region begins at the offset, or where the previous one does. -/
lemma Collected.opens (collected : Collected base max o w) (incl : Bool) :
    ∃ w', w.opens base max incl o = some w' ∧ Collected base max o w' ∧
      w'.region.length = w.region.length ∧ (incl = true → w'.start ≠ -1) := by
  obtain ⟨room, start, stored⟩ := collected
  have anew : Collected base max o { w with start := o } :=
    ⟨room, .inr ⟨Int.natCast_nonneg o, le_rfl⟩, stored⟩
  have fresh : (o : Int) ≠ -1 := by omega
  rw [Walk.opens]
  split
  case isTrue out =>
    split
    case isTrue some_ =>
      obtain ⟨r, at_, low, size, high⟩ := stored (w.count - 1) (by omega) (by omega)
      rw [at_]
      simp only [Option.bind_eq_bind, Option.bind_some]
      split
      case isTrue goes =>
        refine ⟨_, rfl, ⟨room, .inr ⟨?_, ?_⟩, fun i lt lt' => ?_⟩, rfl, fun _ => ?_⟩
        · simp only
          omega
        · simp only
          omega
        · simp only at lt
          exact stored i (by omega) lt'
        · simp only
          omega
      case isFalse => exact ⟨_, rfl, anew, rfl, fun _ => fresh⟩
    case isFalse => exact ⟨_, rfl, anew, rfl, fun _ => fresh⟩
  case isFalse out =>
    refine ⟨w, rfl, ⟨room, start, stored⟩, rfl, fun yes none_ => out ⟨yes, none_⟩⟩

/-- A region is stored that stops at some offset. -/
lemma Collected.store (collected : Collected base max o w) (some_ : w.start ≠ -1) (le : o ≤ o') :
    ∃ w', w.store base max o' = some w' ∧ Collected base max o' w' ∧
      w'.region.length = w.region.length ∧ w'.count = w.count + 1 ∧
      (w.count < max → ∃ r, w'.region[w.count]? = some (some r) ∧ Within base o' r ∧
        r.offset + r.size = base + o') := by
  obtain ⟨room, start, stored⟩ := collected.mono le
  obtain none_ | ⟨low, high⟩ := start
  · exact absurd none_ some_
  have within : Within base o' ⟨base + w.start, o' - w.start⟩ := by
    refine ⟨?_, ?_, ?_⟩
    · simp only
      omega
    · simp only
      omega
    · simp only
      omega
  rw [Walk.store]
  by_cases lt : w.count < max
  case pos =>
    have inside : w.count < w.region.length := by omega
    rw [if_pos lt, putAt, if_pos inside]
    simp only [Option.bind_eq_bind, Option.bind_some]
    have here : (w.region.set w.count (some ⟨base + w.start, o' - w.start⟩))[w.count]? =
        some (some ⟨base + w.start, o' - w.start⟩) := List.getElem?_set_self inside
    refine ⟨_, rfl, ⟨?_, .inl rfl, fun i less lt' => ?_⟩, List.length_set, rfl, fun _ =>
      ⟨_, here, within, by simp only; omega⟩⟩
    · simp only [List.length_set]
      exact room
    · simp only at less ⊢
      by_cases eq : i = w.count
      · rw [eq]
        exact ⟨_, here, within⟩
      · rw [List.getElem?_set_ne (Ne.symm eq)]
        exact stored i (by omega) lt'
  case neg =>
    rw [if_neg lt]
    simp only [Option.bind_eq_bind, Option.bind_some]
    refine ⟨_, rfl, ⟨room, .inl rfl, fun i less lt' => ?_⟩, rfl, rfl, fun lt' => absurd lt' lt⟩
    exact stored i (by omega) lt'

/-- A tag stops a region at its start or at its end. -/
lemma turn_ok {inc excProp : List (List UInt8)} {tag : Tag} {incl : Bool} {stopAt : Nat}
    {w' : Walk} (eq : w.turn fit inc excProp o tag = .ok (incl, stopAt, w')) :
    o ≤ stopAt ∧ stopAt ≤ o + tag.bytes.length ∧ w'.count = w.count ∧ w'.start = w.start ∧
      w'.region = w.region := by
  cases tag with
  | prop nameoff value pad =>
    cases eq
    exact ⟨le_rfl, Nat.le_add_right _ _, rfl, rfl, rfl⟩
  | nop =>
    cases eq
    exact ⟨le_rfl, Nat.le_add_right _ _, rfl, rfl, rfl⟩
  | endNode =>
    cases eq
    exact ⟨Nat.le_add_right _ _, le_rfl, rfl, rfl, rfl⟩
  | beginNode name pad =>
    rw [Walk.turn] at eq
    dsimp only at eq
    by_cases deep : w.depth + 1 = fdtMaxDepth
    · rw [if_pos deep] at eq
      cases eq
    by_cases long : pathLen ≤ w.path.length + 2 + name.length
    · rw [if_neg deep, if_pos long] at eq
      cases eq
    rw [if_neg deep, if_neg long] at eq
    have stops : o ≤ (if w.want = 1 then o else o + (Tag.beginNode name pad).bytes.length) ∧
        (if w.want = 1 then o else o + (Tag.beginNode name pad).bytes.length) ≤
          o + (Tag.beginNode name pad).bytes.length := by
      split
      · exact ⟨le_rfl, Nat.le_add_right _ _⟩
      · exact ⟨Nat.le_add_right _ _, le_rfl⟩
    generalize (if w.path.length ≠ 1 then w.path ++ [slash] else w.path) ++ name = path at eq
    simp only [Except.ok.injEq, Prod.mk.injEq] at eq
    obtain ⟨-, stop, rfl⟩ := eq
    rw [← stop]
    refine (and_assoc.mp ⟨?_, rfl, rfl, rfl⟩)
    generalize (if w.want = 1 then o else o + (Tag.beginNode name pad).bytes.length) = at_ at stops
    split
    · exact stops
    · split
      · exact stops
      · exact ⟨le_rfl, Nat.le_add_right _ _⟩

/-- What `fdt_find_regions` returns: an error, or the number of regions, which lie in the structure
block up to the end that the header states; the last one ends there. -/
structure Returned (fit : Blob) (max size : Nat) (ret : Int) (region : List (Option FdtRegion)) :
    Prop where
  length : region.length = size
  stored : ∀ i : Nat, (i : Int) < ret → i < max → ∃ r, region[i]? = some (some r) ∧
    Within fit.offDtStruct fit.sizeDtStruct r
  last : 0 ≤ ret → ∃ n : Nat, ret = (n + 1 : Nat) ∧ (n < max → ∃ r, region[n]? = some (some r) ∧
    Within fit.offDtStruct fit.sizeDtStruct r ∧
      r.offset + r.size = fit.offDtStruct + fit.sizeDtStruct)

lemma returned_error {size : Nat} {ret : Int} {region : List (Option FdtRegion)} (neg : ret < 0)
    (length : region.length = size) : Returned fit max size ret region :=
  ⟨length, fun i lt => by omega, fun pos => by omega⟩

lemma turn_error {inc excProp : List (List UInt8)} {tag : Tag} {err : Int}
    (eq : w.turn fit inc excProp o tag = .error err) : err < 0 := by
  cases tag with
  | prop nameoff value pad => cases eq
  | nop => cases eq
  | endNode => cases eq
  | beginNode name pad =>
    rw [Walk.turn] at eq
    dsimp only at eq
    split at eq
    · cases eq
      decide
    · split at eq
      · cases eq
        decide
      · cases eq

/-- The loop stays inside of the array. -/
lemma findLoop_spec {inc excProp : List (List UInt8)} {tags : List Tag}
    (collected : Collected fit.offDtStruct max o w) :
    ∃ ret region, findLoop fit inc excProp max tags o w = some (ret, region) ∧
      Returned fit max w.region.length ret region := by
  induction tags generalizing o w with
  | nil =>
    obtain ⟨w₁, eq, collected₁, length, going⟩ := collected.opens true
    rw [findLoop, eq]
    simp only [Option.bind_eq_bind, Option.bind_some]
    split
    case isTrue ends =>
      obtain ⟨w₂, eq', collected₂, length', count, last⟩ :=
        collected₁.store (going rfl) (Nat.le_add_right o 4)
      rw [eq']
      refine ⟨w₂.count, w₂.region, rfl, length'.trans length, fun i lt lt' => ?_, fun _ => ?_⟩
      · rw [← ends.2]
        exact collected₂.stored i (by omega) lt'
      · refine ⟨w₁.count, by rw [count], fun less => ?_⟩
        rw [← ends.2]
        exact last less
    case isFalse => exact ⟨_, _, rfl, returned_error (by decide) length⟩
  | cons tag tags ih =>
    rw [findLoop]
    cases eq : w.turn fit inc excProp o tag with
    | error err => exact ⟨_, _, rfl, returned_error (turn_error eq) rfl⟩
    | ok r =>
      obtain ⟨incl, stopAt, w₁⟩ := r
      obtain ⟨low, high, count, start, region⟩ := turn_ok eq
      have collected₁ : Collected fit.offDtStruct max o w₁ := by
        refine ⟨?_, ?_, ?_⟩
        · rw [region]
          exact collected.room
        · rw [start]
          exact collected.start
        · rw [region, count]
          exact collected.stored
      obtain ⟨w₂, eq₂, collected₂, length₂, going⟩ := collected₁.opens incl
      have whole : o ≤ o + tag.bytes.length := Nat.le_add_right _ _
      simp only [eq₂, Option.bind_eq_bind, Option.bind_some]
      rw [Walk.closes]
      split
      case isTrue stops =>
        obtain ⟨w₃, eq₃, collected₃, length₃, -⟩ := collected₂.store stops.2 low
        obtain ⟨ret, region', found, returned⟩ := ih (collected₃.mono high)
        rw [length₃, length₂, region] at returned
        rw [eq₃, Option.bind_some]
        exact ⟨ret, region', found, returned⟩
      case isFalse =>
        obtain ⟨ret, region', found, returned⟩ := ih (collected₂.mono whole)
        rw [length₂, region] at returned
        exact ⟨ret, region', found, returned⟩

/-- `fdt_find_regions` stays inside of the array, which has one element more than it is told. -/
lemma findRegions_spec (fit : Blob) (inc : List (List UInt8)) (count : Nat) (stack : Int → Int) :
    ∃ ret region, fit.findRegions inc count stack = some (ret, region) ∧
      Returned fit (maxRegions count - 1) (maxRegions count) ret region := by
  have pos : maxRegions count - 1 < (List.replicate (maxRegions count) none :
      List (Option FdtRegion)).length := by
    rw [List.length_replicate, maxRegions]
    omega
  obtain ⟨ret, region, eq, returned⟩ := @findLoop_spec fit (maxRegions count - 1) 0
    ⟨0, -1, -1, 0, stack, [], List.replicate (maxRegions count) none⟩ inc
    ["data".toUTF8.toList] fit.tags ⟨pos, .inl rfl, fun i lt => absurd lt (Nat.not_lt_zero i)⟩
  rw [List.length_replicate] at returned
  exact ⟨ret, region, eq, returned⟩

/-! ## The list for the verifier -/

lemma makeList_eq {rs : List FdtRegion} {done : List ImageRegion}
    {fdtRegions : List (Option FdtRegion)}
    (stored : ∀ j (lt : j < rs.length), fdtRegions[done.length + j]? = some (some rs[j])) :
    fitRegionMakeList fdtRegions rs.length done.length
      (done.map some ++ List.replicate rs.length none) =
        some ((done ++ rs.map FdtRegion.image).map some) := by
  induction rs generalizing done with
  | nil => simp [fitRegionMakeList]
  | cons r rs ih =>
    have first := stored 0 (Nat.succ_pos _)
    rw [List.getElem_cons_zero, Nat.add_zero] at first
    have next := @ih (done ++ [r.image]) fun j lt => by
      have behind := stored (j + 1) (Nat.succ_lt_succ lt)
      rw [List.getElem_cons_succ] at behind
      rw [List.length_append, List.length_singleton, ← behind]
      congr 1
      omega
    rw [List.length_append, List.length_singleton] at next
    rw [List.length_cons, fitRegionMakeList, first, List.replicate_succ]
    simp only [Option.bind_eq_bind, Option.bind_some]
    rw [putAt_next, Option.bind_some, next]
    simp

/-- The elements of an array up to one that are all written. -/
lemma elements {array : List (Option α)}
    (stored : ∀ i < n, ∃ a, array[i]? = some (some a)) :
    ∃ as : List α, as.length = n ∧ ∀ i (lt : i < as.length), array[i]? = some (some as[i]) := by
  induction n with
  | zero => exact ⟨[], rfl, fun i lt => absurd lt (Nat.not_lt_zero i)⟩
  | succ n ih =>
    obtain ⟨as, rfl, each⟩ := ih fun i lt => stored i (Nat.lt_succ_of_lt lt)
    obtain ⟨a, last⟩ := stored as.length (Nat.lt_succ_self _)
    refine ⟨as ++ [a], by simp, fun i lt => ?_⟩
    rw [List.length_append, List.length_singleton] at lt
    by_cases less : i < as.length
    · rw [each i less, List.getElem_append_left less]
    · obtain rfl : i = as.length := by omega
      rw [last, List.getElem_concat_length rfl]

/-! ## The check -/

/-- The code comes to the names of the nodes. -/
def Collects (fit : Blob) (noffset : Nat) (s : Setup) : Prop :=
  s.error = none ∧ s.hashValue = true ∧ (fit.hashedNodes noffset).count 0 ≠ 0 ∧
    (fit.hashedNodes noffset).count 0 ≤ imageMaxHashedNodes

/-- It comes to the verifier. -/
def Finds (fit : Blob) (noffset : Nat) (s : Setup) : Prop :=
  ∃ ret region, fit.findRegions (namesOf (fit.hashedNodes noffset))
    ((fit.hashedNodes noffset).count 0) s.stack = some (ret, region) ∧
      0 < ret ∧ ret < (maxRegions ((fit.hashedNodes noffset).count 0) : Int) - 1

lemma check_early (no : ¬Collects fit noffset s) :
    ∃ c, fitConfigCheckSig fit noffset s = some c ∧ c.passed = none := by
  rw [fitConfigCheckSig]
  cases error : s.error with
  | some msg => exact ⟨_, rfl, rfl⟩
  | none =>
    dsimp only
    split
    · exact ⟨_, rfl, rfl⟩
    · split
      · exact ⟨_, rfl, rfl⟩
      · split
        · exact ⟨_, rfl, rfl⟩
        · rename_i value some_ few
          exact absurd ⟨error, Bool.eq_true_of_not_eq_false value, some_, Nat.not_lt.mp few⟩ no

/-- Where it comes to the names, the rest of the function is run. -/
lemma check_names (collects : Collects fit noffset s) :
    fitConfigCheckSig fit noffset s =
      (putAll (namesOf (fit.hashedNodes noffset)) 0
        (List.replicate ((fit.hashedNodes noffset).count 0) none)).bind fun nodeInc =>
          checkRegions fit noffset s ((fit.hashedNodes noffset).count 0)
            (nodeInc.filterMap id) := by
  obtain ⟨error, value, some_, few⟩ := collects
  rw [fitConfigCheckSig, error]
  dsimp only
  rw [if_neg (by simp [value]), if_neg some_, if_neg (Nat.not_lt.mpr few)]
  rfl

/-- The verifier gets the regions that were found, and that of the strings. -/
lemma checkRegions_eq (noffset : Nat) {inc : List (List UInt8)} {ret : Int}
    {region : List (Option FdtRegion)}
    (found : fit.findRegions inc count s.stack = some (ret, region))
    (returned : Returned fit (maxRegions count - 1) (maxRegions count) ret region) :
    (¬(0 < ret ∧ ret < (maxRegions count : Int) - 1) ∧
      ∃ c, checkRegions fit noffset s count inc = some c ∧ c.passed = none) ∨
    ((0 < ret ∧ ret < (maxRegions count : Int) - 1) ∧ ∃ rs : List FdtRegion, rs.length = ret.toNat ∧
      (∀ i (lt : i < rs.length), region[i]? = some (some rs[i])) ∧
      ∃ c, checkRegions fit noffset s count inc = some c ∧
        c.passed = some ((rs ++ (fit.stringsRegion noffset).toList).map FdtRegion.image)) := by
  rw [checkRegions, found]
  simp only [Option.bind_eq_bind, Option.bind_some]
  by_cases neg : ret < 0
  · rw [if_pos neg]
    exact .inl ⟨fun both => by omega, _, rfl, rfl⟩
  by_cases zero : ret = 0
  · rw [if_neg neg, if_pos zero]
    exact .inl ⟨fun both => by omega, _, rfl, rfl⟩
  by_cases many : (maxRegions count : Int) - 1 ≤ ret
  · rw [if_neg neg, if_neg zero, if_pos many]
    exact .inl ⟨fun both => by omega, _, rfl, rfl⟩
  rw [if_neg neg, if_neg zero, if_neg many]
  obtain ⟨rs, length, each⟩ := @elements _ ret.toNat region fun i lt => by
    obtain ⟨r, at_, -⟩ := returned.stored i (by omega) (by omega)
    exact ⟨r, at_⟩
  refine .inr ⟨⟨by omega, by omega⟩, rs, length, each, ?_⟩
  have ends : ∀ (rs : List FdtRegion) (array : List (Option FdtRegion)),
      (∀ i (lt : i < rs.length), array[i]? = some (some rs[i])) →
      ∃ c : Checked, ((fitRegionMakeList array rs.length 0 (List.replicate rs.length none)).bind
        fun region =>
          if s.verify (region.filterMap id) ≠ 0 then
            some ⟨-1, some "Verification failed", some (region.filterMap id)⟩
          else some ⟨0, none, some (region.filterMap id)⟩) = some c ∧
        c.passed = some (rs.map FdtRegion.image) := by
    intro rs array each
    have list := @makeList_eq rs [] array fun j lt => by
      rw [List.length_nil, Nat.zero_add]
      exact each j lt
    rw [List.map_nil, List.nil_append, List.nil_append, List.length_nil] at list
    have all : ((rs.map FdtRegion.image).map some).filterMap id = rs.map FdtRegion.image := by
      simp
    rw [list, Option.bind_some, all]
    split
    · exact ⟨_, rfl, rfl⟩
    · exact ⟨_, rfl, rfl⟩
  cases strings : fit.stringsRegion noffset with
  | none =>
    simp only [Option.bind_some, Option.toList_none, List.append_nil]
    rw [← length]
    exact ends rs region each
  | some r =>
    have room : ret.toNat < region.length := by
      rw [returned.length]
      omega
    have each' : ∀ i (lt : i < (rs ++ [r]).length),
        (region.set ret.toNat (some r))[i]? = some (some (rs ++ [r])[i]) := by
      intro i lt
      rw [List.length_append, List.length_singleton] at lt
      by_cases less : i < rs.length
      · rw [List.getElem?_set_ne (by omega), each i less, List.getElem_append_left less]
      · obtain rfl : i = rs.length := by omega
        have here : (region.set ret.toNat (some r))[ret.toNat]? = some (some r) :=
          List.getElem?_set_self room
        rw [List.getElem_concat_length rfl, length]
        exact here
    have count' : ret.toNat + 1 = (rs ++ [r]).length := by
      rw [List.length_append, List.length_singleton, length]
    simp only [putAt, if_pos room, Option.map_some, Option.bind_some, Option.toList_some]
    rw [count']
    exact ends (rs ++ [r]) _ each'

/-- A region lies inside of the blob. -/
def ImageRegion.Inside (fit : Blob) (r : ImageRegion) : Prop :=
  0 ≤ r.data ∧ 0 ≤ r.size ∧ r.data + r.size ≤ fit.totalsize

/-- The arrays are written inside, and the verifier gets only regions inside of the blob. -/
def Bounded (fit : Blob) (noffset : Nat) (s : Setup) : Prop :=
  ∃ c, fitConfigCheckSig fit noffset s = some c ∧
    ∀ passed, c.passed = some passed → ∀ r ∈ passed, r.Inside fit

/-- The property of the names ends with a terminator, the structure block lies in the blob, and so
do the strings that are hashed. -/
structure BoundedWhen (fit : Blob) (noffset : Nat) (s : Setup) : Prop where
  names : Collects fit noffset s → (fit.hashedNodes noffset).getLast? = some 0
  block : Collects fit noffset s → Finds fit noffset s →
    fit.offDtStruct + fit.sizeDtStruct ≤ fit.totalsize
  strings : Collects fit noffset s → Finds fit noffset s →
    ∀ r, fit.stringsRegion noffset = some r → r.image.Inside fit

lemma Within.inside {r : FdtRegion} (within : Within fit.offDtStruct fit.sizeDtStruct r)
    (block : fit.offDtStruct + fit.sizeDtStruct ≤ fit.totalsize) : r.image.Inside fit := by
  obtain ⟨low, size, high⟩ := within
  have start : 0 ≤ r.offset := by omega
  have stop : r.offset + r.size ≤ fit.totalsize := by omega
  exact ⟨start, size, stop⟩

/-- Collecting the regions is bounded exactly when the property of the names ends with a
terminator, and the structure block and the strings that are hashed lie in the blob. -/
theorem bounded_iff (fit : Blob) (noffset : Nat) (s : Setup) :
    Bounded fit noffset s ↔ BoundedWhen fit noffset s := by
  by_cases collects : Collects fit noffset s
  case neg =>
    obtain ⟨c, eq, nothing⟩ := check_early collects
    refine iff_of_true ⟨c, eq, fun passed some_ => ?_⟩ ⟨fun yes => absurd yes collects,
      fun yes => absurd yes collects, fun yes => absurd yes collects⟩
    cases nothing.symm.trans some_
  have names := putAll_names collects.2.2.1
  by_cases last : (fit.hashedNodes noffset).getLast? = some 0
  case neg =>
    refine iff_of_false ?_ fun bounded => last (bounded.names collects)
    rintro ⟨c, eq, -⟩
    rw [check_names collects] at eq
    obtain ⟨nodeInc, stored, -⟩ := Option.bind_eq_some_iff.mp eq
    exact last (names.mp ⟨nodeInc, stored⟩)
  have length := namesOf_length (fit.hashedNodes noffset)
  rw [if_pos (.inr last), Nat.add_zero] at length
  have stored := @putAll_eq _ [] (namesOf (fit.hashedNodes noffset))
    (List.replicate ((fit.hashedNodes noffset).count 0) none)
    (by rw [List.length_replicate, length])
  have rest : (List.replicate ((fit.hashedNodes noffset).count 0) none :
      List (Option (List UInt8))).drop (namesOf (fit.hashedNodes noffset)).length = [] :=
    List.drop_eq_nil_of_le (by rw [List.length_replicate, length])
  rw [rest, List.map_nil, List.nil_append, List.nil_append, List.append_nil,
    List.length_nil] at stored
  have all : ((namesOf (fit.hashedNodes noffset)).map some).filterMap id =
      namesOf (fit.hashedNodes noffset) := by simp
  obtain ⟨ret, region, found, returned⟩ := findRegions_spec fit
    (namesOf (fit.hashedNodes noffset)) ((fit.hashedNodes noffset).count 0) s.stack
  rw [Bounded, check_names collects, stored, Option.bind_some, all]
  obtain ⟨no, c, eq, nothing⟩ | ⟨yes, rs, size, each, c, eq, passed⟩ :=
    checkRegions_eq noffset found returned
  case inl =>
    have never : ¬Finds fit noffset s := by
      rintro ⟨ret', region', found', both⟩
      cases found.symm.trans found'
      exact no both
    refine iff_of_true ⟨c, eq, fun passed some_ => ?_⟩ ⟨fun _ => last,
      fun _ finds => absurd finds never, fun _ finds => absurd finds never⟩
    cases nothing.symm.trans some_
  case inr =>
    have finds : Finds fit noffset s := ⟨ret, region, found, yes⟩
    constructor
    case mp =>
      rintro ⟨c', eq', inside⟩
      cases eq.symm.trans eq'
      have each' := inside _ passed
      refine ⟨fun _ => last, fun _ _ => ?_, fun _ _ r some_ => ?_⟩
      · obtain ⟨n, rfl, ends⟩ := returned.last (by omega)
        obtain ⟨r, at_, -, stop⟩ := ends (by omega)
        have lt : n < rs.length := by omega
        rw [each n lt] at at_
        cases at_
        obtain ⟨-, -, high⟩ := each' rs[n].image
          (List.mem_map_of_mem (List.mem_append_left _ (List.getElem_mem lt)))
        have high' : rs[n].offset + rs[n].size ≤ fit.totalsize := high
        omega
      · refine each' r.image (List.mem_map_of_mem (List.mem_append_right _ ?_))
        rw [some_]
        exact List.mem_singleton_self r
    case mpr =>
      intro bounded
      refine ⟨c, eq, fun passed' some_ image mem => ?_⟩
      cases passed.symm.trans some_
      obtain ⟨r, listed, rfl⟩ := List.mem_map.mp mem
      obtain old | new := List.mem_append.mp listed
      · obtain ⟨i, lt, rfl⟩ := List.getElem_of_mem old
        obtain ⟨r, at_, within⟩ := returned.stored i (by omega) (by omega)
        rw [each i lt] at at_
        cases at_
        exact within.inside (bounded.block collects finds)
      · exact bounded.strings collects finds r (Option.mem_toList.mp new)

/-- A blob of one node, whose list of names is "/", a terminator, and "x". -/
def cutFit : Blob where
  totalsize := 100
  offDtStruct := 40
  offDtStrings := 80
  sizeDtStruct := 32
  string _ := "hashed-nodes".toUTF8.toList
  tags := [.beginNode [] [0, 0, 0], .prop 0 [slash, 0, 0x78] [0], .endNode]
  behind := word 9
  aligned := by decide
  small := by decide

/-- The second name is stored behind an array of one. -/
theorem not_bounded_cut : ¬∀ fit noffset s, Bounded fit noffset s := by
  intro all
  have nodes : cutFit.hashedNodes 0 = [slash, 0, 0x78] := by
    rw [Blob.hashedNodes, Blob.getprop]
    simp only [tagsFrom, cutFit, Blob.propLoop, if_true]
    rfl
  obtain ⟨c, eq, -⟩ := all cutFit 0 ⟨none, true, fun _ => 0, fun _ => 0⟩
  have collects : Collects cutFit 0 ⟨none, true, fun _ => 0, fun _ => 0⟩ := by
    refine ⟨rfl, rfl, ?_, ?_⟩
    · rw [nodes]
      decide
    · rw [nodes]
      decide
  rw [check_names collects] at eq
  obtain ⟨nodeInc, stored, -⟩ := Option.bind_eq_some_iff.mp eq
  have last := (putAll_names collects.2.2.1).mp ⟨nodeInc, stored⟩
  rw [nodes] at last
  revert last
  decide

end Imx.Fit.Regions
