import Imx.EnvFlags.Defs

/-!
# Looking attributes up without regular expressions

`env_attr_lookup` of `common/env_attr.c`, built without `CONFIG_REGEX`, looks for the last place of
a list where the name stands between delimiters, while `env_attr_walk` cuts the list into entries.
The walk removes every kind of white space; the lookup skips spaces only. `attr_lookup_iff` says
when the two agree all the same.
-/

namespace Imx.EnvFlags.NoRegex
open Imx.HashTable Imx.EnvFlags

/-! ## The code -/

/-- The first place of a string in another one (C `strstr`). -/
def strstr (s2 : CStr) : CStr → Option Nat
  | [] => if s2 = [] then some 0 else none
  | c :: s1 => if s2.isPrefixOf (c :: s1) then some 0 else (strstr s2 s1).map (· + 1)

/-- The text behind the spaces at its beginning. -/
def skipSpaces (s : CStr) : CStr := s.dropWhile (· == 32)

/-- The number of bytes in front of `match` that are left when the spaces there are skipped: the
last of them is `*prevch`. -/
def skipBack (searched : CStr) : Nat → Nat
  | 0 => 0
  | p + 1 => if searched[p]? = some 32 then skipBack searched p else p + 1

/-- In front of a place stands a delimiter, or nothing. -/
def prevOk (searched : CStr) (i : Nat) : Bool :=
  i == 0 || searched[skipBack searched i - 1]? == some 44 || skipBack searched i == 0

/-- Behind a name stands a delimiter, a separator or nothing. -/
def nextOk (next : CStr) : Bool :=
  match skipSpaces next with
  | [] => true
  | c :: _ => c == 58 || c == 44

/-- The loop over the matches, at most `fuel` turns: the size and the place of the last exact one. -/
def searchLoop (searched searchFor : CStr) : Nat → Nat → Nat × Option Nat → Option (Nat × Option Nat)
  | 0, _, _ => none
  | fuel + 1, cur, result =>
    match strstr searchFor (searched.drop cur) with
    | none => some result
    | some d =>
      let found := cur + d
      searchLoop searched searchFor fuel (found + 1)
        (if prevOk searched found && nextOk (searched.drop (found + searchFor.length)) then
          (searchFor.length, some found)
        else result)

/-- The last place of a name in a list, and its size (C `reverse_name_search`). -/
def reverseNameSearch (searched searchFor : CStr) : Option (Nat × Option Nat) :=
  if searchFor = [] then some (searched.length, some 0)
  else searchLoop searched searchFor (searched.length + 1) 0 (0, none)

/-- The attributes in the text behind a name. -/
def readAttributes (entry : CStr) : CStr :=
  match skipSpaces entry with
  | [] => []
  | c :: entry => if c = 58 then (skipSpaces entry).takeWhile fun c => c != 44 && c != 32 else []

/-- The attributes of a name in a list (C `env_attr_lookup`), copied into the buffer `attributes`,
which has room for them if it is not NULL. -/
def envAttrLookup (attrList : Option CStr) (name : CStr) (attributes : Bool) :
    Option (Except Int CStr) :=
  match attributes, attrList with
  | false, _ => some (.error (-einval))
  | true, none => some (.error (-einval))
  | true, some attrList =>
    (reverseNameSearch attrList name).map fun (r : Nat × Option Nat) =>
      match r.2 with
      | none => .error (-enoent)
      | some entry => .ok (readAttributes (attrList.drop (entry + r.1)))

/-- The calls a walk makes: a callback that writes them down and returns 0. -/
def recordCall (calls : List (CStr × Option CStr)) (name : CStr) (attributes : Option CStr) :
    Option (Except Int (List (CStr × Option CStr))) :=
  some (.ok (calls ++ [(name, attributes)]))

/-! ## The search, byte by byte -/

variable {x u v w : CStr} {ok : Bool} {c : UInt8}

/-- What stands behind the last exact match in a text; `ok` tells whether a match is exact on its
left at the beginning. -/
def lastHit (x : CStr) : Bool → CStr → Option CStr
  | _, [] => none
  | ok, c :: s =>
    (lastHit x (c == 44 || (c == 32 && ok)) s).or
      (if ok && x.isPrefixOf (c :: s) && nextOk ((c :: s).drop x.length) then
        some ((c :: s).drop x.length)
      else none)

lemma prevOk_zero (s : CStr) : prevOk s 0 = true := rfl

lemma prevOk_succ {s : CStr} {i : Nat} (here : s[i]? = some c) :
    prevOk s (i + 1) = (c == 44 || (c == 32 && prevOk s i)) := by
  rw [prevOk, skipBack, here]
  by_cases space : c = 32
  · subst space
    cases i with
    | zero => simp [skipBack, prevOk]
    | succ i => simp [prevOk]
  · simp [space, here]

/-- A turn that finds no match where it begins goes on a byte later. -/
lemma searchLoop_skip {s : CStr} {cur fuel : Nat} {r : Nat × Option Nat} (text : s.drop cur = c :: v)
    (no : ¬ x.isPrefixOf (c :: v) = true) :
    searchLoop s x (fuel + 1) cur r = searchLoop s x (fuel + 1) (cur + 1) r := by
  have next : s.drop (cur + 1) = v := by
    rw [← List.drop_drop, text]
    rfl
  rw [searchLoop, searchLoop, text, next, strstr, if_neg no]
  cases strstr x v with
  | none => rfl
  | some d => simp only [Option.map_some, show cur + (d + 1) = cur + 1 + d from by omega]

/-- The loop ends with the last exact match. -/
lemma searchLoop_eq {s : CStr} {cur fuel : Nat} {r : Nat × Option Nat} (ne : x ≠ [])
    (text : s.drop cur = v) (enough : v.length < fuel) :
    ∃ r', searchLoop s x fuel cur r = some r' ∧
      ((lastHit x (prevOk s cur) v = none ∧ r' = r) ∨
        ∃ i, lastHit x (prevOk s cur) v = some (s.drop (i + x.length)) ∧ r' = (x.length, some i)) := by
  induction v generalizing cur fuel r with
  | nil =>
    obtain ⟨fuel, rfl⟩ : ∃ n, fuel = n + 1 := ⟨fuel - 1, by simp at enough; omega⟩
    refine ⟨r, ?_, .inl ⟨rfl, rfl⟩⟩
    rw [searchLoop, text, strstr, if_neg ne]
  | cons c v ih =>
    obtain ⟨fuel, rfl⟩ : ∃ n, fuel = n + 1 := ⟨fuel - 1, by simp at enough; omega⟩
    rw [List.length_cons] at enough
    have next : s.drop (cur + 1) = v := by
      rw [← List.drop_drop, text]
      rfl
    have here : s[cur]? = some c := by
      rw [← List.head?_drop, text]
      rfl
    have drop : (c :: v).drop x.length = s.drop (cur + x.length) := by
      rw [← text, List.drop_drop]
    rw [lastHit, ← prevOk_succ here, drop]
    by_cases hit : x.isPrefixOf (c :: v) = true
    · have turn : searchLoop s x (fuel + 1) cur r = searchLoop s x fuel (cur + 1)
          (if prevOk s cur && nextOk (s.drop (cur + x.length)) then (x.length, some cur) else r) := by
        rw [searchLoop, text, strstr, if_pos hit]
        rfl
      obtain ⟨r', run, result⟩ := @ih (cur + 1) fuel
        (if prevOk s cur && nextOk (s.drop (cur + x.length)) then (x.length, some cur) else r) next
        (by omega)
      refine ⟨r', turn.trans run, ?_⟩
      rw [hit, Bool.and_true]
      rcases result with ⟨none, rfl⟩ | ⟨i, found, rfl⟩
      · rw [none, Option.none_or]
        by_cases exact : (prevOk s cur && nextOk (s.drop (cur + x.length))) = true
        · rw [if_pos exact, if_pos exact]
          exact .inr ⟨cur, rfl, rfl⟩
        · rw [if_neg exact, if_neg exact]
          exact .inl ⟨rfl, rfl⟩
      · rw [found, Option.some_or]
        exact .inr ⟨i, rfl, rfl⟩
    · obtain ⟨r', run, result⟩ := @ih (cur + 1) (fuel + 1) r next (by omega)
      refine ⟨r', (searchLoop_skip text hit).trans run, ?_⟩
      rw [if_neg (by simp [hit]), Option.or_none]
      exact result

/-- The lookup reads the attributes behind the last exact match. -/
lemma envAttrLookup_eq (list : CStr) (ne : x ≠ []) :
    envAttrLookup (some list) x true = some (match lastHit x true list with
      | none => .error (-enoent)
      | some entry => .ok (readAttributes entry)) := by
  obtain ⟨r, run, result⟩ := @searchLoop_eq x list list 0 (list.length + 1) (0, none) ne rfl
    (Nat.lt_succ_self _)
  rw [envAttrLookup, reverseNameSearch, if_neg ne, run, Option.map_some]
  rw [prevOk_zero] at result
  rcases result with ⟨none, rfl⟩ | ⟨i, found, rfl⟩
  · rw [none]
  · rw [found]

/-! ## Entries -/

/-- An entry of a list as it is written: its name, the attributes where there is a `:`, and the
white space around them. -/
structure AttrEntry where
  before : CStr
  name : CStr
  after : CStr
  attributes : Option (CStr × CStr × CStr)

/-- The `:` of an entry and what stands behind it. -/
def AttrEntry.tail (e : AttrEntry) : CStr :=
  match e.attributes with
  | none => []
  | some (b, a, d) => 58 :: (b ++ (a ++ d))

def AttrEntry.text (e : AttrEntry) : CStr := e.before ++ (e.name ++ (e.after ++ e.tail))

/-- The text of a list. -/
def listText (es : List AttrEntry) : CStr := [44].intercalate (es.map AttrEntry.text)

/-- White space. -/
def Blank (s : CStr) : Prop := ∀ c ∈ s, isspace c = true

/-- A name: not empty, without a delimiter, and without white space at its ends. -/
structure Name (x : CStr) : Prop where
  first : ∃ c s, x = c :: s ∧ isspace c = false
  last : ∃ s c, x = s ++ [c] ∧ isspace c = false
  comma : (44 : UInt8) ∉ x
  colon : (58 : UInt8) ∉ x

/-- Attributes: neither delimiters nor white space. -/
structure Attributes (a : CStr) : Prop where
  comma : (44 : UInt8) ∉ a
  colon : (58 : UInt8) ∉ a
  black : ∀ c ∈ a, isspace c = false

/-- An entry of the documented form. -/
structure AttrEntry.Ok (e : AttrEntry) : Prop where
  before : Blank e.before
  name : Name e.name
  after : Blank e.after
  attributes : ∀ b a d, e.attributes = some (b, a, d) → Blank b ∧ Attributes a ∧ Blank d

/-- Only spaces stand around the name. -/
def AttrEntry.plain (e : AttrEntry) : Bool := e.before.all (· == 32) && e.after.all (· == 32)

/-- The attributes; there are none where they are NULL. -/
def AttrEntry.value (e : AttrEntry) : CStr :=
  match e.attributes with
  | none => []
  | some (_, a, _) => a

/-- Only spaces stand between the `:` and the attributes, and behind them comes a space, if
anything. -/
def AttrEntry.spaced (e : AttrEntry) : Bool :=
  match e.attributes with
  | none => true
  | some (b, [], d) => b.all (· == 32) && d.all (· == 32)
  | some (b, _ :: _, d) => b.all (· == 32) && d.head?.all (· == 32)

variable {e : AttrEntry} {es : List AttrEntry} {R : CStr}

lemma Name.ne (nx : Name x) : x ≠ [] := by
  obtain ⟨c, s, rfl, -⟩ := nx.first
  exact List.cons_ne_nil c s

lemma Blank.notMem (blank : Blank u) (no : isspace c = false) : c ∉ u := fun mem => by
  rw [blank c mem] at no
  cases no

lemma AttrEntry.Ok.comma_tail (ok : e.Ok) : (44 : UInt8) ∉ e.tail := by
  rw [AttrEntry.tail]
  cases attrs : e.attributes with
  | none => exact List.not_mem_nil
  | some r =>
    obtain ⟨b, a, d⟩ := r
    obtain ⟨blank, attr, blank'⟩ := ok.attributes b a d attrs
    have black : isspace 44 = false := rfl
    simp [blank.notMem black, attr.comma, blank'.notMem black]

/-- Without a comma in the way, a match that is not exact on its left stays so. -/
lemma lastHit_skip (no : (44 : UInt8) ∉ u) : lastHit x false (u ++ v) = lastHit x false v := by
  induction u with
  | nil => rfl
  | cons c u ih =>
    obtain ⟨c44, no⟩ : (44 : UInt8) ≠ c ∧ (44 : UInt8) ∉ u := by simpa [not_or] using no
    have next : (c == 44 || (c == 32 && false)) = false := by simp [Ne.symm c44]
    rw [List.cons_append, lastHit, next, ih no]
    simp

/-- White space other than spaces hides what stands behind it. -/
lemma lastHit_blank (nx : Name x) (blank : Blank u) :
    lastHit x ok (u ++ v) = lastHit x (ok && u.all (· == 32)) v := by
  induction u generalizing ok with
  | nil => simp
  | cons c u ih =>
    obtain ⟨d, s, rfl, black⟩ := nx.first
    have white := blank c List.mem_cons_self
    have c44 : c ≠ 44 := by
      rintro rfl
      exact absurd white (by decide)
    have dc : d ≠ c := by
      rintro rfl
      rw [white] at black
      cases black
    have next : (c == 44 || (c == 32 && ok)) = (ok && c == 32) := by
      rw [beq_eq_false_iff_ne.2 c44, Bool.false_or, Bool.and_comm]
    rw [List.cons_append, lastHit, next, ih fun y hy => blank y (List.mem_cons_of_mem _ hy)]
    simp [List.isPrefixOf, dc, Bool.and_assoc]

lemma skipSpaces_cons (c : UInt8) (v : CStr) :
    skipSpaces (c :: v) = if c = 32 then skipSpaces v else c :: v := by
  by_cases space : c = 32
  · simp [skipSpaces, space]
  · simp [skipSpaces, space]

lemma nextOk_cons (c : UInt8) (v : CStr) :
    nextOk (c :: v) = if c = 32 then nextOk v else c == 58 || c == 44 := by
  rw [nextOk, skipSpaces_cons]
  by_cases space : c = 32
  · rw [if_pos space, if_pos space]
    rfl
  · rw [if_neg space, if_neg space]

/-- White space other than spaces is not skipped. -/
lemma nextOk_blank (blank : Blank u) : nextOk (u ++ v) = (u.all (· == 32) && nextOk v) := by
  induction u with
  | nil => rfl
  | cons c u ih =>
    have white := blank c List.mem_cons_self
    have c44 : c ≠ 44 := by
      rintro rfl
      exact absurd white (by decide)
    have c58 : c ≠ 58 := by
      rintro rfl
      exact absurd white (by decide)
    rw [List.cons_append, nextOk_cons, ih fun y hy => blank y (List.mem_cons_of_mem _ hy)]
    by_cases space : c = 32
    · simp [space]
    · rw [if_neg space, List.all_cons, beq_eq_false_iff_ne.2 space, beq_eq_false_iff_ne.2 c58,
        beq_eq_false_iff_ne.2 c44]
      rfl

/-- More of a name is no end of it. -/
lemma nextOk_name (comma : (44 : UInt8) ∉ u ++ [c]) (colon : (58 : UInt8) ∉ u ++ [c])
    (black : isspace c = false) : nextOk (u ++ c :: v) = false := by
  induction u with
  | nil =>
    have c32 : c ≠ 32 := by
      rintro rfl
      exact absurd black (by decide)
    obtain rfl | c44 := eq_or_ne c 44
    · simp at comma
    obtain rfl | c58 := eq_or_ne c 58
    · simp at colon
    simp [nextOk_cons, c32, c44, c58]
  | cons d u ih =>
    rw [List.cons_append, List.mem_cons, not_or] at comma colon
    rw [List.cons_append, nextOk_cons, ih comma.2 colon.2]
    simp [Ne.symm comma.1, Ne.symm colon.1]

/-- At the name of an entry, exactly the whole name is a match, with nothing but spaces behind it. -/
lemma hit_iff {n after T : CStr} (nx : Name x) (nn : Name n) (blank : Blank after)
    (stop : ∀ c ∈ T.head?, c = 58 ∨ c = 44) :
    (x.isPrefixOf (n ++ (after ++ T)) && nextOk ((n ++ (after ++ T)).drop x.length)) = true ↔
      x = n ∧ after.all (· == 32) = true := by
  have last : nextOk T = true := by
    cases T with
    | nil => rfl
    | cons c T =>
      rcases stop c rfl with rfl | rfl
      · rfl
      · rfl
  rw [Bool.and_eq_true, List.isPrefixOf_iff_prefix]
  constructor
  · rintro ⟨⟨v, eq⟩, next⟩
    rw [← eq, List.drop_left] at next
    obtain ⟨s, c, rfl, black⟩ := nx.last
    rcases List.append_eq_append_iff.1 eq with ⟨y, rfl, rfl⟩ | ⟨y, split, rest⟩
    · -- the name of the entry goes on
      cases y using List.reverseRecOn with
      | nil =>
        rw [List.nil_append, nextOk_blank blank] at next
        exact ⟨(List.append_nil _).symm, (Bool.and_eq_true_iff.1 next).1⟩
      | append_singleton y d _ =>
        obtain ⟨s', c', eq', black'⟩ := nn.last
        rw [← List.append_assoc] at eq'
        obtain rfl : d = c' := by simpa using (List.append_inj' eq' rfl).2
        rw [List.append_assoc, List.singleton_append, nextOk_name ?_ ?_ black'] at next
        · cases next
        · exact fun mem => nn.comma (List.mem_append_right _ mem)
        · exact fun mem => nn.colon (List.mem_append_right _ mem)
    · -- the name looked for goes on
      cases y using List.reverseRecOn with
      | nil =>
        rw [List.nil_append] at rest
        rw [List.append_nil] at split
        rw [← rest, nextOk_blank blank] at next
        exact ⟨split, (Bool.and_eq_true_iff.1 next).1⟩
      | append_singleton y d _ =>
        rw [← List.append_assoc] at split
        obtain rfl : c = d := by simpa using (List.append_inj' split rfl).2
        rcases List.append_eq_append_iff.1 rest with ⟨z, last', eq'⟩ | ⟨z, rfl, -⟩
        · cases z with
          | nil =>
            rw [List.append_nil] at last'
            exact absurd (last' ▸ List.mem_append_right y List.mem_cons_self) (blank.notMem black)
          | cons f z =>
            have mem : f ∈ s ++ [c] := by
              rw [split, List.append_assoc, last']
              simp
            rcases stop f (by rw [eq']; rfl) with rfl | rfl
            · exact absurd mem nx.colon
            · exact absurd mem nx.comma
        · exact absurd (by simp) (blank.notMem black)
  · rintro ⟨rfl, spaces⟩
    rw [List.drop_left, nextOk_blank blank, spaces, last]
    exact ⟨List.prefix_append _ _, rfl⟩

/-- What stands behind a list entry: nothing, or the comma in front of the next one. -/
def Closed (R : CStr) : Prop := ∀ c ∈ R.head?, c = 44

/-- The matches in an entry and behind it. -/
lemma lastHit_entry (nx : Name x) (ok : e.Ok) (closed : Closed R) :
    lastHit x true (e.text ++ R) =
      (lastHit x false R).or
        (if x = e.name ∧ e.plain = true then some (e.after ++ (e.tail ++ R)) else none) := by
  have stop : ∀ c ∈ (e.tail ++ R).head?, c = 58 ∨ c = 44 := by
    intro c mem
    rw [AttrEntry.tail] at mem
    cases attrs : e.attributes with
    | none =>
      rw [attrs] at mem
      exact .inr (closed c mem)
    | some r =>
      rw [attrs] at mem
      exact .inl (Option.some.inj mem).symm
  have hit := hit_iff nx ok.name ok.after stop
  have text : e.text ++ R = e.before ++ (e.name ++ (e.after ++ (e.tail ++ R))) := by
    simp [AttrEntry.text]
  have whole : (e.name ++ (e.after ++ (e.tail ++ R))).drop e.name.length =
      e.after ++ (e.tail ++ R) := List.drop_left
  obtain ⟨d, n, name, black⟩ := ok.name.first
  have skip : (44 : UInt8) ∉ n ++ (e.after ++ e.tail) := by
    have comma := ok.name.comma
    rw [name, List.mem_cons, not_or] at comma
    simp [comma.2, ok.after.notMem (show isspace 44 = false from rfl), ok.comma_tail]
  have rest := @lastHit_skip x _ R skip
  have d44 : d ≠ 44 := by
    rintro rfl
    exact ok.name.comma (name ▸ List.mem_cons_self)
  have d32 : d ≠ 32 := by
    rintro rfl
    exact absurd black (by decide)
  rw [text, lastHit_blank nx ok.before, Bool.true_and]
  rw [name, List.cons_append] at hit whole ⊢
  rw [lastHit, beq_eq_false_iff_ne.2 d44, beq_eq_false_iff_ne.2 d32, Bool.false_and, Bool.false_or,
    show n ++ (e.after ++ (e.tail ++ R)) = n ++ (e.after ++ e.tail) ++ R from by simp, rest]
  rw [show n ++ (e.after ++ (e.tail ++ R)) = n ++ (e.after ++ e.tail) ++ R from by simp] at hit whole
  congr 1
  by_cases here : x = d :: n ∧ e.plain = true
  · obtain ⟨rfl, plain⟩ := here
    obtain ⟨spaces, spaces'⟩ := Bool.and_eq_true_iff.1 plain
    rw [spaces, Bool.true_and, if_pos (hit.2 ⟨rfl, spaces'⟩), if_pos ⟨rfl, plain⟩, whole]
  · rw [if_neg here, if_neg]
    rw [Bool.and_assoc, Bool.and_eq_true, hit]
    rintro ⟨spaces, eq, spaces'⟩
    exact here ⟨eq, Bool.and_eq_true_iff.2 ⟨spaces, spaces'⟩⟩

/-! ## The attributes that are read -/

/-- The attributes the lookup reads from an entry. -/
def AttrEntry.read (e : AttrEntry) : CStr :=
  match e.attributes with
  | none => []
  | some (b, a, d) => (skipSpaces (b ++ (a ++ d))).takeWhile fun c => c != 44 && c != 32

lemma skipSpaces_append (spaces : u.all (· == 32) = true) : skipSpaces (u ++ v) = skipSpaces v := by
  rw [skipSpaces, List.dropWhile_append_of_pos (List.all_eq_true.1 spaces)]
  rfl

/-- What stands behind the entry is not read. -/
lemma read_closed (comma : (44 : UInt8) ∉ u) (closed : Closed R) :
    (skipSpaces (u ++ R)).takeWhile (fun c => c != 44 && c != 32) =
      (skipSpaces u).takeWhile fun c => c != 44 && c != 32 := by
  have stop : ∀ u : CStr, (u ++ R).takeWhile (fun c => c != 44 && c != 32) =
      u.takeWhile fun c => c != 44 && c != 32 := by
    intro u
    induction u with
    | nil =>
      cases R with
      | nil => rfl
      | cons c R =>
        obtain rfl := closed c rfl
        rfl
    | cons c u ih => rw [List.cons_append, List.takeWhile_cons, List.takeWhile_cons, ih]
  induction u with
  | nil =>
    cases R with
    | nil => rfl
    | cons c R =>
      obtain rfl := closed c rfl
      rfl
  | cons c u ih =>
    by_cases space : c = 32
    · subst space
      exact ih fun mem => comma (List.mem_cons_of_mem _ mem)
    · rw [List.cons_append, skipSpaces_cons, skipSpaces_cons, if_neg space, if_neg space]
      exact stop (c :: u)

lemma readAttributes_entry (ok : e.Ok) (closed : Closed R) (plain : e.plain = true) :
    readAttributes (e.after ++ (e.tail ++ R)) = e.read := by
  have comma := ok.comma_tail
  rw [readAttributes, skipSpaces_append (Bool.and_eq_true_iff.1 plain).2]
  rw [AttrEntry.tail] at comma ⊢
  rw [AttrEntry.read]
  cases attrs : e.attributes with
  | none =>
    cases R with
    | nil => rfl
    | cons c R =>
      obtain rfl := closed c rfl
      rfl
  | some r =>
    rw [attrs] at comma
    exact read_closed (fun mem => comma (List.mem_cons_of_mem _ mem)) closed

/-- White space is all spaces, or has a first byte that is none. -/
lemma Blank.spaces_or (blank : Blank u) : u.all (· == 32) = true ∨
    u.all (· == 32) = false ∧
      ∃ c s, isspace c = true ∧ c ≠ 32 ∧ ∀ v, skipSpaces (u ++ v) = c :: (s ++ v) := by
  induction u with
  | nil => exact .inl rfl
  | cons c u ih =>
    by_cases space : c = 32
    · rcases ih fun y hy => blank y (List.mem_cons_of_mem _ hy) with
        all | ⟨some', d, s, white, no, skip⟩
      · exact .inl (by simp [space, all])
      · refine .inr ⟨by simp [some'], d, s, white, no, fun v => ?_⟩
        rw [List.cons_append, skipSpaces_cons, if_pos space, skip]
    · refine .inr ⟨by simp [space], c, u, blank c List.mem_cons_self, space, fun v => ?_⟩
      rw [List.cons_append, skipSpaces_cons, if_neg space]

lemma white_delimiter (white : isspace c = true) : c ≠ 44 := by
  rintro rfl
  exact absurd white (by decide)

/-- What is read is no text of attributes, unless only spaces stand around them. -/
lemma read_spaced (ok : e.Ok) :
    if e.spaced = true then e.read = e.value else ∃ c ∈ e.read, isspace c = true := by
  rw [AttrEntry.spaced, AttrEntry.read, AttrEntry.value]
  cases attrs : e.attributes with
  | none => exact if_pos rfl ▸ rfl
  | some r =>
    obtain ⟨b, a, d⟩ := r
    obtain ⟨blank, attr, blank'⟩ := ok.attributes b a d attrs
    rcases blank.spaces_or with all | ⟨some', c, s, white, no, skip⟩
    · cases a with
      | nil =>
        simp only [all, Bool.true_and, skipSpaces_append, List.nil_append]
        rcases blank'.spaces_or with all' | ⟨some', c, s, white, no, skip⟩
        · have none := skipSpaces_append (v := []) all'
          rw [List.append_nil] at none
          rw [if_pos all', none]
          rfl
        · have first := skip []
          rw [List.append_nil, List.append_nil] at first
          rw [if_neg (by simp [some']), first]
          exact ⟨c, by simp [no, white_delimiter white], white⟩
      | cons h a =>
        have black : ∀ y ∈ h :: a, (y != 44 && y != 32) = true := by
          intro y mem
          have y44 : y ≠ 44 := fun e => attr.comma (e ▸ mem)
          have y32 : y ≠ 32 := by
            rintro rfl
            exact absurd (attr.black 32 mem) (by decide)
          simp [y44, y32]
        have h32 : h ≠ 32 := by simpa using (Bool.and_eq_true_iff.1 (black h List.mem_cons_self)).2
        have whole : (skipSpaces (b ++ (h :: a ++ d))).takeWhile (fun c => c != 44 && c != 32) =
            h :: a ++ d.takeWhile fun c => c != 44 && c != 32 := by
          rw [skipSpaces_append all, List.cons_append, skipSpaces_cons, if_neg h32, ← List.cons_append,
            List.takeWhile_append_of_pos black]
        simp only [all, Bool.true_and, whole]
        cases d with
        | nil => simp
        | cons c d =>
          by_cases space : c = 32
          · simp [space]
          · have white := blank' c List.mem_cons_self
            rw [if_neg (by simp [space])]
            exact ⟨c, by simp [space, white_delimiter white], white⟩
    · have first : ∃ y ∈ (skipSpaces (b ++ (a ++ d))).takeWhile (fun c => c != 44 && c != 32),
          isspace y = true := by
        rw [skip]
        exact ⟨c, by simp [no, white_delimiter white], white⟩
      cases a with
      | nil => simpa only [some', Bool.false_and, Bool.false_eq_true, if_false] using first
      | cons h a => simpa only [some', Bool.false_and, Bool.false_eq_true, if_false] using first

/-! ## Whole lists -/

/-- The last entry with a name. -/
def lastNamed (es : List AttrEntry) (x : CStr) : Option AttrEntry :=
  es.reverse.find? fun e => e.name = x

/-- The last entry with a name and only spaces around it. -/
def lastPlain (es : List AttrEntry) (x : CStr) : Option AttrEntry :=
  es.reverse.find? fun e => e.name = x ∧ e.plain = true

lemma lastPlain_cons (e : AttrEntry) (es : List AttrEntry) (x : CStr) :
    lastPlain (e :: es) x =
      (lastPlain es x).or (if x = e.name ∧ e.plain = true then some e else none) := by
  rw [lastPlain, List.reverse_cons, List.find?_append, ← lastPlain, List.find?_singleton]
  by_cases here : e.name = x ∧ e.plain = true
  · rw [if_pos (decide_eq_true here), if_pos ⟨here.1.symm, here.2⟩]
  · rw [if_neg (by simpa using here), if_neg fun h => here ⟨h.1.symm, h.2⟩]

lemma listText_cons (e : AttrEntry) (es : List AttrEntry) :
    ∃ R, listText (e :: es) = e.text ++ R ∧ Closed R ∧
      ∀ x, lastHit x false R = lastHit x true (listText es) := by
  cases es with
  | nil =>
    refine ⟨[], by simp [listText], ?_, fun x => rfl⟩
    rintro c ⟨⟩
  | cons f es =>
    refine ⟨44 :: listText (f :: es), ?_, fun c h => (Option.some.inj h).symm, fun x => ?_⟩
    · rw [listText, List.map_cons, List.map_cons, List.intercalate_cons_cons]
      simp [listText]
    · rw [lastHit]
      simp

/-- The lookup reads the last entry with only spaces around the name. -/
lemma lastHit_list (nx : Name x) (ok : ∀ e ∈ es, e.Ok) :
    (lastHit x true (listText es)).map readAttributes = (lastPlain es x).map AttrEntry.read := by
  induction es with
  | nil => rfl
  | cons e es ih =>
    have rest := ih fun f hf => ok f (List.mem_cons_of_mem _ hf)
    have here := ok e List.mem_cons_self
    obtain ⟨R, text, closed, behind⟩ := listText_cons e es
    rw [text, lastHit_entry nx here closed, behind, lastPlain_cons, Option.map_or, Option.map_or, rest]
    congr 1
    split_ifs with hit
    · rw [Option.map_some, Option.map_some, readAttributes_entry here closed hit.2]
    · rfl

/-! ## The walk -/

/-- The call the walk makes for an entry. -/
def AttrEntry.call (e : AttrEntry) : CStr × Option CStr :=
  (e.name, e.attributes.map fun r => r.2.1)

lemma walk_record (calls entries : List (CStr × Option CStr)) :
    envAttrWalk recordCall entries calls = some (.ok (calls ++ entries)) := by
  induction entries generalizing calls with
  | nil => rw [envAttrWalk, List.append_nil]
  | cons call entries ih =>
    rw [envAttrWalk, recordCall]
    exact (ih _).trans (by simp)

lemma strim_blank {b a d : CStr} (blank : Blank b) (blank' : Blank d)
    (first : ∀ c ∈ a.head?, isspace c = false) (last : ∀ c ∈ a.getLast?, isspace c = false) :
    strim (b ++ (a ++ d)) = a := by
  rw [strim, List.dropWhile_append_of_pos blank]
  cases a with
  | nil =>
    rw [List.nil_append, List.dropWhile_eq_nil_iff.2 blank']
    rfl
  | cons c a =>
    have black := first c rfl
    rw [List.cons_append, List.dropWhile_cons_of_neg (by simp [black]), ← List.cons_append,
      List.reverse_append, List.dropWhile_append_of_pos fun c h => blank' c (List.mem_reverse.1 h)]
    rw [← List.head?_reverse] at last
    cases rev : (c :: a).reverse with
    | nil => simp at rev
    | cons e s =>
      rw [rev] at last
      rw [List.dropWhile_cons_of_neg (by simp [last e rfl]), ← rev, List.reverse_reverse]

lemma Name.black (nx : Name x) :
    (∀ c ∈ x.head?, isspace c = false) ∧ ∀ c ∈ x.getLast?, isspace c = false := by
  constructor
  · obtain ⟨c, s, rfl, black⟩ := nx.first
    rintro d ⟨⟩
    exact black
  · obtain ⟨s, c, rfl, black⟩ := nx.last
    intro d mem
    rw [List.getLast?_concat] at mem
    obtain rfl := Option.some.inj mem
    exact black

/-- An entry is split where it was put together. -/
lemma splitEntry_text (ok : e.Ok) : splitEntry e.text = e.call := by
  have colon : ∀ c ∈ e.before ++ (e.name ++ e.after), (c != 58) = true := by
    intro c mem
    have black : isspace 58 = false := rfl
    have c58 : c ≠ 58 := by
      rintro rfl
      simp only [List.mem_append, ok.before.notMem black, ok.name.colon, ok.after.notMem black,
        or_self] at mem
    simpa using c58
  have text : e.text = e.before ++ (e.name ++ e.after) ++ e.tail := by simp [AttrEntry.text]
  have name := strim_blank ok.before ok.after ok.name.black.1 ok.name.black.2
  rw [splitEntry, text, List.takeWhile_append_of_pos colon, List.dropWhile_append_of_pos colon,
    AttrEntry.tail, AttrEntry.call]
  cases attrs : e.attributes with
  | none => simpa using name
  | some r =>
    obtain ⟨b, a, d⟩ := r
    obtain ⟨blank, attr, blank'⟩ := ok.attributes b a d attrs
    have value := strim_blank blank blank' (fun c h => attr.black c (List.mem_of_head? h))
      fun c h => attr.black c (List.mem_of_getLast? h)
    simp [name, value]

/-- The walk makes one call for each entry. -/
lemma attrEntries_list (ok : ∀ e ∈ es, e.Ok) :
    attrEntries (listText es) = es.map AttrEntry.call := by
  by_cases empty : es = []
  · subst empty
    rfl
  · have comma : ∀ l ∈ es.map AttrEntry.text, (44 : UInt8) ∉ l := by
      intro l mem
      obtain ⟨e, he, rfl⟩ := List.mem_map.1 mem
      have black : isspace 44 = false := rfl
      simp [AttrEntry.text, (ok e he).before.notMem black, (ok e he).name.comma,
        (ok e he).after.notMem black, (ok e he).comma_tail]
    have calls : es.map (splitEntry ∘ AttrEntry.text) = es.map AttrEntry.call :=
      List.map_congr_left fun e he => splitEntry_text (ok e he)
    rw [attrEntries, listText, List.splitOn_intercalate _ comma (by simpa using empty), List.map_map,
      calls, List.filter_eq_self.2]
    intro call mem
    obtain ⟨e, he, rfl⟩ := List.mem_map.1 mem
    exact decide_eq_true (ok e he).name.ne

/-! ## The two side by side -/

/-- The lookup finds a name exactly when the walk makes a call for it, and gives the attributes of
the last such call. -/
def Agrees (list x : CStr) : Prop :=
  ∃ calls r, envAttrWalk recordCall (attrEntries list) [] = some (.ok calls) ∧
    envAttrLookup (some list) x true = some r ∧
    ((∃ a, r = .ok a) ↔ ∃ call ∈ calls, call.1 = x) ∧
    ∀ call, (calls.reverse.find? fun call => call.1 = x) = some call → r = .ok (call.2.getD [])

lemma lookup_list (nx : Name x) (ok : ∀ e ∈ es, e.Ok) :
    envAttrLookup (some (listText es)) x true = some (match lastPlain es x with
      | none => .error (-enoent)
      | some e => .ok e.read) := by
  have hit := lastHit_list nx ok
  rw [envAttrLookup_eq _ nx.ne]
  cases last : lastPlain es x with
  | none =>
    rw [last, Option.map_none, Option.map_eq_none_iff] at hit
    rw [hit]
  | some e =>
    rw [last, Option.map_some] at hit
    obtain ⟨entry, found, eq⟩ := Option.map_eq_some_iff.1 hit
    rw [found]
    exact congrArg (fun a => some (Except.ok a)) eq

lemma lastCall (es : List AttrEntry) (x : CStr) :
    ((es.map AttrEntry.call).reverse.find? fun call => call.1 = x) =
      (lastNamed es x).map AttrEntry.call := by
  rw [← List.map_reverse, List.find?_map]
  rfl

lemma AttrEntry.call_value (e : AttrEntry) : e.call.2.getD [] = e.value := by
  rw [AttrEntry.call, AttrEntry.value]
  cases e.attributes with
  | none => rfl
  | some r => rfl

/-- An entry is read as the attributes `a` exactly when only spaces stand around its own, which
are `a`. -/
lemma read_eq_iff {f : AttrEntry} (ok : e.Ok) (ok' : f.Ok) :
    e.read = f.value ↔ e.spaced = true ∧ e.value = f.value := by
  have read := read_spaced ok
  by_cases spaced : e.spaced = true
  · rw [if_pos spaced] at read
    rw [read, and_iff_right spaced]
  · rw [if_neg spaced] at read
    refine iff_of_false (fun eq => ?_) fun h => spaced h.1
    obtain ⟨c, mem, white⟩ := read
    rw [eq, AttrEntry.value] at mem
    cases attrs : f.attributes with
    | none =>
      rw [attrs] at mem
      cases mem
    | some r =>
      obtain ⟨b, a, d⟩ := r
      rw [attrs] at mem
      rw [(ok'.attributes b a d attrs).2.1.black c mem] at white
      cases white

/-- Lookup and walk agree on a name of a list exactly when the name has no entry, or the last entry
with only spaces around the name has only spaces around its attributes too and the same attributes
as the last entry. The walk takes other white space for blanks as well. -/
theorem attr_lookup_iff (ok : ∀ e ∈ es, e.Ok) (nx : Name x) :
    Agrees (listText es) x ↔ ∀ l, lastNamed es x = some l →
      ∃ e, lastPlain es x = some e ∧ e.spaced = true ∧ e.value = l.value := by
  have walk := walk_record [] (attrEntries (listText es))
  have look := lookup_list nx ok
  have last := lastCall es x
  rw [List.nil_append, attrEntries_list ok] at walk
  cases named : lastNamed es x with
  | none =>
    have absent : ∀ e ∈ es, e.name ≠ x := by simpa [lastNamed] using named
    have plain : lastPlain es x = none := by
      rw [lastPlain, List.find?_eq_none]
      intro e mem
      simp [absent e (List.mem_reverse.1 mem)]
    rw [plain] at look
    rw [named, Option.map_none] at last
    refine iff_of_true ⟨_, _, by rw [attrEntries_list ok]; exact walk, look, ?_, fun call h => ?_⟩ ?_
    · constructor
      · rintro ⟨a, ⟨⟩⟩
      · rintro ⟨call, mem, eq⟩
        obtain ⟨e, he, rfl⟩ := List.mem_map.1 mem
        exact absurd eq (absent e he)
    · rw [last] at h
      cases h
    · rintro l ⟨⟩
  | some l =>
    have mem : l ∈ es := List.mem_reverse.1 (List.mem_of_find?_eq_some named)
    have name : l.name = x := by simpa using List.find?_some named
    rw [named, Option.map_some] at last
    have agrees : Agrees (listText es) x ↔
        envAttrLookup (some (listText es)) x true = some (.ok l.value) := by
      constructor
      · rintro ⟨calls, r, walk', look', -, value⟩
        rw [attrEntries_list ok, walk] at walk'
        obtain rfl := Except.ok.inj (Option.some.inj walk')
        rw [look', value _ last, l.call_value]
      · intro eq
        refine ⟨_, _, by rw [attrEntries_list ok]; exact walk, eq, ?_, fun call h => ?_⟩
        · exact iff_of_true ⟨_, rfl⟩ ⟨l.call, List.mem_map_of_mem mem, name⟩
        · obtain rfl := Option.some.inj (last.symm.trans h)
          rw [l.call_value]
    rw [agrees, look]
    constructor
    · rintro eq l' ⟨⟩
      cases plain : lastPlain es x with
      | none =>
        rw [plain] at eq
        cases eq
      | some e =>
        rw [plain] at eq
        have there : e ∈ es := List.mem_reverse.1 (List.mem_of_find?_eq_some plain)
        exact ⟨e, rfl, (read_eq_iff (ok e there) (ok l mem)).1 (Except.ok.inj (Option.some.inj eq))⟩
    · intro alike
      obtain ⟨e, plain, spaced⟩ := alike l rfl
      have there : e ∈ es := List.mem_reverse.1 (List.mem_of_find?_eq_some plain)
      rw [plain]
      exact congrArg (fun a => some (Except.ok a)) ((read_eq_iff (ok e there) (ok l mem)).2 spaced)

/-- The entry `a:b` with `blank` in front. -/
def oneEntry (blank : CStr) : AttrEntry := ⟨blank, [97], [], some ([], [98], [])⟩

lemma name_a : Name [97] :=
  ⟨⟨97, [], rfl, by decide⟩, ⟨[], 97, rfl, by decide⟩, by decide, by decide⟩

lemma oneEntry_ok {blank : CStr} (white : Blank blank) : ∀ e ∈ [oneEntry blank], e.Ok := by
  intro e mem
  obtain rfl := List.mem_singleton.1 mem
  refine ⟨white, name_a, List.forall_mem_nil _, ?_⟩
  rintro b a d ⟨⟩
  exact ⟨List.forall_mem_nil _, ⟨by decide, by decide, by decide +kernel⟩, List.forall_mem_nil _⟩

/-- A space in front of the name. -/
theorem attr_lookup_iff_space :
    Agrees (listText [oneEntry [32]]) [97] ↔ ∀ l, lastNamed [oneEntry [32]] [97] = some l →
      ∃ e, lastPlain [oneEntry [32]] [97] = some e ∧ e.spaced = true ∧ e.value = l.value :=
  attr_lookup_iff (oneEntry_ok (by unfold Blank; decide +kernel)) name_a

/-- A tab in front of the name: the walk makes a call for `a`, and the lookup does not find it. -/
theorem attr_lookup_misses_tab :
    (∀ e ∈ [oneEntry [9]], e.Ok) ∧ Name [97] ∧
      attrEntries (listText [oneEntry [9]]) = [([97], some [98])] ∧
      envAttrLookup (some (listText [oneEntry [9]])) [97] true = some (.error (-enoent)) ∧
      ¬ Agrees (listText [oneEntry [9]]) [97] := by
  have entries : attrEntries (listText [oneEntry [9]]) = [([97], some [98])] := by decide
  have look : envAttrLookup (some (listText [oneEntry [9]])) [97] true = some (.error (-enoent)) := by
    rfl
  refine ⟨oneEntry_ok (by unfold Blank; decide +kernel), name_a, entries, look, ?_⟩
  rintro ⟨calls, r, walk, look', -, value⟩
  rw [walk_record, entries] at walk
  obtain rfl := Except.ok.inj (Option.some.inj walk)
  have ok := value ([97], some [98]) (by decide)
  rw [look, ok] at look'
  cases look'

end Imx.EnvFlags.NoRegex
