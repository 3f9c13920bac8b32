import Imx.HashTable.Lossy

/-!
# Importing listed variables

With a list of variables `himport_r` runs only the lines about them, and strikes a name from its
list at the first line about it; what is left of the list at the end is deleted. So a listed
variable gets what the first line about it says, where an import of everything leaves what the last
one says, and an import that fails or has nothing to read does not get to the deletions.
-/

namespace Imx.HashTable
open Imx.Base

variable {hk : Hooks} {t : Htab} {m : Map} {flag : Nat} {l : Line} {ls : List Line} {x : CStr}
  {names seen : List CStr} {vars : List (Option CStr)}

/-- The value of a name in the table. -/
def found (hk : Hooks) (t : Htab) (k : CStr) : Option CStr :=
  (hsearchR hk t { key := k, data := none } .find 0).bind fun (r : Htab × Res) => r.2.data r.1

lemma Loose.found (loose : Loose t m) (x : CStr) : found hk t x = m.lookup x := by
  obtain ⟨r, eq, data, -⟩ := loose.find hk x 0
  rw [HashTable.found, eq]
  exact data

/-! ## What lines say about a name -/

/-- The value a line gives its name. -/
def Line.value : Line → Option CStr
  | .comment => none
  | .remove _ => none
  | .assign _ value => some value

/-- The first line about a name. -/
def firstAbout (ls : List Line) (x : CStr) : Option Line :=
  ls.find? fun l => l.name = some x

/-- The last line about a name. -/
def lastAbout (ls : List Line) (x : CStr) : Option Line :=
  firstAbout ls.reverse x

lemma settle_eq (l : Line) (values : CStr → Option CStr) (x : CStr) :
    l.settle values x = if l.name = some x then l.value else values x := by
  cases l with
  | comment => rfl
  | remove name => simp [Line.settle, Line.name, Line.value, Function.update_apply, eq_comm]
  | assign name value => simp [Line.settle, Line.name, Line.value, Function.update_apply, eq_comm]

lemma firstAbout_cons (l : Line) (ls : List Line) (x : CStr) :
    firstAbout (l :: ls) x = if l.name = some x then some l else firstAbout ls x := by
  rw [firstAbout, List.find?_cons]
  by_cases h : l.name = some x
  · simp [h]
  · simp [h, firstAbout]

lemma lastAbout_cons (l : Line) (ls : List Line) (x : CStr) :
    lastAbout (l :: ls) x = (lastAbout ls x).or (if l.name = some x then some l else none) := by
  rw [lastAbout, firstAbout, List.reverse_cons, List.find?_append, ← firstAbout, ← firstAbout,
    firstAbout_cons]
  rfl

lemma mem_of_firstAbout (h : firstAbout ls x = some l) : l ∈ ls ∧ l.name = some x :=
  ⟨List.mem_of_find?_eq_some h, by simpa using List.find?_some h⟩

lemma mem_of_lastAbout (h : lastAbout ls x = some l) : l ∈ ls ∧ l.name = some x :=
  (mem_of_firstAbout h).imp_left List.mem_reverse.1

/-- After some lines a name has the value the last line about it gives. -/
lemma foldl_settle (ls : List Line) (values : CStr → Option CStr) (x : CStr) :
    ls.foldl (fun values l => l.settle values) values x =
      (lastAbout ls x).elim (values x) Line.value := by
  induction ls generalizing values with
  | nil => rfl
  | cons l ls ih =>
    rw [List.foldl_cons, ih, lastAbout_cons, settle_eq]
    cases lastAbout ls x with
    | some _ => rfl
    | none =>
      split_ifs with h
      · rfl
      · rfl

/-! ## One line -/

/-- Whether a line is to be run, and the list of variables without its name. -/
def Line.strike (vars : List (Option CStr)) : Line → Bool × List (Option CStr)
  | .comment => (false, vars)
  | .remove name => dropVarFromSet name vars
  | .assign name _ => dropVarFromSet name vars

/-- A line that is to be run does what it does where everything is imported. -/
lemma runLine_strike (hk : Hooks) (flag : Nat) (t : Htab) (vars : List (Option CStr)) (l : Line) :
    runLine hk flag t vars l =
      if (l.strike vars).1 then (runLine hk flag t [] l).map fun x => (x.1, (l.strike vars).2)
      else some (t, (l.strike vars).2) := by
  cases l with
  | comment => rfl
  | remove name =>
    have all : dropVarFromSet name [] = (true, []) := rfl
    rw [runLine, runLine, all, if_pos rfl, Option.map_map]
    rfl
  | assign name value =>
    have all : dropVarFromSet name [] = (true, []) := rfl
    rw [runLine, runLine, all, if_pos rfl, Option.map_map]
    rfl

/-- A line that loses no name does what it says. -/
lemma Loose.spared_line (acc : hk.Accepting) (loose : Loose t m) (flag : Nat)
    (spared : l.loses t = none) :
    ∃ m', runLine hk flag t [] l = some (afterLine hk flag t l, []) ∧
      Loose (afterLine hk flag t l) m' ∧ ∀ x, m'.lookup x = l.settle m.lookup x := by
  cases l with
  | comment => exact ⟨m, rfl, loose, fun x => rfl⟩
  | remove name =>
    obtain ⟨t', b, m', run, -, loose', look⟩ := loose.delete acc name flag
    have line : runLine hk flag t [] (.remove name) = some (t', []) := by
      simp [runLine, dropVarFromSet, run]
    rw [afterLine, line]
    exact ⟨m', rfl, loose', fun x => by rw [look, Line.settle, Function.update_apply]⟩
  | assign name value =>
    obtain ⟨t', r, m', run, -, loose', look⟩ := loose.enter acc name value flag
    have line : runLine hk flag t [] (.assign name value) = some (t', []) := by
      simp [runLine, dropVarFromSet, run]
    have none : lostBy t name = none := spared
    rw [afterLine, line]
    refine ⟨m', rfl, loose', fun x => ?_⟩
    rw [look, none, if_neg (by simp), Line.settle, Function.update_apply]

/-! ## Running lines -/

/-- The lines that are run: those in front of a nameless one. -/
def ran (ls : List Line) : List Line := ls.takeWhile fun l => !l.nameless

/-- No line names nothing, so that all are run. -/
def named (ls : List Line) : Bool := ls.all fun l => !l.nameless

/-- No line that is run loses a name. -/
def Spared (hk : Hooks) (flag : Nat) : Htab → List (Option CStr) → List Line → Prop
  | _, _, [] => True
  | t, vars, l :: ls => l.nameless = false →
    if (l.strike vars).1 then
      l.loses t = none ∧ Spared hk flag (afterLine hk flag t l) (l.strike vars).2 ls
    else Spared hk flag t (l.strike vars).2 ls

/-- Lines that lose no name leave each name as the last line about it says. -/
lemma Loose.run_all (acc : hk.Accepting) (loose : Loose t m) (spared : Spared hk flag t [] ls) :
    ∃ t' m', runLines hk flag t [] ls = some (t', [], named ls) ∧ Loose t' m' ∧
      ∀ x, m'.lookup x = (lastAbout (ran ls) x).elim (m.lookup x) Line.value := by
  induction ls generalizing t m with
  | nil => exact ⟨t, m, rfl, loose, fun x => rfl⟩
  | cons l ls ih =>
    cases nameless : l.nameless with
    | true =>
      exact ⟨t, m, by simp [runLines, nameless, named], loose, by simp [ran, nameless, lastAbout, firstAbout]⟩
    | false =>
      have rest : l.loses t = none ∧ Spared hk flag (afterLine hk flag t l) [] ls := by
        cases l with
        | comment => exact ⟨rfl, spared nameless⟩
        | remove name => exact spared nameless
        | assign name value => exact spared nameless
      obtain ⟨m₁, line, loose₁, look⟩ := loose.spared_line acc flag rest.1
      obtain ⟨t', m', run, loose', look'⟩ := ih loose₁ rest.2
      refine ⟨t', m', ?_, loose', fun x => ?_⟩
      · rw [runLines, nameless, if_neg Bool.false_ne_true, line, Option.bind_some, run]
        simp [named, nameless]
      · have more : ran (l :: ls) = l :: ran ls := by simp [ran, nameless]
        rw [look', more, look, ← foldl_settle]
        exact foldl_settle (l :: ran ls) (fun x => m.lookup x) x

/-! ## Running the listed lines -/

/-- Membership of a name in a list is decided by comparing bytes. -/
local instance : LawfulBEq CStr := inferInstance

/-- The list of variables without the names seen. -/
def remaining (names seen : List CStr) : List (Option CStr) :=
  names.map fun n => if n ∈ seen then none else some n

lemma remaining_nil (names : List CStr) : remaining names [] = names.map some := by
  simp [remaining]

/-- A name is listed as long as it was not seen. -/
lemma dropVarFromSet_remaining (ne : names ≠ []) (x : CStr) (seen : List CStr) :
    dropVarFromSet x (remaining names seen) =
      (decide (x ∈ names ∧ x ∉ seen), remaining names (x :: seen)) := by
  have some' : (remaining names seen).isEmpty = false := by simp [remaining, ne]
  have listed : (remaining names seen).contains (some x) = decide (x ∈ names ∧ x ∉ seen) := by
    rw [Bool.eq_iff_iff]
    simp only [remaining, List.contains_iff_mem, List.mem_map, decide_eq_true_eq]
    constructor
    · rintro ⟨n, mem, eq⟩
      split_ifs at eq with h
      obtain rfl := Option.some.inj eq
      exact ⟨mem, h⟩
    · rintro ⟨mem, new⟩
      exact ⟨x, mem, if_neg new⟩
  have struck : (remaining names seen).map (fun v => if v = some x then none else v) =
      remaining names (x :: seen) := by
    rw [remaining, remaining, List.map_map]
    refine List.map_congr_left fun n _ => ?_
    by_cases h : n ∈ seen
    · simp [h]
    · by_cases eq : n = x
      · simp [eq]
      · simp [h, eq]
  rw [dropVarFromSet, some', if_neg Bool.false_ne_true, listed, struck]

/-- The names seen after a line. -/
def Line.see (seen : List CStr) (l : Line) : List CStr := l.name.toList ++ seen

lemma mem_see : x ∈ l.see seen ↔ l.name = some x ∨ x ∈ seen := by
  simp [Line.see]

lemma strike_remaining (ne : names ≠ []) (l : Line) (seen : List CStr) :
    l.strike (remaining names seen) =
      (decide (∃ x ∈ l.name, x ∈ names ∧ x ∉ seen), remaining names (l.see seen)) := by
  cases l with
  | comment => simp [Line.strike, Line.name, Line.see]
  | remove name => simp [Line.strike, Line.name, Line.see, dropVarFromSet_remaining ne]
  | assign name value => simp [Line.strike, Line.name, Line.see, dropVarFromSet_remaining ne]

/-- Lines that lose no name leave each listed name as the first line about it says, and the other
names alone. -/
lemma Loose.run_listed (acc : hk.Accepting) (ne : names ≠ []) (loose : Loose t m)
    (spared : Spared hk flag t (remaining names seen) ls) :
    ∃ t' m', runLines hk flag t (remaining names seen) ls =
        some (t', remaining names ((ran ls).foldl Line.see seen), named ls) ∧ Loose t' m' ∧
      ∀ x, m'.lookup x =
        if x ∈ names ∧ x ∉ seen then (firstAbout (ran ls) x).elim (m.lookup x) Line.value
        else m.lookup x := by
  induction ls generalizing t m seen with
  | nil => exact ⟨t, m, rfl, loose, fun x => (ite_self _).symm⟩
  | cons l ls ih =>
    cases nameless : l.nameless with
    | true =>
      refine ⟨t, m, by simp [runLines, nameless, named, ran], loose, fun x => ?_⟩
      simp [ran, nameless, firstAbout]
    | false =>
      have more : ran (l :: ls) = l :: ran ls := by simp [ran, nameless]
      have rest := spared nameless
      rw [strike_remaining ne] at rest
      by_cases listed : ∃ x ∈ l.name, x ∈ names ∧ x ∉ seen
      · rw [if_pos (decide_eq_true listed)] at rest
        obtain ⟨m₁, line, loose₁, look⟩ := loose.spared_line acc flag rest.1
        obtain ⟨t', m', run, loose', look'⟩ := ih loose₁ rest.2
        refine ⟨t', m', ?_, loose', fun x => ?_⟩
        · rw [runLines, nameless, if_neg Bool.false_ne_true, runLine_strike, strike_remaining ne,
            if_pos (decide_eq_true listed), line, Option.map_some, Option.bind_some, run, more]
          simp [named, nameless]
        · obtain ⟨y, name, mem, new⟩ := listed
          rw [look', look, settle_eq, more, firstAbout_cons, name, Line.see, name]
          by_cases eq : y = x
          · subst eq
            simp [mem, new]
          · simp [eq, Ne.symm eq]
      · rw [if_neg (by simpa using listed)] at rest
        obtain ⟨t', m', run, loose', look'⟩ := ih loose rest
        refine ⟨t', m', ?_, loose', fun x => ?_⟩
        · rw [runLines, nameless, if_neg Bool.false_ne_true, runLine_strike, strike_remaining ne,
            if_neg (by simpa using listed), Option.bind_some, run, more]
          simp [named, nameless]
        · rw [look', more, firstAbout_cons]
          by_cases about : l.name = some x
          · have other : ¬ (x ∈ names ∧ x ∉ seen) := fun h => listed ⟨x, about, h⟩
            rw [if_neg other, if_neg fun h => other ⟨h.1, fun s => h.2 (mem_see.2 (.inr s))⟩]
          · simp only [mem_see, about, false_or, if_false]

/-- What is left of the list is deleted. -/
lemma Loose.dropRest (acc : hk.Accepting) (flag : Nat) (names seen : List CStr)
    (loose : Loose t m) :
    ∃ t' m', dropRest hk flag t (remaining names seen) = some t' ∧ Loose t' m' ∧
      ∀ x, m'.lookup x = if x ∈ names ∧ x ∉ seen then none else m.lookup x := by
  induction names generalizing t m with
  | nil => exact ⟨t, m, rfl, loose, fun x => by simp⟩
  | cons n names ih =>
    by_cases h : n ∈ seen
    · obtain ⟨t', m', rest, loose', look⟩ := ih loose
      refine ⟨t', m', ?_, loose', fun x => ?_⟩
      · rw [remaining, List.map_cons, if_pos h]
        exact rest
      · rw [look]
        by_cases eq : x = n
        · simp [eq, h]
        · simp [eq]
    · obtain ⟨t₁, b, m₁, del, -, loose₁, look₁⟩ := loose.delete acc n flag
      obtain ⟨t', m', rest, loose', look⟩ := ih loose₁
      refine ⟨t', m', ?_, loose', fun x => ?_⟩
      · rw [remaining, List.map_cons, if_neg h, HashTable.dropRest, del]
        exact rest
      · rw [look, look₁]
        by_cases eq : x = n
        · simp [eq, h]
        · simp [eq]

/-! ## The import -/

section Import

variable {old : Option Htab} {env : Mem} {size : Nat} {sep : UInt8} {crlfIsLf : Bool}

/-- The lines an import runs. -/
def readLines (sep : UInt8) (crlfIsLf : Bool) (env : Mem) (size : Nat) : List Line :=
  if size = 0 then [] else ran (importScript sep crlfIsLf env size)

/-- The import gets to the end of its text: it has one, and no line without a name. -/
def completes (sep : UInt8) (crlfIsLf : Bool) (env : Mem) (size : Nat) : Bool :=
  size != 0 && named (importScript sep crlfIsLf env size)

lemma mem_foldl_see (ls : List Line) (seen : List CStr) :
    x ∈ ls.foldl Line.see seen ↔ x ∈ seen ∨ firstAbout ls x ≠ none := by
  induction ls generalizing seen with
  | nil => simp [firstAbout]
  | cons l ls ih =>
    rw [List.foldl_cons, ih, mem_see, firstAbout_cons]
    by_cases about : l.name = some x
    · simp [about]
    · simp [about]

/-- An import of everything. -/
lemma Loose.imported_all (acc : hk.Accepting) (loose : Loose t m)
    (start : startTable old flag size = some t)
    (spared : Spared hk flag t [] (importScript sep crlfIsLf env size)) :
    ∃ t' m', himportR hk old env size sep flag crlfIsLf [] =
        some (t', size == 0 || named (importScript sep crlfIsLf env size)) ∧ Loose t' m' ∧
      ∀ x, m'.lookup x =
        (lastAbout (readLines sep crlfIsLf env size) x).elim (m.lookup x) Line.value := by
  by_cases pos : size = 0
  · subst pos
    exact ⟨t, m, by rw [himportR_empty, start]; rfl, loose, fun x => rfl⟩
  · obtain ⟨t', m', run, loose', look⟩ := loose.run_all acc spared
    rw [himportR_script hk old env sep flag crlfIsLf [] pos, start, Option.bind_some, List.map_nil,
      runScript, run, Option.bind_some, readLines, if_neg pos, beq_eq_false_iff_ne.2 pos,
      Bool.false_or]
    cases named (importScript sep crlfIsLf env size) with
    | true => exact ⟨t', m', rfl, loose', look⟩
    | false => exact ⟨t', m', rfl, loose', look⟩

/-- An import of listed variables. -/
lemma Loose.imported_listed (acc : hk.Accepting) (ne : names ≠ []) (loose : Loose t m)
    (start : startTable old flag size = some t)
    (spared : Spared hk flag t (names.map some) (importScript sep crlfIsLf env size)) :
    ∃ t' m', himportR hk old env size sep flag crlfIsLf names =
        some (t', size == 0 || named (importScript sep crlfIsLf env size)) ∧
      Loose t' m' ∧ ∀ x, m'.lookup x =
        if x ∈ names then
          (firstAbout (readLines sep crlfIsLf env size) x).elim
            (if completes sep crlfIsLf env size then none else m.lookup x) Line.value
        else m.lookup x := by
  by_cases pos : size = 0
  · subst pos
    exact ⟨t, m, by rw [himportR_empty, start]; rfl, loose, fun x => (ite_self _).symm⟩
  · rw [← remaining_nil] at spared
    obtain ⟨t₁, m₁, run, loose₁, look₁⟩ := loose.run_listed acc ne spared
    rw [himportR_script hk old env sep flag crlfIsLf names pos, start, Option.bind_some,
      ← remaining_nil, runScript, run, Option.bind_some, readLines, if_neg pos, completes,
      bne_iff_ne.2 pos, Bool.true_and, beq_eq_false_iff_ne.2 pos, Bool.false_or]
    cases named (importScript sep crlfIsLf env size) with
    | true =>
      obtain ⟨t', m', rest, loose', look⟩ := loose₁.dropRest acc flag names
        ((ran (importScript sep crlfIsLf env size)).foldl Line.see [])
      refine ⟨t', m', by rw [if_pos rfl, rest]; rfl, loose', fun x => ?_⟩
      rw [look, look₁]
      simp only [mem_foldl_see]
      cases firstAbout (ran (importScript sep crlfIsLf env size)) x with
      | none => simp
      | some l => simp
    | false =>
      refine ⟨t₁, m₁, rfl, loose₁, fun x => ?_⟩
      rw [look₁]
      simp

/-- What an import leaves of a name that had the value `before`. -/
def leaves (sep : UInt8) (crlfIsLf : Bool) (env : Mem) (size : Nat) (names : List CStr) (x : CStr)
    (before : Option CStr) : Option CStr :=
  if names = [] then (lastAbout (readLines sep crlfIsLf env size) x).elim before Line.value
  else if x ∈ names then
    (firstAbout (readLines sep crlfIsLf env size) x).elim
      (if completes sep crlfIsLf env size then none else before) Line.value
  else before

lemma Loose.imported (acc : hk.Accepting) (loose : Loose t m)
    (start : startTable old flag size = some t)
    (spared : Spared hk flag t (names.map some) (importScript sep crlfIsLf env size)) :
    ∃ t' m', himportR hk old env size sep flag crlfIsLf names =
        some (t', size == 0 || named (importScript sep crlfIsLf env size)) ∧ Loose t' m' ∧
      ∀ x, m'.lookup x = leaves sep crlfIsLf env size names x (m.lookup x) := by
  by_cases empty : names = []
  · subst empty
    exact loose.imported_all acc start spared
  · obtain ⟨t', m', eq, loose', look⟩ := loose.imported_listed acc empty start spared
    exact ⟨t', m', eq, loose', fun x => by rw [look, leaves, if_neg empty]⟩

end Import

end Imx.HashTable
