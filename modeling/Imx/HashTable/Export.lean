import Imx.Base.Mem
import Imx.HashTable.Map

/-!
# Exporting the table

`hexport_r` writes the entries of the table as `name=value` lines, sorted by name, each ended by
the separator. The first pass collects the entries and computes a length, the second one writes
them; the lengths of the two passes need not agree. `qsort` is the shell sort of `lib/qsort.c` and
`strcmp` the byte comparison of `lib/string.c`, which keeps the difference in a signed char.
-/

namespace Imx.HashTable
open Imx.Base

/-! ## Sorting -/

section Sorting

variable {α : Type*} {comp : α → α → Int} {gap i j fuel : Nat} {l : List α}

/-- Exchange two elements. -/
def swap (l : List α) (i j : Nat) : List α :=
  match l[i]?, l[j]? with
  | some x, some y => (l.set i y).set j x
  | _, _ => l

/-- The innermost loop of `qsort`: move the element at `j` down by steps of `gap`. -/
def siftDown (comp : α → α → Int) (gap : Nat) : Nat → Nat → List α → List α
  | 0, _, l => l
  | fuel + 1, j, l =>
    match l[j - gap]?, l[j]? with
    | some a, some b =>
      if comp a b ≤ 0 then l
      else if gap ≤ j - gap then siftDown comp gap fuel (j - gap) (swap l (j - gap) j)
      else swap l (j - gap) j
    | _, _ => l

/-- The middle loop, over `i` from `gap` on. -/
def gapPass (comp : α → α → Int) (gap : Nat) (l : List α) : List α :=
  (List.range' gap (l.length - gap)).foldl (fun l i => siftDown comp gap l.length i l) l

/-- The outer loop, over the gaps. -/
def gapLoop (comp : α → α → Int) : Nat → Nat → List α → List α
  | 0, _, l => l
  | fuel + 1, gap, l =>
    if (gap - 1) / 3 = 0 then gapPass comp gap l
    else gapLoop comp fuel ((gap - 1) / 3) (gapPass comp gap l)

/-- The gap to begin with: 1, 4, 13, … while below a third. -/
def firstGap (nel : Nat) : Nat → Nat → Nat
  | 0, gap => gap
  | fuel + 1, gap => if 3 * gap + 1 < (nel - 1) / 3 then firstGap nel fuel (3 * gap + 1)
    else 3 * gap + 1

/-- Shell sort (C `qsort`). -/
def qsort (comp : α → α → Int) (l : List α) : List α :=
  if 1 < l.length then gapLoop comp l.length (firstGap l.length l.length 0) l else l

lemma swap_perm : (swap l i j).Perm l := by
  rw [swap]
  cases hi : l[i]? with
  | none => exact .refl l
  | some x =>
    cases hj : l[j]? with
    | none => exact .refl l
    | some y =>
      obtain ⟨li, rfl⟩ := List.getElem?_eq_some_iff.1 hi
      obtain ⟨lj, rfl⟩ := List.getElem?_eq_some_iff.1 hj
      exact List.set_set_perm li lj

lemma siftDown_perm : (siftDown comp gap fuel j l).Perm l := by
  induction fuel generalizing j l with
  | zero => exact .refl l
  | succ fuel ih =>
    rw [siftDown]
    split
    · split_ifs
      · exact .refl l
      · exact ih.trans swap_perm
      · exact swap_perm
    · exact .refl l

lemma gapPass_perm : (gapPass comp gap l).Perm l := by
  rw [gapPass]
  generalize List.range' gap (l.length - gap) = is
  induction is generalizing l with
  | nil => exact .refl l
  | cons i is ih => exact ih.trans siftDown_perm

lemma gapLoop_perm : (gapLoop comp fuel gap l).Perm l := by
  induction fuel generalizing gap l with
  | zero => exact .refl l
  | succ fuel ih =>
    rw [gapLoop]
    split_ifs
    · exact gapPass_perm
    · exact ih.trans gapPass_perm

/-- Whatever the comparison says, sorting only reorders. -/
lemma qsort_perm : (qsort comp l).Perm l := by
  rw [qsort]
  split_ifs
  · exact gapLoop_perm
  · exact .refl l

end Sorting

/-- The sign of a difference of two bytes, as a signed char. -/
def byteDiff (c d : UInt8) : Int := (c - d).toInt8.toInt

/-- Compare two strings (C `strcmp`). -/
def strcmp : CStr → CStr → Int
  | [], [] => 0
  | [], d :: _ => byteDiff 0 d
  | c :: _, [] => byteDiff c 0
  | c :: cs, d :: ds => if c = d then strcmp cs ds else byteDiff c d

/-- The string has `pat` somewhere in it (C `strstr`). -/
def strstr (str pat : CStr) : Bool := str.tails.any pat.isPrefixOf

/-! ## Choosing the entries -/

/-- Leave variables out whose name begins with a dot. -/
def hHideDot : Nat := 8
/-- Match names. -/
def hMatchKey : Nat := 16
/-- Match values. -/
def hMatchData : Nat := 32
/-- Match the whole string. -/
def hMatchIdent : Nat := 64
/-- Match a part of the string. -/
def hMatchSubstr : Nat := 128
/-- Match a regular expression. -/
def hMatchRegex : Nat := 256
/-- The bits that choose how to match. -/
def hMatchMethod : Nat := hMatchIdent ||| hMatchSubstr ||| hMatchRegex

/-- The flag `bit` is set. -/
def hasFlag (flag bit : Nat) : Bool := flag &&& bit != 0

/-- The regular expression code, when it is configured in: compiling a pattern gives its
matcher. -/
abbrev Regex := Option (CStr → Option (CStr → Bool))

/-- One string against one pattern (C `match_string`). -/
def matchString (flag : Nat) (str pat : CStr) (slre : Option (CStr → Bool)) : Bool :=
  if flag &&& hMatchMethod = hMatchIdent then str = pat
  else if flag &&& hMatchMethod = hMatchSubstr then strstr str pat
  else if flag &&& hMatchMethod = hMatchRegex then (slre.map (· str)).getD false
  else false

/-- The string of a pointer that is not NULL; only a failed `strdup` leaves NULL in an entry. -/
def text (s : Option CStr) : CStr := s.getD []

/-- The order of two entries (C `cmpkey`). -/
def cmpkey (e1 e2 : Entry) : Int := strcmp (text e1.key) (text e2.key)

/-- An entry against the patterns (C `match_entry`). -/
def matchEntry (rx : Regex) (e : Entry) (flag : Nat) : List CStr → Bool
  | [] => false
  | pat :: argv =>
    let one (slre : Option (CStr → Bool)) : Bool :=
      (hasFlag flag hMatchKey && matchString flag (text e.key) pat slre) ||
      (hasFlag flag hMatchData && matchString flag (text e.data) pat slre) ||
      matchEntry rx e flag argv
    match rx with
    | none => one none
    | some compile =>
      match compile pat with
      | none => false
      | some slre => one (some slre)

/-- The live entries of the table, by slot. -/
def entries (t : Htab) : List Entry :=
  (List.range' 1 t.size).filterMap fun i =>
    match t.table i with
    | .used _ e => some e
    | _ => none

/-- The entries the first pass keeps. -/
def exported (rx : Regex) (t : Htab) (flag : Nat) (argv : List CStr) : List Entry :=
  (entries t).filter fun e =>
    (argv.isEmpty || matchEntry rx e flag argv) &&
      !(hasFlag flag hHideDot && (text e.key).head? == some 46)

/-! ## The two passes -/

/-- A byte of a value that the second pass escapes. -/
def escaped (sep c : UInt8) : Bool := c == sep || c == 92

/-- The length the first pass counts for an entry. -/
def entryLen (sep : UInt8) (e : Entry) : Nat :=
  (text e.key).length + 2 +
    (if sep = 0 then (text e.data).length
     else (text e.data).length + (text e.data).countP (escaped sep)) + 2

/-- The total the first pass counts. -/
def totlen (sep : UInt8) (es : List Entry) : Nat :=
  (es.map (entryLen sep)).sum

/-- A value as the second pass writes it. -/
def escapeValue (sep : UInt8) (data : CStr) : List UInt8 :=
  data.flatMap fun c => if escaped sep c then [92, c] else [c]

lemma escapeValue_cons {sep c : UInt8} {v : CStr} : escapeValue sep (c :: v) =
    (if escaped sep c then [92, c] else [c]) ++ escapeValue sep v := rfl

/-- Every escape makes a value longer by one byte. -/
lemma length_escapeValue (sep : UInt8) (v : CStr) :
    (escapeValue sep v).length = v.length + v.countP (escaped sep) := by
  induction v with
  | nil => rfl
  | cons c v ih =>
    rw [escapeValue_cons, List.length_append, ih, List.countP_cons, List.length_cons]
    by_cases esc : escaped sep c
    · simp only [if_pos esc, List.length_cons, List.length_nil]
      omega
    · simp only [if_neg esc, List.length_cons, List.length_nil]
      omega

/-- An entry as the second pass writes it. -/
def exportEntry (sep : UInt8) (e : Entry) : List UInt8 :=
  text e.key ++ 61 :: escapeValue sep (text e.data) ++ [sep]

/-- Everything the second pass stores, the terminating NUL included. -/
def exportText (sep : UInt8) (es : List Entry) : List UInt8 :=
  es.flatMap (exportEntry sep) ++ [0]

/-- The buffer to write to: the caller's, cleared, or one from `calloc`. -/
def resultBuffer (resp : Option Mem) (calloc : Bool) (size : Nat) : Option Mem :=
  match resp with
  | some res => some (res.write 0 (List.replicate size 0))
  | none => if calloc then some Mem.zero else none

/-- Export the table (C `hexport_r`): the returned size and the memory from `*resp` on, or `none`
for -1. `resp` is the caller's buffer and `calloc` tells whether a new one can be had. -/
def hexportR (rx : Regex) (t : Htab) (sep : UInt8) (flag : Nat) (resp : Option Mem) (calloc : Bool)
    (size : Nat) (argv : List CStr) : Option (Nat × Mem) :=
  let list := exported rx t flag argv
  let total := totlen sep list
  let list := qsort cmpkey list
  if size ≠ 0 ∧ size < total + 1 then none
  else
    let size := if size = 0 then total + 1 else size
    (resultBuffer resp calloc size).map fun (res : Mem) =>
      (size, res.write 0 (exportText sep list))

end Imx.HashTable
