import Mathlib.Data.List.TakeWhile
import Imx.Fastboot.EnvRun

/-!
# The lines of an environment

What a text sets is read off its lines, where a line end behind a backslash does not end a line
(`reference`). The machine of `parse_env` sees the lines between all line ends (`splitLines`).
`Plain` says what lines next to each other have to be like for both to come to the same.
-/

namespace Imx.Fastboot

variable {p q s t n v pre text : Str} {b c d : UInt8} {m : Mode} {ls ps : List Str}

/-! ## The reference -/

/-- A first part for the first line. -/
def onto (pre : Str) : List Str → List Str
  | [] => []
  | l :: ls => (pre ++ l) :: ls

/-- The lines of a text. A line end behind a backslash counts, with it, as two blanks. -/
def refLines : Str → List Str
  | [] => [[]]
  | [c] => if isEol c then [[], []] else [[c]]
  | c :: d :: text =>
    if isEol c then [] :: refLines (d :: text)
    else if c = 92 ∧ isEol d then onto [32, 32] (refLines text)
    else onto [c] (refLines (d :: text))

/-- A line without the blanks it begins with. -/
def body (line : Str) : Str := line.dropWhile isBlank

/-- The name in a line, what is behind it, and the value. -/
def nameOf (line : Str) : Str := (body line).takeWhile (!isBlank ·)

def restOf (line : Str) : Str := (body line).dropWhile (!isBlank ·)

def valueOf (line : Str) : Str := body (restOf line)

/-- What a line sets. -/
def refCall (line : Str) : List Setenv :=
  if body line = [] ∨ (body line).head? = some 35 then []
  else [⟨cut (nameOf line), if valueOf line = [] then none else some (cut (valueOf line))⟩]

/-- What a text sets. -/
def reference (text : Str) : List Setenv := (refLines text).flatMap refCall

/-! ## The condition -/

/-- The lines between the line ends. -/
def splitLines : Str → List Str
  | [] => [[]]
  | c :: text => if isEol c then [] :: splitLines text else onto [c] (splitLines text)

/-- A line is passed over. -/
def Skipped (line : Str) : Prop := body line = [] ∨ (body line).head? = some 35

/-- A line that ends, with the next line. -/
structure LineOk (p q : Str) : Prop where
  /-- A comment that ends in a backslash is followed by another one or a blank line. -/
  comment : (body p).head? = some 35 → p.getLast? = some 92 → Skipped q
  /-- There are no blanks behind a name without a value (that `setenv` would see). -/
  gap : ¬ Skipped p → valueOf p = [] → restOf p ≠ [] → 0 ∈ nameOf p
  /-- There is no backslash at the end of such a name (that `setenv` would see, with no use). -/
  name : ¬ Skipped p → valueOf p = [] → p.getLast? = some 92 → 0 ∈ nameOf p ∧ body q = []
  /-- There is none at the end of a value. -/
  value : ¬ Skipped p → valueOf p ≠ [] → p.getLast? ≠ some 92

def Plain : List Str → Prop
  | p :: q :: ls => LineOk p q ∧ Plain (q :: ls)
  | _ => True

/-! ## The machine by lines -/

/-- The machine after more of a line. -/
def Mode.through (m : Mode) (s : Str) : Mode := s.foldl (fun m c => m.feed c) m

def modeOf (line : Str) : Mode := Mode.blank.through line

/-- What the machine sets for lines, of which all but the last end and the first was begun. -/
def callsFrom (m : Mode) : List Str → List Setenv
  | [] => []
  | [p] => (m.through p).last
  | p :: q :: ls => (m.through p).ended ++ callsFrom .blank (q :: ls)

/-- No line end is escaped in a value. -/
def CalmFrom (m : Mode) : List Str → Prop
  | p :: q :: ls => ¬ (m.through p).Escapes ∧ CalmFrom .blank (q :: ls)
  | _ => True

lemma splitLines_cons (text : Str) : ∃ l ls, splitLines text = l :: ls := by
  induction text with
  | nil => exact ⟨_, _, rfl⟩
  | cons c text ih =>
    obtain ⟨l, ls, lines⟩ := ih
    rw [splitLines, lines]
    split
    · exact ⟨_, _, rfl⟩
    · exact ⟨_, _, rfl⟩

/-- A byte can be passed before the line or with it. -/
lemma callsFrom_onto : callsFrom m (onto [c] ls) = callsFrom (m.feed c) ls := by
  cases ls with
  | nil => rfl
  | cons l ls =>
    cases ls with
    | nil => rfl
    | cons q ls => rfl

lemma calmFrom_onto : CalmFrom m (onto [c] ls) ↔ CalmFrom (m.feed c) ls := by
  cases ls with
  | nil => exact Iff.rfl
  | cons l ls =>
    cases ls with
    | nil => exact Iff.rfl
    | cons q ls => exact Iff.rfl

/-- The machine sets what its lines do. -/
lemma made_lines (m : Mode) (text : Str) :
    m.made text ++ (m.after text).last = callsFrom m (splitLines text) := by
  induction text generalizing m with
  | nil => rfl
  | cons c text ih =>
    rw [Mode.made, Mode.after, splitLines]
    split
    · obtain ⟨q, qs, more⟩ := splitLines_cons text
      rw [List.append_assoc, ih .blank, more]
      rfl
    · rw [ih (m.feed c), callsFrom_onto]

lemma lineCalls_eq : lineCalls text = callsFrom .blank (splitLines text) := made_lines .blank text

lemma calm_iff (m : Mode) (text : Str) : m.Calm text ↔ CalmFrom m (splitLines text) := by
  induction text generalizing m with
  | nil => exact Iff.rfl
  | cons c text ih =>
    rw [Mode.Calm, splitLines]
    split
    · obtain ⟨q, qs, more⟩ := splitLines_cons text
      rw [ih .blank, more]
      exact Iff.rfl
    · rw [ih (m.feed c), calmFrom_onto]

/-! ## One line -/

/-- A name: it has no blanks and does not begin a comment. -/
structure Word (n : Str) : Prop where
  some : n ≠ []
  noHash : n.head? ≠ Option.some 35
  noBlank : ∀ c ∈ n, isBlank c = false

/-- What the machine has read, as a part of the line. -/
inductive Reads (p : Str) : Mode → Prop
  | blank (none : body p = []) : Reads p .blank
  | comment (hash : (body p).head? = some 35) : Reads p .comment
  | name (n : Str) (word : Word n) (whole : body p = n) : Reads p (.name n)
  | gap (n : Str) (b : UInt8) (bs : Str) (word : Word n) (blanks : ∀ c ∈ b :: bs, isBlank c = true)
    (whole : body p = n ++ b :: bs) : Reads p (.gap n b bs)
  | value (n : Str) (b : UInt8) (bs v : Str) (c : UInt8) (word : Word n)
    (blanks : ∀ c ∈ b :: bs, isBlank c = true) (begins : body (v ++ [c]) = v ++ [c])
    (whole : body p = n ++ b :: bs ++ (v ++ [c])) : Reads p (.value n b bs v c)

/-- A line that is a text behind blanks. -/
lemma body_split (p : Str) : ∃ w, (∀ c ∈ w, isBlank c = true) ∧ p = w ++ body p :=
  ⟨p.takeWhile isBlank, fun _ => List.mem_takeWhile_imp, List.takeWhile_append_dropWhile.symm⟩

lemma body_append_blanks (blanks : ∀ c ∈ s, isBlank c = true) : body (s ++ t) = body t :=
  List.dropWhile_append_of_pos blanks

lemma body_cons (some : isBlank c = false) : body (c :: t) = c :: t :=
  List.dropWhile_cons_of_neg (by rw [some]; decide)

lemma body_begins (whole : body p = c :: t) : isBlank c = false := by
  have first := List.head?_dropWhile_not isBlank p
  rw [← body, whole] at first
  exact first

/-- The machine passes blanks at the beginning. -/
lemma fold_blanks (blanks : ∀ c ∈ s, isBlank c = true) :
    s.foldl (fun m c => Mode.feed c m) .blank = .blank := by
  induction s with
  | nil => rfl
  | cons c s ih =>
    obtain ⟨first, rest⟩ := List.forall_mem_cons.1 blanks
    have other : c ≠ 35 := by
      rintro rfl
      exact absurd first (by decide)
    rw [List.foldl_cons, Mode.feed, if_neg other, if_pos first, ih rest]

lemma fold_comment : s.foldl (fun m c => Mode.feed c m) .comment = .comment := by
  induction s with
  | nil => rfl
  | cons c s ih => exact ih

lemma fold_name (word : ∀ c ∈ s, isBlank c = false) :
    s.foldl (fun m c => Mode.feed c m) (.name n) = .name (n ++ s) := by
  induction s generalizing n with
  | nil => rw [List.append_nil]; rfl
  | cons c s ih =>
    obtain ⟨first, rest⟩ := List.forall_mem_cons.1 word
    rw [List.foldl_cons, Mode.feed, first, if_neg Bool.false_ne_true, ih rest, List.append_assoc]
    rfl

lemma fold_gap {bs : Str} (blanks : ∀ c ∈ s, isBlank c = true) :
    s.foldl (fun m c => Mode.feed c m) (.gap n b bs) = .gap n b (bs ++ s) := by
  induction s generalizing bs with
  | nil => rw [List.append_nil]; rfl
  | cons c s ih =>
    obtain ⟨first, rest⟩ := List.forall_mem_cons.1 blanks
    rw [List.foldl_cons, Mode.feed, if_pos first, ih rest, List.append_assoc]
    rfl

lemma fold_value {bs : Str} : ∃ v' c', v ++ c :: s = v' ++ [c'] ∧
    s.foldl (fun m c => Mode.feed c m) (.value n b bs v c) = .value n b bs v' c' := by
  induction s generalizing v c with
  | nil => exact ⟨v, c, rfl, rfl⟩
  | cons d s ih =>
    obtain ⟨v', c', whole, run⟩ := @ih (v ++ [c]) d
    refine ⟨v', c', ?_, run⟩
    rw [← whole, List.append_assoc]
    rfl

/-- What is behind the blanks behind the name. -/
lemma reads_gap (word : Word n) (solid : isBlank b = true)
    (whole : body p = n ++ b :: s) :
    Reads p (s.foldl (fun m c => Mode.feed c m) (.gap n b [])) := by
  obtain ⟨w, blanks, parts⟩ := body_split s
  have begins : s.foldl (fun m c => Mode.feed c m) (.gap n b []) =
      (body s).foldl (fun m c => Mode.feed c m) (.gap n b w) := by
    conv_lhs => rw [parts]
    rw [List.foldl_append, fold_gap blanks, List.nil_append]
  have all : ∀ c ∈ b :: w, isBlank c = true := List.forall_mem_cons.2 ⟨solid, blanks⟩
  rw [begins]
  cases text : body s with
  | nil =>
    rw [text, List.append_nil] at parts
    subst parts
    exact .gap n b s word all whole
  | cons c t =>
    have first := body_begins text
    rw [List.foldl_cons, Mode.feed, first, if_neg Bool.false_ne_true]
    obtain ⟨v, c', same, run⟩ := @fold_value t n [] b c w
    rw [List.nil_append] at same
    rw [run]
    refine .value n b w v c' word all ?_ ?_
    · rw [← same]
      exact body_cons first
    · rw [whole, parts, text, same, List.append_assoc]
      rfl

/-- What is behind the name. -/
lemma reads_name (other : c ≠ 35) (solid : isBlank c = false) (whole : body p = c :: t) :
    Reads p (t.foldl (fun m c => Mode.feed c m) (.name [c])) := by
  have parts : t.takeWhile (!isBlank ·) ++ t.dropWhile (!isBlank ·) = t :=
    List.takeWhile_append_dropWhile
  have letters : ∀ d ∈ t.takeWhile (!isBlank ·), isBlank d = false := by
    intro d mem
    have imp := List.mem_takeWhile_imp mem
    rwa [Bool.not_eq_true'] at imp
  have word : Word (c :: t.takeWhile (!isBlank ·)) := by
    refine ⟨List.cons_ne_nil _ _, ?_, List.forall_mem_cons.2 ⟨solid, letters⟩⟩
    intro same
    exact other (Option.some.inj same)
  have begins : t.foldl (fun m c => Mode.feed c m) (.name [c]) =
      (t.dropWhile (!isBlank ·)).foldl (fun m c => Mode.feed c m)
        (.name (c :: t.takeWhile (!isBlank ·))) := by
    conv_lhs => rw [← parts]
    rw [List.foldl_append, fold_name letters]
    rfl
  rw [begins]
  cases text : t.dropWhile (!isBlank ·) with
  | nil =>
    refine .name _ word ?_
    rw [whole]
    conv_lhs => rw [← parts, text, List.append_nil]
  | cons b s =>
    have blank : isBlank b = true := by
      have first := List.head?_dropWhile_not (!isBlank ·) t
      rw [text] at first
      simpa using first
    rw [List.foldl_cons, Mode.feed, if_pos blank]
    refine reads_gap word blank ?_
    rw [whole]
    conv_lhs => rw [← parts, text]
    rfl

/-- What the machine has read at the end of a line. -/
lemma reads (p : Str) : Reads p (modeOf p) := by
  obtain ⟨w, blanks, whole⟩ := body_split p
  have start : modeOf p = (body p).foldl (fun m c => Mode.feed c m) .blank := by
    rw [modeOf, Mode.through]
    conv_lhs => rw [whole]
    rw [List.foldl_append, fold_blanks blanks]
  rw [start]
  cases text : body p with
  | nil => exact .blank text
  | cons c t =>
    have solid := body_begins text
    by_cases hash : c = 35
    · rw [List.foldl_cons, Mode.feed, if_pos hash, fold_comment]
      refine .comment ?_
      rw [text, hash]
      rfl
    · rw [List.foldl_cons, Mode.feed, if_neg hash, solid, if_neg Bool.false_ne_true]
      exact reads_name hash solid text

/-- The parts of a line with a name. -/
lemma parts_of (word : Word n) (whole : body p = n ++ s)
    (stop : ∀ c, s.head? = some c → isBlank c = true) : nameOf p = n ∧ restOf p = s := by
  have letters : ∀ c ∈ n, (!isBlank c) = true := by
    intro c mem
    rw [word.noBlank c mem]
    rfl
  rw [nameOf, restOf, whole, List.takeWhile_append_of_pos letters,
    List.dropWhile_append_of_pos letters]
  cases s with
  | nil => exact ⟨List.append_nil n, rfl⟩
  | cons c s =>
    have blank := stop c rfl
    simp [blank]

lemma Word.not_skipped (word : Word n) (whole : body p = n ++ s) : ¬ Skipped p := by
  rw [Skipped, whole]
  rintro (none | hash)
  · exact word.some (List.append_eq_nil_iff.1 none).1
  · cases n with
    | nil => exact word.some rfl
    | cons c n => exact word.noHash hash

/-- What a line with a name sets. -/
lemma refCall_word (word : Word n) (whole : body p = n ++ s)
    (stop : ∀ c, s.head? = some c → isBlank c = true) :
    refCall p = [⟨cut n, if body s = [] then none else some (cut (body s))⟩] := by
  obtain ⟨name, rest⟩ := parts_of word whole stop
  have some : ¬ (body p = [] ∨ (body p).head? = Option.some 35) := word.not_skipped whole
  rw [refCall, if_neg some, valueOf, name, rest]

lemma refCall_skipped (skip : Skipped p) : refCall p = [] := if_pos skip

lemma refCall_length : (refCall p).length ≤ 1 := by
  rw [refCall]
  split
  · exact Nat.zero_le _
  · exact Nat.le_refl _

lemma body_blanks (blanks : ∀ c ∈ s, isBlank c = true) : body s = [] :=
  List.dropWhile_eq_nil_iff.2 blanks

/-- At the end of the text the machine does as the reference. -/
lemma last_eq : (modeOf p).last = refCall p := by
  have read := reads p
  generalize modeOf p = m at read ⊢
  cases read with
  | blank none => rw [Mode.last, refCall_skipped (.inl none)]
  | comment hash => rw [Mode.last, refCall_skipped (.inr hash)]
  | name n word whole =>
    have stop : ∀ c, ([] : List UInt8).head? = some c → isBlank c = true := by
      intro c first
      cases first
    rw [Mode.last, refCall_word word (whole.trans (List.append_nil n).symm) stop]
    rfl
  | gap n b bs word blanks whole =>
    have stop : ∀ c, (b :: bs).head? = some c → isBlank c = true := by
      intro c first
      cases first
      exact blanks _ List.mem_cons_self
    rw [Mode.last, refCall_word word whole stop, body_blanks blanks, if_pos rfl]
  | value n b bs v c word blanks begins whole =>
    have stop : ∀ c, (b :: bs ++ (v ++ [c])).head? = some c → isBlank c = true := by
      intro c first
      cases first
      exact blanks _ List.mem_cons_self
    rw [List.append_assoc] at whole
    have filled : v ++ [c] ≠ [] := fun none =>
      List.cons_ne_nil _ _ (List.append_eq_nil_iff.1 none).2
    rw [Mode.last, refCall_word word whole stop, body_append_blanks blanks, begins, if_neg filled]

/-! ## Lines joined -/

/-- The lines of the reference, from those between the line ends. -/
def glue : List Str → List Str
  | [] => []
  | [p] => [p]
  | p :: q :: ls =>
    if p.getLast? = some 92 then onto (p.dropLast ++ [32, 32]) (glue (q :: ls))
    else p :: glue (q :: ls)

lemma onto_onto : onto pre (onto s ls) = onto (pre ++ s) ls := by
  cases ls with
  | nil => rfl
  | cons l ls => rw [onto, onto, onto, List.append_assoc]

lemma onto_nil : onto [] ls = ls := by
  cases ls with
  | nil => rfl
  | cons l ls => rfl

lemma glue_onto (h : p ≠ [] ∨ c ≠ 92) : glue ((c :: p) :: ls) = onto [c] (glue (p :: ls)) := by
  cases ls with
  | nil => rfl
  | cons q ls =>
    rw [glue, glue]
    cases p with
    | nil =>
      have other : c ≠ 92 := h.resolve_left fun some => some rfl
      rw [if_neg (by rintro ⟨⟩; exact other rfl), if_neg nofun]
      rfl
    | cons d p =>
      rw [List.getLast?_cons_cons, List.dropLast_cons_of_ne_nil (List.cons_ne_nil d p)]
      split
      · rw [onto_onto]
        rfl
      · rfl

lemma refLines_eq (text : Str) : refLines text = glue (splitLines text) := by
  fun_induction refLines text with
  | case1 => rfl
  | case2 c eol =>
    rw [splitLines, if_pos eol]
    rfl
  | case3 c inLine =>
    rw [splitLines, if_neg inLine]
    rfl
  | case4 c d text eol ih =>
    obtain ⟨q, qs, more⟩ := splitLines_cons (d :: text)
    rw [splitLines, if_pos eol, ih, more]
    rfl
  | case5 c d text inLine escaped ih =>
    obtain ⟨rfl, eol⟩ := escaped
    obtain ⟨q, qs, more⟩ := splitLines_cons text
    rw [splitLines, if_neg inLine, splitLines, if_pos eol, ih, more]
    rfl
  | case6 c d text inLine other ih =>
    obtain ⟨q, qs, more⟩ := splitLines_cons (d :: text)
    rw [splitLines, if_neg inLine, ih, more]
    refine (glue_onto ?_).symm
    by_cases eol : isEol d = true
    · exact .inr fun same => other ⟨same, eol⟩
    · left
      obtain ⟨l, ls, rest⟩ := splitLines_cons text
      rw [splitLines, if_neg eol, rest] at more
      cases more
      exact List.cons_ne_nil _ _

end Imx.Fastboot
