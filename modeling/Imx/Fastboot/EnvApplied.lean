import Imx.Fastboot.EnvLines

/-!
# What is applied of an environment

`parse_env` joins no lines. When the lines of a text are such that this makes no difference
(`Plain`), what it sets is what the reference sets, and otherwise it is not (`applied_iff`): every
line that is lost or made up changes the number of the calls, and where their number is right, the first
name that is seen with what is behind it is wrong.
-/

namespace Imx.Fastboot

variable {p q s t n v w x pre text : Str} {b c d z : UInt8} {m : Mode} {ls : List Str}

/-! ## Lines that are continued -/

/-- The line ends in a backslash. -/
def Continues (p : Str) : Prop := p.getLast? = some 92

instance : Decidable (Continues p) := inferInstanceAs (Decidable (_ = _))

lemma body_append (some : body p ≠ []) : body (p ++ x) = body p ++ x := by
  have full : (List.dropWhile isBlank p).isEmpty = false := by
    rw [List.isEmpty_eq_false_iff]
    exact some
  rw [body, List.dropWhile_append, full, if_neg Bool.false_ne_true]
  rfl

lemma body_append_nil (none : body p = []) : body (p ++ x) = body x :=
  body_append_blanks (List.dropWhile_eq_nil_iff.1 none)

lemma last_body (some : body p ≠ []) : p.getLast? = (body p).getLast? := by
  obtain ⟨w, -, whole⟩ := body_split p
  conv_lhs => rw [whole]
  exact List.getLast?_append_of_ne_nil w some

lemma blank_stops (none : body p = []) : ¬ Continues p := by
  intro last
  have blank := List.dropWhile_eq_nil_iff.1 none 92 (List.mem_of_getLast? last)
  exact absurd blank (by decide)

/-- What is left of a line without its backslash. -/
lemma body_dropLast (whole : body p = s ++ [92]) : body p.dropLast = s := by
  obtain ⟨w, blanks, parts⟩ := body_split p
  have rest : p.dropLast = w ++ s := by
    rw [parts, whole, ← List.append_assoc, List.dropLast_concat]
  rw [rest, body_append_blanks blanks]
  cases s with
  | nil => rfl
  | cons c s => exact body_cons (body_begins whole)

lemma comment_append (hash : (body p).head? = some 35) : (body (p ++ x)).head? = some 35 := by
  cases text : body p with
  | nil =>
    rw [text] at hash
    cases hash
  | cons c t =>
    rw [text] at hash
    rw [body_append (by rw [text]; exact List.cons_ne_nil c t), text]
    exact hash

lemma comment_dropLast (hash : (body p).head? = some 35) (last : Continues p) :
    (body p.dropLast).head? = some 35 := by
  cases text : body p with
  | nil =>
    rw [text] at hash
    cases hash
  | cons c t =>
    have some : body p ≠ [] := by
      rw [text]
      exact List.cons_ne_nil c t
    rw [text] at hash
    cases hash
    rw [Continues, last_body some, text] at last
    obtain ⟨s, whole⟩ := List.getLast?_eq_some_iff.1 last
    rw [whole] at text
    rw [body_dropLast text]
    cases s with
    | nil => cases whole
    | cons d s =>
      cases whole
      rfl

/-! ## What the reference sets -/

/-- What it sets for lines when `pre` was read before them. -/
def refs (pre : Str) (ls : List Str) : List Setenv := (onto pre (glue ls)).flatMap refCall

lemma reference_eq : reference text = refs [] (splitLines text) := by
  rw [reference, refLines_eq, refs, onto_nil]

lemma refs_stop (stops : ¬ Continues p) :
    refs pre (p :: ls) = refCall (pre ++ p) ++ refs [] ls := by
  rw [Continues] at stops
  cases ls with
  | nil => rfl
  | cons q ls =>
    rw [refs, glue, if_neg stops, refs, onto_nil]
    rfl

lemma refs_one : refs pre [p] = refCall (pre ++ p) := List.append_nil _

lemma refs_go (goes : Continues p) :
    refs pre (p :: q :: ls) = refs (pre ++ (p.dropLast ++ [32, 32])) (q :: ls) := by
  rw [Continues] at goes
  rw [refs, glue, if_pos goes, onto_onto]
  rfl

lemma glue_cons (p : Str) (ls : List Str) : ∃ l rest, glue (p :: ls) = l :: rest := by
  induction ls generalizing p with
  | nil => exact ⟨_, _, rfl⟩
  | cons q ls ih =>
    obtain ⟨l, rest, lines⟩ := ih q
    rw [glue, lines]
    split
    · exact ⟨_, _, rfl⟩
    · exact ⟨_, _, rfl⟩

/-- What was read is in the first line. -/
lemma refs_first (pre p : Str) (ls : List Str) :
    ∃ x rest, refs pre (p :: ls) = refCall (pre ++ x) ++ rest := by
  obtain ⟨l, rest, lines⟩ := glue_cons p ls
  refine ⟨l, rest.flatMap refCall, ?_⟩
  rw [refs, lines]
  rfl

/-- There is a value behind the name. -/
def Valued (p : Str) : Prop :=
  ∃ n b s, Word n ∧ isBlank b = true ∧ body p = n ++ b :: s ∧ body s ≠ []

lemma Valued.append (h : Valued p) : Valued (p ++ x) := by
  obtain ⟨n, b, s, word, blank, whole, some⟩ := h
  refine ⟨n, b, s ++ x, word, blank, ?_, ?_⟩
  · rw [body_append (by rw [whole]; exact fun none => word.some (List.append_eq_nil_iff.1 none).1),
      whole, List.append_assoc]
    rfl
  · rw [body_append some]
    exact fun none => some (List.append_eq_nil_iff.1 none).1

/-- What such a line sets is not an unset variable. -/
lemma Valued.refCall (h : Valued p) : ∃ n v, refCall p = [⟨n, some v⟩] := by
  obtain ⟨n, b, s, word, blank, whole, some⟩ := h
  have stop : ∀ c, (b :: s).head? = Option.some c → isBlank c = true := by
    intro c first
    cases first
    exact blank
  have value : body (b :: s) = body s := List.dropWhile_cons_of_pos blank
  refine ⟨cut n, cut (body s), ?_⟩
  rw [refCall_word word whole stop, value, if_neg some]

/-! ## What the machine sets -/

lemma calls_cons : callsFrom .blank (p :: ls) =
    (if ls = [] then (modeOf p).last else (modeOf p).ended) ++ callsFrom .blank ls := by
  cases ls with
  | nil => exact (List.append_nil _).symm
  | cons q ls => rfl

lemma calls_skip (skip : Skipped p) : callsFrom .blank (p :: ls) = callsFrom .blank ls := by
  have none : (modeOf p).last = [] ∧ (modeOf p).ended = [] := by
    have read := reads p
    generalize modeOf p = m at read ⊢
    cases read with
    | blank | comment => exact ⟨rfl, rfl⟩
    | name n word whole =>
      exact absurd skip (word.not_skipped (whole.trans (List.append_nil n).symm))
    | gap n b bs word blanks whole => exact absurd skip (word.not_skipped whole)
    | value n b bs v c word blanks begins whole =>
      rw [List.append_assoc] at whole
      exact absurd skip (word.not_skipped whole)
  rw [calls_cons, none.1, none.2, ite_self, List.nil_append]

lemma calls_count (some : ¬ Skipped p) :
    (callsFrom .blank (p :: ls)).length = 1 + (callsFrom .blank ls).length := by
  have one : (modeOf p).last.length = 1 ∧ (modeOf p).ended.length = 1 := by
    have read := reads p
    generalize modeOf p = m at read ⊢
    cases read with
    | blank none => exact absurd (.inl none) some
    | comment hash => exact absurd (.inr hash) some
    | name | gap | value => exact ⟨rfl, rfl⟩
  rw [calls_cons, List.length_append]
  split
  · rw [one.1]
  · rw [one.2]

lemma calls_le : (callsFrom .blank ls).length ≤ (callsFrom .blank (p :: ls)).length := by
  rw [calls_cons, List.length_append]
  exact Nat.le_add_left _ _

/-! ## The numbers of calls -/

/-- The reference never sets more: nothing behind a comment, not more than a call for the first line
when something was read before it. -/
structure AtMost (ls : List Str) : Prop where
  clear : (refs [] ls).length ≤ (callsFrom .blank ls).length
  comment : ∀ pre, (body pre).head? = some 35 →
    (refs pre ls).length ≤ (callsFrom .blank ls).length
  first : ∀ pre, (refs pre ls).length ≤ 1 + (callsFrom .blank ls.tail).length

lemma refCall_comment (hash : (body p).head? = some 35) : refCall p = [] :=
  refCall_skipped (.inr hash)

lemma refs_nil : refs pre [] = [] := rfl

/-- Nothing is set by a line that is passed over. -/
lemma refs_skip (skip : Skipped p) (stops : ¬ Continues p) : refs [] (p :: ls) = refs [] ls := by
  rw [refs_stop stops, List.nil_append, refCall_skipped skip, List.nil_append]

/-- A comment goes on behind a backslash. -/
lemma refs_comment (hash : (body p).head? = some 35) (goes : Continues p) :
    ∃ pre', (body pre').head? = some 35 ∧ refs [] (p :: ls) = refs pre' ls := by
  cases ls with
  | nil =>
    refine ⟨p, hash, ?_⟩
    rw [refs_one, List.nil_append, refCall_comment hash, refs_nil]
  | cons q ls => exact ⟨_, comment_append (comment_dropLast hash goes), refs_go goes⟩

/-- It hides a line, and the next one if this one goes on. -/
lemma refs_hidden (hash : (body pre).head? = some 35) :
    if Continues p then ∃ pre', (body pre').head? = some 35 ∧ refs pre (p :: ls) = refs pre' ls
    else refs pre (p :: ls) = refs [] ls := by
  split
  case isTrue goes =>
    cases ls with
    | nil =>
      refine ⟨pre, hash, ?_⟩
      rw [refs_one, refCall_comment (comment_append hash), refs_nil]
    | cons q ls => exact ⟨_, comment_append hash, refs_go goes⟩
  case isFalse stops =>
    rw [refs_stop stops, refCall_comment (comment_append hash), List.nil_append]

lemma atMost (ls : List Str) : AtMost ls := by
  induction ls with
  | nil => exact ⟨Nat.le_refl _, fun _ _ => Nat.le_refl _, fun _ => Nat.zero_le _⟩
  | cons p ls ih =>
    have comment : ∀ pre, (body pre).head? = some 35 →
        (refs pre (p :: ls)).length ≤ (callsFrom .blank ls).length := by
      intro pre hash
      have hidden := @refs_hidden p pre ls hash
      split at hidden
      · obtain ⟨pre', hash', same⟩ := hidden
        rw [same]
        exact ih.comment pre' hash'
      · rw [hidden]
        exact ih.clear
    have first : ∀ pre, (refs pre (p :: ls)).length ≤ 1 + (callsFrom .blank ls).length := by
      intro pre
      by_cases goes : Continues p
      · cases ls with
        | nil =>
          rw [refs_one]
          exact refCall_length
        | cons q ls =>
          rw [refs_go goes]
          exact Nat.le_trans (ih.first _) (Nat.add_le_add_left calls_le 1)
      · rw [refs_stop goes, List.length_append]
        exact Nat.add_le_add refCall_length ih.clear
    refine ⟨?_, fun pre hash => Nat.le_trans (comment pre hash) calls_le, first⟩
    by_cases skip : Skipped p
    · rw [calls_skip skip]
      by_cases goes : Continues p
      · obtain none | hash := skip
        · exact absurd goes (blank_stops none)
        · obtain ⟨pre', hash', same⟩ := refs_comment hash goes
          rw [same]
          exact ih.comment pre' hash'
      · rw [refs_skip skip goes]
        exact ih.clear
    · rw [calls_count skip]
      exact first []

/-! ## Both come to the same -/

lemma cut_solid (solid : 0 ∉ n) : cut n = n := by
  rw [cut, List.takeWhile_eq_self_iff]
  intro c mem
  have other : c ≠ 0 := fun zero => solid (zero ▸ mem)
  exact decide_eq_true other

/-- What is behind a NUL is not seen. -/
lemma cut_of_mem (nul : 0 ∈ n) : cut (n ++ x) = cut n := by
  obtain ⟨v, w, whole⟩ := List.append_of_mem nul
  rw [whole, List.append_assoc, List.cons_append, cut_append, cut_append]

/-- Only a NUL hides what is behind a name. -/
lemma cut_eq_iff (other : c ≠ 0) : cut (n ++ c :: x) = cut n ↔ 0 ∈ n := by
  constructor
  · intro same
    by_contra solid
    have letters : ∀ d ∈ n, decide (d ≠ 0) = true := by
      intro d mem
      exact decide_eq_true fun zero => solid (zero ▸ mem)
    rw [cut_solid solid, cut, List.takeWhile_append_of_pos letters,
      List.takeWhile_cons, if_pos (decide_eq_true other)] at same
    exact List.cons_ne_nil _ _ (List.append_right_eq_self.1 same)
  · exact cut_of_mem

/-- What is set is right, and no line end is escaped in a value. -/
def Settled (pre : Str) (ls : List Str) : Prop :=
  callsFrom .blank ls = refs pre ls ∧ CalmFrom .blank ls

/-- What is to be shown of lines: alone, and behind a comment that goes on. -/
structure SettledIff (ls : List Str) : Prop where
  clear : Settled [] ls ↔ Plain ls
  comment : ∀ pre, (body pre).head? = some 35 →
    (Settled pre ls ↔ (∀ q ∈ ls.head?, Skipped q) ∧ Plain ls)

/-! ## A name that ends in a backslash -/

lemma Word.left (word : Word (n ++ s)) (some : n ≠ []) : Word n := by
  refine ⟨some, ?_, fun c mem => word.noBlank c (List.mem_append_left s mem)⟩
  cases n with
  | nil => exact absurd rfl some
  | cons c n => exact word.noHash

/-- Blanks at the beginning of a line make no difference. -/
lemma refs_blank (none : body pre = []) : refs pre ls = refs [] ls := by
  rw [refs, refs, onto_nil]
  cases glue ls with
  | nil => rfl
  | cons l rest =>
    have same : refCall (pre ++ l) = refCall l := by
      unfold refCall nameOf valueOf restOf
      rw [body_append_nil none]
    rw [onto, List.flatMap_cons, List.flatMap_cons, same]

/-- The name goes on with blanks. -/
lemma body_continued (word : Word n) (whole : body p = n ++ [92]) :
    body (p.dropLast ++ [32, 32] ++ x) = n ++ (32 :: 32 :: x) := by
  have name := body_dropLast whole
  have some : body p.dropLast ≠ [] := by
    rw [name]
    exact word.some
  rw [List.append_assoc, body_append some, name]
  rfl

lemma refs_continued (word : Word n) (whole : body p = n ++ [92]) (goes : Continues p)
    (blank : body q = []) :
    refs [] (p :: q :: ls) = ⟨cut n, none⟩ :: refs [] ls := by
  have stop : ∀ c, (32 :: 32 :: q).head? = some c → isBlank c = true := by
    intro c first
    cases first
    rfl
  have none : body (32 :: 32 :: q) = [] := blank
  rw [refs_go goes, List.nil_append, refs_stop (blank_stops blank),
    refCall_word word (body_continued word whole) stop, none, if_pos rfl]
  rfl

/-- A comment behind what was read is in the first line. -/
lemma refs_comment_first (pre : Str) (ls : List Str) (hash : (body p).head? = some 35) :
    ∃ y x rest, (body y).head? = some 35 ∧
      refs pre (p :: ls) = refCall (pre ++ y ++ x) ++ rest := by
  by_cases goes : Continues p
  · cases ls with
    | nil =>
      refine ⟨p, [], [], hash, ?_⟩
      rw [refs_one, List.append_nil, List.append_nil]
    | cons q ls =>
      obtain ⟨x, rest, first⟩ := refs_first (pre ++ (p.dropLast ++ [32, 32])) q ls
      exact ⟨_, x, rest, comment_append (comment_dropLast hash goes), (refs_go goes).trans first⟩
  · refine ⟨p, [], refs [] ls, hash, ?_⟩
    rw [refs_stop goes, List.append_nil]

/-- What the machine unsets there is unset by the reference only when a NUL hides the backslash and
the line goes on with blanks. -/
lemma head_continued (word : Word (n ++ [92])) (whole : body p = n ++ [92]) (goes : Continues p)
    (same : ⟨cut (n ++ [92]), none⟩ :: callsFrom .blank (q :: ls) = refs [] (p :: q :: ls)) :
    0 ∈ n ∧ body q = [] := by
  have count := congrArg List.length same
  rw [List.length_cons, refs_go goes, List.nil_append] at count
  by_cases named : n = []
  · -- Without a name the reference sets nothing for this line.
    subst named
    have blank : body (p.dropLast ++ [32, 32]) = [] := by
      rw [body_append_nil (body_dropLast whole)]
      rfl
    have most := (atMost (q :: ls)).clear
    rw [refs_blank blank] at count
    omega
  · have word' := word.left named
    by_cases skip : Skipped q
    · obtain blank | hash := skip
      · refine ⟨?_, blank⟩
        rw [refs_continued word' whole goes blank] at same
        have names := (List.cons.inj same).1
        rw [Setenv.mk.injEq] at names
        exact (cut_eq_iff (by decide)).1 names.1
      · -- A comment becomes the value.
        have valued : ∀ y, (body y).head? = some 35 → Valued (p.dropLast ++ [32, 32] ++ y) := by
          intro y hash'
          refine ⟨n, 32, 32 :: y, word', rfl, body_continued word' whole, ?_⟩
          intro none
          change body y = [] at none
          rw [none] at hash'
          cases hash'
        obtain ⟨y, x, rest, hash', first⟩ :=
          refs_comment_first (p.dropLast ++ [32, 32]) ls hash
        obtain ⟨n', v', set⟩ := ((valued y hash').append (x := x)).refCall
        rw [refs_go goes, List.nil_append, first, set] at same
        have values := (List.cons.inj same).1
        rw [Setenv.mk.injEq] at values
        cases values.2
    · have most := (atMost (q :: ls)).first (p.dropLast ++ [32, 32])
      have more := @calls_count q ls skip
      rw [List.tail_cons] at most
      omega

section Step

variable (ih : SettledIff (q :: ls))

/-- A line that is passed over. -/
lemma settled_skip (skip : Skipped p) (same : refs pre (p :: q :: ls) = refs t (q :: ls)) :
    Settled pre (p :: q :: ls) ↔ Settled t (q :: ls) := by
  have calm : ¬ (modeOf p).Escapes := by
    have read := reads p
    generalize modeOf p = m at read ⊢
    cases read with
    | blank | comment | name | gap => exact id
    | value n b bs v c word blanks begins whole =>
      rw [List.append_assoc] at whole
      exact absurd skip (word.not_skipped whole)
  rw [Settled, Settled, calls_skip skip, same]
  exact and_congr Iff.rfl (and_iff_right calm)

/-- A line that sets something and does not go on. -/
lemma settled_set {call call' : Setenv} (ended : (modeOf p).ended = [call])
    (set : refCall p = [call']) (stops : ¬ Continues p) :
    Settled [] (p :: q :: ls) ↔ (call = call' ∧ ¬ (modeOf p).Escapes) ∧ Settled [] (q :: ls) := by
  have left : callsFrom .blank (p :: q :: ls) = call :: callsFrom .blank (q :: ls) := by
    rw [calls_cons, if_neg (List.cons_ne_nil q ls), ended]
    rfl
  have right : refs [] (p :: q :: ls) = call' :: refs [] (q :: ls) := by
    rw [refs_stop stops, List.nil_append, set]
    rfl
  rw [Settled, Settled, left, right, List.cons.injEq]
  exact and_and_and_comm

lemma lineOk_skip (skip : Skipped p) :
    LineOk p q ↔ ((body p).head? = some 35 → Continues p → Skipped q) :=
  ⟨LineOk.comment, fun comment => ⟨comment, (absurd skip ·), (absurd skip ·), (absurd skip ·)⟩⟩

include ih

lemma clear_blank (none : body p = []) : Settled [] (p :: q :: ls) ↔ Plain (p :: q :: ls) := by
  have skip : Skipped p := .inl none
  rw [settled_skip skip (refs_skip skip (blank_stops none)), ih.clear, Plain, lineOk_skip skip,
    none]
  exact (and_iff_right nofun).symm

lemma clear_comment (hash : (body p).head? = some 35) :
    Settled [] (p :: q :: ls) ↔ Plain (p :: q :: ls) := by
  have skip : Skipped p := .inr hash
  rw [Plain, lineOk_skip skip]
  by_cases goes : Continues p
  · obtain ⟨pre', hash', same⟩ := @refs_comment p (q :: ls) hash goes
    rw [settled_skip skip same, ih.comment pre' hash']
    refine and_congr ⟨fun next _ _ => next q rfl, fun next r mem => ?_⟩ Iff.rfl
    cases mem
    exact next hash goes
  · rw [settled_skip skip (refs_skip skip goes), ih.clear]
    exact (and_iff_right fun _ last => absurd last goes).symm

/-- A name alone. -/
lemma clear_name (word : Word n) (whole : body p = n) (mode : modeOf p = .name n)
    (stops : ¬ Continues p) : Settled [] (p :: q :: ls) ↔ Plain (p :: q :: ls) := by
  have whole' : body p = n ++ [] := by rw [whole, List.append_nil]
  have set := refCall_word word whole' nofun
  obtain ⟨-, rest⟩ := parts_of word whole' nofun
  have ended : (modeOf p).ended = [⟨cut n, none⟩] := by rw [mode, Mode.ended]
  have calm : ¬ (modeOf p).Escapes := by
    rw [mode]
    exact id
  have ok : LineOk p q := by
    refine ⟨fun hash => absurd (.inr hash) (word.not_skipped whole'), fun _ _ some => ?_,
      fun _ _ goes => absurd goes stops, fun _ _ => stops⟩
    exact absurd rest some
  rw [settled_set ended set stops, ih.clear, Plain]
  exact and_congr (iff_of_true ⟨rfl, calm⟩ ok) Iff.rfl

/-- A name with blanks behind it. -/
lemma clear_gap {bs : Str} (word : Word n) (blanks : ∀ c ∈ b :: bs, isBlank c = true)
    (whole : body p = n ++ b :: bs) (mode : modeOf p = .gap n b bs) :
    Settled [] (p :: q :: ls) ↔ Plain (p :: q :: ls) := by
  have stop : ∀ c, (b :: bs).head? = some c → isBlank c = true := by
    intro c first
    cases first
    exact blanks _ List.mem_cons_self
  have set := refCall_word word whole stop
  obtain ⟨name, rest⟩ := parts_of word whole stop
  have none : valueOf p = [] := by rw [valueOf, rest, body_blanks blanks]
  have ended : (modeOf p).ended = [⟨cut (n ++ b :: bs), .none⟩] := by rw [mode, Mode.ended]
  have calm : ¬ (modeOf p).Escapes := by
    rw [mode]
    exact id
  have stops : ¬ Continues p := by
    intro last
    have some : body p ≠ [] := fun none => word.some (List.append_eq_nil_iff.1 (whole ▸ none)).1
    rw [Continues, last_body some, whole, List.getLast?_append_of_ne_nil n (List.cons_ne_nil b bs)]
      at last
    have blank := blanks 92 (List.mem_of_getLast? last)
    exact absurd blank (by decide)
  have notZero : b ≠ 0 := by
    rintro rfl
    exact absurd (blanks 0 List.mem_cons_self) (by decide)
  have ok : LineOk p q ↔ 0 ∈ n := by
    constructor
    · intro ok
      rw [← name]
      refine ok.gap (word.not_skipped whole) none ?_
      rw [rest]
      exact List.cons_ne_nil b bs
    · intro nul
      rw [← name] at nul
      exact ⟨fun hash => absurd (.inr hash) (word.not_skipped whole), fun _ _ _ => nul,
        fun _ _ goes => absurd goes stops, fun _ some => absurd none some⟩
  rw [settled_set ended set stops, ih.clear, Plain, ok]
  refine and_congr ?_ Iff.rfl
  rw [and_iff_left calm, body_blanks blanks, if_pos rfl, Setenv.mk.injEq, and_iff_left rfl]
  exact cut_eq_iff notZero

/-- A name with a value. -/
lemma clear_value {bs : Str} (word : Word n) (blanks : ∀ c ∈ b :: bs, isBlank c = true)
    (begins : body (v ++ [c]) = v ++ [c]) (whole : body p = n ++ b :: bs ++ (v ++ [c]))
    (mode : modeOf p = .value n b bs v c) :
    Settled [] (p :: q :: ls) ↔ Plain (p :: q :: ls) := by
  have whole' : body p = n ++ (b :: bs ++ (v ++ [c])) := by rw [whole, List.append_assoc]
  have stop : ∀ d, (b :: bs ++ (v ++ [c])).head? = some d → isBlank d = true := by
    intro d first
    cases first
    exact blanks _ List.mem_cons_self
  have filled : v ++ [c] ≠ [] := fun none => List.cons_ne_nil _ _ (List.append_eq_nil_iff.1 none).2
  have rest : body (b :: bs ++ (v ++ [c])) = v ++ [c] := by rw [body_append_blanks blanks, begins]
  have set := refCall_word word whole' stop
  rw [rest, if_neg filled] at set
  have value : valueOf p ≠ [] := by
    rw [valueOf, (parts_of word whole' stop).2, rest]
    exact filled
  have last : Continues p ↔ c = 92 := by
    have some : body p ≠ [] := fun none => word.some (List.append_eq_nil_iff.1 (whole' ▸ none)).1
    rw [Continues, last_body some, whole, ← List.append_assoc, List.getLast?_concat,
      Option.some.injEq]
  have ended : (modeOf p).ended = [⟨cut n, some (cut (v ++ [c]))⟩] := by rw [mode, Mode.ended]
  have escapes : (modeOf p).Escapes ↔ c = 92 := by
    rw [mode]
    exact Iff.rfl
  by_cases goes : Continues p
  · have spoilt : ¬ Settled [] (p :: q :: ls) := fun settled =>
      settled.2.1 (escapes.2 (last.1 goes))
    exact iff_of_false spoilt fun plain => plain.1.value (word.not_skipped whole') value goes
  · have ok : LineOk p q :=
      ⟨fun hash => absurd (.inr hash) (word.not_skipped whole'), fun _ none => absurd none value,
        fun _ none => absurd none value, fun _ _ => goes⟩
    rw [settled_set ended set goes, ih.clear, Plain]
    exact and_congr (iff_of_true ⟨rfl, fun e => goes (last.2 (escapes.1 e))⟩ ok) Iff.rfl

/-- A name that ends in a backslash. -/
lemma clear_continued (word : Word (n ++ [92])) (whole : body p = n ++ [92])
    (mode : modeOf p = .name (n ++ [92])) (goes : Continues p) :
    Settled [] (p :: q :: ls) ↔ Plain (p :: q :: ls) := by
  have whole' : body p = n ++ [92] ++ [] := by rw [whole, List.append_nil]
  obtain ⟨name, rest⟩ := parts_of word whole' nofun
  have none : valueOf p = [] := by
    rw [valueOf, rest]
    rfl
  have calm : ¬ (modeOf p).Escapes := by
    rw [mode]
    exact id
  have left : callsFrom .blank (p :: q :: ls) =
      ⟨cut (n ++ [92]), .none⟩ :: callsFrom .blank (q :: ls) := by
    rw [calls_cons, if_neg (List.cons_ne_nil q ls), mode]
    rfl
  have hidden : 0 ∈ n ++ [92] ↔ 0 ∈ n := by
    rw [List.mem_append, List.mem_singleton]
    exact or_iff_left (by decide)
  have ok : LineOk p q ↔ 0 ∈ n ∧ body q = [] := by
    constructor
    · intro ok
      have both := ok.name (word.not_skipped whole') none goes
      rwa [name, hidden] at both
    · intro both
      refine ⟨fun hash => absurd (.inr hash) (word.not_skipped whole'), fun _ _ some => ?_,
        fun _ _ _ => ?_, fun _ some => absurd none some⟩
      · exact absurd rest some
      · rwa [name, hidden]
  rw [Plain, ok]
  by_cases both : 0 ∈ n ∧ body q = []
  · obtain ⟨nul, blank⟩ := both
    have named : n ≠ [] := by
      rintro rfl
      exact absurd nul List.not_mem_nil
    have right : refs [] (p :: q :: ls) = ⟨cut n, .none⟩ :: refs [] (q :: ls) := by
      rw [refs_continued (word.left named) whole goes blank,
        refs_skip (.inl blank) (blank_stops blank)]
    rw [and_iff_right ⟨nul, blank⟩, ← ih.clear, Settled, Settled, left, right, cut_of_mem nul,
      List.cons.injEq]
    exact and_congr (and_iff_right rfl) (and_iff_right calm)
  · refine iff_of_false (fun settled => both ?_) fun plain => both plain.1
    exact head_continued word whole goes (left ▸ settled.1)

end Step

/-- A line that is not behind a comment. -/
lemma clear_cons (ih : SettledIff (q :: ls)) :
    Settled [] (p :: q :: ls) ↔ Plain (p :: q :: ls) := by
  have read := reads p
  generalize mode : modeOf p = m at read
  cases read with
  | blank none => exact clear_blank ih none
  | comment hash => exact clear_comment ih hash
  | name n word whole =>
    by_cases goes : Continues p
    · have some : body p ≠ [] := by
        rw [whole]
        exact word.some
      have last := goes
      rw [Continues, last_body some, whole] at last
      obtain ⟨n', rfl⟩ := List.getLast?_eq_some_iff.1 last
      exact clear_continued ih word whole mode goes
    · exact clear_name ih word whole mode goes
  | gap n b bs word blanks whole => exact clear_gap ih word blanks whole mode
  | value n b bs v c word blanks begins whole =>
    exact clear_value ih word blanks begins whole mode

/-- A line behind a comment that goes on. -/
lemma comment_cons (ih : SettledIff (q :: ls)) (hash : (body pre).head? = some 35) :
    Settled pre (p :: q :: ls) ↔ Skipped p ∧ Plain (p :: q :: ls) := by
  have hidden := @refs_hidden p pre (q :: ls) hash
  by_cases skip : Skipped p
  · rw [and_iff_right skip]
    by_cases goes : Continues p
    · have hash' : (body p).head? = some 35 := skip.resolve_left fun none => blank_stops none goes
      rw [if_pos goes] at hidden
      obtain ⟨pre', next, same⟩ := hidden
      rw [settled_skip skip same, ih.comment pre' next, Plain, lineOk_skip skip]
      refine and_congr ⟨fun all _ _ => all q rfl, fun skip r mem => ?_⟩ Iff.rfl
      cases mem
      exact skip hash' goes
    · rw [if_neg goes] at hidden
      rw [settled_skip skip hidden, ih.clear, Plain, lineOk_skip skip]
      exact (and_iff_right fun _ last => absurd last goes).symm
  · refine iff_of_false (fun settled => ?_) fun plain => skip plain.1
    have count := congrArg List.length settled.1
    rw [calls_count skip] at count
    split at hidden
    · obtain ⟨pre', next, same⟩ := hidden
      have most := (atMost (q :: ls)).comment pre' next
      rw [same] at count
      omega
    · have most := (atMost (q :: ls)).clear
      rw [hidden] at count
      omega

lemma settledIff (ls : List Str) : SettledIff ls := by
  induction ls with
  | nil => exact ⟨iff_of_true ⟨rfl, trivial⟩ trivial,
      fun _ _ => iff_of_true ⟨rfl, trivial⟩ ⟨nofun, trivial⟩⟩
  | cons p ls ih =>
    cases ls with
    | nil =>
      refine ⟨iff_of_true ⟨?_, trivial⟩ trivial, fun pre hash => ?_⟩
      · rw [refs_one, List.nil_append, ← last_eq]
        rfl
      · rw [Settled, refs_one, refCall_comment (comment_append hash)]
        have none : callsFrom .blank [p] = [] ↔ Skipped p := by
          constructor
          · intro none
            by_contra some
            have count := @calls_count p [] some
            rw [none, List.length_nil] at count
            omega
          · exact calls_skip
        rw [none]
        refine and_congr ⟨fun skip r mem => ?_, fun all => all p rfl⟩ Iff.rfl
        cases mem
        exact skip
    | cons q ls =>
      refine ⟨clear_cons ih, fun pre hash => (comment_cons ih hash).trans ?_⟩
      refine and_congr ⟨fun skip r mem => ?_, fun all => all p rfl⟩ Iff.rfl
      cases mem
      exact skip

/-! ## The claim -/

/-- An environment of which the byte behind the text was `z` is applied as written, and no other
bytes than these are accessed. -/
structure Applied (text : Str) (z : UInt8) : Prop where
  /-- The first run leaves the text as it is. -/
  unchanged : ∃ r, parseEnv false (text ++ [z]) text.length "Unknown Error" = some r ∧
    r.buff.take text.length = text
  /-- What is set is what the reference sets. -/
  calls : ∃ r, saveenvToPtn (text ++ [z]) text.length = some r ∧ r.calls = reference text

/-- An environment is applied as written exactly when no backslash is before a line end but in a
comment, and nothing but a line end is behind a name without a value. -/
theorem applied_iff : Applied text z ↔ Plain (splitLines text) := by
  have settled := (settledIff (splitLines text)).clear
  rw [← settled, Settled, ← reference_eq, ← lineCalls_eq, ← calm_iff]
  constructor
  · rintro ⟨⟨r, run, same⟩, r', run', calls⟩
    have calm : Mode.blank.Calm text := by
      by_contra spoilt
      exact parseEnv_spoiled spoilt run same
    obtain ⟨r'', run'', calls'⟩ := @saveenvToPtn_calm text z calm
    rw [run'] at run''
    cases run''
    exact ⟨calls'.symm.trans calls, calm⟩
  · rintro ⟨calls, calm⟩
    obtain ⟨r, run, -, -, buff⟩ := @parseEnv_calm false text z "Unknown Error" calm
    obtain ⟨r', run', calls'⟩ := @saveenvToPtn_calm text z calm
    refine ⟨⟨r, run, ?_⟩, r', run', calls'.trans calls⟩
    rw [buff rfl]
    exact List.take_left

/-- A name with a blank behind it. -/
theorem not_applied : ¬ ∀ text z, Applied text z := by
  intro all
  obtain ⟨-, r, run, calls⟩ := all [97, 32, 10] 0
  have made : (saveenvToPtn ([97, 32, 10] ++ [0]) 3).map (·.calls) = some [⟨[97, 32], none⟩] := by
    decide
  have wanted : reference [97, 32, 10] = [⟨[97], none⟩] := by decide
  change saveenvToPtn ([97, 32, 10] ++ [0]) 3 = some r at run
  rw [run, Option.map_some, calls, wanted] at made
  exact absurd made (by decide)

end Imx.Fastboot
