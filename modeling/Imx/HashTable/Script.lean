import Mathlib.Data.List.TakeWhile
import Imx.HashTable.Create
import Imx.HashTable.Search
import Imx.HashTable.Text

/-!
# The script in a text

The parse loop of `himport_r` changes the text it reads, but only behind itself: what a turn reads
is a line of the text as it was given, and what it does to the table depends on that line alone.
`script` is the list of these lines, and importing is running them on the table one by one.
-/

namespace Imx.HashTable
open Imx.Base

/-- What one turn of the parse loop reads. -/
inductive Line where
  | comment
  | remove (name : CStr)
  | assign (name value : CStr)
deriving DecidableEq

/-- A byte of a name. -/
def nameByte (sep c : UInt8) : Bool := c != 61 && c != 0 && c != sep

/-- A byte of a comment. -/
def textByte (sep c : UInt8) : Bool := c != 0 && c != sep

/-- The line at the head of a text, and the text behind it. -/
def parseLine (sep : UInt8) (text : List UInt8) : Line × List UInt8 :=
  let text := text.dropWhile isblank
  if text.head? = some 35 then (.comment, (text.dropWhile (textByte sep)).drop 1)
  else
    let name := text.takeWhile (nameByte sep)
    let rest := text.dropWhile (nameByte sep)
    if rest[0]? = some 0 then (.remove name, rest.drop 1)
    else if rest[1]? = some 0 ∨ rest[0]? = some sep ∨ rest[1]? = some sep then
      (.remove name, if rest[0]? = some 61 then rest.drop 2 else rest.drop 1)
    else
      let r := parseValue sep (rest.drop 1)
      (.assign name r.1, r.2.drop 1)

/-- A line that would enter a variable without a name: the import fails there. -/
def Line.nameless : Line → Bool
  | .comment => false
  | .remove _ => false
  | .assign name _ => name.isEmpty

/-- The lines of a text, at most `fuel` of them: reading ends where no more than `slack` bytes are
left, at a NUL, or with a nameless line. -/
def script (sep : UInt8) (slack : Nat) : Nat → List UInt8 → List Line
  | 0, _ => []
  | fuel + 1, text =>
    let r := parseLine sep text
    if ¬ r.1.nameless ∧ slack < r.2.length ∧ r.2.head? ≠ some 0 then
      r.1 :: script sep slack fuel r.2
    else [r.1]

/-- What a line does to the table and to the list of variables. -/
def runLine (hk : Hooks) (flag : Nat) (t : Htab) (vars : List (Option CStr)) :
    Line → Option (Htab × List (Option CStr))
  | .comment => some (t, vars)
  | .remove name =>
    let r := dropVarFromSet name vars
    if r.1 then (hdeleteR hk t name flag).map fun (x : Htab × Bool) => (x.1, r.2)
    else some (t, r.2)
  | .assign name value =>
    let r := dropVarFromSet name vars
    if r.1 then
      (hsearchR hk t { key := name, data := some value } .enter flag).map
        fun (x : Htab × Res) => (x.1, r.2)
    else some (t, r.2)

/-- Run the lines on the table, up to a nameless one; the Boolean tells whether there is none. -/
def runLines (hk : Hooks) (flag : Nat) (t : Htab) (vars : List (Option CStr)) :
    List Line → Option (Htab × List (Option CStr) × Bool)
  | [] => some (t, vars, true)
  | l :: ls =>
    if l.nameless then some (t, vars, false)
    else (runLine hk flag t vars l).bind fun (r : Htab × List (Option CStr)) =>
      runLines hk flag r.1 r.2 ls

variable {hk : Hooks} {t : Htab} {sep c : UInt8} {flag size slack fuel : Nat}
  {pre text rest name : List UInt8} {vars : List (Option CStr)} {p : UInt8 → Bool}

/-! ## Texts that end with a NUL -/

/-- The text ends with a NUL. -/
def Ended (text : List UInt8) : Prop := text.getLast? = some 0

lemma Ended.cons (h : Ended (c :: text)) (ne : c ≠ 0) : Ended text := by
  cases text with
  | nil => exact absurd (Option.some.inj h) ne
  | cons d text => exact h

lemma Ended.ne_nil (h : Ended text) : text ≠ [] := by
  rintro rfl
  cases h

lemma Ended.append (h : Ended (pre ++ text)) (ne : text ≠ []) : Ended text := by
  rwa [Ended, List.getLast?_append_of_ne_nil _ ne] at h

/-- A scan that does not pass a NUL stops in the text. -/
lemma Ended.split (h : Ended text) (stop : p 0 = false) :
    ∃ run c rest, text = run ++ c :: rest ∧ (∀ x ∈ run, p x = true) ∧ p c = false ∧
      Ended (c :: rest) ∧ text.takeWhile p = run ∧ text.dropWhile p = c :: rest := by
  induction text with
  | nil => cases h
  | cons c text ih =>
    cases pc : p c with
    | true =>
      have ne : c ≠ 0 := by
        rintro rfl
        exact Bool.false_ne_true (stop.symm.trans pc)
      obtain ⟨run, e, rest, eq, all, pe, ended, take, drop⟩ := ih (h.cons ne)
      refine ⟨c :: run, e, rest, by rw [eq, List.cons_append], ?_, pe, ended, ?_, ?_⟩
      · exact List.forall_mem_cons.2 ⟨pc, all⟩
      · rw [List.takeWhile_cons_of_pos pc, take]
      · rw [List.dropWhile_cons_of_pos pc, drop]
    | false =>
      have neg : ¬ p c = true := by
        rw [pc]
        exact Bool.false_ne_true
      exact ⟨[], c, text, rfl, List.forall_mem_nil _, pc, h, List.takeWhile_cons_of_neg neg,
        List.dropWhile_cons_of_neg neg⟩

/-- A value ends in the text, at its separator or at a NUL. -/
lemma Ended.parseValue (h : Ended text) (sep : UInt8) :
    ∃ v read c rest, text = read ++ c :: rest ∧ parseValue sep text = (v, c :: rest) ∧
      (c = 0 ∨ c = sep) := by
  induction text using parseValue.induct sep with
  | case1 => cases h
  | case2 c =>
    have stop : c = 0 ∨ c = sep := .inl (Option.some.inj h)
    exact ⟨[], [], c, [], rfl, by rw [HashTable.parseValue, if_pos stop], stop⟩
  | case3 c d text stop =>
    exact ⟨[], [], c, d :: text, rfl, by rw [HashTable.parseValue, if_pos stop], stop⟩
  | case4 c d text stop esc ih =>
    obtain ⟨v, read, e, rest, eq, value, stop'⟩ := ih ((h.cons (not_or.1 stop).1).cons esc.2)
    refine ⟨d :: v, c :: d :: read, e, rest, by rw [eq]; rfl, ?_, stop'⟩
    rw [HashTable.parseValue, if_neg stop, if_pos esc, value]
  | case5 c d text stop esc ih =>
    obtain ⟨v, read, e, rest, eq, value, stop'⟩ := ih (h.cons (not_or.1 stop).1)
    refine ⟨c :: v, c :: read, e, rest, by rw [eq]; rfl, ?_, stop'⟩
    rw [HashTable.parseValue, if_neg stop, if_neg esc, value]

/-! ## The shape of a line -/

/-- The text is the line `l` with `rest` behind it. -/
inductive Reads (sep : UInt8) : List UInt8 → Line → List UInt8 → Prop where
  | comment {blanks words : List UInt8} {e : UInt8} {rest : List UInt8} :
    (∀ x ∈ blanks, isblank x = true) →
    (words ++ e :: rest).head? = some 35 →
    (∀ x ∈ words, textByte sep x = true) →
    textByte sep e = false →
    Reads sep (blanks ++ (words ++ e :: rest)) .comment rest
  | remove {blanks name : List UInt8} {c : UInt8} {rest : List UInt8} :
    (∀ x ∈ blanks, isblank x = true) →
    (∀ x ∈ (name ++ c :: rest).head?, isblank x = false ∧ x ≠ 35) →
    (∀ x ∈ name, nameByte sep x = true) →
    c = 0 ∨ c = sep →
    c ≠ 61 →
    Reads sep (blanks ++ (name ++ c :: rest)) (.remove name) rest
  | equals {blanks name : List UInt8} {d : UInt8} {rest : List UInt8} :
    (∀ x ∈ blanks, isblank x = true) →
    (∀ x ∈ (name ++ 61 :: d :: rest).head?, isblank x = false ∧ x ≠ 35) →
    (∀ x ∈ name, nameByte sep x = true) →
    d = 0 ∨ 61 = sep ∨ d = sep →
    Reads sep (blanks ++ (name ++ 61 :: d :: rest)) (.remove name) rest
  | assign {blanks name : List UInt8} {d e : UInt8} {value : CStr} {text rest : List UInt8} :
    (∀ x ∈ blanks, isblank x = true) →
    (∀ x ∈ (name ++ 61 :: d :: text).head?, isblank x = false ∧ x ≠ 35) →
    (∀ x ∈ name, nameByte sep x = true) →
    ¬ (d = 0 ∨ 61 = sep ∨ d = sep) →
    parseValue sep (d :: text) = (value, e :: rest) →
    Reads sep (blanks ++ (name ++ 61 :: d :: text)) (.assign name value) rest

/-- A line is read from every text that ends with a NUL. -/
lemma Ended.reads (ended : Ended text) (sep : UInt8) :
    Reads sep text (parseLine sep text).1 (parseLine sep text).2 := by
  obtain ⟨blanks, c, body, rfl, blank, notBlank, ended, -, drop⟩ := ended.split (p := isblank) rfl
  rw [parseLine, drop]
  dsimp only
  rw [List.head?_cons]
  by_cases hash : c = 35
  · subst hash
    obtain ⟨words, e, rest, eq, all, stop, -, -, drop⟩ := ended.split (p := textByte sep) rfl
    rw [if_pos rfl, drop, eq]
    exact .comment blank (eq ▸ rfl) all stop
  · obtain ⟨name, d, rest, eq, all, stop, ended, take, drop⟩ :=
      ended.split (p := nameByte sep) (by simp [nameByte])
    have head : ∀ x ∈ (name ++ d :: rest).head?, isblank x = false ∧ x ≠ 35 := by
      rw [← eq]
      rintro x ⟨⟩
      exact ⟨notBlank, hash⟩
    rw [if_neg (mt Option.some.inj hash), take, drop, eq]
    have kinds : d = 61 ∨ d = 0 ∨ d = sep := by
      by_contra none
      simp only [not_or] at none
      simp [nameByte, none] at stop
    simp only [List.getElem?_cons_zero, List.getElem?_cons_succ, Option.some.injEq]
    split_ifs with zero remove equals
    · refine .remove blank head all (.inl zero) ?_
      rw [zero]
      decide
    · subst equals
      obtain ⟨e, rest, rfl⟩ := List.exists_cons_of_ne_nil (ended.cons zero).ne_nil
      simp only [List.getElem?_cons_zero, Option.some.injEq] at remove
      exact .equals blank head all remove
    · exact .remove blank head all (.inr ((kinds.resolve_left equals).resolve_left zero)) equals
    · obtain rfl : d = 61 := by
        rcases kinds with equals | zero' | sep'
        · exact equals
        · exact absurd zero' zero
        · exact absurd (.inr (.inl sep')) remove
      obtain ⟨e, rest, rfl⟩ := List.exists_cons_of_ne_nil (ended.cons zero).ne_nil
      simp only [List.getElem?_cons_zero, Option.some.injEq] at remove
      obtain ⟨value, -, f, rest', -, read, -⟩ := (ended.cons zero).parseValue sep
      simp only [List.drop_succ_cons, List.drop_zero, read]
      exact .assign blank head all remove read

/-- Reading a name, with the blanks in front of it passed. -/
lemma parseLine_name {blanks : List UInt8} (blank : ∀ x ∈ blanks, isblank x = true)
    (head : ∀ x ∈ (name ++ c :: rest).head?, isblank x = false ∧ x ≠ 35)
    (all : ∀ x ∈ name, nameByte sep x = true) (stop : nameByte sep c = false) :
    parseLine sep (blanks ++ (name ++ c :: rest)) =
      if c = 0 then (.remove name, rest)
      else if rest[0]? = some 0 ∨ c = sep ∨ rest[0]? = some sep then
        (.remove name, if c = 61 then rest.drop 1 else rest)
      else (.assign name (parseValue sep rest).1, (parseValue sep rest).2.drop 1) := by
  obtain ⟨b, body, eq⟩ : ∃ b body, name ++ c :: rest = b :: body :=
    List.exists_cons_of_ne_nil (by simp)
  obtain ⟨notBlank, notHash⟩ := head b (by rw [eq]; rfl)
  have skip : (blanks ++ (name ++ c :: rest)).dropWhile isblank = name ++ c :: rest := by
    rw [eq]
    exact dropWhile_run body blank notBlank
  have first : (name ++ c :: rest).head? ≠ some 35 := by
    rw [eq]
    exact fun h => notHash (Option.some.inj h)
  rw [parseLine, skip]
  dsimp only
  rw [if_neg first, takeWhile_run rest all stop, dropWhile_run rest all stop]
  simp only [List.getElem?_cons_zero, List.getElem?_cons_succ, List.drop_succ_cons, List.drop_zero,
    Option.some.injEq]

/-- A text is read as one line only. -/
lemma Reads.parse {l : Line} (reads : Reads sep text l rest) : parseLine sep text = (l, rest) := by
  cases reads with
  | @comment blanks words e rest blank head all stop =>
    obtain ⟨body, eq⟩ : ∃ body, words ++ e :: rest = 35 :: body := List.head?_eq_some_iff.1 head
    have skip : (blanks ++ (words ++ e :: rest)).dropWhile isblank = words ++ e :: rest := by
      rw [eq]
      exact dropWhile_run body blank rfl
    rw [parseLine, skip]
    dsimp only
    rw [if_pos head, dropWhile_run rest all stop]
    rfl
  | @remove blanks name c rest blank head all stop ne =>
    have nb : nameByte sep c = false := by
      rcases stop with rfl | rfl
      · simp [nameByte]
      · simp [nameByte]
    rw [parseLine_name blank head all nb]
    split_ifs with zero end'
    · rfl
    · rfl
    · exact absurd (.inr (.inl (stop.resolve_left zero))) end'
  | @equals blanks name d rest blank head all remove =>
    rw [parseLine_name blank head all (by simp [nameByte]), if_neg (by decide),
      List.getElem?_cons_zero, if_pos (by simpa using remove), if_pos rfl]
    rfl
  | @assign blanks name d e value text rest blank head all keep read =>
    rw [parseLine_name blank head all (by simp [nameByte]), if_neg (by decide),
      List.getElem?_cons_zero, if_neg (by simpa using keep), read]
    rfl

/-- A line is a piece of the text that is not empty. -/
lemma Reads.consumes {l : Line} (reads : Reads sep text l rest) (ended : Ended text) :
    ∃ line, line ≠ [] ∧ text = line ++ rest := by
  cases reads with
  | @comment blanks words e => exact ⟨blanks ++ words ++ [e], by simp, by simp⟩
  | @remove blanks name c => exact ⟨blanks ++ name ++ [c], by simp, by simp⟩
  | @equals blanks name d => exact ⟨blanks ++ name ++ [61, d], by simp, by simp⟩
  | @assign blanks name d e value text rest _ _ _ _ read =>
    have value := ((ended.append (by simp)).append (by simp)).cons (by decide)
    obtain ⟨v, line, c, rest', eq, read', -⟩ := value.parseValue sep
    obtain ⟨rfl, rfl, rfl⟩ := by simpa using read.symm.trans read'
    exact ⟨blanks ++ name ++ 61 :: line ++ [e], by simp, by simp [eq]⟩

/-! ## One turn of the loop -/

section Turn

variable {d e : UInt8} {value : CStr} {dp : Nat}

lemma nul_notMem_name (all : ∀ x ∈ name, nameByte sep x = true) : (0 : UInt8) ∉ name := by
  intro mem
  have := all 0 mem
  simp [nameByte] at this

/-- What a line does where its name is listed, and where it is not. -/
lemma map_listed {α β γ : Type} (listed : Bool) (x : Option α) (f : α → β) (y : β) (g : β → γ) :
    (if listed then x.map f else some y).map g =
      if listed then x.map (g ∘ f) else some (g y) := by
  cases listed with
  | true => exact Option.map_map ..
  | false => rfl

/-- A name that is to be deleted is cut out of the text. -/
lemma importDelete_cut (nul : (0 : UInt8) ∉ name) (ne : c ≠ 61) :
    importDelete hk flag ⟨t, pre ++ (name ++ c :: rest), dp, vars⟩ pre.length
        (pre.length + name.length) c =
      (runLine hk flag t vars (.remove name)).map fun x =>
        ⟨x.1, pre ++ (name ++ 0 :: rest), pre.length + name.length + 1, x.2⟩ := by
  have cut : store (pre ++ (name ++ c :: rest)) (pre.length + name.length) 0 =
      some (pre ++ (name ++ 0 :: rest)) := by
    rw [← List.append_assoc, ← List.length_append, store, if_pos (by simp), set_cut,
      List.append_assoc]
  rw [importDelete, runLine, map_listed]
  simp only [if_neg ne, cut, cstrAt_cut nul]
  rfl

/-- The same where an equals sign stands behind the name. -/
lemma importDelete_equals (nul : (0 : UInt8) ∉ name) :
    importDelete hk flag ⟨t, pre ++ (name ++ 61 :: d :: rest), dp, vars⟩ pre.length
        (pre.length + name.length) 61 =
      (runLine hk flag t vars (.remove name)).map fun x =>
        ⟨x.1, pre ++ (name ++ 0 :: 0 :: rest), pre.length + name.length + 2, x.2⟩ := by
  have cut : (pre ++ (name ++ 61 :: d :: rest)).set (pre.length + name.length) 0 =
      pre ++ name ++ [0] ++ d :: rest := by
    rw [← List.append_assoc, ← List.length_append, set_cut, List.append_assoc (pre ++ name),
      List.singleton_append]
  have cut' : store (pre ++ name ++ [0] ++ d :: rest) (pre.length + name.length + 1) 0 =
      some (pre ++ (name ++ 0 :: 0 :: rest)) := by
    rw [show pre.length + name.length + 1 = (pre ++ name ++ [0]).length from by
        simp [Nat.add_assoc],
      store, if_pos (by simp), set_cut]
    simp
  rw [importDelete, runLine, map_listed]
  simp only [if_true, cut, cut', cstrAt_cut nul]
  rfl

/-- A name and its value are cut out of the text. -/
lemma importEnter_cut (hk : Hooks) (flag : Nat) (t : Htab) (vars : List (Option CStr)) (dp : Nat)
    (pre : List UInt8) (nul : (0 : UInt8) ∉ name)
    (read : parseValue sep text = (value, e :: rest)) :
    ∃ pre', pre'.length + rest.length = (pre ++ (name ++ 61 :: text)).length ∧
      importEnter hk sep flag ⟨t, pre ++ (name ++ 61 :: text), dp, vars⟩ pre.length
          (pre.length + name.length) =
        if name.isEmpty then some none
        else (runLine hk flag t vars (.assign name value)).map fun x =>
          some ⟨x.1, pre' ++ rest, pre'.length, x.2⟩ := by
  have split : (pre ++ (name ++ 61 :: text)).set (pre.length + name.length) 0 =
      pre ++ name ++ [0] ++ ([] ++ text) := by
    rw [← List.append_assoc, ← List.length_append, set_cut]
    simp
  have behind : pre.length + name.length + 1 = (pre ++ name ++ [0]).length := by
    simp [Nat.add_assoc]
  have enough : text.length < (pre ++ (name ++ 61 :: text)).length + 1 := by
    simp only [List.length_append, List.length_cons]
    omega
  have nul' : (0 : UInt8) ∉ value := by
    rw [show value = (parseValue sep text).1 from by rw [read]]
    exact parseValue_nul
  obtain ⟨junk1, len1, loop⟩ := valueLoop_eq (pre ++ name ++ [0]) [] read enough
  obtain ⟨junk2, len2, past⟩ := set_over (pre ++ name ++ [0] ++ value) rest 0
    (show junk1 ++ [e] ≠ [] from by simp)
  simp only [List.length_nil, Nat.add_zero] at loop
  simp only [List.length_nil, Nat.zero_add] at len1
  have len3 : junk2.length = junk1.length := by simpa using len2
  have cut : store (pre ++ name ++ [0] ++ (value ++ (junk1 ++ e :: rest)))
      ((pre ++ name ++ [0]).length + value.length) 0 =
        some (pre ++ name ++ [0] ++ value ++ 0 :: (junk2 ++ rest)) := by
    rw [store, if_pos (by simp; omega), ← past, @List.length_append _ (pre ++ name ++ [0])]
    simp only [List.append_assoc, List.cons_append, List.nil_append]
  have key : cstrAt (pre ++ name ++ [0] ++ value ++ 0 :: (junk2 ++ rest)) pre.length = name := by
    rw [show pre ++ name ++ [0] ++ value ++ 0 :: (junk2 ++ rest) =
      pre ++ (name ++ 0 :: (value ++ 0 :: (junk2 ++ rest))) from by simp]
    exact cstrAt_cut nul
  have data : cstrAt (pre ++ name ++ [0] ++ value ++ 0 :: (junk2 ++ rest))
      (pre ++ name ++ [0]).length = value := by
    rw [show pre ++ name ++ [0] ++ value ++ 0 :: (junk2 ++ rest) =
      (pre ++ name ++ [0]) ++ (value ++ 0 :: (junk2 ++ rest)) from by simp]
    exact cstrAt_cut nul'
  have place : (pre ++ name ++ [0]).length + value.length + junk1.length + 1 =
      (pre ++ name ++ [0] ++ value ++ 0 :: junk2).length := by
    simp only [List.length_append, List.length_cons]
    omega
  have whole : pre ++ name ++ [0] ++ value ++ 0 :: junk2 ++ rest =
      pre ++ name ++ [0] ++ value ++ 0 :: (junk2 ++ rest) := by
    rw [List.append_assoc _ (0 :: junk2), List.cons_append]
  refine ⟨pre ++ name ++ [0] ++ value ++ 0 :: junk2, ?_, ?_⟩
  · simp only [List.length_append, List.length_cons, List.length_nil]
    omega
  · rw [importEnter, runLine, map_listed]
    simp only [split, behind, loop, cut, key, data, place, whole, List.isEmpty_iff]
    rfl

/-- The blanks in front of a line are passed. -/
lemma importLine_blanks {blanks : List UInt8} (blank : ∀ x ∈ blanks, isblank x = true)
    (stop : isblank c = false) :
    importLine hk sep flag ⟨t, pre ++ (blanks ++ c :: rest), pre.length, vars⟩ =
      importLine hk sep flag ⟨t, pre ++ blanks ++ c :: rest, (pre ++ blanks).length, vars⟩ := by
  have here : scan isblank (pre ++ blanks ++ c :: rest) (pre ++ blanks).length =
      some (pre ++ blanks).length :=
    scan_append _ rest (List.forall_mem_nil _) stop
  have passed := scan_append pre rest blank stop
  rw [← List.append_assoc, ← List.length_append] at passed
  rw [importLine, importLine, ← List.append_assoc]
  simp only [here, passed]
  rfl

/-- The first byte of a line that has no blanks in front. -/
lemma importLine_head (stop : isblank c = false) :
    scan isblank (pre ++ c :: rest) pre.length = some pre.length ∧
      (pre ++ c :: rest)[pre.length]? = some c :=
  ⟨scan_append pre rest (List.forall_mem_nil _) stop, getElem?_cut⟩

/-- The scan over a name, and what stands at its end. -/
lemma importLine_name (flag : Nat) (head : ∀ x ∈ (name ++ c :: rest).head?, isblank x = false ∧ x ≠ 35)
    (all : ∀ x ∈ name, nameByte sep x = true) (stop : nameByte sep c = false) :
    importLine hk sep flag ⟨t, pre ++ (name ++ c :: rest), pre.length, vars⟩ =
      if c = 0 then
        (importDelete hk flag ⟨t, pre ++ (name ++ c :: rest), pre.length, vars⟩ pre.length
          (pre.length + name.length) c).map some
      else rest[0]?.bind fun d =>
        if d = 0 ∨ c = sep ∨ d = sep then
          (importDelete hk flag ⟨t, pre ++ (name ++ c :: rest), pre.length, vars⟩ pre.length
            (pre.length + name.length) c).map some
        else
          importEnter hk sep flag ⟨t, pre ++ (name ++ c :: rest), pre.length, vars⟩ pre.length
            (pre.length + name.length) := by
  obtain ⟨x, body, eq⟩ := List.exists_cons_of_ne_nil (show name ++ c :: rest ≠ [] from by simp)
  obtain ⟨notBlank, notHash⟩ := head x (by rw [eq]; rfl)
  have scanned : scan (fun c => c != 61 && c != 0 && c != sep) (pre ++ (name ++ c :: rest))
      pre.length = some (pre.length + name.length) := scan_append _ _ all stop
  have there : (pre ++ (name ++ c :: rest))[pre.length + name.length]? = some c := by
    rw [← List.append_assoc, ← List.length_append]
    exact getElem?_cut
  have behind : (pre ++ (name ++ c :: rest))[pre.length + name.length + 1]? = rest[0]? := by
    rw [← List.append_assoc, ← List.length_append, List.getElem?_append_right (by omega),
      Nat.add_sub_cancel_left, List.getElem?_cons_succ]
  rw [eq] at scanned there behind ⊢
  rw [importLine]
  simp only [importLine_head notBlank, scanned, there, behind, if_neg notHash,
    Option.bind_eq_bind, Option.bind_some]

/-- One turn of the loop runs the line it reads. -/
lemma Reads.turn {l : Line} (reads : Reads sep text l rest) (ended : Ended text) (hk : Hooks)
    (flag : Nat) (t : Htab) (vars : List (Option CStr)) (pre : List UInt8) :
    ∃ pre', pre'.length + rest.length = (pre ++ text).length ∧
      importLine hk sep flag ⟨t, pre ++ text, pre.length, vars⟩ =
        if l.nameless then some none
        else (runLine hk flag t vars l).map fun x => some ⟨x.1, pre' ++ rest, pre'.length, x.2⟩ := by
  -- where the first byte behind the blanks is `x`, the turn starts behind them
  have skip {blanks body : List UInt8} (blank : ∀ x ∈ blanks, isblank x = true) (ne : body ≠ [])
      (head : ∀ x ∈ body.head?, isblank x = false) :
      importLine hk sep flag ⟨t, pre ++ (blanks ++ body), pre.length, vars⟩ =
        importLine hk sep flag ⟨t, pre ++ blanks ++ body, (pre ++ blanks).length, vars⟩ := by
    obtain ⟨x, body, rfl⟩ := List.exists_cons_of_ne_nil ne
    exact importLine_blanks blank (head x rfl)
  cases reads with
  | @comment blanks words e rest blank head all stop =>
    refine ⟨pre ++ blanks ++ words ++ [e], by simp; omega, ?_⟩
    rw [skip blank (by simp) (by rw [head]; rintro x ⟨⟩; rfl)]
    obtain ⟨body, eq⟩ : ∃ body, words ++ e :: rest = 35 :: body := List.head?_eq_some_iff.1 head
    have scanned : scan (fun c => c != 0 && c != sep) (pre ++ blanks ++ (words ++ e :: rest))
        (pre ++ blanks).length = some ((pre ++ blanks).length + words.length) :=
      scan_append _ _ all stop
    have data : pre ++ blanks ++ words ++ [e] ++ rest = pre ++ blanks ++ 35 :: body := by
      rw [← eq]
      simp
    rw [eq] at scanned ⊢
    have notBlank : isblank 35 = false := rfl
    rw [importLine, Line.nameless, if_neg Bool.false_ne_true, data]
    simp only [importLine_head notBlank, scanned, if_true, Option.bind_eq_bind, Option.bind_some,
      runLine, Option.map_some]
    simp [Nat.add_assoc]
  | @remove blanks name c rest blank head all stop ne =>
    refine ⟨pre ++ blanks ++ (name ++ [0]), by simp; omega, ?_⟩
    have nb : nameByte sep c = false := by
      rcases stop with rfl | rfl
      · simp [nameByte]
      · simp [nameByte]
    rw [skip blank (by simp) fun x hx => (head x hx).1, importLine_name flag head all nb,
      importDelete_cut (nul_notMem_name all) ne, Line.nameless, if_neg Bool.false_ne_true,
      Option.map_map]
    have data : pre ++ blanks ++ (name ++ [0]) ++ rest = pre ++ blanks ++ (name ++ 0 :: rest) := by
      simp
    have place : (pre ++ blanks ++ (name ++ [0])).length =
        (pre ++ blanks).length + name.length + 1 := by
      simp [Nat.add_assoc]
    rw [data, place]
    by_cases zero : c = 0
    · rw [if_pos zero]
      rfl
    · have more := ((ended.append (by simp)).append (by simp)).cons zero
      obtain ⟨d, rest, rfl⟩ := List.exists_cons_of_ne_nil more.ne_nil
      rw [if_neg zero, List.getElem?_cons_zero, Option.bind_some,
        if_pos (.inr (.inl (stop.resolve_left zero)))]
      rfl
  | @equals blanks name d rest blank head all remove =>
    refine ⟨pre ++ blanks ++ (name ++ [0, 0]), by simp; omega, ?_⟩
    rw [skip blank (by simp) fun x hx => (head x hx).1,
      importLine_name flag head all (by simp [nameByte]), if_neg (by decide),
      List.getElem?_cons_zero, Option.bind_some, if_pos remove,
      importDelete_equals (nul_notMem_name all), Line.nameless, if_neg Bool.false_ne_true,
      Option.map_map]
    have data : pre ++ blanks ++ (name ++ [0, 0]) ++ rest =
        pre ++ blanks ++ (name ++ 0 :: 0 :: rest) := by
      simp
    have place : (pre ++ blanks ++ (name ++ [0, 0])).length =
        (pre ++ blanks).length + name.length + 2 := by
      simp [Nat.add_assoc]
    rw [data, place]
    rfl
  | @assign blanks name d e value text rest blank head all keep read =>
    obtain ⟨pre', len, enter⟩ := importEnter_cut hk flag t vars (pre ++ blanks).length
      (pre ++ blanks) (nul_notMem_name all) read
    refine ⟨pre', by rw [len]; simp, ?_⟩
    rw [skip blank (by simp) fun x hx => (head x hx).1,
      importLine_name flag head all (by simp [nameByte]), if_neg (by decide),
      List.getElem?_cons_zero, Option.bind_some, if_neg keep, enter, Line.nameless]

end Turn

/-! ## The whole loop -/

/-- The parse loop runs the lines of the text it has in front of it. -/
lemma importLoop_script (hk : Hooks) (sep : UInt8) (flag slack : Nat) (pre : List UInt8)
    (ended : Ended text) (bound : size + slack = (pre ++ text).length)
    (enough : text.length ≤ fuel) :
    (importLoop hk sep flag size fuel ⟨t, pre ++ text, pre.length, vars⟩).map
        (fun r => (r.1.t, r.1.vars, r.2)) =
      runLines hk flag t vars (script sep slack fuel text) := by
  induction fuel generalizing t vars pre text with
  | zero => exact absurd (List.eq_nil_of_length_eq_zero (Nat.le_zero.1 enough)) ended.ne_nil
  | succ fuel ih =>
    have reads := ended.reads sep
    generalize parse : parseLine sep text = r at reads
    obtain ⟨line, ne, eq⟩ := reads.consumes ended
    obtain ⟨pre', len, turn⟩ := reads.turn ended hk flag t vars pre
    rw [importLoop, turn, script, parse]
    cases nameless : r.1.nameless with
    | true => simp [runLines, nameless]
    | false =>
      have next : (pre' ++ r.2)[pre'.length]? = r.2.head? := by
        rw [List.getElem?_append_right (Nat.le_refl _), Nat.sub_self, List.head?_eq_getElem?]
      have more : pre'.length < size ↔ slack < r.2.length := by omega
      rw [if_neg Bool.false_ne_true]
      simp only [Bool.false_eq_true, not_false_eq_true, true_and]
      cases run : runLine hk flag t vars r.1 with
      | none =>
        split_ifs
        · simp [runLines, nameless, run]
        · simp [runLines, nameless, run]
      | some x =>
        simp only [Option.map_some, next, more]
        split_ifs with again
        · have ne' : r.2 ≠ [] := by
            intro nil
            rw [nil] at again
            exact Nat.not_lt_zero _ again.1
          have shorter : r.2.length ≤ fuel := by
            have len := congrArg List.length eq
            have pos := List.length_pos_iff.2 ne
            rw [List.length_append] at len
            omega
          rw [ih pre' ((eq ▸ ended).append ne') (by rw [List.length_append]; omega) shorter]
          simp [runLines, nameless, run]
        · simp [runLines, nameless, run]

/-! ## The import as a whole -/

/-- A line can be run on every table of good size, and leaves the size. -/
lemma runLine_total (hk : Hooks) (flag : Nat) (vars : List (Option CStr)) (l : Line)
    (good : GoodSize t.size) :
    ∃ r, runLine hk flag t vars l = some r ∧ r.1.size = t.size := by
  cases l with
  | comment => exact ⟨_, rfl, rfl⟩
  | remove name =>
    rw [runLine]
    split_ifs
    · obtain ⟨r, eq, size⟩ := hdeleteR_total hk name flag good
      exact ⟨_, by rw [eq]; rfl, size⟩
    · exact ⟨_, rfl, rfl⟩
  | assign name value =>
    rw [runLine]
    split_ifs
    · obtain ⟨r, eq, size⟩ :=
        hsearchR_total hk { key := name, data := some value } .enter flag good
      exact ⟨_, by rw [eq]; rfl, size⟩
    · exact ⟨_, rfl, rfl⟩

lemma runLines_size {ls : List Line} {r : Htab × List (Option CStr) × Bool} (good : GoodSize t.size)
    (run : runLines hk flag t vars ls = some r) : r.1.size = t.size := by
  induction ls generalizing t vars with
  | nil => rw [← Option.some.inj run]
  | cons l ls ih =>
    rw [runLines] at run
    split_ifs at run with nameless
    · rw [← Option.some.inj run]
    · obtain ⟨x, line, size⟩ := runLine_total hk flag vars l good
      rw [line, Option.bind_some] at run
      rw [ih (size ▸ good) run, size]

lemma dropRest_total (hk : Hooks) (flag : Nat) (vars : List (Option CStr))
    (good : GoodSize t.size) : ∃ t', dropRest hk flag t vars = some t' := by
  induction vars generalizing t with
  | nil => exact ⟨t, rfl⟩
  | cons v vars ih =>
    cases v with
    | none => exact ih good
    | some v =>
      obtain ⟨r, eq, size⟩ := hdeleteR_total hk v flag good
      obtain ⟨t', rest⟩ := ih (size ▸ good)
      exact ⟨t', by rw [dropRest, eq]; exact rest⟩

lemma importEntries_mem {n : Nat} : 64 ≤ importEntries n ∧ importEntries n ≤ 512 := by
  unfold importEntries envMinEntries envMaxEntries
  by_cases h : 512 < 64 + n / 8
  · rw [if_pos h]
    omega
  · rw [if_neg h]
    omega

/-- The number of slots of the table made for a text of `n` bytes. -/
def importSize (n : Nat) : Nat := ((hcreateR (importEntries n)).map Htab.size).getD 0

lemma hcreateR_import (n : Nat) :
    hcreateR (importEntries n) = some (Htab.empty (importSize n)) ∧ GoodSize (importSize n) := by
  have bounds := @importEntries_mem n
  obtain ⟨s, create, prime, five, -, le⟩ := @hcreateR_prime (importEntries n) (by omega)
  have size : importSize n = s := by
    rw [importSize, create]
    rfl
  rw [size]
  exact ⟨create, prime, five, by omega⟩

/-- The table that is imported into: the old one where it is kept, or a new one. -/
def startTable (old : Option Htab) (flag size : Nat) : Option Htab :=
  match (if flag &&& hNoclear = 0 then none else old) with
  | some t => some t
  | none => hcreateR (importEntries size)

lemma startTable_good {old : Option Htab} (flag size : Nat)
    (good : ∀ t, old = some t → GoodSize t.size) :
    ∃ t, startTable old flag size = some t ∧ GoodSize t.size := by
  obtain ⟨create, goodSize⟩ := hcreateR_import size
  rw [startTable]
  by_cases clear : flag &&& hNoclear = 0
  · rw [if_pos clear]
    exact ⟨_, create, goodSize⟩
  · rw [if_neg clear]
    cases old with
    | none => exact ⟨_, create, goodSize⟩
    | some t => exact ⟨t, rfl, good t rfl⟩

/-- The copy of the text that is parsed, and how many bytes the conversion took out of it. -/
def importCopy (env : Mem) (size : Nat) (crlfIsLf : Bool) : List UInt8 × Nat :=
  if crlfIsLf then crlfLoop size size (env.read 0 size ++ [0]) 0 0 else (env.read 0 size ++ [0], 0)

/-- The lines of a text to be imported. -/
def importScript (sep : UInt8) (crlfIsLf : Bool) (env : Mem) (size : Nat) : List Line :=
  script sep ((importCopy env size crlfIsLf).2 + 1) (size + 1) (importCopy env size crlfIsLf).1

/-- A nameless line makes the import fail. -/
lemma runLines_nameless {ls : List Line} {r : Htab × List (Option CStr) × Bool}
    (run : runLines hk flag t vars ls = some r) (none : ∃ l ∈ ls, l.nameless = true) :
    r.2.2 = false := by
  induction ls generalizing t vars with
  | nil =>
    obtain ⟨l, mem, -⟩ := none
    cases mem
  | cons l ls ih =>
    rw [runLines] at run
    split_ifs at run with nameless
    · rw [← Option.some.inj run]
    · obtain ⟨x, -, run⟩ := Option.bind_eq_some_iff.1 run
      refine ih run ?_
      obtain ⟨l', mem, nameless'⟩ := none
      rcases List.mem_cons.1 mem with rfl | mem
      · exact absurd nameless' nameless
      · exact ⟨l', mem, nameless'⟩

/-- Run the lines, and delete the listed variables none of them named. -/
def runScript (hk : Hooks) (flag : Nat) (t : Htab) (vars : List (Option CStr)) (ls : List Line) :
    Option (Htab × Bool) :=
  (runLines hk flag t vars ls).bind fun (r : Htab × List (Option CStr) × Bool) =>
    if r.2.2 then (dropRest hk flag r.1 r.2.1).map fun (t : Htab) => (t, true)
    else some (r.1, false)

lemma ended_set {data : List UInt8} {i : Nat} (lt : i + 1 < data.length) (h : Ended data) :
    Ended (data.set i c) := by
  rw [Ended, List.getLast?_eq_getElem?, List.length_set,
    List.getElem?_set_ne (by omega : i ≠ data.length - 1), ← List.getLast?_eq_getElem?]
  exact h

/-- The conversion leaves the NUL at the end of the copy where it is. -/
lemma crlfLoop_ended {data : List UInt8} {dp ignored : Nat} (ended : Ended data)
    (len : data.length = size + 1) (le : ignored ≤ dp) (le' : dp ≤ size) :
    Ended (crlfLoop size fuel data dp ignored).1 ∧
      (crlfLoop size fuel data dp ignored).1.length = size + 1 ∧
      (crlfLoop size fuel data dp ignored).2 ≤ size := by
  induction fuel generalizing data dp ignored with
  | zero => exact ⟨ended, len, le.trans le'⟩
  | succ fuel ih =>
    rw [crlfLoop]
    cases data[dp]? with
    | none => exact ⟨ended, len, le.trans le'⟩
    | some c =>
      dsimp only
      split_ifs with inside pair
      · exact ih ended len (Nat.succ_le_succ le) inside.1
      · refine ih (ended_set (by omega) ended) ?_ (le.trans (Nat.le_succ dp)) inside.1
        rw [List.length_set, len]
      · exact ⟨ended, len, le.trans le'⟩

lemma importCopy_ended (env : Mem) (size : Nat) (crlfIsLf : Bool) :
    Ended (importCopy env size crlfIsLf).1 ∧
      (importCopy env size crlfIsLf).1.length = size + 1 ∧
      (importCopy env size crlfIsLf).2 ≤ size := by
  have ended : Ended (env.read 0 size ++ [0]) := List.getLast?_append_of_ne_nil _ (by simp)
  have len : (env.read 0 size ++ [0]).length = size + 1 := by simp
  cases crlfIsLf with
  | false => exact ⟨ended, len, Nat.zero_le _⟩
  | true => exact crlfLoop_ended ended len (Nat.le_refl 0) (Nat.zero_le size)

/-- An empty text is not parsed. -/
lemma himportR_empty (hk : Hooks) (old : Option Htab) (env : Mem) (sep : UInt8) (flag : Nat)
    (crlfIsLf : Bool) (names : List CStr) :
    himportR hk old env 0 sep flag crlfIsLf names =
      (startTable old flag 0).map fun t => (t, true) := by
  rw [himportR, startTable]
  cases (if flag &&& hNoclear = 0 then none else old) with
  | none =>
    cases hcreateR (importEntries 0) with
    | none => rfl
    | some t => rfl
  | some t => rfl

/-- The import, from its table and its copy on. -/
lemma himportR_loop (hk : Hooks) (old : Option Htab) (env : Mem) (sep : UInt8) (flag : Nat)
    (crlfIsLf : Bool) (names : List CStr) (pos : size ≠ 0) :
    himportR hk old env size sep flag crlfIsLf names =
      (startTable old flag size).bind fun t =>
        (importLoop hk sep flag (size - (importCopy env size crlfIsLf).2) (size + 1)
          ⟨t, (importCopy env size crlfIsLf).1, 0, names.map some⟩).bind
        fun (r : Parser × Bool) =>
          if r.2 = true then (dropRest hk flag r.1.t r.1.vars).bind fun t => some (t, true)
          else some (r.1.t, false) := by
  rw [himportR, startTable]
  cases (if flag &&& hNoclear = 0 then none else old) with
  | none =>
    cases hcreateR (importEntries size) with
    | none => rfl
    | some t =>
      simp only [Option.bind_eq_bind, Option.bind_some, if_neg pos]
      rfl
  | some t =>
    simp only [Option.bind_eq_bind, Option.bind_some, if_neg pos]
    rfl

/-- Importing a text runs its lines. -/
lemma himportR_script (hk : Hooks) (old : Option Htab) (env : Mem) (sep : UInt8) (flag : Nat)
    (crlfIsLf : Bool) (names : List CStr) (pos : size ≠ 0) :
    himportR hk old env size sep flag crlfIsLf names =
      (startTable old flag size).bind fun t =>
        runScript hk flag t (names.map some) (importScript sep crlfIsLf env size) := by
  obtain ⟨ended, len, le⟩ := importCopy_ended env size crlfIsLf
  -- the table the loop leaves, run by run
  have loop (t : Htab) : ((importLoop hk sep flag (size - (importCopy env size crlfIsLf).2)
      (size + 1) ⟨t, (importCopy env size crlfIsLf).1, 0, names.map some⟩).map
        fun r => (r.1.t, r.1.vars, r.2)) =
      runLines hk flag t (names.map some) (importScript sep crlfIsLf env size) :=
    importLoop_script hk sep flag _ [] ended (by rw [List.nil_append, len]; omega) len.le
  rw [himportR_loop hk old env sep flag crlfIsLf names pos]
  congr 1
  funext t
  rw [runScript, ← loop, Option.bind_map]
  simp only [Option.map_eq_bind]
  rfl

end Imx.HashTable
