import Imx.HashTable.Listed

/-!
# Importing with CR LF line ends

With `crlf_is_lf` `himport_r` first takes the carriage return out of each CR LF pair of its copy.
The bytes move down, the copy is not shortened: what the last bytes leave stands behind the
converted text, and the loop over the last line does not know where the text ends. So a last line
without a line end goes on into these bytes.
-/

namespace Imx.HashTable
open Imx.Base

variable {sep c : UInt8} {u r text rest z z' : List UInt8} {v : CStr} {l : Line}

/-- What is left behind a value is the end of the text. -/
lemma parseValue_suffix (sep : UInt8) (text : List UInt8) : (parseValue sep text).2 <:+ text := by
  induction text using parseValue.induct sep with
  | case1 => exact List.suffix_refl []
  | case2 c =>
    rw [parseValue]
    split_ifs
    · exact List.suffix_refl [c]
    · exact List.nil_suffix
  | case3 c d text stop =>
    rw [parseValue, if_pos stop]
  | case4 c d text stop esc ih =>
    rw [parseValue, if_neg stop, if_pos esc]
    exact (ih.trans (List.suffix_cons d text)).trans (List.suffix_cons c _)
  | case5 c d text stop esc ih =>
    rw [parseValue, if_neg stop, if_neg esc]
    exact ih.trans (List.suffix_cons c _)

/-- A value that goes on takes a byte. -/
lemma parseValue_suffix_cons (go : ¬ (c = 0 ∨ c = sep)) (text : List UInt8) :
    (parseValue sep (c :: text)).2 <:+ text := by
  cases text with
  | nil =>
    rw [parseValue, if_neg go]
  | cons d text =>
    rw [parseValue, if_neg go]
    split_ifs with esc
    · exact (parseValue_suffix sep text).trans (List.suffix_cons d text)
    · exact parseValue_suffix sep (d :: text)

/-- What stands behind the end of a value does not matter. -/
lemma parseValue_swap (ne : z' ≠ []) (read : parseValue sep (u ++ z) = (v, c :: (r ++ z))) :
    parseValue sep (u ++ z') = (v, c :: (r ++ z')) := by
  have len := congrArg (fun x => x.2.length) read
  simp only [List.length_cons, List.length_append] at len
  induction u using parseValue.induct sep generalizing v with
  | case1 =>
    have short := (parseValue_suffix sep z).length_le
    rw [List.nil_append] at len
    omega
  | case2 d =>
    by_cases stop : d = 0 ∨ d = sep
    · obtain ⟨b', z', rfl⟩ := List.exists_cons_of_ne_nil ne
      cases z with
      | nil =>
        rw [List.append_nil, parseValue, if_pos stop] at read
        obtain ⟨rfl, rfl, rfl⟩ := by simpa using read
        rw [List.singleton_append, parseValue, if_pos stop]
        rfl
      | cons b z =>
        rw [List.singleton_append, parseValue, if_pos stop] at read
        obtain ⟨rfl, rfl, rfl⟩ := by simpa using read
        rw [List.singleton_append, parseValue, if_pos stop]
        rfl
    · have short := (parseValue_suffix_cons stop z).length_le
      rw [List.singleton_append] at len
      omega
  | case3 d e text stop =>
    rw [List.cons_append, List.cons_append, parseValue, if_pos stop] at read
    obtain ⟨rfl, tail⟩ := Prod.mk.inj read
    obtain ⟨rfl, same⟩ := List.cons.inj tail
    obtain rfl : e :: text = r := List.append_cancel_right same
    rw [List.cons_append, List.cons_append, parseValue, if_pos stop]
  | case4 d e text stop esc ih =>
    rw [List.cons_append, List.cons_append, parseValue, if_neg stop, if_pos esc] at read len
    obtain ⟨rfl, rest⟩ := Prod.mk.inj read
    rw [List.cons_append, List.cons_append, parseValue, if_neg stop, if_pos esc,
      ih (Prod.ext rfl rest) len]
  | case5 d e text stop esc ih =>
    rw [List.cons_append, List.cons_append, parseValue, if_neg stop, if_neg esc] at read len
    obtain ⟨rfl, rest⟩ := Prod.mk.inj read
    rw [List.cons_append, List.cons_append, parseValue, if_neg stop, if_neg esc,
      ← List.cons_append, ih (Prod.ext rfl rest) len]
    rfl

/-- What stands behind the end of a line does not matter. -/
lemma Reads.swap (reads : Reads sep (u ++ z) l (r ++ z)) (ne : z' ≠ []) :
    Reads sep (u ++ z') l (r ++ z') := by
  -- the line and the text behind it lie in front of `z`
  have front {line : List UInt8} (eq : u ++ z = line ++ z) : u ++ z' = line ++ z' := by
    rw [List.append_cancel_right eq]
  generalize whole : u ++ z = text at reads
  generalize behind : r ++ z = rest at reads
  cases reads with
  | @comment blanks words e rest blank head all stop =>
    subst behind
    have eq := @front (blanks ++ (words ++ e :: r)) (by simpa using whole)
    rw [show u ++ z' = blanks ++ (words ++ e :: (r ++ z')) from by simpa using eq]
    refine .comment blank ?_ all stop
    cases words with
    | nil => exact head
    | cons b words => exact head
  | @remove blanks name e rest blank head all stop other =>
    subst behind
    have eq := @front (blanks ++ (name ++ e :: r)) (by simpa using whole)
    rw [show u ++ z' = blanks ++ (name ++ e :: (r ++ z')) from by simpa using eq]
    refine .remove blank ?_ all stop other
    cases name with
    | nil => exact head
    | cons b name => exact head
  | @equals blanks name d rest blank head all remove =>
    subst behind
    have eq := @front (blanks ++ (name ++ 61 :: d :: r)) (by simpa using whole)
    rw [show u ++ z' = blanks ++ (name ++ 61 :: d :: (r ++ z')) from by simpa using eq]
    refine .equals blank ?_ all remove
    cases name with
    | nil => exact head
    | cons b name => exact head
  | @assign blanks name d e value text rest blank head all keep read =>
    subst behind
    obtain ⟨line, eq⟩ := parseValue_suffix sep (d :: text)
    rw [read] at eq
    obtain ⟨body, rfl⟩ : ∃ body, text = body ++ z := by
      cases line with
      | nil => exact ⟨r, (List.cons.inj eq).2.symm⟩
      | cons d' line => exact ⟨line ++ e :: r, by rw [← (List.cons.inj eq).2]; simp⟩
    have eq := @front (blanks ++ (name ++ 61 :: d :: body)) (by simpa using whole)
    rw [show u ++ z' = blanks ++ (name ++ 61 :: d :: (body ++ z')) from by simpa using eq]
    refine .assign blank ?_ all keep (parseValue_swap (u := d :: body) ne read)
    cases name with
    | nil => exact head
    | cons b name => exact head

/-! ## The last line -/

/-- The last line of a text, from where the loop starts to read it. -/
def lastLine (sep : UInt8) : Nat → List UInt8 → List UInt8
  | 0, text => text
  | fuel + 1, text =>
    let r := parseLine sep (text ++ [0])
    if r.1.nameless = false ∧ 1 < r.2.length then lastLine sep fuel r.2.dropLast else text

/-- Import a text of lines (the arguments `sep` and `crlf_is_lf` of a text file are `'\n'` and, on
request, 1). -/
def importText (hk : Hooks) (old : Option Htab) (text : List UInt8) (flag : Nat) (crlfIsLf : Bool)
    (names : List CStr) : Option (Htab × Bool) :=
  himportR hk old (Mem.zero.write 0 text) text.length 10 flag crlfIsLf names

lemma read_text (text : List UInt8) : (Mem.zero.write 0 text).read 0 text.length = text :=
  Mem.read_write_self rfl

/-- Where a text lies does not matter. -/
lemma himportR_eq_importText (hk : Hooks) (old : Option Htab) (env : Mem) (size : Nat) (flag : Nat)
    (crlfIsLf : Bool) (names : List CStr) :
    himportR hk old env size 10 flag crlfIsLf names =
      importText hk old (env.read 0 size) flag crlfIsLf names := by
  have len : (env.read 0 size).length = size := Mem.length_read ..
  have read := read_text (env.read 0 size)
  rw [len] at read
  rw [importText, himportR, himportR, len, read]

end Imx.HashTable
