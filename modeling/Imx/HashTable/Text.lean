import Imx.HashTable.Import

/-!
# Scanning a text

What the scans of `himport_r` find in its copy of the text, and how strings are cut out of it.
`parseValue` says what the loop over a value reads, without the moves.
-/

namespace Imx.HashTable
open Imx.Base

variable {v : CStr} {sep : UInt8}

/-! ## Scanning and cutting -/

section Text

variable {p : UInt8 → Bool} {pre run rest junk : List UInt8} {c d : UInt8}

/-- A scan passes what it accepts and stops at the first byte it does not. -/
lemma scan_append (pre rest : List UInt8) (all : ∀ x ∈ run, p x = true) (stop : p c = false) :
    scan p (pre ++ (run ++ c :: rest)) pre.length = some (pre.length + run.length) := by
  rw [scan, List.drop_left]
  have idx : (run ++ c :: rest).findIdx? (fun c => !p c) = some run.length := by
    rw [List.findIdx?_append]
    have none : run.findIdx? (fun c => !p c) = none := by
      rw [List.findIdx?_eq_none_iff]
      intro x hx
      simp [all x hx]
    simp [none, List.findIdx?_cons, stop]
  rw [idx]
  rfl

lemma takeWhile_run (rest : List UInt8) (all : ∀ x ∈ run, p x = true) (stop : p c = false) :
    (run ++ c :: rest).takeWhile p = run := by
  rw [List.takeWhile_append_of_pos all, List.takeWhile_cons_of_neg (by simp [stop]),
    List.append_nil]

lemma dropWhile_run (rest : List UInt8) (all : ∀ x ∈ run, p x = true) (stop : p c = false) :
    (run ++ c :: rest).dropWhile p = c :: rest := by
  rw [List.dropWhile_append_of_pos all, List.dropWhile_cons_of_neg (by simp [stop])]

lemma getElem?_cut : (pre ++ c :: rest)[pre.length]? = some c := by
  simp

lemma set_cut : (pre ++ c :: rest).set pre.length d = pre ++ d :: rest := by
  simp

/-- A string is cut out by the NUL behind it. -/
lemma cstrAt_cut {s : CStr} (nul : (0 : UInt8) ∉ s) :
    cstrAt (pre ++ (s ++ 0 :: rest)) pre.length = s := by
  have ne : ∀ x ∈ s, (x != 0) = true := by
    intro x hx
    simp only [bne_iff_ne]
    rintro rfl
    exact nul hx
  rw [cstrAt, List.drop_left, List.takeWhile_append_of_pos ne]
  simp

/-- Writing behind `pre`, where something stands, leaves as many bytes. -/
lemma set_over (pre rest : List UInt8) (d : UInt8) (ne : junk ≠ []) :
    ∃ junk', junk'.length + 1 = junk.length ∧
      (pre ++ (junk ++ rest)).set pre.length d = pre ++ d :: (junk' ++ rest) := by
  cases junk with
  | nil => exact absurd rfl ne
  | cons x junk => exact ⟨junk, rfl, set_cut⟩

end Text

/-! ## One value -/

/-- What the loop over a value reads of a text: the value, and the text from the byte it stops
at. -/
def parseValue (sep : UInt8) : List UInt8 → CStr × List UInt8
  | [] => ([], [])
  | [c] => ([], if c = 0 ∨ c = sep then [c] else [])
  | c :: d :: text =>
    if c = 0 ∨ c = sep then ([], c :: d :: text)
    else if c = 92 ∧ d ≠ 0 then
      let r := parseValue sep text
      (d :: r.1, r.2)
    else
      let r := parseValue sep (d :: text)
      (c :: r.1, r.2)

section Value

variable {pre junk rest text : List UInt8} {c : UInt8} {fuel : Nat}

/-- A value never holds a NUL. -/
lemma parseValue_nul : (0 : UInt8) ∉ (parseValue sep text).1 := by
  induction text using parseValue.induct sep with
  | case1 => exact List.not_mem_nil
  | case2 c => exact List.not_mem_nil
  | case3 c d text stop =>
    rw [parseValue, if_pos stop]
    exact List.not_mem_nil
  | case4 c d text stop esc ih =>
    rw [parseValue, if_neg stop, if_pos esc]
    exact List.not_mem_cons_of_ne_of_not_mem (Ne.symm esc.2) ih
  | case5 c d text stop esc ih =>
    rw [parseValue, if_neg stop, if_neg esc]
    exact List.not_mem_cons_of_ne_of_not_mem (fun e => stop (.inl e.symm)) ih

/-- A turn of the loop that takes `x` for the bytes `read`. -/
lemma valueLoop_turn {x : UInt8} {read : List UInt8} (pre junk : List UInt8) (ne : read ≠ [])
    (one : valueLoop sep (fuel + 1) (pre ++ (junk ++ (read ++ text))) pre.length
        (pre.length + junk.length) =
      valueLoop sep fuel ((pre ++ (junk ++ (read ++ text))).set pre.length x) (pre.length + 1)
        (pre.length + junk.length + read.length))
    (ih : ∀ pre junk : List UInt8, ∃ junk',
      junk'.length + v.length + (rest.length + 1) = junk.length + text.length ∧
      valueLoop sep fuel (pre ++ (junk ++ text)) pre.length (pre.length + junk.length) =
        some (pre ++ (v ++ (junk' ++ c :: rest)), pre.length + v.length,
          pre.length + v.length + junk'.length)) :
    ∃ junk', junk'.length + (x :: v).length + (rest.length + 1) =
        junk.length + (read ++ text).length ∧
      valueLoop sep (fuel + 1) (pre ++ (junk ++ (read ++ text))) pre.length
          (pre.length + junk.length) =
        some (pre ++ (x :: v ++ (junk' ++ c :: rest)), pre.length + (x :: v).length,
          pre.length + (x :: v).length + junk'.length) := by
  obtain ⟨junk1, len1, eq1⟩ := set_over pre text x (show junk ++ read ≠ [] from by simp [ne])
  rw [List.length_append] at len1
  obtain ⟨junk2, len2, eq2⟩ := ih (pre ++ [x]) junk1
  refine ⟨junk2, ?_, ?_⟩
  · simp only [List.length_cons, List.length_append]
    omega
  · rw [one, ← List.append_assoc junk, eq1]
    have pos : pre.length + junk.length + read.length = (pre ++ [x]).length + junk1.length := by
      simp only [List.length_append, List.length_cons, List.length_nil]
      omega
    rw [pos, show pre.length + 1 = (pre ++ [x]).length from by simp,
      show pre ++ x :: (junk1 ++ text) = pre ++ [x] ++ (junk1 ++ text) from by simp, eq2]
    simp [Nat.add_assoc, Nat.add_comm 1]

/-- The loop stops at the end of the value. -/
lemma valueLoop_stop (pre junk text : List UInt8) (stop : c = 0 ∨ c = sep) (pos : 0 < fuel) :
    valueLoop sep fuel (pre ++ (junk ++ c :: text)) pre.length (pre.length + junk.length) =
      some (pre ++ (junk ++ c :: text), pre.length, pre.length + junk.length) := by
  obtain ⟨fuel, rfl⟩ : ∃ f, fuel = f + 1 := ⟨fuel - 1, by omega⟩
  have here : (pre ++ (junk ++ c :: text))[pre.length + junk.length]? = some c := by
    rw [← List.append_assoc, ← List.length_append]
    exact getElem?_cut
  rw [valueLoop, here]
  simp only [if_pos stop]

/-- The two bytes behind `junk`. -/
lemma at_two (pre junk text : List UInt8) (d e : UInt8) :
    (pre ++ (junk ++ d :: e :: text))[pre.length + junk.length]? = some d ∧
      (pre ++ (junk ++ d :: e :: text))[pre.length + junk.length + 1]? = some e := by
  rw [← List.append_assoc, ← List.length_append]
  refine ⟨getElem?_cut, ?_⟩
  rw [show pre ++ junk ++ d :: e :: text = pre ++ junk ++ [d] ++ e :: text from by simp,
    show (pre ++ junk).length + 1 = (pre ++ junk ++ [d]).length from by
      simp only [List.length_append, List.length_singleton]]
  exact getElem?_cut

/-- The loop over a value puts what it reads behind `pre`, and what it has read lies behind that
as `junk`. -/
lemma valueLoop_eq (pre junk : List UInt8) (value : parseValue sep text = (v, c :: rest))
    (enough : text.length < fuel) :
    ∃ junk', junk'.length + v.length + (rest.length + 1) = junk.length + text.length ∧
      valueLoop sep fuel (pre ++ (junk ++ text)) pre.length (pre.length + junk.length) =
        some (pre ++ (v ++ (junk' ++ c :: rest)), pre.length + v.length,
          pre.length + v.length + junk'.length) := by
  induction text using parseValue.induct sep generalizing v pre junk fuel with
  | case1 => cases value
  | case2 d =>
    rw [parseValue] at value
    split_ifs at value with stop
    · obtain ⟨rfl, rfl, rfl⟩ := value
      exact ⟨junk, rfl, valueLoop_stop pre junk [] stop (by omega)⟩
    · cases value
  | case3 d e text stop =>
    rw [parseValue, if_pos stop] at value
    obtain ⟨rfl, rfl, rfl⟩ := value
    exact ⟨junk, rfl, valueLoop_stop pre junk (e :: text) stop (by omega)⟩
  | case4 d e text stop esc ih =>
    rw [parseValue, if_neg stop, if_pos esc] at value
    obtain ⟨rfl, more⟩ := Prod.mk.inj value
    obtain ⟨fuel, rfl⟩ : ∃ f, fuel = f + 1 := ⟨fuel - 1, by omega⟩
    simp only [List.length_cons] at enough
    refine @valueLoop_turn _ sep rest text c fuel e [d, e] pre junk (by simp) ?_
      fun pre junk => ih pre junk (Prod.ext rfl more) (by omega)
    obtain ⟨at1, at2⟩ := at_two pre junk text d e
    rw [List.cons_append, List.cons_append, List.nil_append, valueLoop, at1]
    simp only [if_neg stop, if_pos esc.1, at2, if_pos esc.2]
    rfl
  | case5 d e text stop esc ih =>
    rw [parseValue, if_neg stop, if_neg esc] at value
    obtain ⟨rfl, more⟩ := Prod.mk.inj value
    obtain ⟨fuel, rfl⟩ : ∃ f, fuel = f + 1 := ⟨fuel - 1, by omega⟩
    simp only [List.length_cons] at enough
    refine @valueLoop_turn _ sep rest (e :: text) c fuel d [d] pre junk (by simp) ?_
      fun pre junk => ih pre junk (Prod.ext rfl more) (by simp only [List.length_cons]; omega)
    obtain ⟨at1, at2⟩ := at_two pre junk text d e
    rw [List.singleton_append, valueLoop, at1]
    simp only [if_neg stop, at2]
    by_cases bs : d = 92
    · have e0 : ¬ e ≠ 0 := fun h => esc ⟨bs, h⟩
      simp only [if_pos bs, if_neg e0]
      rfl
    · simp only [if_neg bs]
      rfl

end Value

end Imx.HashTable
