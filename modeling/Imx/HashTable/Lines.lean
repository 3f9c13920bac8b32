import Imx.HashTable.Export
import Imx.HashTable.Script

/-!
# Parsing lines

What `himport_r` makes of a text of lines `name=text`: each line is scanned, its text unescaped in
place, and the value entered into the table. A parsed text enters its lines one after the other
into the map.
-/

namespace Imx.HashTable
open Imx.Base

variable {hk : Hooks} {t : Htab} {m m' : Map} {k v w : CStr} {sep : UInt8} {flag : Nat}

/-! ## One line -/

/-- A separator that no part of the grammar uses. -/
structure GoodSep (sep : UInt8) : Prop where
  eq : sep ≠ 61
  bs : sep ≠ 92
  blank : isblank sep = false
  hash : sep ≠ 35

/-- A name the parser can read back. -/
structure GoodName (sep : UInt8) (k : CStr) : Prop where
  ne : k ≠ []
  nul : (0 : UInt8) ∉ k
  eq : (61 : UInt8) ∉ k
  sep : sep ∉ k
  head : ∀ c ∈ k.head?, isblank c = false ∧ c ≠ 35

/-- The value read from the text of a line. -/
def readValue (sep : UInt8) (w : CStr) : CStr := (parseValue sep (w ++ [sep])).1

/-- A text that is read up to the separator behind it. -/
structure GoodText (sep : UInt8) (w : CStr) : Prop where
  head : ∃ d tail, w = d :: tail ∧ d ≠ 0 ∧ d ≠ sep
  reads : ∀ rest, parseValue sep (w ++ sep :: rest) = (readValue sep w, sep :: rest)

/-- Without a NUL in it, a text is read up to the NUL behind it. -/
lemma parseValue_nul_sep (wn : (0 : UInt8) ∉ w) (rest : List UInt8) :
    parseValue 0 (w ++ 0 :: rest) = (readValue 0 w, 0 :: rest) := by
  rw [readValue]
  induction w using parseValue.induct 0 with
  | case1 => cases rest <;> simp [parseValue]
  | case2 c =>
    have c0 : c ≠ 0 := fun e => wn (e ▸ List.mem_cons_self)
    cases rest <;> simp [parseValue, c0]
  | case3 c d text stop => exact absurd (or_self_iff.1 stop) fun e => wn (e ▸ List.mem_cons_self)
  | case4 c d text stop esc ih =>
    have ih := ih fun h => wn (by simp [h])
    simp only [List.cons_append, parseValue, if_neg stop, if_pos esc, ih]
  | case5 c d text stop esc ih =>
    have ih := ih fun h => wn (List.mem_cons_of_mem _ h)
    simp only [List.cons_append] at ih ⊢
    simp only [parseValue, if_neg stop, if_neg esc, ih]

/-- Unescaping never makes a text longer. -/
lemma length_readValue_le (wn : (0 : UInt8) ∉ w) : (readValue 0 w).length ≤ w.length := by
  rw [readValue]
  induction w using parseValue.induct 0 with
  | case1 => simp [parseValue]
  | case2 c =>
    have c0 : c ≠ 0 := fun e => wn (e ▸ List.mem_cons_self)
    simp [parseValue, c0]
  | case3 c d text stop => exact absurd (or_self_iff.1 stop) fun e => wn (e ▸ List.mem_cons_self)
  | case4 c d text stop esc ih =>
    have ih := ih fun h => wn (by simp [h])
    simp only [List.cons_append, parseValue, if_neg stop, if_pos esc, List.length_cons]
    omega
  | case5 c d text stop esc ih =>
    have ih := ih fun h => wn (List.mem_cons_of_mem _ h)
    simp only [List.cons_append] at ih ⊢
    simp only [parseValue, if_neg stop, if_neg esc, List.length_cons] at ih ⊢
    omega

/-- A value is read as it stands exactly when a backslash is at most its last byte. -/
lemma readValue_eq_iff (wn : (0 : UInt8) ∉ w) : readValue 0 w = w ↔ (92 : UInt8) ∉ w.dropLast := by
  induction w using parseValue.induct 0 with
  | case1 => simp [readValue, parseValue]
  | case2 c =>
    have c0 : c ≠ 0 := fun e => wn (e ▸ List.mem_cons_self)
    simp [readValue, parseValue, c0]
  | case3 c d text stop => exact absurd (or_self_iff.1 stop) fun e => wn (e ▸ List.mem_cons_self)
  | case4 c d text stop esc ih =>
    have short := @length_readValue_le text fun h => wn (by simp [h])
    have read : readValue 0 (c :: d :: text) = d :: readValue 0 text := by
      simp only [readValue, List.cons_append, parseValue, if_neg stop, if_pos esc]
    constructor
    · intro eq
      rw [read] at eq
      have len := congrArg List.length eq
      simp only [List.length_cons] at len
      omega
    · intro no
      rw [esc.1, List.dropLast_cons_of_ne_nil (List.cons_ne_nil d text)] at no
      exact absurd List.mem_cons_self no
  | case5 c d text stop esc ih =>
    have ih := ih fun h => wn (List.mem_cons_of_mem _ h)
    have read : readValue 0 (c :: d :: text) = c :: readValue 0 (d :: text) := by
      simp only [readValue, List.cons_append, parseValue, if_neg stop, if_neg esc]
    have c92 : (92 : UInt8) ≠ c := by
      rintro rfl
      exact esc ⟨rfl, fun e => wn (by simp [e])⟩
    rw [read, List.cons.injEq, ih, List.dropLast_cons_of_ne_nil (List.cons_ne_nil d text)]
    simp [c92]

/-- A line with the text of its value as it stands there, the separator included. -/
def rawLine (sep : UInt8) (k w : CStr) : List UInt8 :=
  k ++ 61 :: w ++ [sep]

/-- A line is read as the assignment it is. -/
lemma parseLine_line (eq : sep ≠ 61) (gn : GoodName sep k) (gt : GoodText sep w)
    (rest : List UInt8) :
    parseLine sep (rawLine sep k w ++ rest) = (.assign k (readValue sep w), rest) := by
  obtain ⟨d, tail, rfl, d0, ds⟩ := gt.head
  have text : rawLine sep k (d :: tail) ++ rest =
      [] ++ (k ++ 61 :: d :: (tail ++ sep :: rest)) := by
    simp [rawLine]
  have head : ∀ x ∈ (k ++ 61 :: d :: (tail ++ sep :: rest)).head?, isblank x = false ∧ x ≠ 35 := by
    rw [List.head?_append_of_ne_nil _ gn.ne]
    exact gn.head
  have all : ∀ x ∈ k, nameByte sep x = true := by
    intro x hx
    have h1 : x ≠ 61 := fun e => gn.eq (e ▸ hx)
    have h2 : x ≠ 0 := fun e => gn.nul (e ▸ hx)
    have h3 : x ≠ sep := fun e => gn.sep (e ▸ hx)
    simp [nameByte, h1, h2, h3]
  have keep : ¬ (d = 0 ∨ 61 = sep ∨ d = sep) := by simp [d0, ds, Ne.symm eq]
  rw [text]
  exact (Reads.assign (List.forall_mem_nil _) head all keep (gt.reads rest)).parse

/-! ## The entries of a table -/

/-- A variable: a name with its value. -/
abbrev Var := (_ : CStr) × CStr

/-- The variable an entry holds. -/
def varOf (e : Entry) : Var := ⟨text e.key, text e.data⟩

section Entries

variable (rep : Rep t m)
include rep

/-- What a live slot gives to the export. -/
lemma Rep.varOf_live {i u : Nat} {e : Entry} (h : t.table i = .used u e) :
    HoldsAt t (varOf e).1 i e ∧ m.lookup (varOf e).1 = some (varOf e).2 := by
  obtain ⟨k, v, hu, key, data, look, -⟩ := rep.live h
  have e1 : varOf e = ⟨k, v⟩ := by simp [varOf, text, key, data]
  rw [e1]
  exact ⟨⟨hu ▸ h, key⟩, look⟩

/-- A slot that holds an entry is one of the table's. -/
lemma Rep.slot_mem {i : Nat} {e : Entry} (h : HoldsAt t k i e) : 1 ≤ i ∧ i ≤ t.size := by
  obtain ⟨-, -, -, n, -, rfl, -⟩ := rep.lookup_of_holds h
  exact probe_mem rep.good

/-- The variables of the table's entries are the map's, each once. -/
lemma Rep.entries_perm : ((entries t).map varOf).Perm m.entries := by
  rw [entries, List.map_filterMap]
  refine (List.perm_ext_iff_of_nodup ?_ m.nodupKeys.nodup).2 fun x => ?_
  · refine List.Nodup.filterMap ?_ List.nodup_range'
    intro i j x hi hj
    cases ei : t.table i with
    | free => simp [ei] at hi
    | deleted => simp [ei] at hi
    | used u e =>
      cases ej : t.table j with
      | free => simp [ej] at hj
      | deleted => simp [ej] at hj
      | used u' e' =>
        simp only [ei, Option.map_some, Option.mem_some_iff] at hi
        simp only [ej, Option.map_some, Option.mem_some_iff] at hj
        have h1 := (rep.varOf_live ei).1
        have h2 := (rep.varOf_live ej).1
        rw [hi] at h1
        rw [hj] at h2
        exact rep.uniq h1 h2
  · rw [show (x ∈ m.entries) = ((⟨x.1, x.2⟩ : Var) ∈ m.entries) from rfl, ← AList.mem_lookup_iff,
      List.mem_filterMap]
    constructor
    · rintro ⟨i, -, hi⟩
      cases ei : t.table i with
      | free => simp [ei] at hi
      | deleted => simp [ei] at hi
      | used u e =>
        simp only [ei, Option.map_some, Option.some.injEq] at hi
        subst hi
        exact (rep.varOf_live ei).2
    · intro look
      obtain ⟨i, e, holds, data⟩ := rep.slot look
      have mem := rep.slot_mem holds
      refine ⟨i, List.mem_range'_1.2 ⟨mem.1, by omega⟩, ?_⟩
      simp [holds.1, varOf, text, holds.2, data]

/-- A table without deleted slots has a slot never used as long as it is not full. -/
lemma Rep.exists_free (holes : ∀ i, t.table i ≠ .deleted) (lt : m.keys.length < t.size) :
    ∃ i < t.size, t.table (i + 1) = .free := by
  by_contra none
  have none : ∀ i < t.size, t.table (i + 1) ≠ .free := by simpa using none
  have len : (entries t).length = t.size := by
    rw [entries, (List.filterMap_length_eq_length (l := List.range' 1 t.size)).2,
      List.length_range']
    intro i hi
    obtain ⟨h1, h2⟩ := List.mem_range'_1.1 hi
    obtain ⟨i, rfl⟩ : ∃ n, i = n + 1 := ⟨i - 1, by omega⟩
    cases ei : t.table (i + 1) with
    | free => exact absurd ei (none i (by omega))
    | deleted => exact absurd ei (holes _)
    | used u e => rfl
  have perm := rep.entries_perm.length_eq
  rw [List.length_map, len] at perm
  rw [length_keys] at lt
  omega

end Entries

/-! ## A text of lines -/

/-- Entering a variable into a table without deleted slots, full or not. -/
lemma Rep.enter_line (acc : hk.Accepting) (rep : Rep t m) (k v : CStr) (flag : Nat)
    (holes : ∀ i, t.table i ≠ .deleted) :
    ∃ t' r, hsearchR hk t { key := k, data := some v } .enter flag = some (t', r) ∧
      t'.size = t.size ∧ (∀ i, t'.table i ≠ .deleted) ∧
      Rep t' (specExec t.size m (.enter k v)).1 := by
  have roomy : Roomy t k := by
    rcases Nat.lt_or_ge m.keys.length t.size with lt | ge
    · exact .inr (.inl (rep.exists_free holes lt))
    · have filled := rep.filled
      have room := rep.room
      exact .inr (.inr (.inr (by omega)))
  obtain ⟨t', r, eq, size, noNew, rep', -⟩ := rep.enter acc v flag roomy
  exact ⟨t', r, eq, size, fun i h => holes i (noNew i h), rep'⟩

/-- The lines of some variables, given with the texts of their values. -/
def rawLines (sep : UInt8) (vs : List Var) : List UInt8 :=
  vs.flatMap fun x => rawLine sep x.1 x.2

/-- The map after the lines are entered into a table of `size` slots. -/
def enterAll (sep : UInt8) (size : Nat) (m : Map) (vs : List Var) : Map :=
  vs.foldl (fun m x => (specExec size m (.enter x.1 (readValue sep x.2))).1) m

lemma rawLines_cons {x : Var} {vs : List Var} :
    rawLines sep (x :: vs) = rawLine sep x.1 x.2 ++ rawLines sep vs := rfl

lemma length_le_rawLines (sep : UInt8) (vs : List Var) : vs.length ≤ (rawLines sep vs).length := by
  induction vs with
  | nil => exact Nat.zero_le _
  | cons x vs ih =>
    simp only [rawLines_cons, rawLine, List.length_append, List.length_cons, List.length_nil]
    omega

/-- A line begins with a byte that is not NUL. -/
lemma rawLines_head {x : Var} (gn : GoodName sep x.1) (vs : List Var) :
    ∃ c text, rawLines sep (x :: vs) = c :: text ∧ c ≠ 0 := by
  obtain ⟨c, k', ek⟩ := List.exists_cons_of_ne_nil gn.ne
  refine ⟨c, k' ++ 61 :: x.2 ++ [sep] ++ rawLines sep vs, ?_, fun e => gn.nul ?_⟩
  · simp [rawLines_cons, rawLine, ek]
  · rw [ek, e]
    exact List.mem_cons_self

/-- The assignments of some variables. -/
def assigns (sep : UInt8) (vs : List Var) : List Line :=
  vs.map fun x => .assign x.1 (readValue sep x.2)

/-- The script in a text of lines. -/
lemma script_lines {slack fuel : Nat} {tail : List UInt8} {vs : List Var} {x : Var} (eq : sep ≠ 61)
    (good : ∀ y ∈ x :: vs, GoodName sep y.1 ∧ GoodText sep y.2) (short : slack ≤ tail.length)
    (enough : vs.length < fuel) :
    script sep slack fuel (rawLines sep (x :: vs) ++ 0 :: tail) = assigns sep (x :: vs) := by
  induction vs generalizing x fuel with
  | nil =>
    obtain ⟨fuel, rfl⟩ : ∃ f, fuel = f + 1 := ⟨fuel - 1, by simp at enough; omega⟩
    obtain ⟨gn, gt⟩ := good x List.mem_cons_self
    rw [script, show rawLines sep [x] = rawLine sep x.1 x.2 from by simp [rawLines],
      parseLine_line eq gn gt]
    simp [assigns]
  | cons y vs ih =>
    obtain ⟨fuel, rfl⟩ : ∃ f, fuel = f + 1 := ⟨fuel - 1, by simp at enough; omega⟩
    obtain ⟨gn, gt⟩ := good x List.mem_cons_self
    have rest := ih (x := y) (fun z hz => good z (List.mem_cons_of_mem _ hz))
      (Nat.lt_of_succ_lt_succ enough)
    obtain ⟨c, text, head, c0⟩ := rawLines_head (good y (by simp)).1 vs
    have more : slack < (rawLines sep (y :: vs) ++ 0 :: tail).length := by
      rw [List.length_append, List.length_cons]
      omega
    have first : (rawLines sep (y :: vs) ++ 0 :: tail).head? ≠ some 0 := by
      rw [head]
      simpa using c0
    rw [script, rawLines_cons, List.append_assoc, parseLine_line eq gn gt, if_pos, rest]
    · rfl
    · exact ⟨by simp [Line.nameless, gn.ne], more, first⟩

/-- Running assignments enters them all, in order. -/
lemma Rep.run_assigns (acc : hk.Accepting) (sep : UInt8) (flag : Nat) (vs : List Var) (rep : Rep t m)
    (holes : ∀ i, t.table i ≠ .deleted) (named : ∀ x ∈ vs, x.1 ≠ []) :
    ∃ t', runLines hk flag t [] (assigns sep vs) = some (t', [], true) ∧ t'.size = t.size ∧
      Rep t' (enterAll sep t.size m vs) := by
  induction vs generalizing t m with
  | nil => exact ⟨t, rfl, rfl, rep⟩
  | cons x vs ih =>
    obtain ⟨t₁, r, search, size₁, holes₁, rep₁⟩ :=
      rep.enter_line acc x.1 (readValue sep x.2) flag holes
    obtain ⟨t₂, run, size₂, rep₂⟩ := ih rep₁ holes₁ fun y hy => named y (List.mem_cons_of_mem _ hy)
    rw [size₁] at rep₂
    refine ⟨t₂, ?_, size₂.trans size₁, rep₂⟩
    have name := named x List.mem_cons_self
    simp only [assigns, List.map_cons, runLines, Line.nameless, List.isEmpty_iff, if_neg name,
      runLine, dropVarFromSet, List.isEmpty_nil, if_true, search, Option.map_some, Option.bind_some]
    exact run

/-- The script of a text of lines with a NUL behind them. -/
lemma importScript_lines {env : Mem} {n : Nat} {vs : List Var} {tail : List UInt8} (eq : sep ≠ 61)
    (ne : vs ≠ []) (good : ∀ y ∈ vs, GoodName sep y.1 ∧ GoodText sep y.2)
    (read : env.read 0 n = rawLines sep vs ++ 0 :: tail) :
    importScript sep false env n = assigns sep vs := by
  have len := congrArg List.length read
  simp only [Mem.length_read, List.length_append, List.length_cons] at len
  obtain ⟨x, vs, rfl⟩ := List.exists_cons_of_ne_nil ne
  have short := length_le_rawLines sep (x :: vs)
  rw [List.length_cons] at short
  have data : env.read 0 n ++ [0] = rawLines sep (x :: vs) ++ 0 :: (tail ++ [0]) := by
    rw [read]
    simp
  rw [importScript, importCopy, if_neg Bool.false_ne_true, data]
  exact script_lines eq good (by simp) (by omega)

/-- Importing a text of lines with a NUL behind them: the new table holds what the lines enter into
the empty map. -/
lemma himportR_lines {old : Option Htab} {env : Mem} {n : Nat} {vs : List Var} {tail : List UInt8}
    (acc : hk.Accepting) (eq : sep ≠ 61) (ne : vs ≠ [])
    (good : ∀ y ∈ vs, GoodName sep y.1 ∧ GoodText sep y.2)
    (read : env.read 0 n = rawLines sep vs ++ 0 :: tail) :
    ∃ t', himportR hk old env n sep 0 false [] = some (t', true) ∧
      Rep t' (enterAll sep (importSize n) ∅ vs) := by
  obtain ⟨create, goodSize⟩ := hcreateR_import n
  have pos : n ≠ 0 := by
    rintro rfl
    have len := congrArg List.length read
    simp at len
  obtain ⟨t', run, -, rep⟩ := (Rep.empty goodSize).run_assigns acc sep 0 vs
    (by simp [Htab.empty]) fun y hy => (good y hy).1.ne
  refine ⟨t', ?_, rep⟩
  rw [himportR_script hk old env sep 0 false [] pos, importScript_lines eq ne good read, startTable]
  simp [create, runScript, run, dropRest]

end Imx.HashTable
