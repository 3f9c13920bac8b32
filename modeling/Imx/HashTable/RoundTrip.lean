import Imx.HashTable.Lines

/-!
# Importing an export

The text `hexport_r` writes is read back by `himport_r` line by line, since unescaping undoes
escaping. The table built holds the map that was exported.
-/

namespace Imx.HashTable
open Imx.Base

variable {hk : Hooks} {t : Htab} {m m' : Map} {k v : CStr} {sep : UInt8} {flag : Nat}

/-! ## One line -/

/-- A value the parser can read back. -/
structure GoodValue (v : CStr) : Prop where
  ne : v ≠ []
  nul : (0 : UInt8) ∉ v

/-- The line of a variable, its separator included. -/
def exportLine (sep : UInt8) (k v : CStr) : List UInt8 :=
  k ++ 61 :: escapeValue sep v ++ [sep]

section Value

variable {rest : List UInt8} {c : UInt8}

/-- Unescaping undoes escaping. -/
lemma parseValue_escape (nul : (0 : UInt8) ∉ v) (bs : sep ≠ 92) (rest : List UInt8) :
    parseValue sep (escapeValue sep v ++ sep :: rest) = (v, sep :: rest) := by
  induction v with
  | nil =>
    cases rest with
    | nil => simp [escapeValue, parseValue]
    | cons d rest => simp [escapeValue, parseValue]
  | cons c v ih =>
    obtain ⟨c0, nul⟩ : (0 : UInt8) ≠ c ∧ (0 : UInt8) ∉ v := by simpa [not_or] using nul
    rw [escapeValue_cons]
    by_cases esc : escaped sep c
    · simp [esc, parseValue, Ne.symm bs, Ne.symm c0, ih nul]
    · obtain ⟨ns, nb⟩ : c ≠ sep ∧ c ≠ 92 := by simpa [escaped, not_or] using esc
      obtain ⟨d, text, more⟩ := List.exists_cons_of_ne_nil
        (show escapeValue sep v ++ sep :: rest ≠ [] from by simp)
      have ih := ih nul
      simp only [if_neg esc, List.cons_append, List.nil_append]
      rw [more] at ih ⊢
      simp [parseValue, ns, nb, Ne.symm c0, ih]

/-- A non-empty value is written with a first byte that does not look like its end. -/
lemma escapeValue_head (bs : sep ≠ 92) (ne : v ≠ []) (nul : (0 : UInt8) ∉ v) :
    ∃ d tail, escapeValue sep v = d :: tail ∧ d ≠ 0 ∧ d ≠ sep := by
  cases v with
  | nil => exact absurd rfl ne
  | cons c v =>
    rw [escapeValue_cons]
    by_cases esc : escaped sep c
    · exact ⟨92, c :: escapeValue sep v, by simp [esc], by decide, Ne.symm bs⟩
    · obtain ⟨ns, -⟩ : c ≠ sep ∧ c ≠ 92 := by simpa [escaped, not_or] using esc
      refine ⟨c, escapeValue sep v, by simp [esc], ?_, ns⟩
      rintro rfl
      exact nul List.mem_cons_self

/-- The text of an exported value is read as that value. -/
lemma GoodValue.text (gv : GoodValue v) (bs : sep ≠ 92) :
    GoodText sep (escapeValue sep v) ∧ readValue sep (escapeValue sep v) = v := by
  have value : readValue sep (escapeValue sep v) = v := by
    rw [readValue, parseValue_escape gv.nul bs]
  refine ⟨⟨escapeValue_head bs gv.ne gv.nul, fun rest => ?_⟩, value⟩
  rw [value, parseValue_escape gv.nul bs]

end Value

/-! ## The whole text -/

/-- The lines of some variables. -/
def exportLines (sep : UInt8) (vs : List Var) : List UInt8 :=
  vs.flatMap fun x => exportLine sep x.1 x.2

/-- A variable as its line gives it. -/
def rawVar (sep : UInt8) (x : Var) : Var := ⟨x.1, escapeValue sep x.2⟩

lemma exportLines_eq {vs : List Var} : exportLines sep vs = rawLines sep (vs.map (rawVar sep)) := by
  rw [exportLines, rawLines, List.flatMap_map]
  rfl

/-- New variables that fit are all entered. -/
lemma enterAll_export {size : Nat} {vs : List Var} (bs : sep ≠ 92)
    (good : ∀ x ∈ vs, GoodValue x.2) (nodup : vs.NodupKeys) (new : ∀ x ∈ vs, x.1 ∉ m)
    (room : m.keys.length + vs.length ≤ size) :
    (enterAll sep size m (vs.map (rawVar sep))).entries.Perm (vs ++ m.entries) := by
  induction vs generalizing m with
  | nil => exact .refl _
  | cons x vs ih =>
    obtain ⟨notx, nodup⟩ := List.nodupKeys_cons.1 nodup
    have newx := new x List.mem_cons_self
    have value := (GoodValue.text (good x List.mem_cons_self) bs).2
    have enter : (specExec size m (.enter x.1 x.2)).1 = m.insert x.1 x.2 := by
      rw [specExec, if_pos (.inr (by simp at room; omega))]
    have rest := @ih (m.insert x.1 x.2) (fun y hy => good y (List.mem_cons_of_mem _ hy)) nodup
      (fun y hy => by
        rw [AList.mem_insert, not_or]
        refine ⟨fun e => notx ?_, new y (List.mem_cons_of_mem _ hy)⟩
        exact e ▸ List.mem_keys_of_mem hy)
      (by rw [length_keys_insert_of_notMem newx]; simp at room; omega)
    rw [AList.entries_insert_of_notMem newx] at rest
    simp only [enterAll, List.map_cons, List.foldl_cons, rawVar, value, enter] at rest ⊢
    exact rest.trans List.perm_middle

/-- A text of zeros is read as one line that names no variable. -/
lemma importScript_zeros {env : Mem} {n : Nat} (pos : n ≠ 0)
    (read : env.read 0 n = List.replicate n 0) :
    importScript sep false env n = [.remove []] := by
  obtain ⟨n, rfl⟩ := Nat.exists_eq_succ_of_ne_zero pos
  have data : env.read 0 (n + 1) ++ [0] = 0 :: 0 :: List.replicate n 0 := by
    rw [read, ← List.replicate_succ', List.replicate_succ, List.replicate_succ]
  have line : parseLine sep (0 :: 0 :: List.replicate n 0) = (.remove [], 0 :: List.replicate n 0) := by
    simp [parseLine, isblank, nameByte]
  rw [importScript, importCopy, if_neg Bool.false_ne_true, data, script, line]
  simp

/-- Importing zeros leaves nothing. -/
lemma himportR_zeros {old : Option Htab} {env : Mem} {n : Nat} (acc : hk.Accepting) (pos : n ≠ 0)
    (read : env.read 0 n = List.replicate n 0) :
    ∃ t', himportR hk old env n sep 0 false [] = some (t', true) ∧ Rep t' ∅ := by
  obtain ⟨create, goodSize⟩ := hcreateR_import n
  obtain ⟨t', run, -, rep⟩ := (Rep.empty goodSize).delete acc [] 0
  refine ⟨t', ?_, rep⟩
  rw [himportR_script hk old env sep 0 false [] pos, importScript_zeros pos read, startTable]
  simp [create, runScript, runLines, runLine, Line.nameless, dropVarFromSet, run, dropRest]

/-- Without patterns and with dotted names shown, every entry is exported. -/
lemma exported_all {rx : Regex} (dots : hasFlag flag hHideDot = false) :
    exported rx t flag [] = entries t := by
  simp [exported, dots]

/-- What the second pass stores, by variables. -/
lemma exportText_eq {es : List Entry} :
    exportText sep es = exportLines sep (es.map varOf) ++ [0] := by
  rw [exportText, exportLines, List.flatMap_map]
  rfl

/-- The size `hexport_r` returns. -/
def exportSize (sep : UInt8) (es : List Entry) (size : Nat) : Nat :=
  if size = 0 then totlen sep es + 1 else size

/-- The result buffer holds zeros before the second pass. -/
lemma resultBuffer_read {resp : Option Mem} {calloc : Bool} {n : Nat}
    (buffer : resp ≠ none ∨ calloc = true) :
    ∃ res, resultBuffer resp calloc n = some res ∧ ∀ i < n, res i = 0 := by
  cases resp with
  | none =>
    obtain rfl : calloc = true := by simpa using buffer
    exact ⟨Mem.zero, rfl, fun i _ => rfl⟩
  | some res =>
    refine ⟨res.write 0 (List.replicate n 0), rfl, fun i lt => ?_⟩
    have w := @Mem.write_at res 0 (List.replicate n 0) i (by simpa using lt)
    simpa using w

/-- An export fills its buffer with the lines and zeros behind them. -/
lemma hexportR_eq (rx : Regex) {resp : Option Mem} {calloc : Bool} {size : Nat}
    (dots : hasFlag flag hHideDot = false) (buffer : resp ≠ none ∨ calloc = true)
    (fits : size = 0 ∨ totlen sep (entries t) < size)
    (big : (exportText sep (entries t)).length ≤ exportSize sep (entries t) size) :
    ∃ es env, es.Perm (entries t) ∧
      hexportR rx t sep flag resp calloc size [] = some (exportSize sep (entries t) size, env) ∧
      env.read 0 (exportSize sep (entries t) size) = exportText sep es ++
        List.replicate (exportSize sep (entries t) size - (exportText sep es).length) 0 := by
  obtain ⟨res, eq, zeros⟩ := resultBuffer_read (n := exportSize sep (entries t) size) buffer
  have perm := @qsort_perm _ cmpkey (entries t)
  have len : (exportText sep (qsort cmpkey (entries t))).length =
      (exportText sep (entries t)).length := by
    rw [exportText, exportText, List.length_append, List.length_append,
      (perm.flatMap_right (exportEntry sep)).length_eq]
  refine ⟨_, res.write 0 (exportText sep (qsort cmpkey (entries t))), perm, ?_, ?_⟩
  · rw [hexportR, exported_all dots]
    simp only
    rw [if_neg (by omega), ← exportSize, eq]
    rfl
  · generalize qsort _ (entries t) = es at len
    obtain ⟨k, hk⟩ := Nat.exists_eq_add_of_le (len ▸ big)
    rw [hk, Mem.read_add, Mem.read_write_self rfl, Mem.read_write_disjoint (.inr (by simp)),
      Nat.add_sub_cancel_left]
    congr 1
    refine List.eq_replicate_iff.2 ⟨Mem.length_read, fun b hb => ?_⟩
    obtain ⟨i, hi⟩ := List.mem_iff_getElem?.1 hb
    rw [Mem.getElem?_read] at hi
    split at hi
    · rw [← Option.some.inj hi]
      exact zeros _ (by omega)
    · contradiction

/-- The text of an export is read back. -/
lemma import_text {old : Option Htab} {es : List Entry} {env : Mem} {n : Nat} (acc : hk.Accepting)
    (rep : Rep t m) (gs : GoodSep sep)
    (good : ∀ k v, m.lookup k = some v → GoodName sep k ∧ GoodValue v) (perm : es.Perm (entries t))
    (read : env.read 0 n = exportText sep es ++ List.replicate (n - (exportText sep es).length) 0)
    (room : m.keys.length ≤ importSize n) :
    ∃ t', himportR hk old env n sep 0 false [] = some (t', true) ∧ Rep t' m := by
  have vars : (es.map varOf).Perm m.entries := (perm.map varOf).trans rep.entries_perm
  rw [exportText_eq] at read
  cases hvs : es.map varOf with
  | nil =>
    rw [hvs] at read vars
    have pos : n ≠ 0 := by
      rintro rfl
      have len := congrArg List.length read
      simp [exportLines] at len
    obtain ⟨n, rfl⟩ := Nat.exists_eq_succ_of_ne_zero pos
    obtain ⟨t', eq, r⟩ := @himportR_zeros hk sep old env (n + 1) acc pos (by
      rw [read, List.replicate_succ]
      rfl)
    refine ⟨t', eq, r.perm ?_⟩
    rw [List.nil_perm.1 vars]
    exact .refl _
  | cons x vs =>
    rw [hvs] at read vars
    have mem : ∀ y ∈ x :: vs, GoodName sep y.1 ∧ GoodValue y.2 := by
      intro y hy
      exact good _ _ (AList.mem_lookup_iff.2 (vars.mem_iff.1 hy))
    have nodup : (x :: vs).NodupKeys := (List.perm_nodupKeys vars).2 m.nodupKeys
    have count : (x :: vs).length = m.keys.length := by
      rw [vars.length_eq, length_keys]
    rw [exportLines_eq, List.append_assoc, List.singleton_append] at read
    obtain ⟨t', eq, r⟩ := @himportR_lines hk sep old env n _ _ acc gs.eq (by simp) (by
      intro y hy
      obtain ⟨z, hz, rfl⟩ := List.mem_map.1 hy
      obtain ⟨gn, gv⟩ := mem z hz
      exact ⟨gn, (gv.text gs.bs).1⟩) read
    refine ⟨t', eq, r.perm ?_⟩
    have all := @enterAll_export ∅ sep (importSize n) _ gs.bs (fun y hy => (mem y hy).2) nodup
      (fun y _ => AList.notMem_empty y.1)
      (by rw [count]; simpa using room)
    exact (by simpa using all : List.Perm _ (x :: vs)).trans vars

/-- Importing an exported environment gives it back: the table made by `himport_r` from what
`hexport_r` wrote holds the same map, provided that the buffer holds what the second pass writes
and the new table has a slot for every variable. -/
theorem import_export {rx : Regex} {old : Option Htab} {resp : Option Mem} {calloc : Bool}
    {size : Nat} (acc : hk.Accepting) (rep : Rep t m) (gs : GoodSep sep)
    (good : ∀ k v, m.lookup k = some v → GoodName sep k ∧ GoodValue v)
    (dots : hasFlag flag hHideDot = false) (buffer : resp ≠ none ∨ calloc = true)
    (fits : size = 0 ∨ totlen sep (entries t) < size)
    (big : (exportText sep (entries t)).length ≤ exportSize sep (entries t) size)
    (slots : ∀ t0, hcreateR (importEntries (exportSize sep (entries t) size)) = some t0 →
      m.keys.length ≤ t0.size) :
    ∃ n env t', hexportR rx t sep flag resp calloc size [] = some (n, env) ∧
      himportR hk old env n sep 0 false [] = some (t', true) ∧ Rep t' m := by
  obtain ⟨es, env, perm, written, read⟩ := hexportR_eq rx dots buffer fits big
  obtain ⟨create, -⟩ := hcreateR_import (exportSize sep (entries t) size)
  obtain ⟨t', eq, r⟩ := @import_text hk t m sep old es env _ acc rep gs good perm read
    (slots _ create)
  exact ⟨_, env, t', written, eq, r⟩

/-- A map with one variable. -/
lemma lookup_single {a b : CStr} (look : ((∅ : Map).insert a b).lookup k = some v) :
    k = a ∧ v = b := by
  by_cases ek : k = a
  · subst ek
    rw [AList.lookup_insert] at look
    exact ⟨rfl, (Option.some.inj look).symm⟩
  · rw [AList.lookup_insert_ne ek] at look
    contradiction

/-- A table of 67 slots with one variable, `a`, whose value needs escapes. -/
def sampleTable : Htab :=
  { (Htab.empty 67).set 46 (.used (firstHash 67 [97]) ⟨some [97], some [120, 59, 92], none, 0⟩) with
    filled := 1 }

/-- The map it holds. -/
def sampleMap : Map := (∅ : Map).insert [97] [120, 59, 92]

lemma sampleTable_rep : Rep sampleTable sampleMap := by
  have empty : Rep (Htab.empty 67) ∅ := Rep.empty ⟨by norm_num, by decide, by decide⟩
  exact empty.put _ 1 ⟨0, by decide, rfl, fun j' h => absurd h (Nat.not_lt_zero j')⟩
    (fun h => by cases h) (fun h => by cases h.1) rfl rfl rfl (by decide)

/-- The variable comes back through an export with `;` as the separator. -/
theorem import_export_escaped :
    ∃ n env t', hexportR none sampleTable 59 0 none true 0 [] = some (n, env) ∧
      himportR plainHooks none env n 59 0 false [] = some (t', true) ∧ Rep t' sampleMap := by
  refine import_export plainHooks_accepting sampleTable_rep
    ⟨by decide, by decide, by decide, by decide⟩ (fun k v look => ?_) rfl (.inr rfl) (.inl rfl)
    (by decide) (fun t0 create => ?_)
  · obtain ⟨rfl, rfl⟩ := lookup_single look
    exact ⟨⟨by decide, by decide, by decide, by decide, by rintro c ⟨⟩; decide⟩,
      ⟨by decide, by decide⟩⟩
  · rw [show importEntries (exportSize 59 (entries sampleTable) 0) = 65 from by decide]
      at create
    obtain rfl : Htab.empty 67 = t0 := Option.some.inj create
    decide

end Imx.HashTable
