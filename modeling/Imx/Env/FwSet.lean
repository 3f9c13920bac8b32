import Imx.Env.FwWrite

/-!
# Setting a variable from Linux

`fw_setenv` of `tools/env/fw_env.c`. It joins its arguments to a value, has `fw_env_write` change
the data area and writes that back with `fw_env_close`; the result of `fw_env_write` is dropped.
`specWrite` says what a change makes of the strings of a block, and `set_env_iff` when the tool
does what it reports.
-/

namespace Imx.Env.FwSet
open Imx.Base Imx.HashTable Imx.Env.FwWrite

/-! ## The code -/

/-- What `fw_setenv` works with. -/
structure Tool where
  /-- C `fw_env_open`: the data area -/
  fwEnvOpen : Option (List UInt8)
  /-- C `env_flags_validate_env_set_params`, which reads the types from the environment itself -/
  validateEnvSetParams : List UInt8 → CStr → List CStr → Int
  /-- is there memory of a size -/
  realloc : Nat → Bool
  aesFlag : Bool
  /-- C `env_aes_cbc_crypt` -/
  envAesCbcCrypt : List UInt8 → Int × List UInt8
  crc32 : List UInt8 → UInt32
  /-- C `flash_io` for writing -/
  flashIo : UInt32 → List UInt8 → Int

/-- Write the environment back (C `fw_env_close`): what is returned, and the data area that was
written, before it was encrypted. -/
def fwEnvClose (tl : Tool) (data : List UInt8) : Int × Option (List UInt8) :=
  let r := if tl.aesFlag then tl.envAesCbcCrypt data else (0, data)
  if r.1 ≠ 0 then (r.1, none)
  else if tl.flashIo (tl.crc32 r.2) r.2 ≠ 0 then (-1, none)
  else (0, some data)

/-- The loop that joins the arguments; no `value` is the empty one. The NUL of the last argument
becomes a blank. -/
def joinLoop (realloc : Nat → Bool) : List CStr → List UInt8 → Option (List UInt8)
  | [], value => some value
  | val :: valv, value =>
    let value := if value = [] then value else value.set (value.length - 1) 32
    if realloc (value.length + val.length + 1) then joinLoop realloc valv (value ++ val ++ [0])
    else none

/-- Set or delete a variable in the stored environment (C `fw_setenv`): what is returned, and the
data area that was written. -/
def fwSetenv (a : FwWrite.Access) (tl : Tool) : List CStr → Option (Int × Option (List UInt8))
  | [] => some (-1, none)
  | name :: valv =>
    match tl.fwEnvOpen with
    | none => some (-1, none)
    | some data =>
      if tl.validateEnvSetParams data name valv < 0 then some (1, none)
      else
        match joinLoop tl.realloc valv [] with
        | none => some (-1, none)
        | some value =>
          (fwEnvWrite a data name (cstrAt value 0)).map fun (r : List UInt8 × Int) =>
            fwEnvClose tl r.1

/-! ## Blocks and what a change makes of them -/

variable {a : FwWrite.Access} {tl : Tool} {data data' : List UInt8} {k w name value : CStr}
variable {x : Var} {vs us : List Var} {valv : List CStr} {ret : Int}

/-- A data area that holds the strings of some variables and the NUL behind them. -/
structure WellFormed (data : List UInt8) (vs : List Var) : Prop where
  plain : ∀ x ∈ vs, PlainVar x
  text : ∃ junk, data = rawLines 0 vs ++ 0 :: junk ∧ (vs = [] → ∃ junk', junk = 0 :: junk')

/-- The value of the first string that a search for a name finds. -/
def valueOf (vs : List Var) (name : CStr) : Option CStr :=
  (vs.find? fun x => x.1 = searched name).map fun x => x.2

/-- The strings that are left when the first one found is gone. -/
def others (vs : List Var) (name : CStr) : List Var := vs.eraseP fun x => x.1 = searched name

/-- The variable that the string `name=value` sets. -/
def asVar (name value : CStr) : Var :=
  ⟨searched name, (name ++ 61 :: value).drop ((searched name).length + 1)⟩

/-- There is room for the definition behind the strings of the others. -/
def Fits (size : Nat) (vs : List Var) (name value : CStr) : Prop :=
  (rawLines 0 (others vs name)).length + (name.length + 2 + (value.length + 1)) ≤ size

instance {size : Nat} : Decidable (Fits size vs name value) := inferInstanceAs (Decidable (_ ≤ _))

/-- A change of the variables in a block of some size, and what `fw_env_write` returns. -/
def specWrite (size : Nat) (vs : List Var) (name value : CStr) : List Var × Int :=
  if value = [] then (others vs name, 0)
  else if Fits size vs name value then (others vs name ++ [asVar name value], 0)
  else (others vs name, -1)

/-- The flags of the variable do not stand against the change. -/
def Permitted (a : FwWrite.Access) (data : List UInt8) (vs : List Var) (name value : CStr) : Prop :=
  match valueOf vs name with
  | some old =>
    if value = [] then a.validateVaraccess data name .preventDelete = false
    else
      a.validateVaraccess data name .preventOverwr = false ∧
        (a.validateVaraccess data name .preventNondefOverwr = true →
          old = (a.fwGetdefenv name).getD [])
  | none => value ≠ [] → a.validateVaraccess data name .preventCreate = false

/-! ## Strings -/

/-- A name is what the search looks for, unless there is a `=` in it. -/
lemma searched_split (mem : (61 : UInt8) ∈ name) : ∃ tail, name = searched name ++ 61 :: tail := by
  induction name with
  | nil => cases mem
  | cons c name ih =>
    rw [searched_cons]
    by_cases c61 : c = 61
    · exact ⟨name, by rw [if_pos c61, c61]; rfl⟩
    · obtain ⟨tail, eq⟩ := ih ((List.mem_cons.1 mem).resolve_left (Ne.symm c61))
      refine ⟨tail, ?_⟩
      rw [if_neg c61, List.cons_append, ← eq]

lemma searched_plain (name : CStr) : (61 : UInt8) ∉ searched name := by
  intro mem
  have := List.mem_takeWhile_imp mem
  simp at this

lemma searched_sub {c : UInt8} (mem : c ∈ searched name) : c ∈ name :=
  (List.takeWhile_prefix _).mem mem

/-- The string of a definition is one of a variable, whose value is the one given only where the
name has no `=`. -/
lemma asVar_eq (name value : CStr) :
    ∃ w, asVar name value = ⟨searched name, w⟩ ∧ name ++ 61 :: value = searched name ++ 61 :: w ∧
      (w = value ↔ (61 : UInt8) ∉ name) := by
  by_cases mem : (61 : UInt8) ∈ name
  · obtain ⟨tail, eq⟩ := searched_split mem
    have text : name ++ 61 :: value = searched name ++ 61 :: (tail ++ 61 :: value) := by
      conv_lhs => rw [eq]
      simp
    refine ⟨tail ++ 61 :: value, ?_, text, ?_⟩
    · rw [asVar, text, ← List.drop_drop, List.drop_left]
      rfl
    · constructor
      · intro same
        have len := congrArg List.length same
        simp at len
        omega
      · exact fun no => absurd mem no
  · refine ⟨value, ?_, by rw [searched_of_plain mem], by simp [mem]⟩
    rw [asVar, searched_of_plain mem, ← List.drop_drop, List.drop_left]
    rfl

lemma rawLines_asVar (us : List Var) (name value : CStr) :
    rawLines 0 (us ++ [⟨name, value⟩]) = rawLines 0 (us ++ [asVar name value]) := by
  obtain ⟨w, eq, text, -⟩ := asVar_eq name value
  rw [eq, rawLines_append, rawLines_append]
  congr 1
  simpa [rawLines, rawLine] using congrArg (· ++ [0]) text

lemma asVar_plain (nn : (0 : UInt8) ∉ name) (vn : (0 : UInt8) ∉ value) :
    PlainVar (asVar name value) := by
  refine ⟨fun mem => nn (searched_sub mem), searched_plain name, fun mem => ?_⟩
  have mem := List.mem_of_mem_drop mem
  rcases List.mem_append.1 mem with mem | mem
  · exact nn mem
  · exact vn ((List.mem_cons.1 mem).resolve_left (by decide))

lemma valueOf_append (us : List Var) (x : Var) (k : CStr) :
    valueOf (us ++ [x]) k =
      (valueOf us k).or (if x.1 = searched k then some x.2 else none) := by
  rw [valueOf, List.find?_append, Option.map_or, valueOf]
  by_cases e : x.1 = searched k
  · simp [e]
  · simp [e]

/-- The first string of another name stays. -/
lemma valueOf_others (ne : searched k ≠ searched name) :
    valueOf (others vs name) k = valueOf vs k := by
  rw [valueOf, valueOf, others]
  congr 1
  induction vs with
  | nil => rfl
  | cons x vs ih =>
    by_cases e : x.1 = searched name
    · have other : x.1 ≠ searched k := fun h => ne (h.symm.trans e)
      rw [List.eraseP_cons_of_pos (by simpa using e), List.find?_cons_of_neg (by simpa using other)]
    · rw [List.eraseP_cons_of_neg (by simpa using e), List.find?_cons, List.find?_cons, ih]

/-! ## The code and the change -/

lemma WellFormed.getenv (wf : WellFormed data vs) (k : CStr) :
    fwGetenv data k = some (valueOf vs k) := by
  obtain ⟨junk, rfl, -⟩ := wf.text
  exact fwGetenv_lines junk k wf.plain

/-- Deleting the string that was found. -/
lemma WellFormed.delete {us us' : List Var} (wf : WellFormed data (us ++ ⟨name, w⟩ :: us')) :
    ∃ data', deleteString data (rawLines 0 us).length
        ((rawLines 0 us).length + (name ++ 61 :: w).length) = some data' ∧
      data'.length = data.length ∧ WellFormed data' (us ++ us') := by
  obtain ⟨junk, rfl, -⟩ := wf.text
  obtain ⟨junk', eq, len, empty⟩ := @deleteString_lines w name us us' junk
    fun x hx => wf.plain x (by grind)
  exact ⟨_, eq, len, fun x hx => wf.plain x (by grind), junk', rfl, empty⟩

/-- Appending a definition, where there is room for it. -/
lemma WellFormed.append (wf : WellFormed data us) (nn : (0 : UInt8) ∉ name)
    (vn : (0 : UInt8) ∉ value) :
    if (rawLines 0 us).length + (name.length + 2 + (value.length + 1)) ≤ data.length then
      ∃ data', appendString data name value = some (data', 0) ∧ data'.length = data.length ∧
        WellFormed data' (us ++ [asVar name value])
    else appendString data name value = some (data, -1) := by
  obtain ⟨junk, rfl, empty⟩ := wf.text
  have append := appendString_lines wf.plain empty name value
  split_ifs at append ⊢ with room
  · obtain ⟨rest, eq, len⟩ := append
    refine ⟨_, eq, len, fun x mem => ?_, rest, by rw [rawLines_asVar], fun e => by simp at e⟩
    rcases List.mem_append.1 mem with mem | mem
    · exact wf.plain x mem
    · rw [List.mem_singleton.1 mem]
      exact asVar_plain nn vn
  · exact append

/-- Setting a value among the strings that are left. -/
lemma WellFormed.change (wf : WellFormed data us) (is : us = others vs name)
    (nn : (0 : UInt8) ∉ name) (vn : (0 : UInt8) ∉ value) :
    ∃ data', (if value = [] then some (data, 0) else appendString data name value) =
        some (data', (specWrite data.length vs name value).2) ∧
      data'.length = data.length ∧
      WellFormed data' (specWrite data.length vs name value).1 := by
  subst is
  have append := wf.append nn vn
  rw [specWrite]
  by_cases empty : value = []
  · rw [if_pos empty, if_pos empty]
    exact ⟨data, rfl, rfl, wf⟩
  · rw [if_neg empty, if_neg empty]
    split_ifs at append with room
    · rw [if_pos (show Fits data.length vs name value from room)]
      exact append
    · rw [if_neg (show ¬ Fits data.length vs name value from room)]
      exact ⟨data, append, rfl, wf⟩

/-- On a block of strings `fw_env_write` makes the change and returns what it says. -/
lemma fwEnvWrite_spec (wf : WellFormed data vs) (nn : (0 : UInt8) ∉ name)
    (vn : (0 : UInt8) ∉ value) (ok : Permitted a data vs name value) :
    ∃ data', fwEnvWrite a data name value =
        some (data', (specWrite data.length vs name value).2) ∧
      data'.length = data.length ∧
      WellFormed data' (specWrite data.length vs name value).1 := by
  obtain ⟨junk, eq, -⟩ := wf.text
  have search := searchLoop_block junk name wf.plain
  rw [← eq] at search
  rcases search with ⟨absent, found⟩ | ⟨us, w, us', rfl, absent, found⟩
  · have none : List.find? (fun x : Var => x.1 = searched name) vs = none :=
      List.find?_eq_none.2 (by simpa using absent)
    have same : vs = others vs name := (List.eraseP_of_forall_not (by simpa using absent)).symm
    obtain ⟨data', change, left⟩ := wf.change same nn vn
    refine ⟨data', ?_, left⟩
    rw [← change, fwEnvWrite, found]
    simp only [Permitted, valueOf, none, Option.map_none] at ok
    by_cases empty : value = []
    · simp [empty]
    · simp [empty, refused, ok empty]
  · have first : valueOf (us ++ ⟨searched name, w⟩ :: us') name = some w := by
      rw [valueOf, List.find?_append, List.find?_eq_none.2 (by simpa using absent),
        List.find?_cons_of_pos (by simp)]
      rfl
    have left : us ++ us' = others (us ++ ⟨searched name, w⟩ :: us') name := by
      rw [others, List.eraseP_append_right _ (by simpa using absent),
        List.eraseP_cons_of_pos (by simp)]
    have wn := (wf.plain ⟨searched name, w⟩ (by simp)).val
    have value' : cstrAt data ((rawLines 0 us).length + (searched name).length + 1) = w := by
      rw [eq]
      exact cstrAt_value us' (searched name) junk wn
    have free : refused a data name
        (some ((rawLines 0 us).length + (searched name).length + 1)) value = false := by
      simp only [Permitted, first] at ok
      rw [refused, value']
      split_ifs at ok ⊢ with empty
      · exact ok
      · rw [ok.1, Bool.false_or]
        by_cases nondef : a.validateVaraccess data name .preventNondefOverwr = true
        · simp [ok.2 nondef]
        · simp [nondef]
    obtain ⟨data1, del, len1, wf1⟩ := wf.delete
    obtain ⟨data', change, len, wf'⟩ := wf1.change left nn vn
    rw [len1] at change len wf'
    refine ⟨data', ?_, len, wf'⟩
    rw [← change, fwEnvWrite, found]
    simp only [Option.bind_eq_bind, Option.bind_some, free, Bool.false_eq_true, if_false, del]

/-! ## The value asked for -/

/-- The arguments with a blank between them. -/
def requested (valv : List CStr) : CStr := [32].intercalate valv

lemma requested_nul (args : ∀ v ∈ valv, (0 : UInt8) ∉ v) : (0 : UInt8) ∉ requested valv := by
  induction valv with
  | nil => simp [requested]
  | cons v valv ih =>
    obtain ⟨vn, args⟩ := List.forall_mem_cons.1 args
    have ih := ih args
    cases valv with
    | nil => simpa [requested] using vn
    | cons v' valv =>
      rw [requested, List.intercalate_cons_cons, ← requested]
      simp [vn, ih]

/-- One more argument behind the text so far. -/
lemma joinLoop_cons (realloc : Nat → Bool) (s v : CStr) (valv : List CStr) :
    joinLoop realloc (v :: valv) (s ++ [0]) =
      if realloc (s.length + 1 + v.length + 1) then
        joinLoop realloc valv ((s ++ [32] ++ v) ++ [0])
      else none := by
  have blank : (s ++ [0]).set ((s ++ [0]).length - 1) 32 = s ++ [32] := by
    simp
  have some' : ¬ s ++ [0] = [] := by simp
  simp only [joinLoop, if_neg some', blank]
  rw [List.length_append, List.length_singleton]

/-- The loop stores the text so far and the other arguments, each behind a blank. -/
lemma joinLoop_eq {realloc : Nat → Bool} (s : CStr) {value : List UInt8}
    (joined : joinLoop realloc valv (s ++ [0]) = some value) :
    value = requested (s :: valv) ++ [0] := by
  induction valv generalizing s with
  | nil =>
    rw [requested, List.intercalate_singleton]
    exact (Option.some.inj joined).symm
  | cons v valv ih =>
    rw [joinLoop_cons] at joined
    split_ifs at joined
    rw [ih _ joined, requested, requested, List.intercalate_cons_cons]
    cases valv with
    | nil => simp
    | cons v' valv => simp [List.intercalate_cons_cons]

lemma joinLoop_all (s : CStr) (valv : List CStr) :
    ∃ value, joinLoop (fun _ => true) valv (s ++ [0]) = some value := by
  induction valv generalizing s with
  | nil => exact ⟨_, rfl⟩
  | cons v valv ih =>
    rw [joinLoop_cons, if_pos rfl]
    exact ih _

/-- What the joined arguments are as a string. -/
lemma joined_value {realloc : Nat → Bool} {value : List UInt8}
    (args : ∀ v ∈ valv, (0 : UInt8) ∉ v) (joined : joinLoop realloc valv [] = some value) :
    cstrAt value 0 = requested valv := by
  cases valv with
  | nil =>
    obtain rfl := Option.some.inj joined
    rfl
  | cons v valv =>
    rw [joinLoop] at joined
    simp only [if_true, List.nil_append] at joined
    split_ifs at joined
    rw [joinLoop_eq v joined]
    exact @cstrAt_cut [] [] _ (requested_nul args)

lemma joined_all (valv : List CStr) : ∃ value, joinLoop (fun _ => true) valv [] = some value := by
  cases valv with
  | nil => exact ⟨_, rfl⟩
  | cons v valv =>
    rw [joinLoop]
    simp only [if_true, List.nil_append]
    exact joinLoop_all v valv

lemma fwEnvClose_zero {block : Option (List UInt8)} (closed : fwEnvClose tl data = (0, block)) :
    block = some data := by
  rw [fwEnvClose] at closed
  generalize (if tl.aesFlag then tl.envAesCbcCrypt data else (0, data)) = r at closed
  split_ifs at closed with crypt flash
  · exact absurd (Prod.mk.inj closed).1 crypt
  · exact absurd (Prod.mk.inj closed).1 (by decide)
  · exact (Prod.mk.inj closed).2.symm

/-- What `fw_setenv` writes back when it returns 0 is what `fw_env_write` left. -/
lemma fwSetenv_zero {block : Option (List UInt8)} (args : ∀ v ∈ valv, (0 : UInt8) ∉ v)
    (opened : tl.fwEnvOpen = some data)
    (done : fwSetenv a tl (name :: valv) = some (0, block)) :
    ∃ data' ret, fwEnvWrite a data name (requested valv) = some (data', ret) ∧
      block = some data' := by
  rw [fwSetenv, opened] at done
  simp only at done
  split_ifs at done
  · simp at done
  · cases joined : joinLoop tl.realloc valv [] with
    | none => simp [joined] at done
    | some value =>
      rw [joined] at done
      simp only [joined_value args joined] at done
      obtain ⟨⟨data', ret⟩, written, closed⟩ := Option.map_eq_some_iff.1 done
      exact ⟨data', ret, written, fwEnvClose_zero closed⟩

/-- A tool that nothing stands in the way of. -/
def sound (data : List UInt8) : Tool where
  fwEnvOpen := some data
  validateEnvSetParams _ _ _ := 0
  realloc _ := true
  aesFlag := false
  envAesCbcCrypt data := (0, data)
  crc32 _ := 0
  flashIo _ _ := 0

/-- The tool returns 0 then, whatever `fw_env_write` returned. -/
lemma fwSetenv_sound (args : ∀ v ∈ valv, (0 : UInt8) ∉ v)
    (written : fwEnvWrite a data name (requested valv) = some (data', ret)) :
    fwSetenv a (sound data) (name :: valv) = some (0, some data') := by
  obtain ⟨value, joined⟩ := joined_all valv
  have same := joined_value args joined
  have params : ¬ (sound data).validateEnvSetParams data name valv < 0 := by
    exact Int.lt_irrefl 0
  rw [fwSetenv, show (sound data).fwEnvOpen = some data from rfl]
  simp only [if_neg params, show (sound data).realloc = fun _ => true from rfl, joined, same,
    written, Option.map_some]
  rfl

/-! ## When the tool does what it reports -/

/-- What a variable is to be: an empty value deletes it. -/
def wanted (value : CStr) : Option CStr := if value = [] then none else some value

/-- `fw_env_write` ends, and where it returns 0 the block is one of strings again, of the same size,
in which the variable is what it is to be and every other one what it was. -/
def WritesOne (a : FwWrite.Access) (data : List UInt8) (name value : CStr) : Prop :=
  ∃ data' ret, fwEnvWrite a data name value = some (data', ret) ∧
    (ret = 0 →
      data'.length = data.length ∧ (∃ vs', WellFormed data' vs') ∧
        fwGetenv data' name = some (wanted value) ∧
        ∀ k : CStr, (0 : UInt8) ∉ k → (61 : UInt8) ∉ k → k ≠ name →
          fwGetenv data' k = fwGetenv data k)

/-- `fw_setenv` returns 0 only with a block written back in which the variable is what it is to
be. -/
def ReportsTruly (a : FwWrite.Access) (data : List UInt8) (name : CStr) (valv : List CStr) : Prop :=
  ∀ (tl : Tool) (block : Option (List UInt8)), tl.fwEnvOpen = some data →
    fwSetenv a tl (name :: valv) = some (0, block) →
      ∃ d, block = some d ∧ fwGetenv d name = some (wanted (requested valv))

/-- The definition has room, or there is none, and the name is defined no second time. A second
definition shows when the first one is gone, which does no harm where it has the value wanted; and
a name with a `=` in it is another name with a longer value. -/
def Settable (size : Nat) (vs : List Var) (name value : CStr) : Prop :=
  match valueOf (others vs name) name with
  | none =>
    if (61 : UInt8) ∈ name then value = [] ∧ valueOf vs name = none
    else value = [] ∨ Fits size vs name value
  | some again =>
    value ≠ [] ∧ again = value ∧
      ((61 : UInt8) ∈ name → Fits size vs name value → valueOf vs name = some value)

/-- The other variables are what they were, unless the name has a `=` in it. -/
lemma valueOf_other (size : Nat) (value : CStr) (ne : searched k ≠ searched name) :
    valueOf (specWrite size vs name value).1 k = valueOf vs k := by
  rw [specWrite]
  split_ifs
  · exact valueOf_others ne
  · rw [valueOf_append, valueOf_others ne, asVar, if_neg (Ne.symm ne), Option.or_none]
  · exact valueOf_others ne

lemma searched_idem (name : CStr) : searched (searched name) = searched name :=
  searched_of_plain (searched_plain name)

lemma valueOf_searched (vs : List Var) (name : CStr) :
    valueOf vs (searched name) = valueOf vs name := by
  rw [valueOf, valueOf, searched_idem]

/-- Nothing else changes exactly when the variable in front of a `=` has the value before that it
has afterwards. -/
lemma writesOne_iff {vs' : List Var} (wf : WellFormed data vs) (nn : (0 : UInt8) ∉ name)
    (written : fwEnvWrite a data name value = some (data', ret)) (len : data'.length = data.length)
    (wf' : WellFormed data' vs') (is : vs' = (specWrite data.length vs name value).1) :
    WritesOne a data name value ↔
      (ret = 0 → valueOf vs' name = wanted value ∧
        ((61 : UInt8) ∈ name → valueOf vs name = wanted value)) := by
  constructor
  · rintro ⟨d, r, written', writes⟩ zero
    obtain ⟨rfl, rfl⟩ := Prod.mk.inj (Option.some.inj (written.symm.trans written'))
    obtain ⟨-, -, value', others'⟩ := writes zero
    rw [wf'.getenv, Option.some.injEq] at value'
    refine ⟨value', fun mem => ?_⟩
    have other := others' (searched name) (fun mem => nn (searched_sub mem)) (searched_plain name)
      fun e => searched_plain name (e.symm ▸ mem)
    rw [wf'.getenv, wf.getenv, valueOf_searched, valueOf_searched, value',
      Option.some.injEq] at other
    exact other.symm
  · intro writes
    refine ⟨data', ret, written, fun zero => ?_⟩
    obtain ⟨value', other⟩ := writes zero
    refine ⟨len, ⟨vs', wf'⟩, by rw [wf'.getenv, value'], fun k kn ke ne => ?_⟩
    rw [wf'.getenv, wf.getenv]
    by_cases same : k = searched name
    · have mem : (61 : UInt8) ∈ name := by
        by_contra no
        exact ne (same.trans (searched_of_plain no))
      rw [same, valueOf_searched, valueOf_searched, value', other mem]
    · rw [is, valueOf_other _ _ (by rwa [searched_of_plain ke])]

/-- A tool that returns 0 wrote the value exactly when `fw_env_write` left it. -/
lemma reportsTruly_iff {vs' : List Var} (args : ∀ v ∈ valv, (0 : UInt8) ∉ v)
    (written : fwEnvWrite a data name (requested valv) = some (data', ret))
    (wf' : WellFormed data' vs') :
    ReportsTruly a data name valv ↔ valueOf vs' name = wanted (requested valv) := by
  constructor
  · intro truly
    obtain ⟨d, eq, value⟩ := truly (sound data) _ rfl (fwSetenv_sound args written)
    obtain rfl := Option.some.inj eq
    rwa [wf'.getenv, Option.some.injEq] at value
  · intro value tl block opened done
    obtain ⟨d, r, written', rfl⟩ := fwSetenv_zero args opened done
    obtain ⟨rfl, -⟩ := Prod.mk.inj (Option.some.inj (written.symm.trans written'))
    exact ⟨data', rfl, by rw [wf'.getenv, value]⟩

/-- When the change gives the value. -/
lemma spec_iff (size : Nat) (vs : List Var) (name value : CStr) :
    (((specWrite size vs name value).2 = 0 →
        valueOf (specWrite size vs name value).1 name = wanted value ∧
          ((61 : UInt8) ∈ name → valueOf vs name = wanted value)) ∧
      valueOf (specWrite size vs name value).1 name = wanted value) ↔
      Settable size vs name value := by
  obtain ⟨w, new, -, whole⟩ := asVar_eq name value
  rw [specWrite, wanted, Settable]
  cases again : valueOf (others vs name) name with
  | none =>
    by_cases empty : value = []
    · subst empty
      simp only [if_true, again]
      by_cases mem : (61 : UInt8) ∈ name
      · simp [mem]
      · simp [mem]
    · simp only [if_neg empty]
      by_cases room : Fits size vs name value
      · simp only [if_pos room, valueOf_append, again, new, if_true, Option.none_or]
        by_cases mem : (61 : UInt8) ∈ name
        · simp [mem, empty, whole]
        · simp [mem, empty, room, whole]
      · simp only [if_neg room, again]
        simp [empty, room]
  | some v =>
    by_cases empty : value = []
    · simp [empty, again]
    · simp only [if_neg empty]
      by_cases room : Fits size vs name value
      · simp only [if_pos room, valueOf_append, again, Option.some_or]
        simp [empty, room]
        tauto
      · simp [again, empty, room]

/-- `fw_env_write` that returns 0 changes one variable, and `fw_setenv` returns 0 only with the
value written back, exactly when the definition has room behind those of the others and no second
definition of the name shows: `fw_setenv` does not look at what `fw_env_write` returned. -/
theorem set_env_iff (wf : WellFormed data vs) (nn : (0 : UInt8) ∉ name)
    (args : ∀ v ∈ valv, (0 : UInt8) ∉ v) (ok : Permitted a data vs name (requested valv)) :
    (WritesOne a data name (requested valv) ∧ ReportsTruly a data name valv) ↔
      Settable data.length vs name (requested valv) := by
  obtain ⟨data', written, len, wf'⟩ := fwEnvWrite_spec wf nn (requested_nul args) ok
  rw [writesOne_iff wf nn written len wf' rfl, reportsTruly_iff args written wf', spec_iff]

/-- A block of 8 bytes with `a=1`. -/
lemma block_a : WellFormed [97, 61, 49, 0, 0, 0, 0, 0] [⟨[97], [49]⟩] := by
  refine ⟨fun x mem => ?_, [0, 0, 0], rfl, fun e => by cases e⟩
  rw [List.mem_singleton.1 mem]
  exact ⟨by decide, by decide, by decide⟩

lemma permitted_a (value : CStr) : Permitted plainAccess [97, 61, 49, 0, 0, 0, 0, 0]
    [⟨[97], [49]⟩] [97] value := by
  by_cases empty : value = []
  · simp [Permitted, valueOf, searched, plainAccess, empty]
  · simp [Permitted, valueOf, searched, plainAccess, empty]

/-- `fw_setenv a 2 3` where `a` is 1: there is room for it. -/
theorem set_env_fits :
    WritesOne plainAccess [97, 61, 49, 0, 0, 0, 0, 0] [97] (requested [[50], [51]]) ∧
      ReportsTruly plainAccess [97, 61, 49, 0, 0, 0, 0, 0] [97] [[50], [51]] :=
  (set_env_iff block_a (by decide) (by decide) (permitted_a _)).2 (.inr (by decide))

/-- `fw_setenv a 23456` where `a` is 1 in a block of 8 bytes: there is no room, 0 is returned, and
no `a` is in the block that is written back. -/
theorem set_env_overflow :
    WellFormed [97, 61, 49, 0, 0, 0, 0, 0] [⟨[97], [49]⟩] ∧
      (∀ op, plainAccess.validateVaraccess [97, 61, 49, 0, 0, 0, 0, 0] [97] op = false) ∧
      fwSetenv plainAccess (sound [97, 61, 49, 0, 0, 0, 0, 0]) [[97], [50, 51, 52, 53, 54]] =
        some (0, some [0, 0, 49, 0, 0, 0, 0, 0]) ∧
      fwGetenv [0, 0, 49, 0, 0, 0, 0, 0] [97] = some none ∧
      ¬ ReportsTruly plainAccess [97, 61, 49, 0, 0, 0, 0, 0] [97] [[50, 51, 52, 53, 54]] := by
  have done : fwSetenv plainAccess (sound [97, 61, 49, 0, 0, 0, 0, 0])
      [[97], [50, 51, 52, 53, 54]] = some (0, some [0, 0, 49, 0, 0, 0, 0, 0]) := by decide
  have gone : fwGetenv [0, 0, 49, 0, 0, 0, 0, 0] [97] = some none := by decide
  refine ⟨block_a, fun _ => rfl, done, gone, fun truly => ?_⟩
  obtain ⟨d, eq, value⟩ := truly _ _ rfl done
  obtain rfl := Option.some.inj eq
  rw [gone] at value
  exact absurd value (by decide)

end Imx.Env.FwSet
