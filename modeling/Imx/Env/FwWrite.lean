import Imx.HashTable.RoundTrip

/-!
# The environment text of the Linux tool

`fw_env_write` and `fw_getenv` of `tools/env/fw_env.c` on the data area of the environment, a list
of `ENV_SIZE` bytes. They know the text only as `name=value` strings one after the other: a value
is copied as it is, while `himport_r` and `hexport_r` escape and unescape. `tools_text_iff` says
when the two sides agree all the same.

The outer `none` of a result stands for an access outside of the data area.
-/

namespace Imx.Env.FwWrite
open Imx.Base Imx.HashTable

/-! ## The code -/

/-- Does the string at `s2` set the variable `s1` (C `envmatch`): where its value begins. -/
def envmatch (data : List UInt8) : CStr → Nat → Option (Option Nat)
  | [], s2 =>
    match data[s2]? with
    | none => none
    | some c => if c = 0 then none else some (if c = 61 then some (s2 + 1) else none)
  | a :: s1, s2 =>
    match data[s2]? with
    | none => none
    | some c =>
      if a = c then if a = 61 then some (some (s2 + 1)) else envmatch data s1 (s2 + 1)
      else some none

/-- The end of the string at `nxt`, at most `fuel` bytes on; the inner `none` is the report of an
environment that is not terminated, which comes only after a byte behind it was read. -/
def stringEnd (data : List UInt8) : Nat → Nat → Option (Option Nat)
  | 0, _ => none
  | fuel + 1, nxt =>
    match data[nxt]? with
    | none => none
    | some c =>
      if c = 0 then some (some nxt)
      else if data.length ≤ nxt then some none
      else stringEnd data fuel (nxt + 1)

/-- How a search ends. -/
inductive Search where
  | error
  | absent
  | found (env nxt val : Nat)
deriving DecidableEq, Repr

/-- The loop over the strings that `fw_getenv` and `fw_env_write` share, at most `fuel` turns. -/
def searchLoop (data : List UInt8) (name : CStr) : Nat → Nat → Option Search
  | 0, _ => none
  | fuel + 1, env =>
    match data[env]? with
    | none => none
    | some c =>
      if c = 0 then some .absent
      else
        match stringEnd data (data.length + 1) env with
        | none => none
        | some none => some .error
        | some (some nxt) =>
          match envmatch data name env with
          | none => none
          | some (some val) => some (.found env nxt val)
          | some none => searchLoop data name fuel (nxt + 1)

/-- The value of a variable, or NULL (C `fw_getenv`). -/
def fwGetenv (data : List UInt8) (name : CStr) : Option (Option CStr) :=
  (searchLoop data name (data.length + 1) 0).map fun (s : Search) =>
    match s with
    | .found _ _ val => some (cstrAt data val)
    | _ => none

/-- Ways of access that a variable's flags may prevent. -/
inductive VarAccess where
  | preventDelete
  | preventCreate
  | preventOverwr
  | preventNondefOverwr
deriving DecidableEq, Repr

/-- What the tool consults before it changes a variable. -/
structure Access where
  /-- C `env_flags_validate_varaccess`, which reads the flags from the environment itself -/
  validateVaraccess : List UInt8 → CStr → VarAccess → Bool
  /-- C `fw_getdefenv` -/
  fwGetdefenv : CStr → Option CStr

/-- Move what follows a deleted string down, at most `fuel` bytes of it; gives where the last byte
went. -/
def moveLoop : Nat → List UInt8 → Nat → Nat → Option (List UInt8 × Nat)
  | 0, _, _, _ => none
  | fuel + 1, data, env, nxt =>
    match data[nxt]? with
    | none => none
    | some c =>
      match (data.set env c)[nxt + 1]? with
      | none => none
      | some d =>
        if c = 0 ∧ d = 0 then some (data.set env c, env)
        else moveLoop fuel (data.set env c) (env + 1) (nxt + 1)

/-- Delete the string from `env` to its NUL at `nxt`. -/
def deleteString (data : List UInt8) (env nxt : Nat) : Option (List UInt8) :=
  match data[nxt + 1]? with
  | none => none
  | some c =>
    if c = 0 then (store data env 0).bind fun (data : List UInt8) => store data (env + 1) 0
    else (moveLoop (data.length + 1) data env (nxt + 1)).bind
      fun (r : List UInt8 × Nat) => store r.1 (r.2 + 1) 0

/-- The first of two NUL bytes, at most `fuel` bytes from `env` on. -/
def endLoop (data : List UInt8) : Nat → Nat → Option Nat
  | 0, _ => none
  | fuel + 1, env =>
    match data[env]? with
    | none => none
    | some c =>
      if c ≠ 0 then endLoop data fuel (env + 1)
      else
        match data[env + 1]? with
        | none => none
        | some d => if d ≠ 0 then endLoop data fuel (env + 1) else some env

/-- Store some bytes one after the other. -/
def storeAll (data : List UInt8) (env : Nat) : List UInt8 → Option (List UInt8)
  | [] => some data
  | c :: cs => (store data env c).bind fun (data : List UInt8) => storeAll data (env + 1) cs

/-- Append a definition; -1 is returned where it does not fit. The name is copied with its NUL, over
which the `=` is stored then. -/
def appendString (data : List UInt8) (name value : CStr) : Option (List UInt8 × Int) := do
  let env ← endLoop data (data.length + 1) 0
  let env := if 0 < env then env + 1 else env
  if name.length + 2 + (value.length + 1) > data.length - env then some (data, -1)
  else
    let data ← storeAll data env (name ++ [0])
    let data ← store data (env + name.length) 61
    let data ← storeAll data (env + name.length + 1) (value ++ [0])
    let data ← store data (env + name.length + 1 + value.length + 1) 0
    some (data, 0)

/-- Is a change refused; `val` is where the old value is. -/
def refused (a : Access) (data : List UInt8) (name : CStr) (val : Option Nat) (value : CStr) :
    Bool :=
  match val with
  | some val =>
    if value = [] then a.validateVaraccess data name .preventDelete
    else a.validateVaraccess data name .preventOverwr ||
      (a.validateVaraccess data name .preventNondefOverwr &&
        cstrAt data val != (a.fwGetdefenv name).getD [])
  | none => a.validateVaraccess data name .preventCreate

/-- Set or delete a variable (C `fw_env_write`), where no value is the empty one. -/
def fwEnvWrite (a : Access) (data : List UInt8) (name value : CStr) :
    Option (List UInt8 × Int) := do
  match ← searchLoop data name (data.length + 1) 0 with
  | .error => some (data, -1)
  | .absent =>
    if value = [] then some (data, 0)
    else if refused a data name none value then some (data, -1)
    else appendString data name value
  | .found env nxt val =>
    if refused a data name (some val) value then some (data, -1)
    else
      let data ← deleteString data env nxt
      if value = [] then some (data, 0) else appendString data name value

/-! ## Searching -/

/-- A name in a block: a C string that is not empty and has no `=`. -/
structure PlainName (k : CStr) : Prop where
  ne : k ≠ []
  nul : (0 : UInt8) ∉ k
  eq : (61 : UInt8) ∉ k

/-- A string of a block: there is no NUL in it, and what stands in front of the first `=` is its
name. -/
structure PlainVar (x : Var) : Prop where
  nul : (0 : UInt8) ∉ x.1
  eq : (61 : UInt8) ∉ x.1
  val : (0 : UInt8) ∉ x.2

/-- The name a search looks for: it ends in front of the first `=`. -/
def searched (name : CStr) : CStr := name.takeWhile (· ≠ 61)

variable {k w name value : CStr} {pre rest junk : List UInt8} {x : Var} {vs : List Var}

@[simp] lemma searched_nil : searched [] = [] := rfl

lemma searched_cons (c : UInt8) (name : CStr) :
    searched (c :: name) = if c = 61 then [] else c :: searched name := by
  by_cases e : c = 61
  · simp [searched, e]
  · simp [searched, e]

lemma searched_of_plain (ne : (61 : UInt8) ∉ name) : searched name = name :=
  List.takeWhile_eq_self_iff.2 fun c hc => by
    have c61 : c ≠ 61 := fun e => ne (e ▸ hc)
    simpa using c61

lemma PlainName.var (pk : PlainName x.1) (wn : (0 : UInt8) ∉ x.2) : PlainVar x :=
  ⟨pk.nul, pk.eq, wn⟩

/-- A byte some way into what stands behind `pre`. -/
lemma getElem?_behind {c : UInt8} (pre a rest : List UInt8) :
    (pre ++ (a ++ c :: rest))[pre.length + a.length]? = some c := by
  rw [← List.append_assoc, ← List.length_append]
  exact getElem?_cut

/-- A string defines the variable it names and no other one. -/
lemma envmatch_line (pre rest : List UInt8) (name : CStr) (kn : (0 : UInt8) ∉ k)
    (ke : (61 : UInt8) ∉ k) :
    envmatch (pre ++ (k ++ 61 :: rest)) name pre.length =
      some (if searched name = k then some (pre.length + k.length + 1) else none) := by
  induction k generalizing pre name with
  | nil =>
    have here : (pre ++ ([] ++ 61 :: rest))[pre.length]? = some 61 := getElem?_cut
    cases name with
    | nil =>
      rw [envmatch, here]
      rfl
    | cons a name =>
      rw [envmatch, here, searched_cons]
      by_cases a61 : a = 61
      · simp [a61]
      · simp [a61]
  | cons c k ih =>
    have here : (pre ++ (c :: k ++ 61 :: rest))[pre.length]? = some c := getElem?_cut
    have c0 : c ≠ 0 := fun e => kn (e ▸ List.mem_cons_self)
    have c61 : c ≠ 61 := fun e => ke (e ▸ List.mem_cons_self)
    cases name with
    | nil =>
      rw [envmatch, here]
      simp [c0, c61]
    | cons a name =>
      rw [envmatch, here, searched_cons]
      by_cases e : a = c
      · subst e
        have more := ih (pre ++ [a]) name (mt (List.mem_cons_of_mem _) kn)
          (mt (List.mem_cons_of_mem _) ke)
        rw [show pre ++ [a] ++ (k ++ 61 :: rest) = pre ++ (a :: k ++ 61 :: rest) from by simp,
          show (pre ++ [a]).length = pre.length + 1 from by simp] at more
        simp only [if_true, if_neg c61, more, List.cons.injEq, true_and, List.length_cons]
        rw [show pre.length + 1 + k.length + 1 = pre.length + (k.length + 1) + 1 from by omega]
      · by_cases a61 : a = 61
        · simp [a61, Ne.symm c61]
        · simp [e, a61]

/-- The end of a string without NUL. -/
lemma stringEnd_append {s : List UInt8} {fuel : Nat} (pre rest : List UInt8)
    (nul : (0 : UInt8) ∉ s) (enough : s.length < fuel) :
    stringEnd (pre ++ (s ++ 0 :: rest)) fuel pre.length = some (some (pre.length + s.length)) := by
  induction s generalizing pre fuel with
  | nil =>
    obtain ⟨fuel, rfl⟩ : ∃ f, fuel = f + 1 := ⟨fuel - 1, by simp at enough; omega⟩
    have here : (pre ++ ([] ++ 0 :: rest))[pre.length]? = some 0 := getElem?_cut
    rw [stringEnd, here]
    rfl
  | cons c s ih =>
    obtain ⟨fuel, rfl⟩ : ∃ f, fuel = f + 1 := ⟨fuel - 1, by simp at enough; omega⟩
    have here : (pre ++ (c :: s ++ 0 :: rest))[pre.length]? = some c := getElem?_cut
    have c0 : c ≠ 0 := fun e => nul (e ▸ List.mem_cons_self)
    have more := @ih fuel (pre ++ [c]) (mt (List.mem_cons_of_mem _) nul)
      (by simp at enough; omega)
    rw [show pre ++ [c] ++ (s ++ 0 :: rest) = pre ++ (c :: s ++ 0 :: rest) from by simp,
      show (pre ++ [c]).length = pre.length + 1 from by simp] at more
    rw [stringEnd, here]
    simp only [if_neg c0, more]
    rw [if_neg (by simp), List.length_cons,
      show pre.length + 1 + s.length = pre.length + (s.length + 1) from by omega]

/-- A string begins with a byte that is not NUL, even without a name. -/
lemma rawLine_head (kn : (0 : UInt8) ∉ k) (w rest : List UInt8) :
    ∃ c text, rawLine 0 k w ++ rest = c :: text ∧ c ≠ 0 := by
  cases k with
  | nil => exact ⟨61, w ++ [0] ++ rest, by simp [rawLine], by decide⟩
  | cons c k =>
    refine ⟨c, k ++ 61 :: w ++ [0] ++ rest, by simp [rawLine], fun e => kn ?_⟩
    rw [e]
    exact List.mem_cons_self

/-- One turn of the search, at a string. -/
lemma searchLoop_line {fuel : Nat} (pre rest : List UInt8) (name : CStr) (pv : PlainVar x) :
    searchLoop (pre ++ (rawLine 0 x.1 x.2 ++ rest)) name (fuel + 1) pre.length =
      if searched name = x.1 then
        some (.found pre.length (pre.length + (x.1 ++ 61 :: x.2).length)
          (pre.length + x.1.length + 1))
      else
        searchLoop (pre ++ (rawLine 0 x.1 x.2 ++ rest)) name fuel
          (pre ++ rawLine 0 x.1 x.2).length := by
  have text : rawLine 0 x.1 x.2 ++ rest = (x.1 ++ 61 :: x.2) ++ 0 :: rest := by simp [rawLine]
  have nul : (0 : UInt8) ∉ x.1 ++ 61 :: x.2 := by simp [pv.nul, pv.val]
  obtain ⟨c, more, head, c0⟩ := rawLine_head pv.nul x.2 rest
  have here : (pre ++ (rawLine 0 x.1 x.2 ++ rest))[pre.length]? = some c := by
    rw [head]
    exact getElem?_cut
  have ends := @stringEnd_append _ ((pre ++ (rawLine 0 x.1 x.2 ++ rest)).length + 1) pre rest
    nul (by simp [rawLine]; omega)
  have hit := envmatch_line pre (x.2 ++ 0 :: rest) name pv.nul pv.eq
  rw [← text] at ends
  rw [show x.1 ++ 61 :: (x.2 ++ 0 :: rest) = rawLine 0 x.1 x.2 ++ rest from by
    simp [rawLine]] at hit
  rw [searchLoop, here]
  simp only [if_neg c0, ends, hit]
  by_cases e : searched name = x.1
  · simp only [if_pos e]
  · simp only [if_neg e]
    congr 1
    simp [rawLine]
    omega

/-- The search over the strings of a block. -/
lemma searchLoop_lines {fuel : Nat} (pre rest : List UInt8) (name : CStr)
    (plain : ∀ x ∈ vs, PlainVar x) (enough : vs.length < fuel) :
    ((∀ x ∈ vs, x.1 ≠ searched name) ∧
        searchLoop (pre ++ (rawLines 0 vs ++ 0 :: rest)) name fuel pre.length = some .absent) ∨
      ∃ us w us', vs = us ++ ⟨searched name, w⟩ :: us' ∧ (∀ x ∈ us, x.1 ≠ searched name) ∧
        searchLoop (pre ++ (rawLines 0 vs ++ 0 :: rest)) name fuel pre.length =
          some (.found (pre ++ rawLines 0 us).length
            ((pre ++ rawLines 0 us).length + (searched name ++ 61 :: w).length)
            ((pre ++ rawLines 0 us).length + (searched name).length + 1)) := by
  induction vs generalizing pre fuel with
  | nil =>
    obtain ⟨fuel, rfl⟩ : ∃ f, fuel = f + 1 := ⟨fuel - 1, by simp at enough; omega⟩
    have here : (pre ++ (rawLines 0 [] ++ 0 :: rest))[pre.length]? = some 0 := getElem?_cut
    refine .inl ⟨List.forall_mem_nil _, ?_⟩
    rw [searchLoop, here]
    rfl
  | cons x vs ih =>
    obtain ⟨fuel, rfl⟩ : ∃ f, fuel = f + 1 := ⟨fuel - 1, by simp at enough; omega⟩
    have line := @searchLoop_line x fuel pre (rawLines 0 vs ++ 0 :: rest) name
      (plain x List.mem_cons_self)
    rw [rawLines_cons, List.append_assoc]
    rw [line]
    by_cases e : searched name = x.1
    · refine .inr ⟨[], x.2, vs, ?_, List.forall_mem_nil _, ?_⟩
      · rw [e]
        rfl
      · rw [if_pos e, e]
        simp [rawLines]
    · simp only [if_neg e]
      have more := @ih fuel (pre ++ rawLine 0 x.1 x.2)
        (fun y hy => plain y (List.mem_cons_of_mem _ hy)) (by simp at enough; omega)
      rw [List.append_assoc] at more
      rcases more with ⟨absent, eq⟩ | ⟨us, w, us', rfl, absent, eq⟩
      · exact .inl ⟨List.forall_mem_cons.2 ⟨Ne.symm e, absent⟩, eq⟩
      · refine .inr ⟨x :: us, w, us', rfl, List.forall_mem_cons.2 ⟨Ne.symm e, absent⟩, ?_⟩
        rw [eq, rawLines_cons, List.append_assoc]

/-- The search over a whole block. -/
lemma searchLoop_block (rest : List UInt8) (name : CStr) (plain : ∀ x ∈ vs, PlainVar x) :
    ((∀ x ∈ vs, x.1 ≠ searched name) ∧
        searchLoop (rawLines 0 vs ++ 0 :: rest) name ((rawLines 0 vs ++ 0 :: rest).length + 1) 0 =
          some .absent) ∨
      ∃ us w us', vs = us ++ ⟨searched name, w⟩ :: us' ∧ (∀ x ∈ us, x.1 ≠ searched name) ∧
        searchLoop (rawLines 0 vs ++ 0 :: rest) name ((rawLines 0 vs ++ 0 :: rest).length + 1) 0 =
          some (.found (rawLines 0 us).length
            ((rawLines 0 us).length + (searched name ++ 61 :: w).length)
            ((rawLines 0 us).length + (searched name).length + 1)) := by
  have enough : vs.length < (rawLines 0 vs ++ 0 :: rest).length + 1 := by
    have := length_le_rawLines 0 vs
    simp only [List.length_append]
    omega
  simpa only [List.nil_append, List.length_nil] using searchLoop_lines [] rest name plain enough

/-- The value of a string that was found. -/
lemma cstrAt_value {us : List Var} (us' : List Var) (k : CStr) (rest : List UInt8)
    (wn : (0 : UInt8) ∉ w) :
    cstrAt (rawLines 0 (us ++ ⟨k, w⟩ :: us') ++ 0 :: rest) ((rawLines 0 us).length + k.length + 1) =
      w := by
  have text : rawLines 0 (us ++ ⟨k, w⟩ :: us') ++ 0 :: rest =
      rawLines 0 us ++ k ++ [61] ++ (w ++ 0 :: (rawLines 0 us' ++ 0 :: rest)) := by
    simp [rawLines, rawLine]
  have place : (rawLines 0 us).length + k.length + 1 = (rawLines 0 us ++ k ++ [61]).length := by
    simp [Nat.add_assoc]
  rw [text, place]
  exact cstrAt_cut wn

/-- The tool finds the value of the first string of a name. -/
lemma fwGetenv_lines (rest : List UInt8) (name : CStr) (plain : ∀ x ∈ vs, PlainVar x) :
    fwGetenv (rawLines 0 vs ++ 0 :: rest) name =
      some ((vs.find? fun x => x.1 = searched name).map fun x => x.2) := by
  rcases searchLoop_block rest name plain with ⟨absent, eq⟩ | ⟨us, w, us', rfl, absent, eq⟩
  · rw [fwGetenv, eq, List.find?_eq_none.2 (by simpa using absent)]
    rfl
  · have wn := (plain ⟨searched name, w⟩ (by simp)).val
    rw [fwGetenv, eq, List.find?_append, List.find?_eq_none.2 (by simpa using absent),
      List.find?_cons_of_pos (by simp)]
    simp only [Option.map_some, cstrAt_value us' (searched name) rest wn, Option.none_or]

/-- The strings of a block begin with a byte that is not NUL. -/
lemma plain_head (pv : PlainVar x) (vs : List Var) :
    ∃ c text, rawLines 0 (x :: vs) = c :: text ∧ c ≠ 0 := by
  rw [rawLines_cons]
  exact rawLine_head pv.nul x.2 (rawLines 0 vs)

/-! ## Deleting -/

/-- Moving one byte down over a gap. -/
lemma moveLoop_turn {gap : List UInt8} {c d : UInt8} {fuel : Nat} (pre rest : List UInt8) :
    ∃ gap', gap'.length = gap.length ∧
      moveLoop (fuel + 1) (pre ++ (gap ++ c :: d :: rest)) pre.length (pre.length + gap.length) =
        if c = 0 ∧ d = 0 then some (pre ++ (c :: (gap' ++ d :: rest)), pre.length)
        else moveLoop fuel ((pre ++ [c]) ++ (gap' ++ d :: rest)) (pre ++ [c]).length
          ((pre ++ [c]).length + gap'.length) := by
  obtain ⟨gap', len, eq⟩ := set_over pre (d :: rest) c (show gap ++ [c] ≠ [] from by simp)
  rw [List.length_append, List.length_singleton] at len
  refine ⟨gap', by omega, ?_⟩
  have here := @getElem?_behind c pre gap (d :: rest)
  have next := @getElem?_behind d (pre ++ [c]) gap' rest
  rw [show (pre ++ [c]).length + gap'.length = pre.length + gap.length + 1 from by
    simp only [List.length_append, List.length_singleton]; omega] at next ⊢
  rw [show pre ++ (gap ++ [c] ++ d :: rest) = pre ++ (gap ++ c :: d :: rest) from by simp,
    show pre ++ c :: (gap' ++ d :: rest) = pre ++ [c] ++ (gap' ++ d :: rest) from by simp] at eq
  rw [moveLoop, here]
  simp only [eq, next]
  simp

/-- Moving a string down. -/
lemma moveLoop_string {s gap : List UInt8} {d : UInt8} {fuel : Nat} (pre rest : List UInt8)
    (nul : (0 : UInt8) ∉ s) :
    ∃ gap', gap'.length = gap.length ∧
      moveLoop (fuel + s.length) (pre ++ (gap ++ (s ++ d :: rest))) pre.length
          (pre.length + gap.length) =
        moveLoop fuel ((pre ++ s) ++ (gap' ++ d :: rest)) (pre ++ s).length
          ((pre ++ s).length + gap'.length) := by
  induction s generalizing pre gap with
  | nil => exact ⟨gap, rfl, by simp⟩
  | cons c s ih =>
    have c0 : c ≠ 0 := fun e => nul (e ▸ List.mem_cons_self)
    obtain ⟨e, text, more⟩ := List.exists_cons_of_ne_nil
      (show s ++ d :: rest ≠ [] from by simp)
    obtain ⟨gap1, len1, turn⟩ := @moveLoop_turn gap c e (fuel + s.length) pre text
    obtain ⟨gap2, len2, rest2⟩ := @ih gap1 (pre ++ [c]) (mt (List.mem_cons_of_mem _) nul)
    refine ⟨gap2, len2.trans len1, ?_⟩
    rw [if_neg (fun h => c0 h.1), ← more, rest2] at turn
    rw [List.cons_append, more] at *
    rw [List.length_cons, ← Nat.add_assoc, turn]
    simp

/-- The strings of a block begin with one that has no NUL. -/
lemma rawLines_plain (pv : PlainVar x) (vs : List Var) :
    ∃ s, (0 : UInt8) ∉ s ∧ rawLines 0 (x :: vs) = s ++ 0 :: rawLines 0 vs := by
  refine ⟨x.1 ++ 61 :: x.2, by simp [pv.nul, pv.val], ?_⟩
  rw [rawLines_cons]
  simp [rawLine]

/-- Moving the strings of a block down over a gap. -/
lemma moveLoop_lines {gap : List UInt8} {fuel : Nat} (pre rest : List UInt8)
    (good : ∀ y ∈ x :: vs, PlainVar y)
    (enough : (rawLines 0 (x :: vs)).length ≤ fuel) :
    ∃ gap' env, gap'.length = gap.length ∧ env + 1 = (pre ++ rawLines 0 (x :: vs)).length ∧
      moveLoop fuel (pre ++ (gap ++ (rawLines 0 (x :: vs) ++ 0 :: rest))) pre.length
          (pre.length + gap.length) =
        some (pre ++ (rawLines 0 (x :: vs) ++ (gap' ++ 0 :: rest)), env) := by
  induction vs generalizing pre gap x fuel with
  | nil =>
    obtain ⟨s, nul, text⟩ := rawLines_plain (good x List.mem_cons_self) []
    rw [show rawLines 0 [] = [] from rfl] at text
    rw [text] at enough ⊢
    obtain ⟨fuel, rfl⟩ : ∃ f, fuel = f + 1 + s.length := ⟨fuel - 1 - s.length, by
      rw [List.length_append, List.length_singleton] at enough
      omega⟩
    obtain ⟨gap1, len1, string⟩ :=
      @moveLoop_string s gap 0 (fuel + 1) pre (0 :: rest) nul
    obtain ⟨gap2, len2, turn⟩ := @moveLoop_turn gap1 0 0 fuel (pre ++ s) rest
    rw [if_pos ⟨rfl, rfl⟩] at turn
    refine ⟨gap2, (pre ++ s).length, len2.trans len1, by simp [Nat.add_assoc], ?_⟩
    rw [show s ++ [0] ++ 0 :: rest = s ++ 0 :: 0 :: rest from by simp, string, turn]
    simp
  | cons y vs ih =>
    obtain ⟨s, nul, text⟩ := rawLines_plain (good x List.mem_cons_self) (y :: vs)
    obtain ⟨c, text', head, c0⟩ := plain_head (good y (by simp)) vs
    rw [text] at enough ⊢
    rw [List.length_append, List.length_cons] at enough
    obtain ⟨fuel, rfl⟩ : ∃ f, fuel = f + 1 + s.length := ⟨fuel - 1 - s.length, by omega⟩
    obtain ⟨gap1, len1, string⟩ :=
      @moveLoop_string s gap 0 (fuel + 1) pre (rawLines 0 (y :: vs) ++ 0 :: rest) nul
    obtain ⟨gap2, len2, turn⟩ := @moveLoop_turn gap1 0 c fuel (pre ++ s)
      (text' ++ 0 :: rest)
    rw [if_neg (fun h => c0 h.2), ← List.cons_append, ← head] at turn
    obtain ⟨gap3, env, len3, last, more⟩ := @ih y gap2 fuel (pre ++ s ++ [0])
      (fun z hz => good z (List.mem_cons_of_mem _ hz)) (by omega)
    rw [more] at turn
    refine ⟨gap3, env, by omega, ?_, ?_⟩
    · rw [last]
      simp
    · rw [List.append_assoc, List.cons_append, string, turn]
      simp

/-- A data area that holds the strings of some variables and the NUL behind them. -/
structure Block (data : List UInt8) (vs : List Var) : Prop where
  names : ∀ x ∈ vs, GoodName 0 x.1
  values : ∀ x ∈ vs, GoodValue x.2
  text : ∃ junk, data = rawLines 0 vs ++ 0 :: junk ∧ (vs = [] → ∃ junk', junk = 0 :: junk')

lemma plainName_of_good (gn : GoodName 0 k) : PlainName k := ⟨gn.ne, gn.nul, gn.eq⟩

lemma Block.plain {data : List UInt8} (b : Block data vs) :
    ∀ x ∈ vs, PlainVar x :=
  fun x hx => (plainName_of_good (b.names x hx)).var (b.values x hx).nul

lemma rawLines_append {us us' : List Var} :
    rawLines 0 (us ++ us') = rawLines 0 us ++ rawLines 0 us' := by
  simp [rawLines]

/-- Storing over a byte. -/
lemma store_over {gap : List UInt8} (pre rest : List UInt8) (c : UInt8) (ne : gap ≠ []) :
    ∃ gap', gap'.length + 1 = gap.length ∧
      store (pre ++ (gap ++ rest)) pre.length c = some (pre ++ (c :: (gap' ++ rest))) := by
  obtain ⟨gap', len, eq⟩ := set_over pre rest c ne
  refine ⟨gap', len, ?_⟩
  have pos := List.length_pos_iff.2 ne
  rw [store, if_pos (by simp only [List.length_append]; omega), eq]

/-- Deleting a string leaves the text of the others, with two NUL bytes where there are none. -/
lemma deleteString_lines {us us' : List Var} {junk : List UInt8}
    (plain : ∀ x ∈ us', PlainVar x) :
    ∃ junk', deleteString (rawLines 0 (us ++ ⟨name, w⟩ :: us') ++ 0 :: junk) (rawLines 0 us).length
        ((rawLines 0 us).length + (name ++ 61 :: w).length) =
          some (rawLines 0 (us ++ us') ++ 0 :: junk') ∧
      (rawLines 0 (us ++ us') ++ 0 :: junk').length =
        (rawLines 0 (us ++ ⟨name, w⟩ :: us') ++ 0 :: junk).length ∧
      (us ++ us' = [] → ∃ junk₂, junk' = 0 :: junk₂) := by
  have data : rawLines 0 (us ++ ⟨name, w⟩ :: us') ++ 0 :: junk =
      rawLines 0 us ++ (rawLine 0 name w ++ (rawLines 0 us' ++ 0 :: junk)) := by
    rw [rawLines_append, rawLines_cons]
    simp
  have nxt : (rawLines 0 us).length + (name ++ 61 :: w).length + 1 =
      (rawLines 0 us).length + (rawLine 0 name w).length := by
    simp [rawLine]
    omega
  have ne : rawLine 0 name w ≠ [] := by simp [rawLine]
  rw [data, deleteString, nxt]
  cases us' with
  | nil =>
    have here := @getElem?_behind 0 (rawLines 0 us) (rawLine 0 name w) junk
    obtain ⟨gap1, len1, store1⟩ := store_over (rawLines 0 us) (0 :: junk) 0 ne
    have ne1 : gap1 ≠ [] := by
      rintro rfl
      simp [rawLine] at len1
      omega
    obtain ⟨gap2, len2, store2⟩ := store_over (rawLines 0 us ++ [0]) (0 :: junk) 0 ne1
    rw [List.length_append, List.length_singleton, List.append_assoc, List.singleton_append]
      at store2
    refine ⟨0 :: (gap2 ++ 0 :: junk), ?_, ?_, fun _ => ⟨_, rfl⟩⟩
    · rw [show rawLines 0 ([] : List Var) = [] from rfl, List.nil_append, here]
      simp only [if_true, store1, Option.bind_some, store2]
      simp
    · simp only [List.append_nil, List.length_append, List.length_cons,
        show rawLines 0 ([] : List Var) = [] from rfl]
      simp
      omega
  | cons x vs =>
    obtain ⟨c, text', head, c0⟩ := plain_head (plain x List.mem_cons_self) vs
    have here := @getElem?_behind c (rawLines 0 us) (rawLine 0 name w) (text' ++ 0 :: junk)
    rw [← List.cons_append, ← head] at here
    obtain ⟨gap, env, len, last, move⟩ := @moveLoop_lines x vs (rawLine 0 name w)
      ((rawLines 0 us ++ (rawLine 0 name w ++ (rawLines 0 (x :: vs) ++ 0 :: junk))).length + 1)
      (rawLines 0 us) junk plain (by simp only [List.length_append]; omega)
    have ne1 : gap ≠ [] := by
      rintro rfl
      exact ne (List.eq_nil_of_length_eq_zero len.symm)
    obtain ⟨gap1, len1, store1⟩ :=
      store_over (rawLines 0 us ++ rawLines 0 (x :: vs)) (0 :: junk) 0 ne1
    refine ⟨gap1 ++ 0 :: junk, ?_, ?_, fun e => by simp at e⟩
    · rw [here]
      simp only [if_neg c0, move, Option.bind_some, last, rawLines_append]
      rw [← store1, List.append_assoc]
    · simp only [rawLines_append, List.length_append, List.length_cons]
      omega

/-- Deleting a string leaves the block of the others. -/
lemma deleteString_block {us us' : List Var} {data : List UInt8}
    (b : Block data (us ++ ⟨name, w⟩ :: us')) :
    ∃ data', deleteString data (rawLines 0 us).length
        ((rawLines 0 us).length + (name ++ 61 :: w).length) = some data' ∧
      data'.length = data.length ∧ Block data' (us ++ us') := by
  obtain ⟨junk, rfl, -⟩ := b.text
  obtain ⟨junk', eq, len, empty⟩ := @deleteString_lines w name us us' junk
    fun x hx => b.plain x (by grind)
  exact ⟨_, eq, len, fun x hx => b.names x (by grind), fun x hx => b.values x (by grind), junk', rfl,
    empty⟩

/-! ## Appending -/

/-- The search for the end passes a string. -/
lemma endLoop_string {s : List UInt8} {fuel : Nat} (pre rest : List UInt8)
    (nul : (0 : UInt8) ∉ s) :
    endLoop (pre ++ (s ++ rest)) (fuel + s.length) pre.length =
      endLoop (pre ++ (s ++ rest)) fuel (pre ++ s).length := by
  induction s generalizing pre with
  | nil => simp
  | cons c s ih =>
    have here : (pre ++ (c :: s ++ rest))[pre.length]? = some c := getElem?_cut
    have c0 : c ≠ 0 := fun e => nul (e ▸ List.mem_cons_self)
    have more := ih (pre ++ [c]) (mt (List.mem_cons_of_mem _) nul)
    rw [List.length_cons, ← Nat.add_assoc, endLoop, here]
    simp only [if_pos c0]
    simpa using more

/-- The end of a block is at the last NUL of its strings. -/
lemma endLoop_lines {fuel : Nat} (pre junk : List UInt8)
    (good : ∀ y ∈ x :: vs, PlainVar y)
    (enough : (rawLines 0 (x :: vs)).length ≤ fuel) :
    ∃ env, env + 1 = (pre ++ rawLines 0 (x :: vs)).length ∧
      endLoop (pre ++ (rawLines 0 (x :: vs) ++ 0 :: junk)) fuel pre.length = some env := by
  induction vs generalizing pre x fuel with
  | nil =>
    obtain ⟨s, nul, text⟩ := rawLines_plain (good x List.mem_cons_self) []
    rw [show rawLines 0 [] = [] from rfl] at text
    rw [text] at enough ⊢
    obtain ⟨fuel, rfl⟩ : ∃ f, fuel = f + 1 + s.length := ⟨fuel - 1 - s.length, by
      rw [List.length_append, List.length_singleton] at enough
      omega⟩
    refine ⟨(pre ++ s).length, by simp [Nat.add_assoc], ?_⟩
    have at0 : (pre ++ (s ++ 0 :: 0 :: junk))[(pre ++ s).length]? = some 0 := by
      rw [List.length_append]
      exact getElem?_behind pre s (0 :: junk)
    have at1 := @getElem?_behind 0 (pre ++ s) [0] junk
    rw [List.length_singleton, List.singleton_append, List.append_assoc] at at1
    rw [show s ++ [0] ++ 0 :: junk = s ++ 0 :: 0 :: junk from by simp, endLoop_string pre _ nul,
      endLoop, at0]
    simp only [at1, ne_eq, not_true, if_false]
  | cons y vs ih =>
    obtain ⟨s, nul, text⟩ := rawLines_plain (good x List.mem_cons_self) (y :: vs)
    obtain ⟨c, text', head, c0⟩ := plain_head (good y (by simp)) vs
    rw [text] at enough ⊢
    rw [List.length_append, List.length_cons] at enough
    obtain ⟨fuel, rfl⟩ : ∃ f, fuel = f + 1 + s.length := ⟨fuel - 1 - s.length, by omega⟩
    obtain ⟨env, last, more⟩ := @ih y fuel (pre ++ s ++ [0])
      (fun z hz => good z (List.mem_cons_of_mem _ hz)) (by omega)
    refine ⟨env, by rw [last]; simp, ?_⟩
    have at0 : (pre ++ (s ++ 0 :: (rawLines 0 (y :: vs) ++ 0 :: junk)))[(pre ++ s).length]? =
        some 0 := by
      rw [List.length_append]
      exact getElem?_behind pre s _
    have at1 := @getElem?_behind c (pre ++ s) [0] (text' ++ 0 :: junk)
    rw [← List.cons_append, ← head, List.length_singleton, List.singleton_append,
      List.append_assoc] at at1
    rw [List.append_assoc, List.cons_append, endLoop_string pre _ nul, endLoop, at0]
    simp only [at1, ne_eq, not_true, if_false, if_pos c0]
    rw [← more]
    simp [Nat.add_assoc]

/-- Storing over as many bytes. -/
lemma storeAll_over {old cs : List UInt8} (pre rest : List UInt8) (len : old.length = cs.length) :
    storeAll (pre ++ (old ++ rest)) pre.length cs = some (pre ++ (cs ++ rest)) := by
  induction cs generalizing pre old with
  | nil =>
    rw [List.eq_nil_of_length_eq_zero len]
    rfl
  | cons c cs ih =>
    obtain ⟨o, old, rfl⟩ := List.exists_cons_of_length_eq_add_one len
    have one : store (pre ++ (o :: old ++ rest)) pre.length c =
        some (pre ++ [c] ++ (old ++ rest)) := by
      rw [store, if_pos (by simp), List.cons_append, set_cut]
      simp
    have more := ih (pre ++ [c]) (Nat.succ.inj len)
    rw [List.length_append, List.length_singleton] at more
    rw [storeAll, one, Option.bind_some, more]
    simp

/-- A list splits at every length it has. -/
lemma exists_split {l : List UInt8} {n : Nat} (le : n ≤ l.length) :
    ∃ a b, l = a ++ b ∧ a.length = n :=
  ⟨l.take n, l.drop n, (List.take_append_drop n l).symm, List.length_take_of_le le⟩

/-- The stores of an append, where there is room for them. -/
lemma storeString (pre : List UInt8) {old : List UInt8}
    (room : name.length + 2 + (value.length + 1) ≤ old.length) :
    ∃ rest, old.length = rest.length + (name.length + 2 + (value.length + 1)) ∧
      ((storeAll (pre ++ old) pre.length (name ++ [0])).bind fun data =>
        (store data (pre.length + name.length) 61).bind fun data =>
          (storeAll data (pre.length + name.length + 1) (value ++ [0])).bind fun data =>
            (store data (pre.length + name.length + 1 + value.length + 1) 0).bind fun data =>
              some (data, (0 : Int))) =
        some (pre ++ (name ++ 61 :: value ++ [0] ++ 0 :: rest), 0) := by
  obtain ⟨o1, r1, rfl, len1⟩ := @exists_split old (name.length + 1) (by omega)
  rw [List.length_append] at room
  obtain ⟨o2, r2, rfl, len2⟩ := @exists_split r1 (value.length + 1) (by omega)
  rw [List.length_append] at room
  obtain ⟨o3, rest, rfl⟩ := List.exists_cons_of_ne_nil (show r2 ≠ [] from by
    rintro rfl
    rw [List.length_nil] at room
    omega)
  have step1 := @storeAll_over o1 (name ++ [0]) pre (o2 ++ o3 :: rest) (by simp [len1])
  have step2 : store (pre ++ (name ++ [0] ++ (o2 ++ o3 :: rest))) (pre.length + name.length) 61 =
      some (pre ++ name ++ [61] ++ (o2 ++ o3 :: rest)) := by
    rw [show pre ++ (name ++ [0] ++ (o2 ++ o3 :: rest)) =
      (pre ++ name) ++ 0 :: (o2 ++ o3 :: rest) from by simp, ← List.length_append, store,
      if_pos (by simp), set_cut]
    simp
  have step3 := @storeAll_over o2 (value ++ [0]) (pre ++ name ++ [61]) (o3 :: rest) (by simp [len2])
  have step4 : store (pre ++ name ++ [61] ++ (value ++ [0] ++ o3 :: rest))
      (pre ++ name ++ [61] ++ value ++ [0]).length 0 =
        some (pre ++ name ++ [61] ++ value ++ [0] ++ 0 :: rest) := by
    rw [show pre ++ name ++ [61] ++ (value ++ [0] ++ o3 :: rest) =
      (pre ++ name ++ [61] ++ value ++ [0]) ++ o3 :: rest from by simp, store, if_pos (by simp),
      set_cut]
  simp only [List.length_append, List.length_singleton] at step3 step4
  refine ⟨rest, ?_, ?_⟩
  · simp only [List.length_append, List.length_cons]
    omega
  · rw [step1, Option.bind_some, step2, Option.bind_some, step3, Option.bind_some, step4,
      Option.bind_some]
    simp

/-- An append puts the string behind the others where there is room for it, and leaves the text
alone where there is none. -/
lemma appendString_lines {junk : List UInt8} (plain : ∀ x ∈ vs, PlainVar x)
    (empty : vs = [] → ∃ junk', junk = 0 :: junk') (name value : CStr) :
    if (rawLines 0 vs).length + (name.length + 2 + (value.length + 1)) ≤
        (rawLines 0 vs ++ 0 :: junk).length then
      ∃ rest, appendString (rawLines 0 vs ++ 0 :: junk) name value =
          some (rawLines 0 (vs ++ [⟨name, value⟩]) ++ 0 :: rest, 0) ∧
        (rawLines 0 (vs ++ [⟨name, value⟩]) ++ 0 :: rest).length =
          (rawLines 0 vs ++ 0 :: junk).length
    else appendString (rawLines 0 vs ++ 0 :: junk) name value =
      some (rawLines 0 vs ++ 0 :: junk, -1) := by
  -- where the new string goes
  have place : (endLoop (rawLines 0 vs ++ 0 :: junk) ((rawLines 0 vs ++ 0 :: junk).length + 1) 0).map
      (fun env => if 0 < env then env + 1 else env) = some (rawLines 0 vs).length := by
    cases vs with
    | nil =>
      obtain ⟨junk', rfl⟩ := empty rfl
      rfl
    | cons x vs =>
      obtain ⟨env, last, eq⟩ := @endLoop_lines x vs
        ((rawLines 0 (x :: vs) ++ 0 :: junk).length + 1) [] junk plain
        (by simp only [List.length_append]; omega)
      rw [List.nil_append] at last
      have two : 2 ≤ (rawLines 0 (x :: vs)).length := by
        simp [rawLines_cons, rawLine]
        omega
      simp only [List.nil_append, List.length_nil] at eq
      rw [eq, Option.map_some, if_pos (by omega), last]
  obtain ⟨env, eq, at'⟩ := Option.map_eq_some_iff.1 place
  rw [appendString, eq]
  simp only [Option.bind_eq_bind, Option.bind_some, at']
  rw [List.length_append]
  by_cases room : (rawLines 0 vs).length + (name.length + 2 + (value.length + 1)) ≤
      (rawLines 0 vs).length + (0 :: junk).length
  · have small : ¬ name.length + 2 + (value.length + 1) >
        (rawLines 0 vs).length + (0 :: junk).length - (rawLines 0 vs).length := by omega
    obtain ⟨rest, len, stores⟩ := @storeString name value (rawLines 0 vs) (0 :: junk) (by omega)
    rw [if_pos room, if_neg small, stores]
    refine ⟨rest, ?_, ?_⟩
    · rw [rawLines_append]
      simp [rawLines, rawLine]
    · rw [rawLines_append]
      simp only [rawLines, rawLine, List.flatMap_cons, List.flatMap_nil, List.append_nil,
        List.length_append, List.length_cons, List.length_nil] at len ⊢
      omega
  · rw [if_neg room, if_pos (by omega)]

/-- What an append that returns 0 leaves. -/
lemma appendString_block {data data' : List UInt8} (b : Block data vs) (gn : GoodName 0 name)
    (gv : GoodValue value) (written : appendString data name value = some (data', 0)) :
    data'.length = data.length ∧ Block data' (vs ++ [⟨name, value⟩]) := by
  obtain ⟨junk, rfl, empty⟩ := b.text
  have append := appendString_lines b.plain empty name value
  split_ifs at append with room
  · obtain ⟨rest, eq, len⟩ := append
    rw [eq] at written
    obtain ⟨rfl, -⟩ := Prod.mk.inj (Option.some.inj written)
    refine ⟨len, ?_, ?_, rest, rfl, fun e => by simp at e⟩
    · intro y hy
      rcases List.mem_append.1 hy with h | h
      · exact b.names y h
      · rw [List.mem_singleton.1 h]
        exact gn
    · intro y hy
      rcases List.mem_append.1 hy with h | h
      · exact b.values y h
      · rw [List.mem_singleton.1 h]
        exact gv
  · rw [append] at written
    exact absurd (Prod.mk.inj (Option.some.inj written)).2 (by decide)

/-- What `fw_env_write` leaves when it sets a variable: the strings without the first one of that
name, and the new string behind them. -/
lemma fwEnvWrite_block {a : Access} {data data' : List UInt8} (b : Block data vs)
    (gn : GoodName 0 name) (gv : GoodValue value)
    (written : fwEnvWrite a data name value = some (data', 0)) :
    data'.length = data.length ∧
      Block data' (vs.eraseP (fun x => x.1 = name) ++ [⟨name, value⟩]) := by
  obtain ⟨junk, rfl, -⟩ := b.text
  have search := searchLoop_block junk name b.plain
  rw [searched_of_plain gn.eq] at search
  rcases search with ⟨absent, eq⟩ | ⟨us, w, us', rfl, absent, eq⟩
  · rw [fwEnvWrite, eq] at written
    simp only [Option.bind_eq_bind, Option.bind_some, if_neg gv.ne] at written
    split_ifs at written with no
    · simp at written
    · rw [List.eraseP_of_forall_not (by simpa using absent)]
      exact appendString_block b gn gv written
  · rw [fwEnvWrite, eq] at written
    simp only [Option.bind_eq_bind, Option.bind_some, if_neg gv.ne] at written
    split_ifs at written with no
    · simp at written
    · obtain ⟨data1, del, len1, b1⟩ := deleteString_block b
      rw [del, Option.bind_some] at written
      obtain ⟨len2, b2⟩ := appendString_block b1 gn gv written
      rw [List.eraseP_append_right _ (by simpa using absent), List.eraseP_cons_of_pos (by simp)]
      exact ⟨len2.trans len1, b2⟩

/-! ## What an import makes of a block -/

lemma goodText_of_value (gv : GoodValue w) : GoodText 0 w := by
  refine ⟨?_, parseValue_nul_sep gv.nul⟩
  obtain ⟨d, tail, rfl⟩ := List.exists_cons_of_ne_nil gv.ne
  have d0 : d ≠ 0 := fun e => gv.nul (e ▸ List.mem_cons_self)
  exact ⟨d, tail, rfl, d0, d0⟩

/-- The first `size` different names of a list. -/
def firstNames (size : Nat) (names : List CStr) : List CStr := names.eraseDups.take size

/-- The names a table of `size` slots holds after some lines. -/
lemma keys_enterAll {size : Nat} :
    (enterAll 0 size ∅ vs).keys.Perm (firstNames size (vs.map fun x => x.1)) := by
  induction vs using List.reverseRecOn with
  | nil => simp [enterAll, firstNames]
  | append_singleton vs x ih =>
    have names : ((vs ++ [x]).map fun x => x.1).eraseDups =
        (vs.map fun x => x.1).eraseDups ++ if x.1 ∈ vs.map fun x => x.1 then [] else [x.1] := by
      rw [List.map_append, List.eraseDups_append]
      congr 1
      by_cases h : x.1 ∈ vs.map fun x => x.1
      · simp [List.removeAll, h]
      · simp [List.removeAll, h, List.eraseDups_cons]
    have len := ih.length_eq
    have mem : ∀ {k}, k ∈ enterAll 0 size ∅ vs ↔ k ∈ firstNames size (vs.map fun x => x.1) := by
      intro k
      rw [← ih.mem_iff, AList.mem_keys]
    have all : enterAll 0 size ∅ (vs ++ [x]) =
        (specExec size (enterAll 0 size ∅ vs) (.enter x.1 (readValue 0 x.2))).1 := by
      simp [enterAll]
    rw [firstNames] at ih mem
    rw [firstNames, names, all, specExec]
    rw [firstNames, List.length_take] at len
    generalize enterAll 0 size ∅ vs = m at *
    by_cases old : x.1 ∈ m
    · -- an old name leaves the names as they are
      have old' := mem.1 old
      rw [if_pos (.inl old), if_pos (List.mem_eraseDups.1 (List.mem_of_mem_take old')),
        List.append_nil]
      exact (List.perm_of_nodup_nodup_toFinset_eq (AList.keys_nodup _) (AList.keys_nodup m)
        (by ext k; simp [AList.mem_keys.symm]; grind)).trans ih
    · by_cases lt : m.keys.length < size
      · have short : (vs.map fun x => x.1).eraseDups.length < size := by omega
        have new : x.1 ∉ vs.map fun x => x.1 := by
          intro h
          refine old (mem.2 ?_)
          rw [List.take_of_length_le (by omega)]
          exact List.mem_eraseDups.2 h
        rw [if_pos (.inr lt), if_neg new, List.take_of_length_le (by simp; omega)]
        rw [List.take_of_length_le (by omega)] at ih
        rw [AList.keys, AList.entries_insert_of_notMem old, List.keys_cons, ← AList.keys]
        exact (List.Perm.cons _ ih).trans (List.perm_append_singleton ..).symm
      · rw [if_neg (by tauto), List.take_append_of_le_length (by omega)]
        exact ih

/-- What a table holds for the last of the lines entered. -/
lemma lookup_enterAll {size : Nat} (vs : List Var) (k w : CStr) :
    (enterAll 0 size ∅ (vs ++ [(⟨k, w⟩ : Var)])).lookup k =
      if k ∈ firstNames size (vs.map (fun x => x.1) ++ [k]) then some (readValue 0 w) else none := by
  have keys := @keys_enterAll (vs ++ [(⟨k, w⟩ : Var)]) size
  rw [List.map_append, List.map_singleton] at keys
  have mem := @AList.mem_keys _ _ k (enterAll 0 size ∅ (vs ++ [(⟨k, w⟩ : Var)]))
  rw [keys.mem_iff] at mem
  rw [← if_congr mem rfl rfl]
  have all : enterAll 0 size ∅ (vs ++ [(⟨k, w⟩ : Var)]) =
      (specExec size (enterAll 0 size ∅ vs) (.enter k (readValue 0 w))).1 := by
    simp [enterAll]
  rw [all, specExec]
  split_ifs with room here here
  · exact AList.lookup_insert _
  · exact absurd (AList.mem_insert _ |>.2 (.inl rfl)) here
  · exact absurd (.inl here) room
  · exact AList.lookup_eq_none.2 here

/-- The value a table holds for a variable (C `getenv`). -/
def getenv (hk : Hooks) (t : Htab) (name : CStr) : Option CStr :=
  (hsearchR hk t { key := name, data := none } .find 0).bind fun (r : Htab × Res) => r.2.data r.1

lemma getenv_eq {hk : Hooks} {t : Htab} {m : Map} (rep : Rep t m) :
    getenv hk t name = m.lookup name := by
  obtain ⟨r, eq, data, -⟩ := rep.find hk name 0
  rw [getenv, eq, Option.bind_some, data]

/-- What the table made from a written block holds for the variable that was written. -/
lemma import_written {hk : Hooks} {a : Access} {data data' : List UInt8} {old : Option Htab}
    {env : Mem} (acc : hk.Accepting) (b : Block data vs) (gn : GoodName 0 name)
    (gv : GoodValue value) (written : fwEnvWrite a data name value = some (data', 0))
    (read : env.read 0 data'.length = data') :
    ∃ t', himportR hk old env data'.length 0 0 false [] = some (t', true) ∧
      getenv hk t' name =
        if name ∈ firstNames (importSize data.length)
            ((vs.eraseP fun x => x.1 = name).map (fun x => x.1) ++ [name]) then
          some (readValue 0 value)
        else none := by
  obtain ⟨len, b'⟩ := fwEnvWrite_block b gn gv written
  obtain ⟨junk, eq, -⟩ := b'.text
  obtain ⟨t', imported, rep⟩ := @himportR_lines hk 0 old env data'.length _ junk acc (by decide)
    (by simp) (fun y hy => ⟨b'.names y hy, goodText_of_value (b'.values y hy)⟩) (read.trans eq)
  refine ⟨t', imported, ?_⟩
  rw [getenv_eq rep, lookup_enterAll, len]

/-! ## What a search finds in an exported block -/

section Part

variable {d x : List UInt8}

lemma getElem?_of_part {i : Nat} {c : UInt8} (h : d[i]? = some c) : (d ++ x)[i]? = some c := by
  obtain ⟨lt, -⟩ := List.getElem?_eq_some_iff.1 h
  rwa [List.getElem?_append_left lt]

lemma envmatch_of_part {i : Nat} {r : Option Nat} (h : envmatch d name i = some r) :
    envmatch (d ++ x) name i = some r := by
  induction name generalizing i with
  | nil =>
    rw [envmatch] at h ⊢
    cases e : d[i]? with
    | none => simp [e] at h
    | some c =>
      rw [e] at h
      rw [getElem?_of_part e]
      exact h
  | cons a name ih =>
    rw [envmatch] at h ⊢
    cases e : d[i]? with
    | none => simp [e] at h
    | some c =>
      rw [e] at h
      rw [getElem?_of_part e]
      simp only at h ⊢
      split_ifs at h ⊢ with h1 h2
      · exact h
      · exact ih h
      · exact h

/-- The end of a string is a NUL, and behind more bytes it is the same one. -/
lemma stringEnd_of_part {fuel fuel' i : Nat} {r : Option Nat} (h : stringEnd d fuel i = some r)
    (le : fuel ≤ fuel') :
    (∀ j ∈ r, d[j]? = some 0) ∧ stringEnd (d ++ x) fuel' i = some r := by
  induction fuel generalizing i fuel' with
  | zero => cases h
  | succ fuel ih =>
    obtain ⟨fuel', rfl⟩ : ∃ f, fuel' = f + 1 := ⟨fuel' - 1, by omega⟩
    rw [stringEnd] at h ⊢
    cases e : d[i]? with
    | none => simp [e] at h
    | some c =>
      obtain ⟨lt, -⟩ := List.getElem?_eq_some_iff.1 e
      rw [e] at h
      rw [getElem?_of_part e]
      simp only at h ⊢
      rw [if_neg (show ¬ d.length ≤ i from by omega)] at h
      rw [if_neg (show ¬ (d ++ x).length ≤ i from by rw [List.length_append]; omega)]
      split_ifs at h ⊢ with c0
      · obtain rfl := Option.some.inj h
        rw [c0] at e
        exact ⟨fun j hj => by rwa [← Option.some.inj hj], rfl⟩
      · exact ih h (by omega)

/-- A search that ends inside a part of a block ends so in the whole block. -/
lemma searchLoop_of_part {fuel fuel' i : Nat} {r : Search} (h : searchLoop d name fuel i = some r)
    (le : fuel ≤ fuel') :
    (∀ env nxt val, r = .found env nxt val → d[nxt]? = some 0) ∧
      searchLoop (d ++ x) name fuel' i = some r := by
  induction fuel generalizing i fuel' with
  | zero => cases h
  | succ fuel ih =>
    obtain ⟨fuel', rfl⟩ : ∃ f, fuel' = f + 1 := ⟨fuel' - 1, by omega⟩
    rw [searchLoop] at h ⊢
    cases e : d[i]? with
    | none => simp [e] at h
    | some c =>
      rw [e] at h
      rw [getElem?_of_part e]
      simp only at h ⊢
      split_ifs at h ⊢ with c0
      · obtain rfl := Option.some.inj h
        exact ⟨fun env nxt val e => (by cases e), rfl⟩
      · cases ends : stringEnd d (d.length + 1) i with
        | none => simp [ends] at h
        | some j =>
          obtain ⟨nul, ends'⟩ := @stringEnd_of_part d x _ ((d ++ x).length + 1) _ _ ends
            (by rw [List.length_append]; omega)
          rw [ends] at h
          rw [ends']
          cases j with
          | none =>
            obtain rfl := Option.some.inj h
            exact ⟨fun env nxt val e => (by cases e), rfl⟩
          | some nxt =>
            simp only at h ⊢
            cases hit : envmatch d name i with
            | none => simp [hit] at h
            | some val =>
              rw [hit] at h
              rw [envmatch_of_part hit]
              cases val with
              | none => exact ih h (by omega)
              | some val =>
                obtain rfl := Option.some.inj h
                refine ⟨fun env nxt' val' e => ?_, rfl⟩
                obtain ⟨-, rfl, -⟩ := Search.found.inj e
                exact nul nxt rfl

end Part

/-- A value found in a part of a block is the text of a string with that name. -/
lemma fwGetenv_of_part {d x : List UInt8} {v : CStr} (eq : d ++ x = rawLines 0 vs ++ 0 :: rest)
    (plain : ∀ x ∈ vs, PlainVar x) (ne : (61 : UInt8) ∉ name)
    (found : fwGetenv d name = some (some v)) : (⟨name, v⟩ : Var) ∈ vs := by
  rw [fwGetenv, Option.map_eq_some_iff] at found
  obtain ⟨r, search, value⟩ := found
  obtain ⟨nul, whole⟩ := @searchLoop_of_part name d x _ ((d ++ x).length + 1) 0 r search
    (by rw [List.length_append]; omega)
  rw [eq] at whole
  have lines := searchLoop_block rest name plain
  rw [searched_of_plain ne] at lines
  rcases lines with ⟨-, lines⟩ | ⟨us, w, us', rfl, -, lines⟩
  · rw [whole] at lines
    obtain rfl := Option.some.inj lines
    cases value
  · rw [whole] at lines
    obtain rfl := Option.some.inj lines
    obtain ⟨lt, -⟩ := List.getElem?_eq_some_iff.1 (nul _ _ _ rfl)
    -- the string with its NUL lies inside the part
    have pref : rawLines 0 us ++ name ++ [61] ++ w ++ [0] <+: d := by
      have whole : d <+: rawLines 0 (us ++ ⟨name, w⟩ :: us') ++ 0 :: rest := ⟨x, eq⟩
      refine List.prefix_of_prefix_length_le ?_ whole ?_
      · rw [rawLines_append, rawLines_cons]
        exact ⟨rawLines 0 us' ++ 0 :: rest, by simp [rawLine]⟩
      · simp only [List.length_append, List.length_cons, List.length_nil] at lt ⊢
        omega
    obtain ⟨y, rfl⟩ := pref
    have cut := @cstrAt_cut (rawLines 0 us ++ name ++ [61]) y w (plain ⟨name, w⟩ (by simp)).val
    have place : (rawLines 0 us).length + name.length + 1 =
        (rawLines 0 us ++ name ++ [61]).length := by
      simp [Nat.add_assoc]
    rw [place] at value
    simp only [List.append_assoc, List.cons_append, List.nil_append] at cut value
    rw [cut] at value
    obtain rfl := Option.some.inj value
    simp

section Export

variable {rx : Regex} {t : Htab} {m : Map} {flag : Nat} {resp : Option Mem} {calloc : Bool}
variable {size n : Nat} {env : Mem}

/-- What an export leaves: at least its size, and the text of the entries as far as it goes. -/
lemma hexportR_text (dots : hasFlag flag hHideDot = false)
    (exported : hexportR rx t 0 flag resp calloc size [] = some (n, env)) :
    ∃ es, es.Perm (entries t) ∧ totlen 0 (entries t) < n ∧
      env.read 0 (exportText 0 es).length = exportText 0 es := by
  rw [hexportR, exported_all dots] at exported
  simp only at exported
  by_cases small : size ≠ 0 ∧ size < totlen 0 (entries t) + 1
  · rw [if_pos small] at exported
    cases exported
  · rw [if_neg small] at exported
    obtain ⟨res, -, eq⟩ := Option.map_eq_some_iff.1 exported
    obtain ⟨rfl, rfl⟩ := Prod.mk.inj eq
    refine ⟨qsort cmpkey (entries t), qsort_perm, ?_, Mem.read_write_self rfl⟩
    by_cases zero : size = 0
    · rw [if_pos zero]
      omega
    · rw [if_neg zero]
      omega

/-- Escaping for a NUL separator changes nothing exactly when there is no backslash. -/
lemma escapeValue_eq_iff {v : CStr} (nul : (0 : UInt8) ∉ v) :
    escapeValue 0 v = v ↔ (92 : UInt8) ∉ v := by
  constructor
  · intro eq bs
    have len := length_escapeValue 0 v
    have pos : 0 < v.countP (escaped 0) := List.countP_pos_iff.2 ⟨92, bs, by decide⟩
    rw [eq] at len
    omega
  · intro bs
    induction v with
    | nil => rfl
    | cons c v ih =>
      obtain ⟨c0, nul⟩ : (0 : UInt8) ≠ c ∧ (0 : UInt8) ∉ v := by simpa [not_or] using nul
      obtain ⟨c92, bs⟩ : (92 : UInt8) ≠ c ∧ (92 : UInt8) ∉ v := by simpa [not_or] using bs
      have esc : ¬ escaped 0 c := by simp [escaped, Ne.symm c0, Ne.symm c92]
      rw [escapeValue_cons, if_neg esc, ih nul bs]
      rfl

/-- With nothing to escape, the text is no longer than the first pass counted. -/
lemma length_exportText_le {es : List Entry}
    (plain : ∀ e ∈ es, escapeValue 0 (text e.data) = text e.data) :
    (exportText 0 es).length ≤ totlen 0 es + 1 := by
  induction es with
  | nil => exact Nat.le_refl _
  | cons e es ih =>
    have ih := ih fun e he => plain e (List.mem_cons_of_mem _ he)
    have one := plain e List.mem_cons_self
    rw [exportText, totlen, List.length_append, List.length_singleton] at ih
    rw [exportText, totlen, List.length_append, List.length_singleton, List.flatMap_cons,
      List.length_append, List.map_cons, List.sum_cons, exportEntry, one, entryLen, if_pos rfl]
    simp only [List.length_append, List.length_cons, List.length_nil]
    omega

variable (rep : Rep t m)
  (good : ∀ k v, m.lookup k = some v → PlainName k ∧ (0 : UInt8) ∉ v)
include rep good

/-- The strings of an exported table. -/
lemma export_strings {es : List Entry} (perm : es.Perm (entries t)) :
    exportText 0 es = rawLines 0 ((es.map varOf).map (rawVar 0)) ++ [0] ∧
      (∀ {k v}, m.lookup k = some v ↔ (⟨k, v⟩ : Var) ∈ es.map varOf) ∧
      ∀ x ∈ (es.map varOf).map (rawVar 0), PlainVar x := by
  have vars : (es.map varOf).Perm m.entries := (perm.map varOf).trans rep.entries_perm
  have look : ∀ {k v}, m.lookup k = some v ↔ (⟨k, v⟩ : Var) ∈ es.map varOf := by
    intro k v
    rw [vars.mem_iff]
    exact AList.mem_lookup_iff
  refine ⟨by rw [exportText_eq, exportLines_eq], look, fun x hx => ?_⟩
  obtain ⟨y, hy, rfl⟩ := List.mem_map.1 hx
  obtain ⟨pk, nul⟩ := good y.1 y.2 (look.2 hy)
  refine ⟨pk.nul, pk.eq, fun h => ?_⟩
  obtain ⟨c, hc, h⟩ := List.mem_flatMap.1 h
  have c0 : c ≠ 0 := fun e => nul (e ▸ hc)
  split_ifs at h
  · simp [Ne.symm c0] at h
  · simp [Ne.symm c0] at h

/-- The tool finds in an exported block what the table held, for every name, exactly when no value
has a backslash. -/
lemma getenv_exported (dots : hasFlag flag hHideDot = false)
    (exported : hexportR rx t 0 flag resp calloc size [] = some (n, env)) :
    (∀ name : CStr, (0 : UInt8) ∉ name → (61 : UInt8) ∉ name →
        fwGetenv (env.read 0 n) name = some (m.lookup name)) ↔
      ∀ k v, m.lookup k = some v → (92 : UInt8) ∉ v := by
  obtain ⟨es, perm, big, read⟩ := hexportR_text dots exported
  obtain ⟨text, look, plain⟩ := export_strings rep good perm
  constructor
  · intro found k v lk
    obtain ⟨pk, nul⟩ := good k v lk
    -- the block and the text are both at the beginning of what is in memory
    have whole : env.read 0 n ++ env.read n (exportText 0 es).length =
        rawLines 0 ((es.map varOf).map (rawVar 0)) ++ 0 :: env.read (exportText 0 es).length n := by
      have both := @Mem.read_add env 0 n (exportText 0 es).length
      rw [Nat.add_comm n, Mem.read_add, read, Nat.zero_add, Nat.zero_add] at both
      rw [← both, text, List.append_assoc]
      rfl
    have mem := fwGetenv_of_part whole plain pk.eq ((found k pk.nul pk.eq).trans (by rw [lk]))
    obtain ⟨⟨k', v'⟩, hy, eq⟩ := List.mem_map.1 mem
    simp only [rawVar, Sigma.mk.injEq, heq_eq_eq] at eq
    obtain ⟨rfl, eq⟩ := eq
    obtain rfl : v' = v := Option.some.inj ((look.2 hy).symm.trans lk)
    exact (escapeValue_eq_iff nul).1 eq
  · intro bs name nn ne
    have same : ∀ {k v}, (⟨k, v⟩ : Var) ∈ es.map varOf → escapeValue 0 v = v := fun h =>
      (escapeValue_eq_iff (good _ _ (look.2 h)).2).2 (bs _ _ (look.2 h))
    have short : (exportText 0 es).length ≤ n := by
      have le := @length_exportText_le es fun e he => same (List.mem_map_of_mem he)
      have total : totlen 0 es = totlen 0 (entries t) := (perm.map (entryLen 0)).sum_eq
      omega
    obtain ⟨r, rfl⟩ := Nat.exists_eq_add_of_le short
    rw [Mem.read_add, read, text, List.append_assoc, List.singleton_append, Nat.zero_add]
    rw [fwGetenv_lines _ name plain, searched_of_plain ne]
    congr 1
    cases first : ((es.map varOf).map (rawVar 0)).find? fun x => x.1 = name with
    | none =>
      cases lk : m.lookup name with
      | none => rfl
      | some v =>
        have absent := List.find?_eq_none.1 first _ (List.mem_map_of_mem (look.1 lk))
        exact absurd rfl (of_decide_eq_false (Bool.eq_false_of_not_eq_true absent))
    | some y =>
      have is : y.1 = name := by simpa using List.find?_some first
      obtain ⟨⟨k', v'⟩, hy, rfl⟩ := List.mem_map.1 (List.mem_of_find?_eq_some first)
      obtain rfl : k' = name := is
      rw [Option.map_some, rawVar, same hy, look.2 hy]

end Export

/-! ## The two sides -/

/-- The Linux tool and U-Boot agree on the text of the environment as far as there are no escapes
and no full tables. What `fw_env_write` stored is what `himport_r` reads exactly when no backslash
stands before the last byte of the value and the name is among the first ones that fit into the
new table; and `fw_getenv` finds everything that `hexport_r` stored exactly when no value has a
backslash. -/
theorem tools_text_iff {hk : Hooks} (acc : hk.Accepting) :
    (∀ (a : Access) (data data' : List UInt8) (vs : List Var) (name value : CStr)
        (old : Option Htab) (env : Mem), Block data vs → GoodName 0 name → GoodValue value →
      fwEnvWrite a data name value = some (data', 0) → env.read 0 data'.length = data' →
      ((∃ t', himportR hk old env data'.length 0 0 false [] = some (t', true) ∧
          getenv hk t' name = some value) ↔
        (92 : UInt8) ∉ value.dropLast ∧
          name ∈ firstNames (importSize data.length)
            ((vs.eraseP fun x => x.1 = name).map (fun x => x.1) ++ [name]))) ∧
    ∀ (rx : Regex) (t : Htab) (m : Map) (flag : Nat) (resp : Option Mem) (calloc : Bool)
        (size n : Nat) (env : Mem), Rep t m →
      (∀ k v, m.lookup k = some v → PlainName k ∧ (0 : UInt8) ∉ v) →
      hasFlag flag hHideDot = false →
      hexportR rx t 0 flag resp calloc size [] = some (n, env) →
      ((∀ name : CStr, (0 : UInt8) ∉ name → (61 : UInt8) ∉ name →
          fwGetenv (env.read 0 n) name = some (getenv hk t name)) ↔
        ∀ k v, m.lookup k = some v → (92 : UInt8) ∉ v) := by
  constructor
  · intro a data data' vs name value old env b gn gv written read
    obtain ⟨t', imported, value'⟩ := @import_written name value vs hk a data data' old env acc b gn
      gv written read
    rw [← readValue_eq_iff gv.nul]
    constructor
    · rintro ⟨t2, imported2, held⟩
      obtain ⟨rfl, -⟩ := Prod.mk.inj (Option.some.inj (imported.symm.trans imported2))
      rw [value'] at held
      split_ifs at held with first
      exact ⟨Option.some.inj held, first⟩
    · rintro ⟨same, first⟩
      exact ⟨t', imported, by rw [value', if_pos first, same]⟩
  · intro rx t m flag resp calloc size n env rep good dots exported
    rw [← getenv_exported rep good dots exported]
    simp only [getenv_eq rep]

/-- No variable has flags. -/
def plainAccess : Access where
  validateVaraccess _ _ _ := false
  fwGetdefenv _ := none

/-- A block of 16 bytes that defines nothing. -/
lemma emptyBlock : Block (List.replicate 16 0) [] :=
  ⟨List.forall_mem_nil _, List.forall_mem_nil _, List.replicate 15 0, rfl, fun _ => ⟨_, rfl⟩⟩

lemma goodName_a : GoodName 0 [97] :=
  ⟨by decide, by decide, by decide, by decide, by rintro c ⟨⟩; decide⟩

/-- A table of 67 slots with the variable `a`. -/
def oneVariable : Htab :=
  { (Htab.empty 67).set 46 (.used (firstHash 67 [97]) ⟨some [97], some [120], none, 0⟩) with
    filled := 1 }

lemma oneVariable_rep : Rep oneVariable ((∅ : Map).insert [97] [120]) := by
  have empty : Rep (Htab.empty 67) ∅ := Rep.empty ⟨by norm_num, by decide, by decide⟩
  exact empty.put _ 1 ⟨0, by decide, rfl, fun j' h => absurd h (Nat.not_lt_zero j')⟩
    (fun h => by cases h) (fun h => by cases h.1) rfl rfl rfl (by decide)

/-- The tool stores `a` with a backslash at its end and U-Boot reads it; U-Boot stores `a` and the
tool finds it. -/
theorem tools_text_plain :
    (∃ t', himportR plainHooks none
        (Mem.zero.write 0 [97, 61, 98, 92, 0, 0, 0, 0, 0, 0, 0, 0, 0, 0, 0, 0]) 16 0 0 false [] =
          some (t', true) ∧ getenv plainHooks t' [97] = some [98, 92]) ∧
    ∃ n env, hexportR none oneVariable 0 0 none true 0 [] = some (n, env) ∧
      ∀ name : CStr, (0 : UInt8) ∉ name → (61 : UInt8) ∉ name →
        fwGetenv (env.read 0 n) name = some (getenv plainHooks oneVariable name) := by
  have both := tools_text_iff plainHooks_accepting
  constructor
  · refine (both.1 plainAccess (List.replicate 16 0)
      [97, 61, 98, 92, 0, 0, 0, 0, 0, 0, 0, 0, 0, 0, 0, 0] [] [97] [98, 92] none _ emptyBlock
      goodName_a ⟨by decide, by decide⟩ (by decide) (by decide)).2
      ⟨by decide, by decide⟩
  · refine ⟨_, _, rfl, (both.2 none _ _ 0 none true 0 _ _ oneVariable_rep ?_ rfl rfl).2 ?_⟩
    · intro k v look
      obtain ⟨rfl, rfl⟩ := lookup_single look
      exact ⟨⟨by decide, by decide, by decide⟩, by decide⟩
    · intro k v look
      obtain ⟨-, rfl⟩ := lookup_single look
      decide

/-- A backslash inside of a value: the tool stores `a=\n` and U-Boot reads `a=n`. -/
theorem tools_text_backslash :
    Block (List.replicate 16 0) [] ∧ GoodName 0 [97] ∧ GoodValue [92, 110] ∧
      fwEnvWrite plainAccess (List.replicate 16 0) [97] [92, 110] =
        some ([97, 61, 92, 110, 0, 0, 0, 0, 0, 0, 0, 0, 0, 0, 0, 0], 0) ∧
      ((himportR plainHooks none
        (Mem.zero.write 0 [97, 61, 92, 110, 0, 0, 0, 0, 0, 0, 0, 0, 0, 0, 0, 0]) 16 0 0 false
          []).map fun (r : Htab × Bool) => (getenv plainHooks r.1 [97], r.2)) =
        some (some [110], true) := by
  exact ⟨emptyBlock, goodName_a, ⟨by decide, by decide⟩, by decide, by decide⟩

end Imx.Env.FwWrite
