import Imx.HashTable.Map
import Imx.HashTable.Script

/-!
# Importing stays inside the copy

The parser of `himport_r` again, with every access to the copy checked: `none` is a read or a write
outside of it, or a loop that does not end. Checked and unchecked parser agree, whatever the text.
-/

namespace Imx.HashTable
open Imx.Base

/-! ## The checked parser -/

/-- The string at `p`, which has to end inside the copy. -/
def cstrIn (data : List UInt8) (p : Nat) : Option CStr :=
  if 0 ∈ data.drop p then some (cstrAt data p) else none

/-- The conversion of line ends, checked. -/
def crlfLoopIn (size : Nat) : Nat → List UInt8 → Nat → Nat → Option (List UInt8 × Nat)
  | 0, _, _, _ => none
  | fuel + 1, data, dp, ignored =>
    if dp < size then do
      let c ← data[dp]?
      if c = 0 then some (data, ignored)
      else
        let ahead := if c = 13 ∧ dp + 1 < size then data[dp + 1]? else some 0
        let next ← ahead
        if next = 10 then crlfLoopIn size fuel data (dp + 1) (ignored + 1)
        else if dp < ignored then none
        else
          let data ← store data (dp - ignored) c
          crlfLoopIn size fuel data (dp + 1) ignored
    else some (data, ignored)

/-- The loop over a value, checked. -/
def valueLoopIn (sep : UInt8) : Nat → List UInt8 → Nat → Nat → Option (List UInt8 × Nat × Nat)
  | 0, _, _, _ => none
  | fuel + 1, data, sp, dp => do
    let c ← data[dp]?
    if c = 0 ∨ c = sep then some (data, sp, dp)
    else if c = 92 then
      let d ← data[dp + 1]?
      if d ≠ 0 then
        let data ← store data sp d
        valueLoopIn sep fuel data (sp + 1) (dp + 2)
      else
        let data ← store data sp c
        valueLoopIn sep fuel data (sp + 1) (dp + 1)
    else
      let data ← store data sp c
      valueLoopIn sep fuel data (sp + 1) (dp + 1)

section Parse

variable (hk : Hooks) (sep : UInt8) (flag : Nat)

/-- A line `name` or `name=`, checked. -/
def importDeleteIn (st : Parser) (name dp : Nat) (c : UInt8) : Option Parser := do
  let cut := if c = 61 then store st.data dp 0 else some st.data
  let data ← cut
  let dp := if c = 61 then dp + 1 else dp
  let data ← store data dp 0
  let key ← cstrIn data name
  let r := dropVarFromSet key st.vars
  if r.1 then
    let x ← hdeleteR hk st.t key flag
    some { t := x.1, data, dp := dp + 1, vars := r.2 }
  else some { st with data, dp := dp + 1, vars := r.2 }

/-- A line `name=value`, checked. -/
def importEnterIn (st : Parser) (name dp : Nat) : Option (Option Parser) := do
  let data ← store st.data dp 0
  let (data, sp, dp') ← valueLoopIn sep (st.data.length + 1) data (dp + 1) (dp + 1)
  let data ← store data sp 0
  let key ← cstrIn data name
  let value ← cstrIn data (dp + 1)
  if key = [] then some none
  else
    let r := dropVarFromSet key st.vars
    if r.1 then
      let x ← hsearchR hk st.t { key, data := some value } .enter flag
      some (some { t := x.1, data, dp := dp' + 1, vars := r.2 })
    else some (some { st with data, dp := dp' + 1, vars := r.2 })

/-- One turn of the parse loop, checked. -/
def importLineIn (st : Parser) : Option (Option Parser) := do
  let dp ← scan isblank st.data st.dp
  let c ← st.data[dp]?
  if c = 35 then
    let dp ← scan (fun c => c != 0 && c != sep) st.data dp
    some (some { st with dp := dp + 1 })
  else
    let name := dp
    let dp ← scan (fun c => c != 61 && c != 0 && c != sep) st.data dp
    let c ← st.data[dp]?
    if c = 0 then (importDeleteIn hk flag st name dp c).map some
    else
      let d ← st.data[dp + 1]?
      if d = 0 ∨ c = sep ∨ d = sep then (importDeleteIn hk flag st name dp c).map some
      else importEnterIn hk sep flag st name dp

/-- The parse loop, checked; it tells also where `dp` stands after each turn. -/
def importLoopIn (size : Nat) : Nat → Parser → Option (Parser × Bool × List Nat)
  | 0, _ => none
  | fuel + 1, st => do
    let next ← importLineIn hk sep flag st
    match next with
    | none => some (st, false, [])
    | some st =>
      if st.dp < size then
        let c ← st.data[st.dp]?
        if c ≠ 0 then
          let r ← importLoopIn size fuel st
          some (r.1, r.2.1, st.dp :: r.2.2)
        else some (st, true, [st.dp])
      else some (st, true, [st.dp])

end Parse

/-- The import, checked, with the places `dp` comes to. -/
def himportIn (hk : Hooks) (htab : Option Htab) (env : Mem) (size : Nat) (sep : UInt8) (flag : Nat)
    (crlfIsLf : Bool) (vars : List CStr) : Option ((Htab × Bool) × List Nat) := do
  let data := env.read 0 size ++ [0]
  let t ← startTable htab flag size
  if size = 0 then some ((t, true), [])
  else
    let copy := if crlfIsLf then crlfLoopIn size (size + 1) data 0 0 else some (data, 0)
    let (data, ignored) ← copy
    let st : Parser := { t, data, dp := 0, vars := vars.map some }
    let (st, ok, places) ← importLoopIn hk sep flag (size - ignored) (size + 1) st
    if ok then
      let t ← dropRest hk flag st.t st.vars
      some ((t, true), places)
    else some ((st.t, false), places)

variable {hk : Hooks} {t : Htab} {sep c : UInt8} {flag size slack fuel sp dp name : Nat}
  {data data' pre text : List UInt8} {vars : List (Option CStr)} {st st' : Parser}

/-! ## Checked and unchecked agree -/

lemma store_of_lt (lt : dp < data.length) : store data dp c = some (data.set dp c) :=
  if_pos lt

lemma lt_of_getElem? (h : data[dp]? = some c) : dp < data.length :=
  (List.getElem?_eq_some_iff.1 h).choose

/-- A string with a NUL stored behind its start ends in the copy. -/
lemma cstrIn_of_store (cut : store data sp 0 = some data') (le : name ≤ sp) :
    cstrIn data' name = some (cstrAt data' name) := by
  rw [store] at cut
  split_ifs at cut with lt
  obtain rfl := Option.some.inj cut
  refine if_pos (List.mem_iff_getElem?.2 ⟨sp - name, ?_⟩)
  rw [List.getElem?_drop, Nat.add_sub_cancel' le, List.getElem?_set_self lt]

/-- The loop over a value writes only where it has read. -/
lemma valueLoopIn_eq {r : List UInt8 × Nat × Nat} (loop : valueLoop sep fuel data sp dp = some r)
    (le : sp ≤ dp) : valueLoopIn sep fuel data sp dp = some r ∧ sp ≤ r.2.1 := by
  induction fuel generalizing data sp dp with
  | zero => cases loop
  | succ fuel ih =>
    rw [valueLoop] at loop
    rw [valueLoopIn]
    cases at0 : data[dp]? with
    | none =>
      rw [at0] at loop
      cases loop
    | some c =>
      have inside {x : UInt8} : store data sp x = some (data.set sp x) :=
        store_of_lt (Nat.lt_of_le_of_lt le (lt_of_getElem? at0))
      rw [at0] at loop
      simp only [Option.bind_eq_bind, Option.bind_some, inside] at loop ⊢
      split_ifs at loop ⊢ with stop bs
      · exact ⟨loop, by rw [← Option.some.inj loop]⟩
      · cases at1 : data[dp + 1]? with
        | none =>
          rw [at1] at loop
          cases loop
        | some d =>
          rw [at1] at loop
          simp only [Option.bind_some] at loop ⊢
          split_ifs at loop ⊢ with nul
          · obtain ⟨eq, sp'⟩ := ih loop (by omega)
            exact ⟨eq, by omega⟩
          · obtain ⟨eq, sp'⟩ := ih loop (by omega)
            exact ⟨eq, by omega⟩
      · obtain ⟨eq, sp'⟩ := ih loop (by omega)
        exact ⟨eq, by omega⟩

section Turn

variable (at0 : st.data[dp]? = some c) (le : name ≤ dp)
include at0 le

lemma importDeleteIn_eq (eq : importDelete hk flag st name dp c = some st') :
    importDeleteIn hk flag st name dp c = some st' := by
  have lt := lt_of_getElem? at0
  rw [importDelete] at eq
  rw [importDeleteIn]
  -- the first store is one where the equals sign was read
  have first : (if c = 61 then store st.data dp 0 else some st.data) =
      some (if c = 61 then (st.data.set dp 0, dp + 1) else (st.data, dp)).1 := by
    split_ifs
    · exact store_of_lt lt
    · rfl
  have place : (if c = 61 then dp + 1 else dp) =
      (if c = 61 then (st.data.set dp 0, dp + 1) else (st.data, dp)).2 := by
    split_ifs <;> rfl
  rw [first, place]
  have le' : name ≤ (if c = 61 then (st.data.set dp 0, dp + 1) else (st.data, dp)).2 := by
    split_ifs
    · exact le.trans (Nat.le_succ dp)
    · exact le
  generalize (if c = 61 then (st.data.set dp 0, dp + 1) else (st.data, dp)) = r at eq le' ⊢
  dsimp only at eq
  simp only [Option.bind_eq_bind, Option.bind_some]
  cases cut : store r.1 r.2 0 with
  | none =>
    rw [cut] at eq
    cases eq
  | some data =>
    rw [cut] at eq
    simp only [Option.bind_some, cstrIn_of_store cut le'] at eq ⊢
    rw [← eq]
    split_ifs
    · rw [Option.map_eq_bind]
      rfl
    · rfl

lemma importEnterIn_eq {next : Option Parser}
    (eq : importEnter hk sep flag st name dp = some next) :
    importEnterIn hk sep flag st name dp = some next := by
  have lt := lt_of_getElem? at0
  rw [importEnter] at eq
  rw [importEnterIn, store_of_lt lt]
  simp only [Option.bind_eq_bind, Option.bind_some]
  cases loop : valueLoop sep (st.data.length + 1) (st.data.set dp 0) (dp + 1) (dp + 1) with
  | none =>
    rw [loop] at eq
    cases eq
  | some r =>
    obtain ⟨loop', sp⟩ := valueLoopIn_eq loop (Nat.le_refl _)
    rw [loop] at eq
    rw [loop']
    simp only [Option.bind_some] at eq ⊢
    cases cut : store r.1 r.2.1 0 with
    | none =>
      rw [cut] at eq
      cases eq
    | some data =>
      rw [cut] at eq
      simp only [Option.bind_some, cstrIn_of_store cut sp, cstrIn_of_store cut (by omega : name ≤ _)]
        at eq ⊢
      rw [← eq]
      split_ifs
      · rfl
      · rw [Option.map_eq_bind]
        rfl
      · rfl

end Turn

lemma le_of_scan {p : UInt8 → Bool} {from' : Nat} (h : scan p data from' = some dp) :
    from' ≤ dp := by
  obtain ⟨n, -, rfl⟩ := Option.map_eq_some_iff.1 h
  exact Nat.le_add_right _ _

/-- A turn of the loop reads and writes the copy only. -/
lemma importLineIn_eq {next : Option Parser} (eq : importLine hk sep flag st = some next) :
    importLineIn hk sep flag st = some next := by
  simp only [importLine, importLineIn, Option.bind_eq_bind, Option.bind_eq_some_iff] at eq ⊢
  obtain ⟨dp, blank, c, at0, eq⟩ := eq
  refine ⟨dp, blank, c, at0, ?_⟩
  split_ifs at eq ⊢ with hash
  · exact eq
  · obtain ⟨dp', named, eq⟩ := Option.bind_eq_some_iff.1 eq
    obtain ⟨d, at1, eq⟩ := Option.bind_eq_some_iff.1 eq
    have le : dp ≤ dp' := le_of_scan named
    -- a name to be deleted, wherever it is seen to be one
    have delete (eq : (importDelete hk flag st dp dp' d).map some = some next) :
        (importDeleteIn hk flag st dp dp' d).map some = some next := by
      obtain ⟨st', run, rfl⟩ := Option.map_eq_some_iff.1 eq
      rw [importDeleteIn_eq at1 le run]
      rfl
    refine Option.bind_eq_some_iff.2 ⟨dp', named, Option.bind_eq_some_iff.2 ⟨d, at1, ?_⟩⟩
    split_ifs at eq ⊢ with zero
    · exact delete eq
    · obtain ⟨e, at2, eq⟩ := Option.bind_eq_some_iff.1 eq
      refine Option.bind_eq_some_iff.2 ⟨e, at2, ?_⟩
      split_ifs at eq ⊢
      · exact delete eq
      · exact importEnterIn_eq at1 le eq

/-- The conversion stays inside the copy. -/
lemma crlfLoopIn_eq {ignored : Nat} (len : data.length = size + 1) (le : ignored ≤ dp)
    (le' : dp ≤ size) (enough : size - dp ≤ fuel) :
    crlfLoopIn size (fuel + 1) data dp ignored = some (crlfLoop size fuel data dp ignored) := by
  induction fuel generalizing data dp ignored with
  | zero =>
    rw [crlfLoopIn, if_neg (by omega)]
    rfl
  | succ fuel ih =>
    obtain ⟨c, at0⟩ : ∃ c, data[dp]? = some c := ⟨_, List.getElem?_eq_getElem (by omega)⟩
    rw [crlfLoopIn, crlfLoop, at0]
    simp only [Option.bind_eq_bind, Option.bind_some]
    by_cases inside : dp < size
    · by_cases zero : c = 0
      · rw [if_pos inside, if_pos zero, if_neg fun h => h.2 zero]
      · have go : dp < size ∧ c ≠ 0 := ⟨inside, zero⟩
        rw [if_pos inside, if_neg zero, if_pos go]
        -- a byte that is kept moves down
        have keep : (if dp < ignored then none
            else (store data (dp - ignored) c).bind fun data =>
              crlfLoopIn size (fuel + 1) data (dp + 1) ignored) =
            some (crlfLoop size fuel (data.set (dp - ignored) c) (dp + 1) ignored) := by
          rw [if_neg (Nat.not_lt.2 le), store_of_lt (by omega), Option.bind_some]
          exact ih (by rw [List.length_set, len]) (by omega) inside (by omega)
        by_cases cr : c = 13 ∧ dp + 1 < size
        · obtain ⟨d, at1⟩ : ∃ d, data[dp + 1]? = some d :=
            ⟨_, List.getElem?_eq_getElem (by omega)⟩
          simp only [if_pos cr, at1, Option.bind_some]
          by_cases lf : d = 10
          · rw [if_pos lf, if_pos ⟨cr.1, cr.2, congrArg some lf⟩]
            exact ih len (by omega) inside (by omega)
          · have no : ¬ (c = 13 ∧ dp + 1 < size ∧ some d = some 10) :=
              fun h => lf (Option.some.inj h.2.2)
            rw [if_neg lf, if_neg no]
            exact keep
        · simp only [if_neg cr, Option.bind_some]
          have no : ¬ (c = 13 ∧ dp + 1 < size ∧ data[dp + 1]? = some 10) :=
            fun h => cr ⟨h.1, h.2.1⟩
          rw [if_neg (by decide : ¬ (0 : UInt8) = 10), if_neg no]
          exact keep
    · rw [if_neg inside, if_neg fun h => inside h.1]

/-! ## The whole import -/

/-- Every turn moves `dp` forward, inside the copy, until the loop ends. -/
lemma importLoopIn_eq (hk : Hooks) (sep : UInt8) (flag size fuel : Nat) (pre : List UInt8)
    (vars : List (Option CStr)) (good : GoodSize t.size) (ended : Ended text)
    (bound : size < (pre ++ text).length) (enough : text.length ≤ fuel) :
    ∃ st ok places,
      importLoopIn hk sep flag size fuel ⟨t, pre ++ text, pre.length, vars⟩ =
        some (st, ok, places) ∧
      importLoop hk sep flag size fuel ⟨t, pre ++ text, pre.length, vars⟩ = some (st, ok) ∧
      List.IsChain (· < ·) (pre.length :: places) ∧ GoodSize st.t.size := by
  induction fuel generalizing t vars pre text with
  | zero => exact absurd (List.eq_nil_of_length_eq_zero (Nat.le_zero.1 enough)) ended.ne_nil
  | succ fuel ih =>
    have reads := ended.reads sep
    generalize parseLine sep text = r at reads
    obtain ⟨line, ne, eq⟩ := reads.consumes ended
    obtain ⟨pre', len, turn⟩ := reads.turn ended hk flag t vars pre
    cases nameless : r.1.nameless with
    | true =>
      rw [nameless, if_pos rfl] at turn
      refine ⟨⟨t, pre ++ text, pre.length, vars⟩, false, [], ?_, ?_, List.isChain_singleton _, good⟩
      · rw [importLoopIn, importLineIn_eq turn]
        rfl
      · rw [importLoop, turn]
    | false =>
      obtain ⟨x, run, same⟩ := runLine_total hk flag vars r.1 good
      have good' : GoodSize x.1.size := same ▸ good
      rw [nameless, if_neg Bool.false_ne_true, run, Option.map_some] at turn
      have forward : pre.length < pre'.length := by
        have total := congrArg List.length eq
        have pos := List.length_pos_iff.2 ne
        rw [List.length_append] at total len
        omega
      have next : (pre' ++ r.2)[pre'.length]? = r.2.head? := by
        rw [List.getElem?_append_right (Nat.le_refl _), Nat.sub_self, List.head?_eq_getElem?]
      rw [importLoopIn, importLineIn_eq turn, importLoop, turn]
      simp only [Option.bind_eq_bind, Option.bind_some, next]
      have stop : List.IsChain (· < ·) [pre.length, pre'.length] :=
        List.isChain_pair.2 forward
      by_cases inside : pre'.length < size
      · obtain ⟨c, rest, cons⟩ := List.exists_cons_of_ne_nil (show r.2 ≠ [] by
          intro nil
          rw [nil, List.length_nil] at len
          omega)
        rw [cons] at eq len turn ⊢
        by_cases zero : c = 0
        · subst zero
          refine ⟨⟨x.1, pre' ++ 0 :: rest, pre'.length, x.2⟩, true, [pre'.length], ?_, ?_, stop,
            good'⟩
          · simp [inside]
          · simp
        · have shorter : (c :: rest).length ≤ fuel := by
            have total := congrArg List.length eq
            have pos := List.length_pos_iff.2 ne
            rw [List.length_append] at total
            omega
          obtain ⟨st, ok, places, checked, loop, chain, good''⟩ := ih pre' x.2 good'
            ((eq ▸ ended).append (List.cons_ne_nil c rest)) (by rw [List.length_append]; omega)
            shorter
          refine ⟨st, ok, pre'.length :: places, ?_, ?_, List.isChain_cons_cons.2 ⟨forward, chain⟩, good''⟩
          · simp [inside, zero, checked]
          · simpa [inside, zero] using loop
      · have no : ¬ (pre'.length < size ∧ r.2.head? ≠ some 0) := fun h => inside h.1
        rw [if_neg inside, if_neg no]
        exact ⟨_, _, _, rfl, rfl, stop, good'⟩

/-- `himport_r` stays inside its copy of the text and ends, whatever the text, the separator, the
flags and the line ends: every access of the parser lies in the copy, every scan stops, and every
turn moves `dp` forward. -/
theorem import_stays_inside {old : Option Htab} {env : Mem} {size : Nat} {sep : UInt8} {flag : Nat}
    {crlfIsLf : Bool} {names : List CStr} (pos : 1 ≤ size)
    (table : ∀ t, old = some t → GoodSize t.size) :
    ∃ r places, himportIn hk old env size sep flag crlfIsLf names = some (r, places) ∧
      himportR hk old env size sep flag crlfIsLf names = some r ∧
      List.IsChain (· < ·) (0 :: places) := by
  obtain ⟨t, start, good⟩ := startTable_good flag size table
  obtain ⟨ended, len, le⟩ := importCopy_ended env size crlfIsLf
  have copy : (if crlfIsLf then crlfLoopIn size (size + 1) (env.read 0 size ++ [0]) 0 0
      else some (env.read 0 size ++ [0], 0)) = some (importCopy env size crlfIsLf) := by
    cases crlfIsLf with
    | false => rfl
    | true => exact crlfLoopIn_eq (by simp) (Nat.le_refl 0) (Nat.zero_le size) (Nat.sub_le size 0)
  obtain ⟨st, ok, places, checked, loop, chain, good'⟩ := importLoopIn_eq hk sep flag
    (size - (importCopy env size crlfIsLf).2) (size + 1) [] (names.map some) good ended
    (by rw [List.nil_append]; omega) len.le
  rw [List.nil_append, List.length_nil] at checked loop
  rw [himportR_loop hk old env sep flag crlfIsLf names (by omega), start, Option.bind_some]
  simp only [himportIn, start, copy, if_neg (show size ≠ 0 by omega), checked, loop,
    Option.bind_eq_bind, Option.bind_some]
  cases ok with
  | false => exact ⟨_, places, rfl, rfl, chain⟩
  | true =>
    obtain ⟨t', rest⟩ := dropRest_total hk flag st.vars good'
    rw [rest]
    exact ⟨_, places, rfl, rfl, chain⟩

/-- A text that ends in the middle of an escape, imported into an old table. -/
theorem import_stays_inside_escape :
    ∃ r places, himportIn plainHooks (some (Htab.empty 67)) (Mem.zero.write 0 [97, 61, 98, 92]) 4 10
        1 true [] = some (r, places) ∧
      himportR plainHooks (some (Htab.empty 67)) (Mem.zero.write 0 [97, 61, 98, 92]) 4 10 1 true [] =
        some r ∧
      List.IsChain (· < ·) (0 :: places) := by
  refine import_stays_inside (by decide) fun t eq => ?_
  obtain rfl := Option.some.inj eq
  exact ⟨by norm_num [Htab.empty], by decide, by decide⟩

end Imx.HashTable
