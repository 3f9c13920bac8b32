import Imx.Base.Run
import Imx.HashTable.Map
import Imx.HashTable.Script

/-!
# Changes that are refused or fail

`hsearch_r` and `hdelete_r` ask `change_ok` and the callback of an entry before they change it, and
a new entry that is refused is taken back. As long as the copies they ask for find memory and a new
entry has a slot of its own, a call that reports a failure leaves every answer of the table as it
was. Where memory runs out it does not: the old value is freed before the new one is copied, and a
new entry is not taken back.
-/

namespace Imx.HashTable
open Imx.Base

variable {hk : Hooks} {t t' : Htab} {m m' : Map} {k v : CStr} {l : Line} {ls : List Line}
  {vars : List (Option CStr)}

/-! ## Answers -/

/-- What `hsearch_r(FIND)` answers for a key: what it returns, with the value found. -/
def answer (hk : Hooks) (flag : Int) (t : Htab) (k : CStr) : Option (Res × Option CStr) :=
  (hsearchR hk t { key := k, data := none } .find flag).map fun (r : Htab × Res) =>
    (r.2, r.2.data r.1)

/-- Every key is found as before, and the entries are counted as before. -/
def Unchanged (t t' : Htab) : Prop :=
  t'.filled = t.filled ∧ ∀ hk flag k, answer hk flag t' k = answer hk flag t k

lemma Unchanged.refl (t : Htab) : Unchanged t t := ⟨rfl, fun _ _ _ => rfl⟩

/-- Two tables that hold the same map with the same entries in the same slots answer alike. -/
lemma Rep.answer_eq (rep : Rep t m) (rep' : Rep t' m)
    (same : ∀ i e, HoldsAt t' k i e ↔ HoldsAt t k i e) (hk : Hooks) (flag : Int) :
    answer hk flag t' k = answer hk flag t k := by
  obtain ⟨r, eq, data, at1⟩ := rep.find hk k flag
  obtain ⟨r', eq', data', at2⟩ := rep'.find hk k flag
  have found : r' = r := by
    rcases at1 with ⟨i, e, holds, rfl⟩ | ⟨absent, rfl⟩
    · rcases at2 with ⟨j, e', holds', rfl⟩ | ⟨absent', -⟩
      · rw [rep.uniq ((same j e').1 holds') holds]
      · obtain ⟨w, -, look, -⟩ := rep.lookup_of_holds holds
        rw [absent'] at look
        cases look
    · rcases at2 with ⟨j, e', holds', -⟩ | ⟨-, rfl⟩
      · obtain ⟨w, -, look, -⟩ := rep'.lookup_of_holds holds'
        rw [absent] at look
        cases look
      · rfl
  rw [answer, answer, eq, eq', Option.map_some, Option.map_some, data, data', found]

/-- An entry that is taken back leaves its slot as good as before. -/
lemma Entered.unchanged {r : Res} {errno : Errno} (entered : Entered hk t m k v t' r)
    (failed : r = .fail errno) (rep : Rep t m) (rep' : Rep t' m) : Unchanged t t' := by
  cases entered with
  | kept => exact .refl t
  | overwritten holds => cases failed
  | created absent full vacant eq => cases failed
  | @dropped i e errno absent vacant =>
    have bound := rep.good.bound
    have fill := rep.filled
    have room := rep.room
    refine ⟨?_, fun hk flag x => rep.answer_eq rep' (fun j e' => ?_) hk flag⟩
    · rw [hdelete_filled, decFilled]
      dsimp only
      omega
    · by_cases ji : j = i
      · subst ji
        refine iff_of_false (fun h => ?_) fun h => vacant _ _ h.1
        have deleted := h.1
        rw [hdelete_table_self] at deleted
        cases deleted
      · have other : (hdelete { t.set i (.used (firstHash t.size k) e) with
            filled := t.filled + 1 } i).table j = t.table j :=
          (hdelete_table_ne ji).trans (Htab.set_ne ji)
        rw [HoldsAt, HoldsAt, other]
        rfl

/-! ## Runs of changes -/

/-- A change of the table: a call, or the import of a text. -/
inductive Change where
  | call (c : Call)
  | load (hk : Hooks) (env : Mem) (size : Nat) (sep : UInt8) (flag : Nat) (crlfIsLf : Bool)
    (names : List CStr)

/-- The table after a change. -/
def Change.apply (t : Htab) : Change → Option Htab
  | .call c => (exec t c).map Prod.fst
  | .load hk env size sep flag crlfIsLf names =>
    (himportR hk (some t) env size sep flag crlfIsLf names).map Prod.fst

def Change.after (t : Htab) (c : Change) : Htab := (c.apply t).getD t

/-- A name to be entered replaces no other one, and the copies it takes find memory. -/
def Fits (hk : Hooks) (t : Htab) (k v : CStr) (flag : Int) : Prop :=
  Roomy t k ∧ Copied hk t k v flag

/-- The same for the names that lines enter. -/
def LinesFit (hk : Hooks) (flag : Nat) : Htab → List (Option CStr) → List Line → Prop
  | _, _, [] => True
  | t, vars, l :: ls => l.nameless = false →
    (∀ k v, l = .assign k v → (dropVarFromSet k vars).1 = true → Fits hk t k v flag) ∧
      ∀ r, runLine hk flag t vars l = some r → LinesFit hk flag r.1 r.2 ls

/-- The same for what a change enters. -/
def Change.Ok (t : Htab) : Change → Prop
  | .call c => ∀ k v, c.op = .enter k v → Fits c.hk t k v c.flag
  | .load hk env size sep flag crlfIsLf names => ∀ t₀, startTable (some t) flag size = some t₀ →
    LinesFit hk flag t₀ (names.map some) (importScript sep crlfIsLf env size)

/-- The table holds some map. -/
def Held (t : Htab) : Prop := ∃ m, Rep t m

lemma Held.deleted (held : Held t) (hk : Hooks) (k : CStr) (flag : Int) :
    ∃ r, hdeleteR hk t k flag = some r ∧ Held r.1 := by
  obtain ⟨m, rep⟩ := held
  rcases rep.deleted hk k flag with eq | ⟨i, e, holds, eq⟩
  · exact ⟨_, eq, m, rep⟩
  · exact ⟨_, eq, _, rep.drop holds⟩

lemma Held.entered {flag : Int} (held : Held t) (fits : Fits hk t k v flag) :
    ∃ r, hsearchR hk t { key := k, data := some v } .enter flag = some r ∧ Held r.1 := by
  obtain ⟨m, rep⟩ := held
  obtain ⟨t', r, eq, -, rep'⟩ := rep.entered fits.2 fun _ _ => fits.1
  exact ⟨_, eq, _, rep'⟩

/-- A line. -/
lemma Held.line {flag : Nat} (held : Held t)
    (fits : ∀ k v, l = .assign k v → (dropVarFromSet k vars).1 = true → Fits hk t k v flag) :
    ∃ r, runLine hk flag t vars l = some r ∧ Held r.1 := by
  cases l with
  | comment => exact ⟨_, rfl, held⟩
  | remove name =>
    rw [runLine]
    split_ifs with listed
    · obtain ⟨r, eq, held'⟩ := held.deleted hk name flag
      exact ⟨_, by rw [eq]; rfl, held'⟩
    · exact ⟨_, rfl, held⟩
  | assign name value =>
    rw [runLine]
    split_ifs with listed
    · obtain ⟨r, eq, held'⟩ := held.entered (fits name value rfl listed)
      exact ⟨_, by rw [eq]; rfl, held'⟩
    · exact ⟨_, rfl, held⟩

lemma Held.lines {flag : Nat} (held : Held t) (fits : LinesFit hk flag t vars ls) :
    ∃ r, runLines hk flag t vars ls = some r ∧ Held r.1 := by
  induction ls generalizing t vars with
  | nil => exact ⟨_, rfl, held⟩
  | cons l ls ih =>
    cases nameless : l.nameless with
    | true => exact ⟨_, by rw [runLines, if_pos nameless], held⟩
    | false =>
      obtain ⟨now, later⟩ := fits nameless
      obtain ⟨r, eq, held'⟩ := held.line now
      obtain ⟨r', eq', held''⟩ := ih held' (later r eq)
      refine ⟨r', ?_, held''⟩
      rw [runLines, nameless, if_neg Bool.false_ne_true, eq]
      exact eq'

lemma Held.dropRest (held : Held t) (hk : Hooks) (flag : Nat) (vars : List (Option CStr)) :
    ∃ t', dropRest hk flag t vars = some t' ∧ Held t' := by
  induction vars generalizing t with
  | nil => exact ⟨t, rfl, held⟩
  | cons x vars ih =>
    cases x with
    | none => exact ih held
    | some x =>
      obtain ⟨r, eq, held'⟩ := held.deleted hk x flag
      obtain ⟨t', rest, held''⟩ := ih held'
      exact ⟨t', by rw [HashTable.dropRest, eq]; exact rest, held''⟩

/-- A change under the conditions leaves a table that holds a map. -/
lemma Held.change {c : Change} (held : Held t) (ok : c.Ok t) : Held (c.after t) := by
  cases c with
  | call c =>
    obtain ⟨hk, op, flag⟩ := c
    cases op with
    | enter k v =>
      obtain ⟨r, eq, held'⟩ := held.entered (ok k v rfl)
      rw [Change.after, Change.apply, exec]
      simp only [eq, Option.map_some]
      exact held'
    | find k =>
      obtain ⟨m, rep⟩ := held
      obtain ⟨r, eq, -⟩ := rep.find hk k flag
      rw [Change.after, Change.apply, exec]
      simp only [eq, Option.map_some]
      exact ⟨m, rep⟩
    | delete k =>
      obtain ⟨r, eq, held'⟩ := held.deleted hk k flag
      rw [Change.after, Change.apply, exec]
      simp only [eq, Option.map_some]
      exact held'
  | load hk env size sep flag crlfIsLf names =>
    have start : ∃ t₀, startTable (some t) flag size = some t₀ ∧ Held t₀ := by
      rw [startTable]
      by_cases clear : flag &&& hNoclear = 0
      · obtain ⟨create, good⟩ := hcreateR_import size
        rw [if_pos clear]
        exact ⟨_, create, _, Rep.empty good⟩
      · rw [if_neg clear]
        exact ⟨t, rfl, held⟩
    obtain ⟨t₀, eq₀, held₀⟩ := start
    have imported : ∃ r, himportR hk (some t) env size sep flag crlfIsLf names = some r ∧
        Held r.1 := by
      by_cases pos : size = 0
      · subst pos
        rw [himportR_empty, eq₀]
        exact ⟨(t₀, true), rfl, held₀⟩
      · obtain ⟨r, eq, held'⟩ := held₀.lines (ok t₀ eq₀)
        rw [himportR_script _ _ _ _ _ _ _ pos, eq₀, Option.bind_some, runScript, eq,
          Option.bind_some]
        split_ifs
        · obtain ⟨t', rest, held''⟩ := held'.dropRest hk flag r.2.1
          exact ⟨(t', true), by rw [rest]; rfl, held''⟩
        · exact ⟨_, rfl, held'⟩
    obtain ⟨r, eq, held'⟩ := imported
    rw [Change.after, Change.apply, eq]
    exact held'

/-- In every run of changes from a table made by `himport_r`, as long as the copies taken find
memory and no new entry takes the slot of another, a call of `hsearch_r(ENTER)` under the same
conditions that returns 0, and a call of `hdelete_r` that returns 0, change nothing. -/
theorem refused_changes_nothing {n : Nat} {cs : List Change}
    (ok : Along Change.Ok Change.after (Htab.empty (importSize n)) cs) :
    (∀ hk k v flag, Fits hk (cs.foldl Change.after (Htab.empty (importSize n))) k v flag →
      ∀ t' errno, hsearchR hk (cs.foldl Change.after (Htab.empty (importSize n)))
          { key := k, data := some v } .enter flag = some (t', .fail errno) →
        Unchanged (cs.foldl Change.after (Htab.empty (importSize n))) t') ∧
    ∀ hk k flag t', hdeleteR hk (cs.foldl Change.after (Htab.empty (importSize n))) k flag =
        some (t', false) →
      Unchanged (cs.foldl Change.after (Htab.empty (importSize n))) t' := by
  obtain ⟨m, rep⟩ : Held (cs.foldl Change.after (Htab.empty (importSize n))) :=
    ok.invariant ⟨∅, Rep.empty (hcreateR_import n).2⟩ fun t c held ok => held.change ok
  generalize cs.foldl Change.after (Htab.empty (importSize n)) = t at rep
  constructor
  · intro hk k v flag fits t' errno failed
    obtain ⟨t₁, r, eq, entered, rep'⟩ := rep.entered fits.2 fun _ _ => fits.1
    obtain ⟨rfl, rfl⟩ := Prod.mk.inj (Option.some.inj (eq.symm.trans failed))
    exact entered.unchanged rfl rep rep'
  · intro hk k flag t' kept
    rcases rep.deleted hk k flag with eq | ⟨i, e, -, eq⟩
    · obtain ⟨rfl, -⟩ := Prod.mk.inj (Option.some.inj (eq.symm.trans kept))
      exact .refl _
    · cases (Prod.mk.inj (Option.some.inj (eq.symm.trans kept))).2

/-- The same behind the entry of one variable. -/
theorem refused_changes_nothing_one :
    (∀ hk k v flag, Fits hk ([Change.call (plainCall (.enter [97] [49]))].foldl Change.after
        (Htab.empty (importSize 1))) k v flag →
      ∀ t' errno, hsearchR hk ([Change.call (plainCall (.enter [97] [49]))].foldl Change.after
          (Htab.empty (importSize 1))) { key := k, data := some v } .enter flag =
            some (t', .fail errno) →
        Unchanged ([Change.call (plainCall (.enter [97] [49]))].foldl Change.after
          (Htab.empty (importSize 1))) t') ∧
    ∀ hk k flag t', hdeleteR hk ([Change.call (plainCall (.enter [97] [49]))].foldl Change.after
        (Htab.empty (importSize 1))) k flag = some (t', false) →
      Unchanged ([Change.call (plainCall (.enter [97] [49]))].foldl Change.after
        (Htab.empty (importSize 1))) t' := by
  refine refused_changes_nothing ⟨fun k v _ => ⟨?_, ⟨fun _ _ _ => rfl, fun _ _ => ⟨rfl, rfl⟩⟩⟩,
    trivial⟩
  have pos := (hcreateR_import 1).2.prime.pos
  exact .inr (.inl ⟨0, pos, rfl⟩)

/-- Memory runs out while a value is replaced: the old value is gone. -/
theorem failed_change_loses_value :
    ∃ t t', run (Htab.empty (importSize 1)) [plainCall (.enter [97] [49])] =
        some (t, [.entered true]) ∧
      hsearchR { plainHooks with dupData := false } t { key := [97], data := some [50] } .enter 0 =
        some (t', .fail .enomem) ∧ ¬ Unchanged t t' := by
  have size : importSize 1 = 67 := by decide
  have before : (run (Htab.empty 67) [plainCall (.enter [97] [49])]).map
      (fun (r : Htab × List Ans) => (r.2, (answer plainHooks 0 r.1 [97]).map Prod.snd)) =
        some ([.entered true], some (some [49])) := by
    decide
  have after : ((run (Htab.empty 67) [plainCall (.enter [97] [49])]).bind
      fun (r : Htab × List Ans) =>
        (hsearchR { plainHooks with dupData := false } r.1 { key := [97], data := some [50] } .enter
          0).map fun (x : Htab × Res) => (x.2, (answer plainHooks 0 x.1 [97]).map Prod.snd)) =
      some (.fail .enomem, some none) := by
    decide
  obtain ⟨⟨t, ans⟩, entered, held⟩ := Option.map_eq_some_iff.1 before
  obtain ⟨rfl, one⟩ := Prod.mk.inj held
  rw [entered, Option.bind_some] at after
  obtain ⟨⟨t', r⟩, failed, lost⟩ := Option.map_eq_some_iff.1 after
  obtain ⟨rfl, none⟩ := Prod.mk.inj lost
  rw [size]
  refine ⟨t, t', entered, failed, fun same => ?_⟩
  have alike := congrArg (Option.map Prod.snd) (same.2 plainHooks 0 [97])
  exact absurd (none.symm.trans (alike.trans one)) (by decide)

end Imx.HashTable
