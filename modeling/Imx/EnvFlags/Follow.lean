import Imx.EnvFlags.Defs

/-!
# Flags follow `.flags`

`declared` is what the value of `.flags` and the static list say about a name. Flags are given in
two ways: a new variable looks its name up in the remembered list, where the names are patterns,
while a change of `.flags` gives each entry's flags to the variable that has the entry's name
literally. `Ok` says when the two agree with `declared`: the remembered list says the same about a
new variable as the current one, and patterns match the variables of the table only literally. Under
it, every variable has its declared flags all along a run (`flags_follow`).
-/

namespace Imx.EnvFlags
open Imx.Base Imx.HashTable

variable {c : Config} {t t' : Htab} {m : Map} {k name value : CStr} {f : CStr → Int}
variable {es : List (CStr × Option CStr)}

/-! ## What a list declares -/

/-- The pattern of an entry matches a name. -/
def isMatch (slre : Slre) (name : CStr) (e : CStr × Option CStr) : Bool :=
  match slre e.1 with
  | none => false
  | some f => f name

/-- The attributes a list has for a name: those of the last entry that matches. A list with a
pattern that does not compile has none. -/
def listed (slre : Slre) (es : List (CStr × Option CStr)) (name : CStr) : Option (Option CStr) :=
  if es.all fun e => (slre e.1).isSome then
    (es.reverse.find? (isMatch slre name)).map fun e => e.2
  else none

/-- The flags that a value of `.flags`, or else the static list, declares for a name. -/
def declared (c : Config) (flags : Option CStr) (name : CStr) : Int :=
  match (flags.bind fun list => listed c.slre (attrEntries list) name).or
    (listed c.slre (attrEntries c.staticList) name) with
  | some attributes => flagsOf attributes
  | none => 0

section Lookup

variable {slre : Slre} {priv : Option CStr}

/-- A walk with the regular expressions ends with the attributes of the last match. -/
lemma walk_regex {r : Except Int (Option CStr)}
    (h : envAttrWalk (regexCallback slre name) es priv = some r) :
    if es.all fun e => (slre e.1).isSome then
      (∀ e, es.reverse.find? (isMatch slre name) = some e → e.2.isSome) ∧
        r = .ok (((es.reverse.find? (isMatch slre name)).map fun e => e.2).getD priv)
    else ∃ v, r = .error v := by
  induction es generalizing priv with
  | nil =>
    obtain rfl := Option.some.inj h
    exact ⟨fun e he => by simp at he, rfl⟩
  | cons e es ih =>
    obtain ⟨pat, attributes⟩ := e
    rw [envAttrWalk, regexCallback] at h
    cases compiled : slre pat with
    | none =>
      simp only [compiled] at h
      obtain rfl := Option.some.inj h
      simp [compiled]
    | some g =>
      simp only [compiled] at h
      simp only [List.all_cons, compiled, Option.isSome_some, Bool.true_and, List.reverse_cons,
        List.find?_append]
      by_cases hit : g name
      · rw [if_pos hit] at h
        cases attributes with
        | none => cases h
        | some a =>
          have ih := ih h
          have here : [(pat, some a)].find? (isMatch slre name) = some (pat, some a) := by
            simp [isMatch, compiled, hit]
          split_ifs at ih ⊢
          · obtain ⟨some', rfl⟩ := ih
            rw [here]
            cases found : es.reverse.find? (isMatch slre name) with
            | none => exact ⟨fun e he => by simp at he; rw [← he]; rfl, rfl⟩
            | some e => exact ⟨fun e' he => some' e' (found.trans he), rfl⟩
          · exact ih
      · rw [if_neg hit] at h
        have ih := ih h
        have here : [(pat, attributes)].find? (isMatch slre name) = none := by
          simp [isMatch, compiled, hit]
        rw [here, Option.or_none]
        exact ih

/-- A lookup gives what the list has for the name. -/
lemma envAttrLookup_eq {list : CStr} {r : Except Int CStr}
    (h : envAttrLookup slre list name = some r) :
    (∀ a, listed slre (attrEntries list) name = some a → ∃ b, a = some b ∧ r = .ok b) ∧
      (listed slre (attrEntries list) name = none → ∃ v, r = .error v) := by
  rw [envAttrLookup] at h
  cases walked : envAttrWalk (regexCallback slre name) (attrEntries list) none with
  | none => rw [walked] at h; cases h
  | some w =>
    have regex := walk_regex walked
    rw [walked] at h
    rw [listed]
    split_ifs at regex ⊢
    · obtain ⟨some', rfl⟩ := regex
      cases found : (attrEntries list).reverse.find? (isMatch slre name) with
      | none =>
        rw [found] at h
        obtain rfl := Option.some.inj h
        exact ⟨fun a ha => (by cases ha), fun _ => ⟨_, rfl⟩⟩
      | some e =>
        obtain ⟨b, hb⟩ := Option.isSome_iff_exists.1 (some' e found)
        simp only [found, Option.map_some, Option.getD_some, hb] at h
        split_ifs at h
        obtain rfl := Option.some.inj h
        refine ⟨fun a ha => ⟨b, ?_, rfl⟩, fun none => by cases none⟩
        exact (Option.some.inj ha).symm.trans hb
    · obtain ⟨v, rfl⟩ := regex
      obtain rfl := Option.some.inj h
      exact ⟨fun a ha => (by cases ha), fun _ => ⟨v, rfl⟩⟩

end Lookup

/-- A new variable gets the flags the remembered list declares. -/
lemma initFlags_eq {list : Option CStr} {r : Option Int} (h : initFlags c list name = some r) :
    r.getD 0 = declared c list name := by
  have flags (b : CStr) :
      (if b = [] then none else some (parseFlagsToBin b)).getD 0 = flagsOf (some b) := by
    cases b with
    | nil => rfl
    | cons x b => rfl
  -- the lookup in the static list, and what it leaves
  have static (h : initFlags c none name = some r) : r.getD 0 = declared c none name := by
    rw [initFlags, envFlagsLookup] at h
    simp only [declared, Option.bind_none, Option.none_or]
    cases look : envAttrLookup c.slre c.staticList name with
    | none => rw [look] at h; cases h
    | some l =>
      obtain ⟨hit, miss⟩ := envAttrLookup_eq look
      rw [look] at h
      cases found : listed c.slre (attrEntries c.staticList) name with
      | none =>
        obtain ⟨v, rfl⟩ := miss found
        obtain rfl := Option.some.inj h
        rfl
      | some a =>
        obtain ⟨b, rfl, rfl⟩ := hit a found
        obtain rfl := Option.some.inj h
        exact flags b
  rw [initFlags] at h
  cases list with
  | none => exact static h
  | some list =>
    rw [envFlagsLookup] at h
    simp only [declared, Option.bind_some]
    cases look : envAttrLookup c.slre list name with
    | none => simp only [look] at h; cases h
    | some l =>
      obtain ⟨hit, miss⟩ := envAttrLookup_eq look
      simp only [look] at h
      cases found : listed c.slre (attrEntries list) name with
      | none =>
        obtain ⟨v, rfl⟩ := miss found
        exact static h
      | some a =>
        obtain ⟨b, rfl, rfl⟩ := hit a found
        obtain rfl := Option.some.inj h
        exact flags b

/-! ## What a change of `.flags` gives -/

/-- The flags given by the entries one after the other. -/
def walked (es : List (CStr × Option CStr)) (f : CStr → Int) : CStr → Int :=
  es.foldl (fun f e => Function.update f e.1 (flagsOf e.2)) f

/-- The last entry with a name wins. -/
lemma walked_eq : walked es f k =
    match es.reverse.find? (fun e => e.1 = k) with
    | some e => flagsOf e.2
    | none => f k := by
  induction es generalizing f with
  | nil => rfl
  | cons e es ih =>
    rw [walked, List.foldl_cons, ← walked, ih, List.reverse_cons, List.find?_append]
    cases found : es.reverse.find? (fun e => e.1 = k) with
    | some e' => rfl
    | none =>
      by_cases hit : e.1 = k
      · subst hit
        simp
      · simp [hit, Function.update_of_ne (Ne.symm hit)]

/-- The entries of a list that is not NULL. -/
def entriesOf (list : Option CStr) : List (CStr × Option CStr) :=
  match list with
  | none => []
  | some list => attrEntries list

/-- Every pattern compiles, and it matches the name exactly when it is the name. -/
def Literal (slre : Slre) (es : List (CStr × Option CStr)) (k : CStr) : Prop :=
  ∀ e ∈ es, ∃ g, slre e.1 = some g ∧ (g k = true ↔ e.1 = k)

/-- Entries that match literally are found by name. -/
lemma Literal.listed {slre : Slre} (lit : Literal slre es k) :
    listed slre es k = (es.reverse.find? fun e => e.1 = k).map fun e => e.2 := by
  have all : es.all (fun e => (slre e.1).isSome) = true := by
    rw [List.all_eq_true]
    intro e he
    obtain ⟨g, compiled, -⟩ := lit e he
    rw [compiled]
    rfl
  rw [EnvFlags.listed, if_pos all]
  congr 1
  apply List.find?_congr
  intro e he
  obtain ⟨g, compiled, iff⟩ := lit e (List.mem_reverse.1 he)
  simp only [isMatch, compiled]
  rw [Bool.eq_iff_iff, iff, decide_eq_true_iff]

/-- For a variable that patterns match only literally, a change of `.flags` gives the flags it
declares. -/
lemma walked_declared {list : Option CStr} (static : Literal c.slre (attrEntries c.staticList) k)
    (dynamic : Literal c.slre (entriesOf list) k) :
    walked (attrEntries c.staticList ++ entriesOf list) (fun _ => 0) k = declared c list k := by
  have both : (list.bind fun list => listed c.slre (attrEntries list) k) =
      ((entriesOf list).reverse.find? fun e => e.1 = k).map fun e => e.2 := by
    cases list with
    | none => rfl
    | some list => exact dynamic.listed
  rw [walked_eq, declared, both, static.listed, List.reverse_append, List.find?_append]
  cases (entriesOf list).reverse.find? fun e => e.1 = k with
  | some e => rfl
  | none =>
    cases (attrEntries c.staticList).reverse.find? fun e => e.1 = k with
    | some e => rfl
    | none => rfl

/-! ## Tables and their flags -/

/-- The two tables differ in flags only. -/
structure Reflagged (t t' : Htab) : Prop where
  size : t'.size = t.size
  filled : t'.filled = t.filled
  used : ∀ i u e, t.table i = .used u e → ∃ flags, t'.table i = .used u { e with flags }
  other : ∀ i, (∀ u e, t.table i ≠ .used u e) → t'.table i = t.table i

lemma Reflagged.refl : Reflagged t t :=
  ⟨rfl, rfl, fun _ _ e h => ⟨e.flags, h⟩, fun _ _ => rfl⟩

lemma Reflagged.trans {t'' : Htab} (h : Reflagged t t') (h' : Reflagged t' t'') :
    Reflagged t t'' where
  size := h'.size.trans h.size
  filled := h'.filled.trans h.filled
  used i u e eq := by
    obtain ⟨flags, eq'⟩ := h.used i u e eq
    obtain ⟨flags', eq''⟩ := h'.used i u _ eq'
    exact ⟨flags', eq''⟩
  other i none := by
    have same := h.other i none
    rw [← same]
    refine h'.other i fun u e eq => none u e ?_
    rw [← same, eq]

lemma Reflagged.back {i u : Nat} {e' : Entry} (h : Reflagged t t') (eq : t'.table i = .used u e') :
    ∃ e, t.table i = .used u e ∧ e' = { e with flags := e'.flags } := by
  cases old : t.table i with
  | used u0 e =>
    obtain ⟨flags, eq'⟩ := h.used i u0 e old
    obtain ⟨rfl, rfl⟩ := Slot.used.inj (eq.symm.trans eq')
    exact ⟨e, rfl, rfl⟩
  | free =>
    have same := h.other i (by simp [old])
    rw [eq, old] at same
    cases same
  | deleted =>
    have same := h.other i (by simp [old])
    rw [eq, old] at same
    cases same

/-- The map a table holds does not depend on flags. -/
lemma Reflagged.rep (h : Reflagged t t') (rep : Rep t m) : Rep t' m where
  good := h.size ▸ rep.good
  filled := h.filled.trans rep.filled
  room := h.size ▸ rep.room
  slot {k v} look := by
    obtain ⟨i, e, holds, data⟩ := rep.slot look
    obtain ⟨flags, eq⟩ := h.used i _ e holds.1
    refine ⟨i, { e with flags }, ⟨?_, holds.2⟩, data⟩
    rw [eq, h.size]
  live {i u e'} eq := by
    obtain ⟨e, old, same⟩ := h.back eq
    obtain ⟨k, v, hu, key, data, look, reach⟩ := rep.live old
    refine ⟨k, v, by rw [h.size]; exact hu, by rw [same]; exact key, by rw [same]; exact data, look,
      reach.mono h.size fun j used free => ?_⟩
    cases slot : t.table j with
    | used u0 e0 =>
      obtain ⟨flags, eq⟩ := h.used j u0 e0 slot
      rw [eq] at free
      cases free
    | free => exact used slot
    | deleted =>
      rw [h.other j (by simp [slot]), slot] at free
      cases free
  uniq {k i j e e'} hi hj := by
    obtain ⟨e0, old, same⟩ := h.back hi.1
    obtain ⟨e1, old', same'⟩ := h.back hj.1
    rw [h.size] at old old'
    exact rep.uniq ⟨old, by rw [same] at hi; exact hi.2⟩ ⟨old', by rw [same'] at hj; exact hj.2⟩

/-- Every variable has the flags given by `f`, and `.flags` alone has the callback `on_flags`. -/
def Flagged (t : Htab) (f : CStr → Int) : Prop :=
  ∀ i u e, t.table i = .used u e →
    ∃ k, e.key = some k ∧ e.flags = f k ∧ (e.callback = some flagsCallback ↔ k = flagsVar)

/-- A name is found in its slot, or it is not in the map. -/
lemma findSlot_cases (c : Config) (rep : Rep t m) (name : CStr) :
    (∃ i e, HoldsAt t name i e ∧ findSlot c t name = some i) ∨
      (m.lookup name = none ∧ findSlot c t name = none) := by
  obtain ⟨r, eq, -, ⟨i, e, holds, rfl⟩ | ⟨absent, rfl⟩⟩ := rep.find (hooks c none) name 0
  · exact .inl ⟨i, e, holds, by rw [findSlot, eq]⟩
  · exact .inr ⟨absent, by rw [findSlot, eq]⟩

lemma getenv_eq (c : Config) (rep : Rep t m) (name : CStr) : getenv c t name = m.lookup name := by
  rcases findSlot_cases c rep name with ⟨i, e, holds, eq⟩ | ⟨absent, eq⟩
  · obtain ⟨v, data, look, -⟩ := rep.lookup_of_holds holds
    rw [getenv, eq, Option.bind_some, dataAt, holds.1, look, ← data]
  · rw [getenv, eq, absent]
    rfl

lemma clearFlags_reflagged : Reflagged t (clearFlags t) where
  size := rfl
  filled := rfl
  used i u e eq := ⟨0, by simp only [clearFlags, eq]⟩
  other i none := by
    cases slot : t.table i with
    | used u e => exact absurd slot (none u e)
    | free => simp only [clearFlags, slot]
    | deleted => simp only [clearFlags, slot]

lemma clearFlags_flagged (fl : Flagged t f) : Flagged (clearFlags t) fun _ => 0 := by
  intro i u e eq
  obtain ⟨e0, old, same⟩ := clearFlags_reflagged.back eq
  obtain ⟨k, key, -, callback⟩ := fl i u e0 old
  have zero : e.flags = 0 := by
    simp only [clearFlags, old] at eq
    obtain ⟨-, rfl⟩ := Slot.used.inj eq
    rfl
  rw [same]
  exact ⟨k, key, zero, callback⟩

section Set

variable (rep : Rep t m)
include rep

lemma setFlags_reflagged (e : CStr × Option CStr) : Reflagged t (setFlags c t e) := by
  rcases findSlot_cases c rep e.1 with ⟨i, e0, holds, eq⟩ | ⟨absent, eq⟩
  · have set : setFlags c t e =
        t.set i (.used (firstHash t.size e.1) { e0 with flags := flagsOf e.2 }) := by
      simp only [setFlags, eq, setFlagsAt, holds.1]
    rw [set]
    refine ⟨rfl, rfl, fun j u e1 old => ?_, fun j none => ?_⟩
    · by_cases ji : j = i
      · subst ji
        obtain ⟨rfl, rfl⟩ := Slot.used.inj (holds.1.symm.trans old)
        exact ⟨_, Htab.set_self⟩
      · exact ⟨e1.flags, (Htab.set_ne ji).trans old⟩
    · apply Htab.set_ne
      rintro rfl
      exact none _ _ holds.1
  · rw [setFlags, eq]
    exact .refl

lemma setFlags_flagged (e : CStr × Option CStr) (fl : Flagged t f) :
    Flagged (setFlags c t e) (Function.update f e.1 (flagsOf e.2)) := by
  rcases findSlot_cases c rep e.1 with ⟨i, e0, holds, eq⟩ | ⟨absent, eq⟩
  · have set : setFlags c t e =
        t.set i (.used (firstHash t.size e.1) { e0 with flags := flagsOf e.2 }) := by
      simp only [setFlags, eq, setFlagsAt, holds.1]
    rw [set]
    intro j u e1 new
    by_cases ji : j = i
    · subst ji
      obtain ⟨rfl, rfl⟩ := Slot.used.inj (Htab.set_self.symm.trans new)
      obtain ⟨k, key, -, callback⟩ := fl _ _ _ holds.1
      obtain rfl : k = e.1 := Option.some.inj (key.symm.trans holds.2)
      exact ⟨e.1, key, by rw [Function.update_self], callback⟩
    · have old := (Htab.set_ne ji).symm.trans new
      obtain ⟨k, key, flags, callback⟩ := fl j u e1 old
      have ne : k ≠ e.1 := by
        rintro rfl
        obtain ⟨k', v, hu, key', -, -, -⟩ := rep.live old
        obtain rfl : k' = e.1 := Option.some.inj (key'.symm.trans key)
        exact ji (rep.uniq ⟨hu ▸ old, key⟩ holds)
      exact ⟨k, key, by rw [Function.update_of_ne ne]; exact flags, callback⟩
  · rw [setFlags, eq]
    intro j u e1 old
    obtain ⟨k, key, flags, callback⟩ := fl j u e1 old
    obtain ⟨k', v, -, key', -, look, -⟩ := rep.live old
    obtain rfl : k' = k := Option.some.inj (key'.symm.trans key)
    have ne : k' ≠ e.1 := by
      rintro rfl
      rw [absent] at look
      cases look
    exact ⟨k', key, by rw [Function.update_of_ne ne]; exact flags, callback⟩

lemma setFlags_all (es : List (CStr × Option CStr)) (fl : Flagged t f) :
    Reflagged t (es.foldl (setFlags c) t) ∧ Flagged (es.foldl (setFlags c) t) (walked es f) := by
  induction es generalizing t f with
  | nil => exact ⟨.refl, fl⟩
  | cons e es ih =>
    have one := setFlags_reflagged (c := c) rep e
    obtain ⟨same, flags⟩ := ih (one.rep rep) (setFlags_flagged rep e fl)
    exact ⟨one.trans same, flags⟩

/-- The two walks of `on_flags` give the flags of the last entry with a variable's name. -/
lemma onFlags_spec (list : Option CStr) (fl : Flagged t f) :
    Reflagged t (onFlags c t list) ∧
      Flagged (onFlags c t list)
        (walked (attrEntries c.staticList ++ entriesOf list) fun _ => 0) := by
  have clear := clearFlags_reflagged (t := t)
  obtain ⟨same1, flags1⟩ := setFlags_all (c := c) (clear.rep rep) (attrEntries c.staticList)
    (clearFlags_flagged fl)
  rw [walked, List.foldl_append, ← walked, ← walked]
  cases list with
  | none => exact ⟨clear.trans same1, flags1⟩
  | some list =>
    obtain ⟨same2, flags2⟩ := setFlags_all (c := c) ((clear.trans same1).rep rep)
      (attrEntries list) flags1
    exact ⟨(clear.trans same1).trans same2, flags2⟩

end Set

/-! ## Runs -/

/-- Every variable of the table has the flags that the current value of `.flags` declares. -/
def Follows (c : Config) (t : Htab) : Prop :=
  ∀ i u e k, t.table i = .used u e → e.key = some k →
    e.flags = declared c (getenv c t flagsVar) k

/-- A variable is in the table. -/
def Present (t : Htab) (k : CStr) : Prop := ∃ i u e, t.table i = .used u e ∧ e.key = some k

/-- An operation after which the flags still follow. A new variable is looked up in a list that can
be read, has for it at most two attributes and says the same about it as the current `.flags`; and
its slot holds no other variable. A change of `.flags` comes while every pattern of the lists
matches the variables of the table only literally. -/
def Ok (c : Config) (s : State) : Event → Prop
  | .set name value _ =>
    (isNew c s.t name → Roomy s.t name ∧
      ∃ list, (s.remember c name).listText c name value = some list ∧
        initFlags c list name ≠ none ∧
        (name ≠ flagsVar →
          declared c list name = declared c (getenv c s.t flagsVar) name)) ∧
    (name = flagsVar → ∀ k, k = flagsVar ∨ Present s.t k →
      Literal c.slre (attrEntries c.staticList ++ attrEntries value) k)
  | .delete name _ =>
    name = flagsVar → ∀ k, Present s.t k → Literal c.slre (attrEntries c.staticList) k
  | .clear nel => 2 ≤ nel ∧ nel < 2 ^ 30

/-- The state after an operation, where it has one. -/
def State.next (c : Config) (s : State) (e : Event) : State := (s.step c e).getD s

/-- The table holds the map and its flags follow. -/
structure Inv (c : Config) (s : State) (m : Map) : Prop where
  rep : Rep s.t m
  flagged : Flagged s.t (declared c (m.lookup flagsVar))

section Step

variable {s : State} (cb : ∀ k, c.callbackInit k = some flagsCallback ↔ k = flagsVar)

/-- Where a key is held, its entry has the callback `on_flags` exactly for `.flags`. -/
lemma callbackOf_holds {i : Nat} {e : Entry} (rep : Rep t m) (fl : Flagged t f)
    (holds : HoldsAt t name i e) : callbackOf c t name = some flagsCallback ↔ name = flagsVar := by
  rcases findSlot_cases c rep name with ⟨j, e', holds', eq⟩ | ⟨absent, -⟩
  · obtain ⟨k, key, -, callback⟩ := fl _ _ _ holds'.1
    obtain rfl : k = name := Option.some.inj (key.symm.trans holds'.2)
    rw [callbackOf, eq, Option.bind_some, holds'.1]
    exact callback
  · obtain ⟨v, -, look, -⟩ := rep.lookup_of_holds holds
    rw [absent] at look
    cases look

lemma Literal.append {es' : List (CStr × Option CStr)} {slre : Slre}
    (h : Literal slre (es ++ es') k) : Literal slre es k ∧ Literal slre es' k :=
  ⟨fun e he => h e (List.mem_append_left _ he), fun e he => h e (List.mem_append_right _ he)⟩

/-- After `on_flags` the flags follow the new value of `.flags`. -/
lemma onFlags_inv {list : Option CStr} (rep : Rep t m) (fl : Flagged t f)
    (look : m.lookup flagsVar = list)
    (lit : ∀ k, Present t k → Literal c.slre (attrEntries c.staticList ++ entriesOf list) k) :
    Inv c { s with t := onFlags c t list } m := by
  obtain ⟨same, flags⟩ := onFlags_spec (c := c) rep list fl
  refine ⟨same.rep rep, fun i u e eq => ?_⟩
  obtain ⟨k, key, flags, callback⟩ := flags i u e eq
  obtain ⟨e0, old, eq0⟩ := same.back eq
  have present : Present t k := ⟨i, u, e0, old, by rw [eq0] at key; exact key⟩
  obtain ⟨static, dynamic⟩ := (lit k present).append
  exact ⟨k, key, by rw [look, flags, walked_declared static dynamic], callback⟩

/-- Entering a variable makes a new entry exactly when it is not there and there is room. -/
lemma isNew_iff (rep : Rep t m) :
    isNew c t name = true ↔ m.lookup name = none ∧ t.filled ≠ t.size := by
  rcases findSlot_cases c rep name with ⟨i, e, holds, eq⟩ | ⟨absent, eq⟩
  · obtain ⟨v, -, look, -⟩ := rep.lookup_of_holds holds
    simp [isNew, eq, look]
  · simp [isNew, eq, absent]

/-- The variables after a name is entered. -/
lemma entered_present {hk : Hooks} {r : Res} (h : Entered hk t m name value t' r)
    (dup : hk.dupKey = true) (present : Present t' k) : k = name ∨ Present t k := by
  obtain ⟨j, u, e1, eq, key⟩ := present
  cases h with
  | kept => exact .inr ⟨j, u, e1, eq, key⟩
  | @overwritten i e holds =>
    by_cases ji : j = i
    · subst ji
      obtain ⟨-, rfl⟩ := Slot.used.inj (Htab.set_self.symm.trans eq)
      exact .inl (Option.some.inj (key.symm.trans holds.2))
    · exact .inr ⟨j, u, e1, (Htab.set_ne ji).symm.trans eq, key⟩
  | @created i e absent full vacant init =>
    by_cases ji : j = i
    · subst ji
      obtain ⟨-, rfl⟩ := Slot.used.inj (Htab.set_self.symm.trans eq)
      rw [init] at key
      simp only [initEntry, newEntry, strdup, dup, if_true] at key
      exact .inl (Option.some.inj key).symm
    · exact .inr ⟨j, u, e1, (Htab.set_ne ji).symm.trans eq, key⟩
  | @dropped i e errno absent vacant =>
    have ji : j ≠ i := by
      rintro rfl
      rw [hdelete_table_self] at eq
      cases eq
    rw [hdelete_table_ne ji] at eq
    exact .inr ⟨j, u, e1, (Htab.set_ne ji).symm.trans eq, key⟩

/-- The flags after a name is entered: only a new entry has flags of its own. -/
lemma entered_flagged (cb : ∀ k, c.callbackInit k = some flagsCallback ↔ k = flagsVar)
    {flags : Option Int} {r : Res} (rep : Rep t m)
    (h : Entered (hooks c flags) t m name value t' r) (fl : Flagged t f) :
    Flagged t' fun k =>
      if k = name ∧ m.lookup name = none ∧ r.isOk then flags.getD 0 else f k := by
  cases h with
  | kept => simpa [Res.isOk] using fl
  | @overwritten i e holds =>
    obtain ⟨v, -, look, -⟩ := rep.lookup_of_holds holds
    simp only [look, reduceCtorEq, false_and, and_false, if_false]
    intro j u e1 eq
    by_cases ji : j = i
    · subst ji
      obtain ⟨-, rfl⟩ := Slot.used.inj (Htab.set_self.symm.trans eq)
      obtain ⟨k, key, flags', callback⟩ := fl _ _ _ holds.1
      exact ⟨k, key, flags', callback⟩
    · exact fl j u e1 ((Htab.set_ne ji).symm.trans eq)
  | @created i e absent full vacant init =>
    simp only [absent, Res.isOk, and_true]
    intro j u e1 eq
    by_cases ji : j = i
    · subst ji
      obtain ⟨-, rfl⟩ := Slot.used.inj (Htab.set_self.symm.trans eq)
      -- the slot held no entry, so that its memory was clear
      have clear : (t.table j).callback = none ∧ (t.table j).flags = 0 := by
        cases slot : t.table j with
        | used u e => exact absurd slot (vacant u e)
        | free => exact ⟨rfl, rfl⟩
        | deleted => exact ⟨rfl, rfl⟩
      refine ⟨name, by rw [init]; rfl, ?_, ?_⟩
      · rw [init]
        simp only [initEntry, newEntry, hooks, clear.2, if_true]
      · rw [init]
        simp only [initEntry, newEntry, hooks, clear.1, Option.or_none]
        exact cb name
    · have old := (Htab.set_ne ji).symm.trans eq
      obtain ⟨k, key, flags', callback⟩ := fl j u e1 old
      obtain ⟨k', v, -, key', -, look, -⟩ := rep.live old
      obtain rfl : k' = k := Option.some.inj (key'.symm.trans key)
      have ne : k' ≠ name := by
        rintro rfl
        rw [absent] at look
        cases look
      exact ⟨k', key, flags'.trans (if_neg ne).symm, callback⟩
  | @dropped i e errno absent vacant =>
    simp only [Res.isOk, Bool.false_eq_true, and_false, if_false]
    intro j u e1 eq
    have ji : j ≠ i := by
      rintro rfl
      rw [hdelete_table_self] at eq
      cases eq
    rw [hdelete_table_ne ji] at eq
    exact fl j u e1 ((Htab.set_ne ji).symm.trans eq)

/-- Entering a variable keeps the flags following. -/
lemma set_inv (cb : ∀ k, c.callbackInit k = some flagsCallback ↔ k = flagsVar) {flag : Int}
    (inv : Inv c s m) (ok : Ok c s (.set name value flag)) :
    ∃ s' m', s.set c name value flag = some s' ∧ Inv c s' m' := by
  obtain ⟨okNew, okFlags⟩ := ok
  have new := @isNew_iff c s.t m name inv.rep
  obtain ⟨flags, eqFlags, isDeclared⟩ : ∃ flags, s.newFlags c name value = some flags ∧
      (isNew c s.t name → name ≠ flagsVar →
        flags.getD 0 = declared c (m.lookup flagsVar) name) := by
    by_cases h : isNew c s.t name
    · obtain ⟨-, list, text, init, same⟩ := okNew h
      obtain ⟨flags, eq⟩ := Option.ne_none_iff_exists'.1 init
      refine ⟨flags, ?_, fun _ ne => ?_⟩
      · rw [State.newFlags, if_pos h, text]
        exact eq
      · rw [initFlags_eq eq, same ne, getenv_eq c inv.rep]
    · exact ⟨none, by rw [State.newFlags, if_neg h], fun h' => absurd h' h⟩
  have copied : Copied (hooks c flags) s.t name value flag :=
    ⟨fun _ _ _ => rfl, fun _ _ => ⟨rfl, rfl⟩⟩
  obtain ⟨t', r, search, entered, rep'⟩ := inv.rep.entered copied
    fun absent full => (okNew (new.2 ⟨absent, full⟩)).1
  have fl := entered_flagged cb inv.rep entered inv.flagged
  have remembered : (if isNew c s.t name then s.remember c name else s).t = s.t := by
    unfold State.remember
    split_ifs <;> rfl
  rw [State.set, eqFlags]
  simp only [Option.bind_eq_bind, Option.bind_some, remembered, search]
  cases isOk : r.isOk with
  | false =>
    rw [isOk, if_neg (by simp)] at rep'
    simp only [isOk, Bool.false_eq_true, and_false, if_false] at fl
    rw [if_neg (by simp)]
    exact ⟨_, m, rfl, rep', fl⟩
  | true =>
    rw [isOk, if_pos rfl] at rep'
    obtain ⟨i, e, holds, -⟩ := rep'.slot (AList.lookup_insert m)
    have callback := callbackOf_holds (c := c) rep' fl holds
    by_cases isFlags : name = flagsVar
    · subst isFlags
      rw [if_pos ⟨rfl, callback.2 rfl⟩]
      refine ⟨_, _, rfl, onFlags_inv rep' fl (AList.lookup_insert m) fun k present => ?_⟩
      exact okFlags rfl k (entered_present entered rfl present)
    · rw [if_neg fun h => isFlags (callback.1 h.2)]
      refine ⟨_, _, rfl, rep', fun j u e1 eq => ?_⟩
      obtain ⟨k, key, flags', cb'⟩ := fl j u e1 eq
      refine ⟨k, key, flags'.trans ?_, cb'⟩
      rw [AList.lookup_insert_ne (Ne.symm isFlags)]
      simp only
      split_ifs with here
      · obtain ⟨rfl, absent, -⟩ := here
        refine isDeclared (new.2 ⟨absent, ?_⟩) isFlags
        cases entered with
        | kept => cases isOk
        | overwritten held =>
          obtain ⟨v, -, look, -⟩ := inv.rep.lookup_of_holds held
          rw [absent] at look
          cases look
        | created _ full => exact full
        | dropped => cases isOk
      · rfl

/-- Deleting a variable keeps the flags following. -/
lemma delete_inv {flag : Int} (inv : Inv c s m) (ok : Ok c s (.delete name flag)) :
    ∃ s' m', s.delete c name flag = some s' ∧ Inv c s' m' := by
  rcases inv.rep.deleted (hooks c none) name flag with eq | ⟨i, e, holds, eq⟩
  · rw [State.delete, eq]
    simp only [Option.bind_eq_bind, Option.bind_some]
    rw [if_neg (by simp)]
    exact ⟨_, m, rfl, inv.rep, inv.flagged⟩
  · have rep' := inv.rep.drop holds
    have old {j u : Nat} {e1 : Entry} (eq : (hdelete s.t i).table j = .used u e1) :
        s.t.table j = .used u e1 := by
      have ji : j ≠ i := by
        rintro rfl
        rw [hdelete_table_self] at eq
        cases eq
      rwa [hdelete_table_ne ji] at eq
    have fl : Flagged (hdelete s.t i) (declared c (m.lookup flagsVar)) :=
      fun j u e1 eq => inv.flagged j u e1 (old eq)
    have callback := callbackOf_holds (c := c) inv.rep inv.flagged holds
    rw [State.delete, eq]
    simp only [Option.bind_eq_bind, Option.bind_some]
    by_cases isFlags : name = flagsVar
    · subst isFlags
      rw [if_pos ⟨trivial, callback.2 rfl⟩]
      refine ⟨_, _, rfl, onFlags_inv rep' fl (AList.lookup_erase ..) fun k present => ?_⟩
      obtain ⟨j, u, e1, eq, key⟩ := present
      rw [entriesOf, List.append_nil]
      exact ok rfl k ⟨j, u, e1, old eq, key⟩
    · rw [if_neg fun h => isFlags (callback.1 h.2)]
      refine ⟨_, _, rfl, rep', ?_⟩
      rw [AList.lookup_erase_ne (Ne.symm isFlags)]
      exact fl

/-- Every operation keeps the flags following. -/
lemma step_inv (cb : ∀ k, c.callbackInit k = some flagsCallback ↔ k = flagsVar) {e : Event}
    (inv : Inv c s m) (ok : Ok c s e) : ∃ s' m', s.step c e = some s' ∧ Inv c s' m' := by
  cases e with
  | set name value flag => exact set_inv cb inv ok
  | delete name flag => exact delete_inv inv ok
  | clear nel =>
    obtain ⟨size, eq, prime, five, -, le⟩ := hcreateR_prime ok.1
    refine ⟨{ s.release with t := Htab.empty size }, ∅, ?_, ?_, ?_⟩
    · rw [State.step, eq]
      rfl
    · exact Rep.empty ⟨prime, five, by have := ok.2; omega⟩
    · intro i u e h
      cases h

end Step

/-- In every run of operations on the environment that meet the condition `Ok`, from a table whose
flags follow, every variable has at every time the flags that the current value of `.flags` declares
for it, or else those of the static list, or none; and so every change is judged by them. -/
theorem flags_follow {s : State} {es : List Event}
    (cb : ∀ k, c.callbackInit k = some flagsCallback ↔ k = flagsVar) (rep : Rep s.t m)
    (start : Flagged s.t (declared c (m.lookup flagsVar))) (run : Along (Ok c) (State.next c) s es)
    (n : Nat) :
    Follows c ((es.take n).foldl (State.next c) s).t ∧
      ∀ i u e k, ((es.take n).foldl (State.next c) s).t.table i = .used u e → e.key = some k →
        ∀ newval op flag, envFlagsValidate c.getenvDefault e newval op flag =
          envFlagsValidate c.getenvDefault { e with
            flags := declared c
              (getenv c ((es.take n).foldl (State.next c) s).t flagsVar) k } newval op flag := by
  rw [← List.take_append_drop n es, Along.append] at run
  obtain ⟨m', inv⟩ : ∃ m', Inv c ((es.take n).foldl (State.next c) s) m' := by
    refine run.1.invariant (P := fun s => ∃ m, Inv c s m) ⟨m, rep, start⟩ fun s e inv ok => ?_
    obtain ⟨m, inv⟩ := inv
    obtain ⟨s', m', eq, inv'⟩ := step_inv cb inv ok
    rw [State.next, eq]
    exact ⟨m', inv'⟩
  generalize ((es.take n).foldl (State.next c) s) = s' at inv
  have follows : Follows c s'.t := by
    intro i u e k eq key
    obtain ⟨k', key', flags, -⟩ := inv.flagged i u e eq
    obtain rfl : k' = k := Option.some.inj (key'.symm.trans key)
    rw [getenv_eq c inv.rep]
    exact flags
  refine ⟨follows, fun i u e k eq key newval op flag => ?_⟩
  rw [← follows i u e k eq key]

/-- A build whose patterns are plain names and that has no static flags. -/
def sampleConfig : Config where
  slre pat := some fun k => k = pat
  staticList := []
  callbackInit k := if k = flagsVar then some flagsCallback else none
  runCallback _ _ _ _ _ := false
  getenvDefault _ := none

/-- An empty environment before the first call of `env_flags_init`. -/
def sampleState : State where
  t := Htab.empty 67
  envBuf := []
  firstCall := true
  flagsList := none

lemma sampleConfig_callback (k : CStr) :
    sampleConfig.callbackInit k = some flagsCallback ↔ k = flagsVar := by
  simp [sampleConfig]

lemma sampleState_rep : Rep sampleState.t ∅ := Rep.empty ⟨by norm_num, by decide, by decide⟩

lemma sampleConfig_literal : Literal sampleConfig.slre es k :=
  fun e _ => ⟨fun k => k = e.1, rfl, by simp [eq_comm]⟩

/-- The variable `b` is set and then declared to be decimal. -/
theorem flags_follow_decimal :
    Follows sampleConfig (([.set [98] [49] 0, .set flagsVar [98, 58, 100] 0] : List Event).foldl
      (State.next sampleConfig) sampleState).t := by
  have run : Along (Ok sampleConfig) (State.next sampleConfig) sampleState
      [.set [98] [49] 0, .set flagsVar [98, 58, 100] 0] := by
    refine ⟨⟨fun _ => ⟨by decide, none, by decide, by decide, fun _ => ?_⟩,
      fun h => by cases h⟩, ⟨fun _ => ⟨by decide +kernel, none, by decide +kernel, by decide +kernel,
        fun h => absurd rfl h⟩, fun _ k _ => sampleConfig_literal⟩, trivial⟩
    decide
  exact (flags_follow sampleConfig_callback sampleState_rep (fun i u e h => by cases h) run 2).1

/-- The list is remembered as NULL when the first variable is set before `.flags`; a variable that
is created later does not get the flags `.flags` declares for it: `b` is declared to be decimal and
set to `x`. -/
theorem flags_follow_stale :
    ¬ Follows sampleConfig (([.set [97] [49] 0, .set flagsVar [98, 58, 100] 0,
      .set [98] [120] 0] : List Event).foldl (State.next sampleConfig) sampleState).t := by
  intro follows
  have slot : (([.set [97] [49] 0, .set flagsVar [98, 58, 100] 0,
      .set [98] [120] 0] : List Event).foldl (State.next sampleConfig) sampleState).t.table 47 =
        .used 47 ⟨some [98], some [120], none, 0⟩ := by
    decide
  have flags := follows 47 47 _ [98] slot rfl
  revert flags
  decide

end Imx.EnvFlags
