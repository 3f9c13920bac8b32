import Mathlib.Data.List.Induction
import Mathlib.Data.Nat.Init
import Imx.Base.Fuel
import Imx.Hwconfig.Defs

/-!
# Looking options up

What the grammar of a configuration says about an option: the text is cut into fields, and the first
field with that name counts. The search takes an occurrence of a name for a field also when it
stands directly behind another occurrence, since it begins again there. `Accepted` follows the
search through one field; `follows_iff` is when the lookups are right all the same.
-/

namespace Imx.Hwconfig
open Imx.Base

/-! ## The grammar -/

/-- The name of a field. -/
def nameOf (eqch : Char) (field : Str) : Str := field.takeWhile (· ≠ eqch)

/-- The argument of a field. -/
def argOf (eqch : Char) (field : Str) : Option Str := (field.dropWhile (· ≠ eqch)).tail?

/-- The first field with a name. -/
def lookup (sep eqch : Char) (opt text : Str) : Option Str :=
  (text.splitOn sep).find? (nameOf eqch · = opt)

/-! ## The search -/

variable {needle s t u v opt g tail : Str} {c : Char} {sy : Syntax} {fuel off maxlen : Nat}
  {arglen : Bool}

lemma strstr_eq (some_ : strstr needle s = some (u, v)) : s = u ++ v ∧ ∃ t, v = needle ++ t := by
  induction s generalizing u with
  | nil =>
    rw [strstr] at some_
    split at some_
    case isTrue nil =>
      cases some_
      exact ⟨rfl, [], by rw [nil]; rfl⟩
    case isFalse => cases some_
  | cons c s ih =>
    rw [strstr] at some_
    split at some_
    case isTrue here =>
      cases some_
      obtain ⟨t, eq⟩ := List.isPrefixOf_iff_prefix.mp here
      exact ⟨rfl, t, eq.symm⟩
    case isFalse =>
      obtain ⟨⟨u', v'⟩, found, eq⟩ := Option.map_eq_some_iff.mp some_
      cases eq
      obtain ⟨eq, t, eq'⟩ := ih found
      exact ⟨by rw [eq]; rfl, t, eq'⟩

lemma strstr_self : strstr needle (needle ++ t) = some ([], needle ++ t) := by
  cases text : needle ++ t with
  | nil => rw [strstr, if_pos (List.append_eq_nil_iff.mp text).1]
  | cons c s =>
    rw [strstr, if_pos]
    exact List.isPrefixOf_iff_prefix.mpr ⟨t, text⟩

/-- A name of which no character is `c` does not reach over one. -/
lemma prefix_sep (without : c ∉ needle) :
    needle.isPrefixOf (u ++ c :: v) = needle.isPrefixOf u := by
  induction needle generalizing u with
  | nil => simp
  | cons a needle ih =>
    rw [List.mem_cons, not_or] at without
    cases u with
    | nil =>
      show (a == c && needle.isPrefixOf v) = false
      rw [beq_false_of_ne (Ne.symm without.1), Bool.false_and]
    | cons b u =>
      show (a == b && needle.isPrefixOf (u ++ c :: v)) = (a == b && needle.isPrefixOf u)
      rw [ih without.2]

/-- The search in front of a character that the name does not contain. -/
lemma strstr_sep (without : c ∉ needle) (some_ : needle ≠ []) :
    strstr needle (u ++ c :: v) =
      match strstr needle u with
      | some (skipped, str) => some (skipped, str ++ c :: v)
      | none => (strstr needle v).map fun (skipped, str) => (u ++ c :: skipped, str) := by
  induction u with
  | nil =>
    have no : needle.isPrefixOf (c :: v) = false := by
      have eq := prefix_sep (u := []) (v := v) without
      rw [List.nil_append] at eq
      rw [eq]
      cases needle with
      | nil => exact absurd rfl some_
      | cons a needle => rfl
    have front : strstr needle [] = none := if_neg some_
    rw [front, List.nil_append, strstr, no]
    rfl
  | cons b u ih =>
    rw [List.cons_append, strstr, strstr, ← List.cons_append, prefix_sep without]
    split
    case isTrue => rfl
    case isFalse =>
      rw [ih]
      cases strstr needle u with
      | some r => rfl
      | none =>
        cases strstr needle v with
        | none => rfl
        | some r => rfl

/-! ## The search in a field -/

/-- What may stand behind a name in its field. -/
def Ends (eqch : Char) (tail : Str) : Prop := tail = [] ∨ tail.head? = some eqch

instance (eqch : Char) (tail : Str) : Decidable (Ends eqch tail) := instDecidableOr

lemma strstr_length (some_ : strstr opt g = some (u, v)) :
    g.length = u.length + opt.length + (v.drop opt.length).length := by
  obtain ⟨rfl, t, rfl⟩ := strstr_eq some_
  rw [List.drop_left, List.length_append, List.length_append, Nat.add_assoc]

/-- What stands behind the occurrence that the search takes, when it begins at the front of a text
without separators: an occurrence at the place where the search begins or begins again. -/
def accepted (opt : Str) (eqch : Char) (g : Str) : Option Str :=
  match _h : strstr opt g with
  | none => none
  | some (skipped, str) =>
    if skipped = [] ∧ Ends eqch (str.drop opt.length) then some (str.drop opt.length)
    else if opt = [] then none
    else accepted opt eqch (str.drop opt.length)
termination_by g.length
decreasing_by
  have length := strstr_length _h
  have pos := List.length_pos_iff.mpr ‹opt ≠ []›
  omega

lemma accepted_none {eqch : Char} (none_ : strstr opt g = none) : accepted opt eqch g = none := by
  rw [accepted]
  split
  case h_1 => rfl
  case h_2 eq => cases none_.symm.trans eq

lemma accepted_some {eqch : Char} (some_ : opt ≠ []) (eq : strstr opt g = some (u, opt ++ t)) :
    accepted opt eqch g =
      if u = [] ∧ Ends eqch t then some t else accepted opt eqch t := by
  rw [accepted]
  split
  case h_1 eq' => cases eq.symm.trans eq'
  case h_2 eq' =>
    cases eq.symm.trans eq'
    rw [List.drop_left, if_neg some_]

/-- A name at the front of its field is taken. -/
lemma accepted_append {eqch : Char} (some_ : opt ≠ []) (ends : Ends eqch t) :
    accepted opt eqch (opt ++ t) = some t := by
  rw [accepted_some some_ strstr_self, if_pos ⟨rfl, ends⟩]

lemma accepted_ends {eqch : Char} (eq : accepted opt eqch g = some tail) :
    Ends eqch tail ∧ ∃ u, g = u ++ (opt ++ tail) := by
  fun_induction accepted opt eqch g with
  | case1 => cases eq
  | case2 g skipped str found yes =>
    cases eq
    obtain ⟨rfl, t, rfl⟩ := strstr_eq found
    rw [List.drop_left] at yes ⊢
    exact ⟨yes.2, skipped, rfl⟩
  | case3 => cases eq
  | case4 g skipped str found no some' ih =>
    obtain ⟨ends, u, eq'⟩ := ih eq
    obtain ⟨rfl, t, rfl⟩ := strstr_eq found
    rw [List.drop_left] at eq'
    subst eq'
    exact ⟨ends, skipped ++ (opt ++ u), by simp only [List.append_assoc]⟩

/-! ## A turn of the loop -/

/-- No character of a text ends a field. -/
def Plain (sy : Syntax) (s : Str) : Prop := ∀ c ∈ s, c ∉ sy.stopchs

/-- What may follow on a field: the end of the string, or a separator. -/
def Closed (sy : Syntax) (s : Str) : Prop := s = [] ∨ ∃ c s', s = c :: s' ∧ c ∈ sy.stopchs

lemma strstr_closed (plain : Plain sy opt) (some_ : opt ≠ []) (closed : Closed sy s)
    (eq : strstr opt g = some (u, v)) : strstr opt (g ++ s) = some (u, v ++ s) := by
  obtain rfl | ⟨c, s, rfl, stop⟩ := closed
  · rw [List.append_nil, List.append_nil, eq]
  · rw [strstr_sep (fun mem => plain c mem stop) some_, eq]

lemma accepts_closed (plain : Plain sy u) (plain' : Plain sy t) (closed : Closed sy s) :
    accepts sy u (t ++ s) = true ↔ u = [] ∧ Ends sy.eqch t := by
  unfold accepts Ends
  rw [Bool.and_eq_true, Bool.or_eq_true, decide_eq_true_iff]
  refine and_congr (or_iff_left ?_) ?_
  · cases last : u.getLast? with
    | none => exact nofun
    | some c =>
      have mem := plain c (List.mem_of_getLast? last)
      simpa using mem
  · cases t with
    | nil =>
      obtain rfl | ⟨c, s, rfl, stop⟩ := closed
      · simp
      · simp [stop]
    | cons c t =>
      have no := plain' c List.mem_cons_self
      simp [no]

variable (plain : Plain sy opt) (some_ : opt ≠ [])
include plain some_

/-- The search takes an occurrence of a field. -/
lemma parse_accepted (plain' : Plain sy g) (closed : Closed sy s) (inside : off + g.length ≤ maxlen)
    (eq : accepted opt sy.eqch g = some tail) :
    Gives (fun k => hwconfigParse sy maxlen opt arglen k off (g ++ s))
      (matched sy maxlen opt (opt ++ (tail ++ s)) arglen) := by
  induction len : g.length using Nat.strong_induction_on generalizing g off with
  | h n ih =>
    subst len
    cases found : strstr opt g with
    | none => cases (accepted_none found).symm.trans eq
    | some r =>
      obtain ⟨u, v⟩ := r
      have length := strstr_length found
      obtain ⟨rfl, t, rfl⟩ := strstr_eq found
      rw [List.drop_left] at length
      rw [accepted_some some_ found] at eq
      have plain_u : Plain sy u := fun c mem => plain' c (List.mem_append_left _ mem)
      have plain_t : Plain sy t := fun c mem =>
        plain' c (List.mem_append_right _ (List.mem_append_right _ mem))
      have front := strstr_closed plain some_ closed found
      have turn k : hwconfigParse sy maxlen opt arglen (k + 1) off (u ++ (opt ++ t) ++ s) =
          if accepts sy u (t ++ s) then some (matched sy maxlen opt (opt ++ (t ++ s)) arglen)
          else hwconfigParse sy maxlen opt arglen k (off + u.length + opt.length) (t ++ s) := by
        rw [hwconfigParse, front]
        dsimp only
        rw [List.append_assoc opt, List.drop_left, if_neg (by omega)]
      by_cases yes : u = [] ∧ Ends sy.eqch t
      case pos =>
        rw [if_pos yes] at eq
        cases eq
        exact gives_of_succ fun k => by
          rw [turn, if_pos ((accepts_closed plain_u plain_t closed).mpr yes)]
      case neg =>
        rw [if_neg yes] at eq
        have pos := List.length_pos_iff.mpr some_
        have inside' : off + u.length + opt.length + t.length ≤ maxlen := by omega
        exact (ih t.length (by omega) plain_t inside' eq rfl).succ fun k => by
          rw [turn, if_neg fun acc => yes ((accepts_closed plain_u plain_t closed).mp acc)]

/-- The search goes on behind a separator as if it began there. -/
lemma parse_skip (stop : c ∈ sy.stopchs) (none_ : strstr opt g = none) (k : Nat) :
    hwconfigParse sy maxlen opt arglen k off (g ++ c :: s) =
      hwconfigParse sy maxlen opt arglen k (off + g.length + 1) s := by
  cases k with
  | zero => rfl
  | succ k =>
    rw [hwconfigParse, hwconfigParse, strstr_sep (fun mem => plain c mem stop) some_, none_]
    cases found : strstr opt s with
    | none => rfl
    | some r =>
      obtain ⟨u, v⟩ := r
      have sum : off + (g ++ c :: u).length = off + g.length + 1 + u.length := by
        rw [List.length_append, List.length_cons]
        omega
      have same : accepts sy (g ++ c :: u) (v.drop opt.length) =
          accepts sy u (v.drop opt.length) := by
        unfold accepts
        congr 1
        cases u using List.reverseRecOn with
        | nil => simp [stop]
        | append_singleton u d =>
          rw [← List.cons_append, ← List.append_assoc, List.getLast?_concat, List.getLast?_concat]
          simp
      rw [Option.map_some]
      dsimp only
      rw [sum, same]

omit plain some_ in
/-- The search finds nothing behind the end of a region. -/
lemma parse_beyond (beyond : maxlen < off + opt.length) :
    Gives (fun k => hwconfigParse sy maxlen opt arglen k off s) none := by
  refine gives_of_succ fun k => ?_
  rw [hwconfigParse]
  cases strstr opt s with
  | none => rfl
  | some r => exact if_pos (by omega)

/-- The search takes no occurrence of a field. -/
lemma parse_passed {r : Option (Str × Nat)} (plain' : Plain sy g) (closed : Closed sy s)
    (inside : off + g.length ≤ maxlen) (eq : accepted opt sy.eqch g = none)
    (next : ∀ u, strstr opt u = none → u.length ≤ g.length → Gives (fun k =>
      hwconfigParse sy maxlen opt arglen k (off + (g.length - u.length)) (u ++ s)) r) :
    Gives (fun k => hwconfigParse sy maxlen opt arglen k off (g ++ s)) r := by
  induction len : g.length using Nat.strong_induction_on generalizing g off with
  | h n ih =>
    subst len
    cases found : strstr opt g with
    | none =>
      have here := next g found (Nat.le_refl _)
      rwa [Nat.sub_self, Nat.add_zero] at here
    | some r =>
      obtain ⟨u, v⟩ := r
      have length := strstr_length found
      obtain ⟨rfl, t, rfl⟩ := strstr_eq found
      rw [List.drop_left] at length
      rw [accepted_some some_ found] at eq
      have plain_u : Plain sy u := fun c mem => plain' c (List.mem_append_left _ mem)
      have plain_t : Plain sy t := fun c mem =>
        plain' c (List.mem_append_right _ (List.mem_append_right _ mem))
      have front := strstr_closed plain some_ closed found
      split at eq
      case isTrue => cases eq
      case isFalse no =>
        have pos := List.length_pos_iff.mpr some_
        have inside' : off + u.length + opt.length + t.length ≤ maxlen := by omega
        refine (ih t.length (by omega) plain_t inside' eq (fun u' none' le => ?_) rfl).succ
          fun k => ?_
        · have here := next u' none' (by omega)
          have sum : off + ((u ++ (opt ++ t)).length - u'.length) =
              off + u.length + opt.length + (t.length - u'.length) := by omega
          rwa [sum] at here
        · rw [hwconfigParse, front]
          dsimp only
          rw [List.append_assoc opt, List.drop_left, if_neg (by omega),
            if_neg fun acc => no ((accepts_closed plain_u plain_t closed).mp acc)]

/-! ## The search in a region -/

omit plain some_ in
lemma strpbrk_closed (plain : Plain sy t) (closed : Closed sy s) :
    strpbrk sy.stopchs (t ++ s) = if s = [] then none else some t := by
  unfold strpbrk
  have front : t.any (· ∈ sy.stopchs) = false := List.any_eq_false.mpr fun c mem => by
    simpa using plain c mem
  obtain rfl | ⟨c, s, rfl, stop⟩ := closed
  · rw [List.append_nil, front]
    rfl
  · have all : ∀ c ∈ t, decide (c ∉ sy.stopchs) = true := fun c mem => by simpa using plain c mem
    rw [List.any_append, List.any_cons, decide_eq_true stop, List.takeWhile_append_of_pos all,
      List.takeWhile_cons_of_neg (by simpa using stop), List.append_nil]
    simp

/-- What is returned for a field, by what stands behind its name and behind the field. -/
def answer (opt tail rest : Str) (arglen : Bool) : Option (Str × Nat) :=
  if arglen then tail.tail?.map fun arg => (arg ++ rest, arg.length)
  else some (opt ++ (tail ++ rest), 0)

omit some_ in
lemma matched_eq (apart : sy.eqch ∉ sy.stopchs) (plain' : Plain sy tail) (closed : Closed sy s)
    (ends : Ends sy.eqch tail) (le : opt.length + tail.length ≤ maxlen) :
    matched sy maxlen opt (opt ++ (tail ++ s)) arglen = answer opt tail s arglen := by
  cases arglen with
  | false => rfl
  | true =>
    unfold matched answer
    rw [if_neg (by decide), if_pos rfl, List.drop_left]
    cases tail with
    | nil =>
      obtain rfl | ⟨c, s, rfl, stop⟩ := closed
      · rfl
      · have ne : c ≠ sy.eqch := fun eq => apart (eq ▸ stop)
        exact if_pos ne
    | cons c arg =>
      obtain none | eq := ends
      · cases none
      · cases eq
        have front : ∀ c ∈ opt ++ sy.eqch :: arg, c ∉ sy.stopchs := fun c mem => by
          obtain mem | mem := List.mem_append.mp mem
          · exact plain c mem
          · exact plain' c mem
        rw [List.length_cons] at le
        dsimp only [List.cons_append, List.tail?_cons, Option.map_some]
        have text : opt ++ sy.eqch :: (arg ++ s) = opt ++ sy.eqch :: arg ++ s := by
          rw [List.append_assoc, List.cons_append]
        rw [if_neg (not_not_intro rfl), text, strpbrk_closed front closed]
        obtain rfl | ⟨c, s, rfl, stop⟩ := closed
        · simp
          omega
        · simp

/-- What the search takes first in some fields. -/
def firstHit (opt : Str) (eqch : Char) (fields : List Str) : Option Str :=
  fields.findSome? (accepted opt eqch)

lemma parse_region (sep : Char) (arglen : Bool) (apart : sy.eqch ∉ sy.stopchs)
    (is : sep ∈ sy.stopchs) (only : ∀ c ∈ t, c ∈ sy.stopchs → c = sep) (closed : Closed sy s)
    (inside : off + t.length = maxlen) :
    (firstHit opt sy.eqch (t.splitOn sep) = none →
        Gives (fun k => hwconfigParse sy maxlen opt arglen k off (t ++ s)) none) ∧
      ∀ tail, firstHit opt sy.eqch (t.splitOn sep) = some tail →
        ∃ rest, Closed sy rest ∧
          Gives (fun k => hwconfigParse sy maxlen opt arglen k off (t ++ s))
            (answer opt tail rest arglen) := by
  induction len : t.length using Nat.strong_induction_on generalizing t off with
  | h n ih =>
    subst len
    have taken : ∀ {g s : Str}, Plain sy g → Closed sy s → off + g.length ≤ maxlen →
        ∀ tail, accepted opt sy.eqch g = some tail →
          ∃ rest, Closed sy rest ∧
            Gives (fun k => hwconfigParse sy maxlen opt arglen k off (g ++ s))
              (answer opt tail rest arglen) := fun {g s} plain' closed inside tail eq => by
      obtain ⟨ends, u, rfl⟩ := accepted_ends eq
      have plain_tail : Plain sy tail := fun c mem =>
        plain' c (List.mem_append_right _ (List.mem_append_right _ mem))
      rw [List.length_append, List.length_append] at inside
      have le : opt.length + tail.length ≤ maxlen := by omega
      refine ⟨s, closed, ?_⟩
      rw [← matched_eq plain apart plain_tail closed ends le]
      exact parse_accepted plain some_ plain' closed
        (by rw [List.length_append, List.length_append]; exact inside) eq
    by_cases mem : sep ∈ t
    case pos =>
      obtain ⟨g, t', rfl, notin⟩ := List.eq_append_cons_of_mem mem
      have plain' : Plain sy g := fun c mem stop =>
        notin (only c (List.mem_append_left _ mem) stop ▸ mem)
      have closed' : Closed sy (sep :: (t' ++ s)) := .inr ⟨sep, _, rfl, is⟩
      have only' : ∀ c ∈ t', c ∈ sy.stopchs → c = sep := fun c mem =>
        only c (List.mem_append_right _ (List.mem_cons_of_mem sep mem))
      rw [List.length_append, List.length_cons] at inside
      have text : g ++ sep :: t' ++ s = g ++ sep :: (t' ++ s) := by
        rw [List.append_assoc, List.cons_append]
      obtain ⟨none_, some'⟩ := ih t'.length (by rw [List.length_append, List.length_cons]; omega)
        only' (show off + g.length + 1 + t'.length = maxlen by omega) rfl
      rw [List.splitOn_append_cons_self_of_not_mem notin, firstHit, List.findSome?_cons, text]
      cases eq : accepted opt sy.eqch g with
      | some tail =>
        refine ⟨nofun, fun tail' eq' => ?_⟩
        cases eq'
        exact taken plain' closed' (by omega) tail eq
      | none =>
        have goes : ∀ r, Gives (fun k => hwconfigParse sy maxlen opt arglen k
            (off + g.length + 1) (t' ++ s)) r →
            Gives (fun k => hwconfigParse sy maxlen opt arglen k off (g ++ sep :: (t' ++ s))) r :=
          fun r next => by
            refine parse_passed plain some_ plain' closed' (by omega) eq fun u none' le => ?_
            refine next.congr fun k => ?_
            rw [parse_skip plain some_ is none']
            congr 1
            omega
        exact ⟨fun eq' => goes none (none_ eq'), fun tail eq' => by
          obtain ⟨rest, closed, gives⟩ := some' tail eq'
          exact ⟨rest, closed, goes _ gives⟩⟩
    case neg =>
      have plain' : Plain sy t := fun c mem' stop => mem (only c mem' stop ▸ mem')
      rw [List.splitOn_eq_singleton mem, firstHit, List.findSome?_cons, List.findSome?_nil]
      cases eq : accepted opt sy.eqch t with
      | some tail =>
        refine ⟨nofun, fun tail' eq' => ?_⟩
        cases eq'
        exact taken plain' closed (by omega) tail eq
      | none =>
        refine ⟨fun _ => parse_passed plain some_ plain' closed (by omega) eq fun u none' le => ?_,
          nofun⟩
        obtain rfl | ⟨c, s', rfl, stop⟩ := closed
        · refine gives_of_succ fun k => ?_
          rw [List.append_nil, hwconfigParse, none']
        · have pos := List.length_pos_iff.mpr some_
          have beyond : maxlen < off + t.length + 1 + opt.length := by omega
          have gives : Gives (fun k => hwconfigParse sy maxlen opt arglen k _ s') none :=
            parse_beyond beyond
          refine gives.congr fun k => ?_
          rw [parse_skip plain some_ stop none']
          congr 1
          omega

/-! ## The search and the grammar -/

omit plain some_

/-- What stands behind a name in the first field with that name. -/
def behind (eqch : Char) (opt : Str) (fields : List Str) : Option Str :=
  (fields.find? (nameOf eqch · = opt)).map (·.drop opt.length)

variable {eqch : Char} {fs pre post : List Str}

lemma nameOf_iff (notin : eqch ∉ opt) :
    nameOf eqch g = opt ↔ ∃ tail, g = opt ++ tail ∧ Ends eqch tail := by
  constructor
  case mp =>
    rintro rfl
    refine ⟨g.dropWhile (· ≠ eqch), List.takeWhile_append_dropWhile.symm, ?_⟩
    cases rest : g.dropWhile (· ≠ eqch) with
    | nil => exact .inl rfl
    | cons c s =>
      have ne : g.dropWhile (· ≠ eqch) ≠ [] := by
        rw [rest]
        exact List.cons_ne_nil c s
      have head := List.head_dropWhile_not (· ≠ eqch) ne
      simp only [rest, List.head_cons] at head
      exact .inr (by simpa using head)
  case mpr =>
    rintro ⟨tail, rfl, ends⟩
    have all : ∀ c ∈ opt, decide (c ≠ eqch) = true := fun c mem => by
      simpa using fun (eq : c = eqch) => notin (eq ▸ mem)
    rw [nameOf, List.takeWhile_append_of_pos all]
    cases tail with
    | nil => exact List.append_nil opt
    | cons c s =>
      obtain none | eq := ends
      · cases none
      · cases eq
        rw [List.takeWhile_cons_of_neg (by simp), List.append_nil]

/-- A field with the name is taken. -/
lemma accepted_named (some_ : opt ≠ []) (notin : eqch ∉ opt) (named : nameOf eqch g = opt) :
    accepted opt eqch g = some (g.drop opt.length) := by
  obtain ⟨tail, rfl, ends⟩ := (nameOf_iff notin).mp named
  rw [accepted_append some_ ends, List.drop_left]

lemma behind_pre (fs : List Str) (some_ : opt ≠ []) (notin : eqch ∉ opt)
    (none_ : ∀ f ∈ pre, accepted opt eqch f = none) :
    behind eqch opt (pre ++ fs) = behind eqch opt fs := by
  have unnamed : pre.find? (nameOf eqch · = opt) = none := List.find?_eq_none.mpr fun f mem => by
    have ne : nameOf eqch f ≠ opt := fun named => by
      cases (accepted_named some_ notin named).symm.trans (none_ f mem)
    simpa using ne
  rw [behind, List.find?_append, unnamed, Option.none_or, behind]

/-- The first field the search takes is named so, or the first field that is named so has the same
text behind the name. -/
def Lucky (eqch : Char) (opt : Str) (fields : List Str) : Prop :=
  ∀ pre g post tail, fields = pre ++ g :: post → (∀ f ∈ pre, accepted opt eqch f = none) →
    accepted opt eqch g = some tail → nameOf eqch g ≠ opt → behind eqch opt post = some tail

lemma firstHit_iff (some_ : opt ≠ []) (notin : eqch ∉ opt) :
    firstHit opt eqch fs = behind eqch opt fs ↔ Lucky eqch opt fs := by
  constructor
  case mp =>
    rintro eq pre g post tail rfl none_ here ne
    have hit : firstHit opt eqch (pre ++ g :: post) = some tail := by
      rw [firstHit, List.findSome?_append, List.findSome?_eq_none_iff.mpr none_,
        List.findSome?_cons, here]
      rfl
    have skip : behind eqch opt (g :: post) = behind eqch opt post := by
      rw [behind, List.find?_cons_of_neg (by simpa using ne), behind]
    rw [← skip, ← behind_pre _ some_ notin none_, ← eq, hit]
  case mpr =>
    intro lucky
    cases hit : firstHit opt eqch fs with
    | none =>
      have all := behind_pre [] some_ notin (List.findSome?_eq_none_iff.mp hit)
      rw [List.append_nil] at all
      rw [all]
      rfl
    | some tail =>
      obtain ⟨pre, g, post, rfl, here, none_⟩ := List.findSome?_eq_some_iff.mp hit
      rw [behind_pre _ some_ notin none_]
      by_cases named : nameOf eqch g = opt
      case pos =>
        rw [accepted_named some_ notin named] at here
        rw [behind, List.find?_cons_of_pos (by simpa using named), Option.map_some, here]
      case neg =>
        rw [behind, List.find?_cons_of_neg (by simpa using named), ← behind]
        exact (lucky pre g post tail rfl none_ here named).symm

lemma behind_ends (notin : eqch ∉ opt) (eq : behind eqch opt fs = some tail) : Ends eqch tail := by
  obtain ⟨g, found, rfl⟩ := Option.map_eq_some_iff.mp eq
  obtain ⟨tail, rfl, ends⟩ := (nameOf_iff notin).mp (by simpa using List.find?_some found)
  rwa [List.drop_left]

lemma firstHit_ends (eq : firstHit opt eqch fs = some tail) :
    Ends eqch tail ∧ ∃ g ∈ fs, ∃ u, g = u ++ (opt ++ tail) := by
  obtain ⟨pre, g, post, rfl, here, -⟩ := List.findSome?_eq_some_iff.mp eq
  obtain ⟨ends, u, eq⟩ := accepted_ends here
  exact ⟨ends, g, List.mem_append_right _ List.mem_cons_self, u, eq⟩

lemma lookup_isSome {sep : Char} :
    (lookup sep eqch opt t).isSome = (behind eqch opt (t.splitOn sep)).isSome := by
  rw [behind, Option.isSome_map, lookup]

lemma lookup_argOf {sep : Char} :
    (lookup sep eqch opt t).bind (argOf eqch) =
      (behind eqch opt (t.splitOn sep)).bind List.tail? := by
  rw [behind, lookup]
  cases found : (t.splitOn sep).find? (nameOf eqch · = opt) with
  | none => rfl
  | some g =>
    have named : nameOf eqch g = opt := by simpa using List.find?_some found
    have drop : g.dropWhile (· ≠ eqch) = g.drop opt.length := by
      have split : nameOf eqch g ++ g.dropWhile (· ≠ eqch) = g := List.takeWhile_append_dropWhile
      rw [named] at split
      rw [← split, List.drop_left, split]
    show (g.dropWhile (· ≠ eqch)).tail? = (g.drop opt.length).tail?
    rw [drop]

/-- Whether there is a field and what its argument is tell what stands behind its name. -/
lemma ends_ext {r r' : Option Str} (ends : ∀ t, r = some t → Ends eqch t)
    (ends' : ∀ t, r' = some t → Ends eqch t) (isSome : r.isSome = r'.isSome)
    (arg : r.bind List.tail? = r'.bind List.tail?) : r = r' := by
  cases r with
  | none =>
    cases r' with
    | none => rfl
    | some t => cases isSome
  | some t =>
    cases r' with
    | none => cases isSome
    | some t' =>
      have ends := ends t rfl
      have ends' := ends' t' rfl
      have arg : t.tail? = t'.tail? := arg
      cases t with
      | nil =>
        cases t' with
        | nil => rfl
        | cons c' t' => cases arg
      | cons c t =>
        cases t' with
        | nil => cases arg
        | cons c' t' =>
          obtain none | eq := ends
          · cases none
          · obtain none | eq' := ends'
            · cases none
            · cases eq
              cases eq'
              cases arg
              rfl

/-- No field contains the separator. -/
lemma notin_of_mem_splitOn {sep : Char} (mem : g ∈ t.splitOn sep) : sep ∉ g := by
  induction len : t.length using Nat.strong_induction_on generalizing t with
  | h n ih =>
    subst len
    by_cases has : sep ∈ t
    case pos =>
      obtain ⟨u, v, rfl, notin⟩ := List.eq_append_cons_of_mem has
      rw [List.splitOn_append_cons_self_of_not_mem notin] at mem
      obtain rfl | mem := List.mem_cons.mp mem
      · exact notin
      · exact ih v.length (by rw [List.length_append, List.length_cons]; omega) mem rfl
    case neg =>
      rw [List.splitOn_eq_singleton has] at mem
      obtain rfl := List.mem_singleton.mp mem
      exact has

/-! ## The lookups -/

/-- The configuration in use: a buffer, or else the environment. -/
def Env.config (env : Env) (buf : Option Str) : Option Str :=
  if buf = none ∧ !env.ready then none else buf.or env.hwconfig

/-- The text a pointer and a length stand for. -/
def contents (r : Option (Str × Nat)) : Option Str := r.map fun (s, n) => s.take n

/-- The argument of an option, by the grammar. -/
def argument (opt s : Str) : Option Str := (lookup ';' ':' opt s).bind (argOf ':')

/-- The four lookups answer as the grammar says. -/
structure Follows (env : Env) (buf : Option Str) (s opt subopt : Str) : Prop where
  option : Gives (hwconfigF env opt buf) (lookup ';' ':' opt s).isSome
  arg : ∃ r, Gives (hwconfigArgF env opt buf) r ∧ contents r = argument opt s
  suboption : Gives (hwconfigSubF env opt subopt buf)
    ((argument opt s).any fun arg => (lookup ',' '=' subopt arg).isSome)
  subarg : ∃ r, Gives (hwconfigSubargF env opt subopt buf) r ∧
    contents r = (argument opt s).bind fun arg => (lookup ',' '=' subopt arg).bind (argOf '=')

variable {env : Env} {buf : Option Str} {subopt : Str}

lemma hwconfig_lookIn (some_ : opt ≠ []) (config : env.config buf = some s)
    {r : Option (Str × Nat)} (gives : Gives (lookIn s opt arglen) r) :
    Gives (hwconfig env opt arglen buf) r := by
  have empty : ∀ k, lookIn [] opt arglen (k + 1) = some none := fun k => by
    rw [lookIn, hwconfigParse, strstr, if_neg some_]
  unfold Env.config at config
  split at config
  case isTrue => cases config
  case isFalse known =>
    obtain ⟨n, gives⟩ := gives
    refine ⟨n + 1, fun k le => ?_⟩
    obtain ⟨k, rfl⟩ : ∃ j, k = j + 1 := ⟨k - 1, by omega⟩
    unfold hwconfig
    rw [if_neg known, config]
    dsimp only
    rw [gives _ (by omega)]
    cases r with
    | some r => rfl
    | none =>
      show ((lookIn boardHwconfig opt arglen (k + 1)).bind fun ret =>
        if ret.isSome then some ret else lookIn cpuHwconfig opt arglen (k + 1)) = some none
      rw [boardHwconfig, empty]
      exact empty k

lemma hwconfig_gives (plain : Plain options opt) (some_ : opt ≠ [])
    (config : env.config buf = some s) (arglen : Bool) :
    (firstHit opt ':' (s.splitOn ';') = none → Gives (hwconfig env opt arglen buf) none) ∧
      ∀ tail, firstHit opt ':' (s.splitOn ';') = some tail →
        ∃ rest, Closed options rest ∧
          Gives (hwconfig env opt arglen buf) (answer opt tail rest arglen) := by
  obtain ⟨none_, some'⟩ := parse_region (t := s) plain some_ ';' arglen (by decide) (by decide)
    (fun c _ stop => by simpa [options] using stop) (.inl rfl) (Nat.zero_add _)
  rw [List.append_nil] at none_ some'
  refine ⟨fun eq => hwconfig_lookIn some_ config (none_ eq), fun tail eq => ?_⟩
  obtain ⟨rest, closed, gives⟩ := some' tail eq
  exact ⟨rest, closed, hwconfig_lookIn some_ config gives⟩

/-- The argument that the search finds. -/
lemma hit_arg (eq : firstHit opt ':' (s.splitOn ';') = some (':' :: t)) : ';' ∉ t := by
  obtain ⟨-, g, mem, u, rfl⟩ := firstHit_ends eq
  have notin := notin_of_mem_splitOn mem
  simp only [List.mem_append, List.mem_cons, not_or] at notin
  exact notin.2.2.2

lemma suboption_gives (plain : Plain suboptions subopt) (some_ : subopt ≠ []) (notin : ';' ∉ t)
    (closed : Closed options s) (arglen : Bool) :
    (firstHit subopt '=' (t.splitOn ',') = none →
        Gives (fun k => hwconfigParse suboptions t.length subopt arglen k 0 (t ++ s)) none) ∧
      ∀ tail, firstHit subopt '=' (t.splitOn ',') = some tail →
        ∃ rest, Closed suboptions rest ∧
          Gives (fun k => hwconfigParse suboptions t.length subopt arglen k 0 (t ++ s))
            (answer subopt tail rest arglen) := by
  refine parse_region plain some_ ',' arglen (by decide) (by decide) (fun c mem stop => ?_) ?_
    (Nat.zero_add _)
  · have ne : c ≠ ';' := fun eq => notin (eq ▸ mem)
    simpa [suboptions, ne] using stop
  · obtain rfl | ⟨c, s, rfl, stop⟩ := closed
    · exact .inl rfl
    · refine .inr ⟨c, s, rfl, ?_⟩
      rw [List.mem_singleton.mp stop]
      decide

lemma contents_answer {rest : Str} : contents (answer opt tail rest true) = tail.tail? := by
  unfold contents answer
  cases tail with
  | nil => rfl
  | cons c arg => simp

/-- What the four lookups give, by what the searches take. -/
lemma lookups_give (plain : Plain options opt) (some_ : opt ≠ []) (plain' : Plain suboptions subopt)
    (some' : subopt ≠ []) (config : env.config buf = some s) :
    let hit := firstHit opt ':' (s.splitOn ';')
    let sub := fun arg => firstHit subopt '=' (List.splitOn ',' arg)
    Gives (hwconfigF env opt buf) hit.isSome ∧
      (∃ r, Gives (hwconfigArgF env opt buf) r ∧ contents r = hit.bind List.tail?) ∧
      Gives (hwconfigSubF env opt subopt buf)
        ((hit.bind List.tail?).any fun arg => (sub arg).isSome) ∧
      ∃ r, Gives (hwconfigSubargF env opt subopt buf) r ∧
        contents r = (hit.bind List.tail?).bind fun arg => (sub arg).bind List.tail? := by
  obtain ⟨none_f, some_f⟩ := hwconfig_gives plain some_ config false
  obtain ⟨none_a, some_a⟩ := hwconfig_gives plain some_ config true
  dsimp only
  cases hit : firstHit opt ':' (s.splitOn ';') with
  | none =>
    have gives := none_a hit
    refine ⟨(none_f hit).map _, ⟨none, gives, rfl⟩, ?_, none, ?_, rfl⟩
    · exact gives.bind ⟨0, fun _ _ => rfl⟩
    · exact gives.bind ⟨0, fun _ _ => rfl⟩
  | some tail =>
    obtain ⟨_, _, f⟩ := some_f tail hit
    obtain ⟨rest, closed, a⟩ := some_a tail hit
    refine ⟨f.map _, ⟨_, a, contents_answer⟩, ?_⟩
    obtain ⟨ends, -⟩ := firstHit_ends hit
    cases tail with
    | nil =>
      refine ⟨a.bind ⟨0, fun _ _ => rfl⟩, none, a.bind ⟨0, fun _ _ => rfl⟩, rfl⟩
    | cons c arg =>
      obtain none | eq := ends
      · cases none
      cases eq
      have notin := hit_arg hit
      obtain ⟨none_s, some_s⟩ := suboption_gives plain' some' notin closed false
      obtain ⟨none_t, some_t⟩ := suboption_gives plain' some' notin closed true
      show Gives _ ((firstHit subopt '=' (arg.splitOn ',')).isSome) ∧ ∃ r, _ ∧
        contents r = (firstHit subopt '=' (arg.splitOn ',')).bind List.tail?
      cases sub : firstHit subopt '=' (arg.splitOn ',') with
      | none =>
        exact ⟨a.bind ((none_s sub).map _), none, a.bind (none_t sub), rfl⟩
      | some tail =>
        obtain ⟨_, _, s'⟩ := some_s tail sub
        obtain ⟨_, _, t'⟩ := some_t tail sub
        exact ⟨a.bind (s'.map _), _, a.bind t', contents_answer⟩

/-- The lookups follow the grammar exactly when both searches take a field that is named so first,
or one with the same text behind the name. -/
theorem follows_iff (plain : Plain options opt) (eqch : ':' ∉ opt) (some_ : opt ≠ [])
    (plain' : Plain suboptions subopt) (eqch' : '=' ∉ subopt) (some' : subopt ≠ [])
    (config : env.config buf = some s) :
    Follows env buf s opt subopt ↔
      Lucky ':' opt (s.splitOn ';') ∧
        ∀ arg, argument opt s = some arg → Lucky '=' subopt (arg.splitOn ',') := by
  obtain ⟨option, ⟨r, arg, text⟩, suboption, r', subarg, text'⟩ :=
    lookups_give plain some_ plain' some' config
  have sub_iff : ∀ arg, ((firstHit subopt '=' (arg.splitOn ',')).isSome =
        (lookup ',' '=' subopt arg).isSome ∧
      (firstHit subopt '=' (arg.splitOn ',')).bind List.tail? =
        (lookup ',' '=' subopt arg).bind (argOf '=')) ↔
      Lucky '=' subopt (arg.splitOn ',') := fun arg => by
    rw [← firstHit_iff some' eqch', lookup_isSome, lookup_argOf]
    exact ⟨fun ⟨isSome, same⟩ => ends_ext (fun _ hit => (firstHit_ends hit).1)
      (fun _ => behind_ends eqch') isSome same, fun eq => by rw [eq]; exact ⟨rfl, rfl⟩⟩
  have same : argument opt s = (behind ':' opt (s.splitOn ';')).bind List.tail? := lookup_argOf
  rw [← firstHit_iff some_ eqch]
  constructor
  case mp =>
    intro follows
    obtain ⟨r₁, arg₁, text₁⟩ := follows.arg
    obtain ⟨r₂, subarg₂, text₂⟩ := follows.subarg
    cases arg.unique arg₁
    cases subarg.unique subarg₂
    have isSome := option.unique follows.option
    have found := suboption.unique follows.suboption
    rw [text] at text₁
    rw [text'] at text₂
    rw [text₁] at found text₂
    rw [lookup_isSome] at isSome
    refine ⟨ends_ext (fun _ hit => (firstHit_ends hit).1) (fun _ => behind_ends eqch)
      isSome (text₁.trans same), fun a eq => (sub_iff a).mp ?_⟩
    rw [eq] at found text₂
    exact ⟨found, text₂⟩
  case mpr =>
    rintro ⟨eq, lucky⟩
    rw [eq, ← same] at text suboption text'
    rw [eq, ← lookup_isSome] at option
    cases argued : argument opt s with
    | none =>
      rw [argued] at text suboption text'
      exact ⟨option, ⟨r, arg, text.trans argued.symm⟩, by rw [argued]; exact suboption, r', subarg,
        by rw [argued]; exact text'⟩
    | some a =>
      obtain ⟨found, told⟩ := (sub_iff a).mpr (lucky a argued)
      rw [argued] at text suboption text'
      change Gives _ ((firstHit subopt '=' (a.splitOn ',')).isSome) at suboption
      rw [found] at suboption
      exact ⟨option, ⟨r, arg, text.trans argued.symm⟩, by rw [argued]; exact suboption, r', subarg,
        by rw [argued]; exact text'.trans told⟩

/-- Two options, the second with sub-options. -/
theorem follows_dr : Follows ⟨false, none⟩ (some "a;dr:m=p,x".toList) "a;dr:m=p,x".toList
    "dr".toList "m".toList ↔
      Lucky ':' "dr".toList ("a;dr:m=p,x".toList.splitOn ';') ∧
        ∀ arg, argument "dr".toList "a;dr:m=p,x".toList = some arg →
          Lucky '=' "m".toList (arg.splitOn ',') :=
  follows_iff (by simp [Plain, options]) (by decide) (by decide)
    (by simp [Plain, suboptions]) (by decide) (by decide) rfl

/-- A field in which the name of an option stands twice. -/
theorem not_follows_twice :
    ¬ Follows ⟨false, none⟩ (some "usbusb".toList) "usbusb".toList "usb".toList "m".toList := by
  intro follows
  have no : (lookup ';' ':' "usb".toList "usbusb".toList).isSome = false := by decide
  have gives : Gives (hwconfigF ⟨false, none⟩ "usb".toList (some "usbusb".toList)) true :=
    ⟨3, fun k le => by
      obtain ⟨k, rfl⟩ := Nat.exists_eq_add_of_le' le
      rfl⟩
  cases no.symm.trans (follows.option.unique gives)

end Imx.Hwconfig
