import Mathlib.Algebra.Order.Ring.Int
import Mathlib.Data.List.TakeWhile
import Imx.Cli.Defs

/-!
# What the macros of a line stand for

`expand` is the reference: it reads a line from the front and takes off one piece of it at a time.
The loop looks at the last character it has read instead. `Clean` says of a line that this comes to
the same, and `process_expand` that the loop then writes the text of the reference, cut to the room.
-/

namespace Imx.Cli

variable {getenv : Str → Option Str} {n : Nat} {c d prev : Char} {st : State} {m m' : Macros}
  {acc text name rest s : Str}

/-! ## The reference -/

/-- The text up to a character and the text behind it. -/
def upTo (close : Char) (s : Str) : Option (Str × Str) :=
  match s.dropWhile (· ≠ close) with
  | [] => none
  | _ :: rest => some (s.takeWhile (· ≠ close), rest)

/-- The name of the macro whose `$` stands before the text, and the text behind the macro. -/
def macroOf : Str → Option (Str × Str)
  | '(' :: s => upTo ')' s
  | '{' :: s => upTo '}' s
  | _ => none

lemma upTo_length {close : Char} (h : upTo close s = some (text, rest)) :
    rest.length < s.length := by
  have le := (List.dropWhile_suffix (l := s) (· ≠ close)).length_le
  unfold upTo at h
  split at h
  case h_1 => cases h
  case h_2 found =>
    cases h
    rw [found, List.length_cons] at le
    exact le

lemma macroOf_length (h : macroOf s = some (name, rest)) : rest.length < s.length := by
  unfold macroOf at h
  split at h
  case h_1 => exact Nat.lt_succ_of_lt (upTo_length h)
  case h_2 => exact Nat.lt_succ_of_lt (upTo_length h)
  case h_3 => cases h

/-- The line with its macros replaced. -/
def expand (getenv : Str → Option Str) : Str → Str
  | [] => []
  | c :: s =>
    if c = '\\' then
      match s with
      | [] => []
      | d :: s => d :: expand getenv s
    else if c = '\'' then
      match _h : upTo '\'' s with
      | some (text, rest) => text ++ expand getenv rest
      | none => s
    else if c = '$' then
      match _h : macroOf s with
      | some (name, rest) => (getenv name).getD [] ++ expand getenv rest
      | none => c :: expand getenv s
    else
      c :: expand getenv s
termination_by s => s.length
decreasing_by
  · exact Nat.lt_succ_of_lt (Nat.lt_succ_self _)
  · exact Nat.lt_succ_of_lt (upTo_length _h)
  · exact Nat.lt_succ_of_lt (macroOf_length _h)
  · exact Nat.lt_succ_self _
  · exact Nat.lt_succ_self _

lemma upTo_append {close : Char} (notin : close ∉ text) :
    upTo close (text ++ close :: rest) = some (text, rest) := by
  have all : ∀ c ∈ text, decide (c ≠ close) = true := fun c mem =>
    decide_eq_true fun eq => notin (eq ▸ mem)
  unfold upTo
  rw [List.dropWhile_append_of_pos all, List.takeWhile_append_of_pos all]
  simp only [List.dropWhile_cons, List.takeWhile_cons, ne_eq, not_true_eq_false, decide_false,
    Bool.false_eq_true, ↓reduceIte, List.append_nil]

lemma upTo_none {close : Char} (notin : close ∉ s) : upTo close s = none := by
  have all : ∀ c ∈ s, decide (c ≠ close) = true := fun c mem =>
    decide_eq_true fun eq => notin (eq ▸ mem)
  unfold upTo
  rw [List.dropWhile_eq_nil_iff.mpr all]

lemma expand_plain (plain : c ≠ '\\' ∧ c ≠ '\'' ∧ c ≠ '$') :
    expand getenv (c :: s) = c :: expand getenv s := by
  rw [expand.eq_def]
  dsimp only
  rw [if_neg plain.1, if_neg plain.2.1, if_neg plain.2.2]

lemma expand_escape : expand getenv ('\\' :: d :: s) = d :: expand getenv s := by
  rw [expand, if_pos rfl]

lemma expand_quote (notin : '\'' ∉ text) :
    expand getenv ('\'' :: (text ++ '\'' :: s)) = text ++ expand getenv s := by
  have eq : upTo '\'' (text ++ '\'' :: s) = some (text, s) := upTo_append notin
  rw [expand.eq_def]
  dsimp only
  rw [if_neg (by decide), if_pos rfl]
  split
  case h_1 found =>
    cases eq.symm.trans found
    rfl
  case h_2 found => cases eq.symm.trans found

lemma expand_quoteEnd (notin : '\'' ∉ s) : expand getenv ('\'' :: s) = s := by
  have eq : upTo '\'' s = none := upTo_none notin
  rw [expand.eq_def]
  dsimp only
  rw [if_neg (by decide), if_pos rfl]
  split
  case h_1 found => cases eq.symm.trans found
  case h_2 found => rfl

lemma expand_macroOf (eq : macroOf s = some (name, rest)) :
    expand getenv ('$' :: s) = (getenv name).getD [] ++ expand getenv rest := by
  rw [expand.eq_def]
  dsimp only
  rw [if_neg (by decide), if_neg (by decide), if_pos rfl]
  split
  case h_1 found =>
    cases eq.symm.trans found
    rfl
  case h_2 found => cases eq.symm.trans found

lemma expand_dollar (eq : macroOf s = none) :
    expand getenv ('$' :: s) = '$' :: expand getenv s := by
  rw [expand.eq_def]
  dsimp only
  rw [if_neg (by decide), if_neg (by decide), if_pos rfl]
  split
  case h_1 found => cases eq.symm.trans found
  case h_2 found => rfl

/-! ## Clean lines -/

/-- A character that means itself wherever it stands. -/
def Plain (c : Char) : Prop := c ≠ '\\' ∧ c ≠ '\'' ∧ c ≠ '$'

instance : Decidable (Plain c) := inferInstanceAs (Decidable (_ ∧ _ ∧ _))

/-- The two braces of a macro. -/
inductive Braces : Char → Char → Prop where
  | round : Braces '(' ')'
  | curly : Braces '{' '}'

/-- There is no more room, or what comes next is plain. -/
def Free (n made : Nat) (s : Str) : Prop := n ≤ made ∨ ∀ c ∈ s.head?, Plain c

/-- Looking one character behind is enough for what is left of a line when `made` characters have
been written. -/
inductive Clean (getenv : Str → Option Str) (n : Nat) : Nat → Str → Prop where
  | full {made s} :
    n ≤ made →
    Clean getenv n made s
  | nil {made} :
    Clean getenv n made []
  | plain {made c s} :
    Plain c →
    Clean getenv n (made + 1) s →
    Clean getenv n made (c :: s)
  | cut {made} :
    Clean getenv n made ['\\']
  | escape {made d s} :
    (d = '\\' → Free n (made + 1) s) →
    Clean getenv n (made + 1) s →
    Clean getenv n made ('\\' :: d :: s)
  | quote {made text s} :
    '\'' ∉ text →
    (text.getLast? = some '\\' → n ≤ made + text.length) →
    Clean getenv n (made + text.length) s →
    Clean getenv n made ('\'' :: (text ++ '\'' :: s))
  | quoteEnd {made s} :
    '\'' ∉ s →
    Clean getenv n made ('\'' :: s)
  | reference {made left right name s} :
    Braces left right →
    ')' ∉ name →
    '}' ∉ name →
    name.length < n →
    Clean getenv n (made + ((getenv name).getD []).length) s →
    Clean getenv n made ('$' :: left :: (name ++ right :: s))
  | dollar {made c s} :
    c ≠ '\\' →
    c ≠ '(' →
    c ≠ '{' →
    (c = '\'' → n ≤ made + 1) →
    (c = '$' → n ≤ made + 1 ∨ macroOf s = none) →
    Clean getenv n (made + 2) s →
    Clean getenv n made ('$' :: c :: s)
  | dollarEscape {made d s} :
    d ≠ '(' →
    d ≠ '{' →
    (d = '\\' → Free n (made + 2) s) →
    Clean getenv n (made + 2) s →
    Clean getenv n made ('$' :: '\\' :: d :: s)

/-! ## What the loop writes -/

/-- The loop, with the count of what is left of the input, comes to write a text as far as there is
room. -/
def Writes (getenv : Str → Option Str) (n : Nat) (m : Macros) (input text : Str) : Prop :=
  ∃ q, loop getenv n (BitVec.ofNat 32 input.length) m input = some q ∧ q.output = text.take n

lemma put_take : put n (acc.take n) text = (acc ++ text).take n := by
  have room : n - (acc.take n).length = n - acc.length := by
    rw [List.length_take]
    omega
  rw [put, room, List.take_append]

/-- The count goes down by what is read. -/
lemma count_sub (k : Nat) : BitVec.ofNat 32 (s.length + k) - BitVec.ofNat 32 k =
    BitVec.ofNat 32 s.length := by
  rw [BitVec.ofNat_add]
  exact BitVec.add_sub_cancel _ _

lemma count_ne (small : (c :: s).length < 2 ^ 31) : BitVec.ofNat 32 (s.length + 1) ≠ 0 := by
  intro eq
  have zero := congrArg BitVec.toNat eq
  rw [List.length_cons] at small
  rw [BitVec.toNat_ofNat, Nat.mod_eq_of_lt (by omega)] at zero
  cases zero

lemma loop_full {cnt : BitVec 32} (full : n ≤ m.output.length) :
    loop getenv n cnt m s = some m := by
  cases s with
  | nil => exact if_pos (.inr full)
  | cons c s =>
    rw [loop.eq_def]
    exact if_pos (.inr full)

/-- A turn without an escape. -/
lemma loop_turn {cnt : BitVec 32} (more : cnt ≠ 0) (room : ¬ n ≤ m.output.length)
    (plain : ¬ (m.state ≠ .quote ∧ c = '\\' ∧ m.prev ≠ '\\'))
    (here : turn getenv n m [c] c = some m') :
    loop getenv n cnt m (c :: s) = loop getenv n (cnt - 1) m' s := by
  rw [loop.eq_def]
  dsimp only
  rw [if_neg (not_or_intro more room), if_neg plain, here, Option.bind_some]

/-- A turn with an escape. -/
lemma loop_escape {cnt : BitVec 32} (more : cnt ≠ 0) (room : ¬ n ≤ m.output.length)
    (outside : m.state ≠ .quote) (behind : m.prev ≠ '\\') (another : cnt - 1 ≠ 0)
    (here : turn getenv n { m with prev := '\\' } ['\\', d] d = some m') :
    loop getenv n cnt m ('\\' :: d :: s) = loop getenv n (cnt - 2) m' s := by
  rw [loop, if_neg (not_or_intro more room), if_pos ⟨outside, rfl, behind⟩, if_neg another, here,
    Option.bind_some]

lemma not_full (room : acc.length < n) : ¬ n ≤ (acc.take n).length := by
  rw [List.length_take]
  omega

lemma writes_full (full : n ≤ acc.length) :
    Writes getenv n ⟨st, prev, acc.take n⟩ s (acc ++ text) := by
  refine ⟨_, loop_full ?_, (List.take_append_of_le_length full).symm⟩
  show n ≤ (acc.take n).length
  rw [List.length_take]
  exact Nat.le_min.mpr ⟨Nat.le_refl n, full⟩

lemma writes_nil : Writes getenv n ⟨st, prev, acc.take n⟩ [] acc :=
  ⟨_, if_pos (.inl rfl), rfl⟩

lemma Writes.turn (here : turn getenv n ⟨st, prev, acc.take n⟩ [c] c = some m')
    (plain : ¬ (st ≠ .quote ∧ c = '\\' ∧ prev ≠ '\\')) (room : acc.length < n)
    (small : (c :: s).length < 2 ^ 31) (next : Writes getenv n m' s text) :
    Writes getenv n ⟨st, prev, acc.take n⟩ (c :: s) text := by
  obtain ⟨q, run, out⟩ := next
  refine ⟨q, ?_, out⟩
  rw [List.length_cons, loop_turn (count_ne small) (not_full room) plain here, ← run]
  exact congrArg (loop getenv n · m' s) (count_sub 1)

lemma Writes.escape (here : Cli.turn getenv n ⟨st, '\\', acc.take n⟩ ['\\', d] d = some m')
    (outside : st ≠ .quote) (behind : prev ≠ '\\') (room : acc.length < n)
    (small : ('\\' :: d :: s).length < 2 ^ 31) (next : Writes getenv n m' s text) :
    Writes getenv n ⟨st, prev, acc.take n⟩ ('\\' :: d :: s) text := by
  have another : BitVec.ofNat 32 ((d :: s).length + 1) - 1 ≠ 0 := by
    have one := count_sub (s := d :: s) 1
    exact fun eq => count_ne (Nat.lt_of_succ_lt small) (one.symm.trans eq)
  obtain ⟨q, run, out⟩ := next
  refine ⟨q, ?_, out⟩
  rw [List.length_cons, loop_escape (count_ne small) (not_full room) outside behind another here,
    ← run]
  exact congrArg (loop getenv n · m' s) (count_sub 2)

/-- A backslash that nothing follows ends the loop. -/
lemma writes_cut (outside : st ≠ .quote) (behind : prev ≠ '\\') :
    Writes getenv n ⟨st, prev, acc.take n⟩ ['\\'] acc := by
  by_cases full : n ≤ (acc.take n).length
  · exact ⟨_, loop_full full, rfl⟩
  · refine ⟨⟨st, prev, acc.take n⟩, ?_, rfl⟩
    rw [loop, if_neg (not_or_intro (by decide) full), if_pos ⟨outside, rfl, behind⟩]
    exact if_pos rfl

/-! ## The pieces of a line -/

lemma take_snoc (room : acc.length < n) : acc.take n ++ [c] = (acc ++ [c]).take n := by
  rw [List.take_of_length_le (Nat.le_of_lt room), List.take_of_length_le]
  rw [List.length_append]
  exact room

/-- The turn for a character that is written as it is. -/
lemma turn_char {raw : Str} (literal : Plain c ∨ prev = '\\') (room : acc.length < n) :
    turn getenv n ⟨.dollar, prev, acc.take n⟩ raw c =
      some ⟨.dollar, c, (acc ++ [c]).take n⟩ := by
  have quote : ¬ (c = '\'' ∧ prev ≠ '\\') := fun h => literal.elim (·.2.1 h.1) h.2
  have dollar : ¬ (c = '$' ∧ prev ≠ '\\') := fun h => literal.elim (·.2.2 h.1) h.2
  rw [turn]
  dsimp only
  rw [if_neg quote, if_neg dollar, take_snoc room]

/-- The turn for a character behind a `$`. -/
lemma turn_opening {raw : Str} (round : c ≠ '(') (curly : c ≠ '{') (room : acc.length < n) :
    turn getenv n ⟨.opening, prev, acc.take n⟩ raw c =
      some ⟨.dollar, c, (acc ++ ['$', c]).take n⟩ := by
  rw [turn]
  dsimp only
  rw [if_neg (not_or_intro round curly), take_snoc room, put_take, List.append_assoc]
  rfl

/-- The turn for a character of a quote. -/
lemma turn_quoted {raw : Str} (inside : c ≠ '\'') (room : acc.length < n) :
    turn getenv n ⟨.quote, prev, acc.take n⟩ raw c = some ⟨.quote, c, (acc ++ [c]).take n⟩ := by
  rw [turn]
  dsimp only
  rw [if_neg (fun h => inside h.1), take_snoc room]

/-- The turn for a character of a name. -/
lemma turn_name {front raw : Str} (round : c ≠ ')') (curly : c ≠ '}') :
    turn getenv n ⟨.closing front, prev, acc⟩ raw c = some ⟨.closing (front ++ raw), c, acc⟩ := by
  rw [turn]
  dsimp only
  rw [if_neg (not_or_intro round curly)]

/-- The turn for the brace behind a name. -/
lemma turn_close {front : Str} (raw : Str) (closes : c = ')' ∨ c = '}')
    (fits : (front ++ raw).length < n) :
    turn getenv n ⟨.closing front, prev, acc.take n⟩ (raw ++ [c]) c =
      some ⟨.dollar, c, (acc ++ (getenv (front ++ raw)).getD []).take n⟩ := by
  rw [turn]
  dsimp only
  rw [if_pos closes, ← List.append_assoc, List.dropLast_concat, if_neg (Nat.not_le_of_lt fits),
    put_take]

lemma writes_char (literal : Plain c) (small : (c :: s).length < 2 ^ 31)
    (next : Writes getenv n ⟨.dollar, c, (acc ++ [c]).take n⟩ s (acc ++ [c] ++ text)) :
    Writes getenv n ⟨.dollar, prev, acc.take n⟩ (c :: s) (acc ++ c :: text) := by
  by_cases room : acc.length < n
  case neg => exact writes_full (Nat.le_of_not_lt room)
  rw [List.append_cons]
  exact .turn (turn_char (.inl literal) room) (fun h => literal.1 h.2.1) room small next

lemma writes_escape (behind : prev ≠ '\\') (small : ('\\' :: d :: s).length < 2 ^ 31)
    (next : Writes getenv n ⟨.dollar, d, (acc ++ [d]).take n⟩ s (acc ++ [d] ++ text)) :
    Writes getenv n ⟨.dollar, prev, acc.take n⟩ ('\\' :: d :: s) (acc ++ d :: text) := by
  by_cases room : acc.length < n
  case neg => exact writes_full (Nat.le_of_not_lt room)
  rw [List.append_cons]
  exact .escape (turn_char (.inr rfl) room) nofun behind room small next

/-- A `$` that begins something. -/
lemma writes_dollar (behind : prev ≠ '\\') (small : ('$' :: s).length < 2 ^ 31)
    (next : acc.length < n → Writes getenv n ⟨.opening, '$', acc.take n⟩ s (acc ++ text)) :
    Writes getenv n ⟨.dollar, prev, acc.take n⟩ ('$' :: s) (acc ++ text) := by
  by_cases room : acc.length < n
  case neg => exact writes_full (Nat.le_of_not_lt room)
  refine .turn ?_ (fun h => nomatch h.2.1) room small (next room)
  rw [turn]
  dsimp only
  rw [if_neg (fun h => nomatch h.1), if_pos ⟨rfl, behind⟩]

/-- The text of a quote and the apostrophe that ends it. -/
lemma writes_quoted (notin : '\'' ∉ name)
    (last : name.getLast? = some '\\' → n ≤ acc.length + name.length)
    (behind : name = [] → prev ≠ '\\' ∨ n ≤ acc.length)
    (small : (name ++ '\'' :: s).length < 2 ^ 31)
    (next : Writes getenv n ⟨.dollar, '\'', (acc ++ name).take n⟩ s (acc ++ name ++ text)) :
    Writes getenv n ⟨.quote, prev, acc.take n⟩ (name ++ '\'' :: s) (acc ++ name ++ text) := by
  induction name generalizing acc prev with
  | nil =>
    rw [List.append_nil] at next ⊢
    by_cases room : acc.length < n
    case neg => exact writes_full (Nat.le_of_not_lt room)
    refine .turn ?_ (fun h => h.1 rfl) room small next
    rw [turn]
    dsimp only
    rw [if_pos ⟨rfl, (behind rfl).resolve_right (Nat.not_le_of_lt room)⟩]
  | cons c name ih =>
    obtain ⟨first, rest⟩ := not_or.mp (mt List.mem_cons.mpr notin)
    have len : (acc ++ [c]).length = acc.length + 1 := List.length_append
    have cons : acc ++ c :: name = acc ++ [c] ++ name := List.append_cons ..
    rw [cons] at next ⊢
    by_cases room : acc.length < n
    case neg =>
      rw [List.append_assoc, List.append_assoc]
      exact writes_full (Nat.le_of_not_lt room)
    refine .turn (turn_quoted (Ne.symm first) room) (fun h => h.1 rfl) room small
      (ih rest ?_ ?_ (Nat.lt_of_succ_lt small) next)
    · intro ends
      have le := last (by rw [List.getLast?_cons, ends]; rfl)
      rw [List.length_cons] at le
      omega
    · rintro rfl
      by_cases slash : c = '\\'
      · have le := last (congrArg some slash)
        exact .inr (len ▸ le)
      · exact .inl slash

/-- The text of a quote that does not end. -/
lemma writes_quoteEnd (notin : '\'' ∉ s) (small : s.length < 2 ^ 31) :
    Writes getenv n ⟨.quote, prev, acc.take n⟩ s (acc ++ s) := by
  induction s generalizing acc prev with
  | nil =>
    rw [List.append_nil]
    exact writes_nil
  | cons c s ih =>
    obtain ⟨first, rest⟩ := not_or.mp (mt List.mem_cons.mpr notin)
    by_cases room : acc.length < n
    case neg => exact writes_full (Nat.le_of_not_lt room)
    rw [List.append_cons]
    exact .turn (turn_quoted (Ne.symm first) room) (fun h => h.1 rfl) room small
      (ih rest (Nat.lt_of_succ_lt small))

/-- The name of a macro and the brace that ends it. -/
lemma writes_name {left right : Char} {front : Str} (braces : Braces left right)
    (round : ')' ∉ name) (curly : '}' ∉ name) (fits : (front ++ name).length < n)
    (room : acc.length < n)
    (small : (name ++ right :: s).length < 2 ^ 31)
    (next : Writes getenv n
      ⟨.dollar, right, (acc ++ (getenv (front ++ name)).getD []).take n⟩ s text) :
    Writes getenv n ⟨.closing front, prev, acc.take n⟩ (name ++ right :: s) text := by
  have closes : right = ')' ∨ right = '}' := by
    cases braces with
    | round => exact .inl rfl
    | curly => exact .inr rfl
  have slash : right ≠ '\\' := by
    cases braces with
    | round => decide
    | curly => decide
  -- an escape takes two characters of the name, so that the induction is on its length
  induction len : name.length using Nat.strong_induction_on generalizing name front prev with
  | _ k ih =>
    subst len
    cases name with
    | nil =>
      refine .turn (turn_close [] closes fits) (fun h => slash h.2.1) room small ?_
      exact next
    | cons c name =>
      obtain ⟨round₁, rounds⟩ := not_or.mp (mt List.mem_cons.mpr round)
      obtain ⟨curly₁, curlys⟩ := not_or.mp (mt List.mem_cons.mpr curly)
      by_cases plain : c = '\\' ∧ prev ≠ '\\'
      case neg =>
        rw [List.append_cons] at fits next
        exact .turn (turn_name (Ne.symm round₁) (Ne.symm curly₁)) (fun h => plain h.2) room small
          (ih _ (Nat.lt_succ_self _) rounds curlys fits (Nat.lt_of_succ_lt small) next rfl)
      obtain ⟨rfl, behind⟩ := plain
      cases name with
      | nil => exact .escape (turn_close ['\\'] closes fits) nofun behind room small next
      | cons d name =>
        obtain ⟨round₂, rounds⟩ := not_or.mp (mt List.mem_cons.mpr rounds)
        obtain ⟨curly₂, curlys⟩ := not_or.mp (mt List.mem_cons.mpr curlys)
        rw [List.append_cons, List.append_cons, List.append_assoc front] at fits next
        exact .escape (turn_name (Ne.symm round₂) (Ne.symm curly₂)) nofun behind room small
          (ih _ (Nat.lt_succ_of_lt (Nat.lt_succ_self _)) rounds curlys fits
            (Nat.lt_of_succ_lt (Nat.lt_of_succ_lt small)) next rfl)

lemma Braces.macroOf {left right : Char} (braces : Braces left right) (round : ')' ∉ name)
    (curly : '}' ∉ name) : macroOf (left :: (name ++ right :: s)) = some (name, s) := by
  cases braces with
  | round => exact upTo_append round
  | curly => exact upTo_append curly

/-- A macro and what it stands for. -/
lemma writes_macro {left right : Char} (braces : Braces left right) (round : ')' ∉ name)
    (curly : '}' ∉ name) (fits : name.length < n) (behind : prev ≠ '\\')
    (small : ('$' :: left :: (name ++ right :: s)).length < 2 ^ 31)
    (next : Writes getenv n
      ⟨.dollar, right, (acc ++ (getenv name).getD []).take n⟩ s (acc ++ text)) :
    Writes getenv n ⟨.dollar, prev, acc.take n⟩ ('$' :: left :: (name ++ right :: s))
      (acc ++ text) := by
  have opens : left = '(' ∨ left = '{' := by
    cases braces with
    | round => exact .inl rfl
    | curly => exact .inr rfl
  have slash : left ≠ '\\' := by
    cases braces with
    | round => decide
    | curly => decide
  refine writes_dollar behind small fun room => ?_
  refine .turn (if_pos opens) (fun h => slash h.2.1) room (Nat.lt_of_succ_lt small) ?_
  exact writes_name braces round curly fits room (Nat.lt_of_succ_lt (Nat.lt_of_succ_lt small)) next

lemma length_snoc {made : Nat} (len : acc.length = made) : (acc ++ [c]).length = made + 1 := by
  rw [List.length_append, len]
  rfl

lemma append_two (text : Str) : acc ++ c :: d :: text = acc ++ [c, d] ++ text :=
  (List.append_assoc acc [c, d] text).symm

/-- A character that is not plain is not read behind a backslash. -/
lemma look_behind {made : Nat} (ready : prev = '\\' → Free n made (c :: s)) (special : ¬ Plain c) :
    n ≤ made ∨ prev ≠ '\\' := by
  by_cases behind : prev = '\\'
  · exact .inl ((ready behind).resolve_right fun plain => special (plain c rfl))
  · exact .inr behind

/-- A `$` that does not begin a macro, and the character behind it. -/
lemma writes_lone (round : c ≠ '(') (curly : c ≠ '{') (slash : c ≠ '\\') (behind : prev ≠ '\\')
    (small : ('$' :: c :: s).length < 2 ^ 31)
    (next : Writes getenv n ⟨.dollar, c, (acc ++ ['$', c]).take n⟩ s (acc ++ text)) :
    Writes getenv n ⟨.dollar, prev, acc.take n⟩ ('$' :: c :: s) (acc ++ text) :=
  writes_dollar behind small fun room =>
    .turn (turn_opening round curly room) (fun h => slash h.2.1) room (Nat.lt_of_succ_lt small) next

/-- On a clean line the loop writes what the reference says. -/
theorem Clean.writes {made : Nat} (clean : Clean getenv n made s) (len : acc.length = made)
    (ready : prev = '\\' → Free n made s) (small : s.length < 2 ^ 31) :
    Writes getenv n ⟨.dollar, prev, acc.take n⟩ s (acc ++ expand getenv s) := by
  induction clean generalizing acc prev with
  | full le => exact writes_full (len ▸ le)
  | nil =>
    rw [expand, List.append_nil]
    exact writes_nil
  | plain plain _ ih =>
    rw [expand_plain plain]
    exact writes_char plain small
      (ih (length_snoc len) (fun eq => absurd eq plain.1) (Nat.lt_of_succ_lt small))
  | cut =>
    obtain full | behind := look_behind ready (by decide)
    case inl => exact writes_full (len ▸ full)
    rw [expand, if_pos rfl, List.append_nil]
    exact writes_cut nofun behind
  | escape free _ ih =>
    obtain full | behind := look_behind ready (by decide)
    case inl => exact writes_full (len ▸ full)
    rw [expand_escape]
    exact writes_escape behind small
      (ih (length_snoc len) free (Nat.lt_of_succ_lt (Nat.lt_of_succ_lt small)))
  | @quote made text s notin last _ ih =>
    obtain full | behind := look_behind ready (by decide)
    case inl => exact writes_full (len ▸ full)
    have short : s.length < 2 ^ 31 := by
      rw [List.length_cons, List.length_append, List.length_cons] at small
      omega
    have grow : (acc ++ text).length = made + text.length := by rw [List.length_append, len]
    by_cases room : acc.length < n
    case neg => exact writes_full (Nat.le_of_not_lt room)
    refine .turn (if_pos ⟨rfl, behind⟩) (fun h => nomatch h.2.1) room small ?_
    rw [expand_quote notin, ← List.append_assoc]
    exact writes_quoted notin (len ▸ last) (fun _ => .inl (by decide)) (Nat.lt_of_succ_lt small)
      (ih grow nofun short)
  | quoteEnd notin =>
    obtain full | behind := look_behind ready (by decide)
    case inl => exact writes_full (len ▸ full)
    by_cases room : acc.length < n
    case neg => exact writes_full (Nat.le_of_not_lt room)
    refine .turn (if_pos ⟨rfl, behind⟩) (fun h => nomatch h.2.1) room small ?_
    rw [expand_quoteEnd notin]
    exact writes_quoteEnd notin (Nat.lt_of_succ_lt small)
  | @reference made left right name s braces round curly fits _ ih =>
    obtain full | behind := look_behind ready (by decide)
    case inl => exact writes_full (len ▸ full)
    have short : s.length < 2 ^ 31 := by
      rw [List.length_cons, List.length_cons, List.length_append, List.length_cons] at small
      omega
    have grow : (acc ++ (getenv name).getD []).length = made + ((getenv name).getD []).length := by
      rw [List.length_append, len]
    have slash : right ≠ '\\' := by
      cases braces with
      | round => decide
      | curly => decide
    rw [expand_macroOf (braces.macroOf round curly)]
    refine writes_macro braces round curly fits behind small ?_
    rw [← List.append_assoc]
    exact ih grow (fun eq => absurd eq slash) short
  | @dollar made c s slash round curly quote dollar _ ih =>
    obtain full | behind := look_behind ready (by decide)
    case inl => exact writes_full (len ▸ full)
    have none : macroOf (c :: s) = none := by
      unfold macroOf
      split
      case h_1 eq => exact absurd (List.cons.inj eq).1 round
      case h_2 eq => exact absurd (List.cons.inj eq).1 curly
      case h_3 => rfl
    have two : (acc ++ ['$', c]).length = made + 2 := by
      rw [List.length_append, len]
      rfl
    rw [expand_dollar none]
    refine writes_lone round curly slash behind small ?_
    by_cases full : n ≤ made + 1
    case pos =>
      have one : n ≤ (acc ++ ['$']).length := length_snoc len ▸ full
      rw [List.append_cons acc '$' [c], List.take_append_of_le_length one,
        List.append_cons acc '$' (expand getenv (c :: s))]
      exact writes_full one
    have next : expand getenv (c :: s) = c :: expand getenv s := by
      by_cases eq : c = '$'
      · subst eq
        exact expand_dollar ((dollar rfl).resolve_left full)
      · exact expand_plain ⟨slash, fun eq => full (quote eq), eq⟩
    rw [next, append_two (expand getenv s)]
    exact ih two (fun eq => absurd eq slash) (Nat.lt_of_succ_lt (Nat.lt_of_succ_lt small))
  | @dollarEscape made d s round curly free _ ih =>
    obtain full | behind := look_behind ready (by decide)
    case inl => exact writes_full (len ▸ full)
    have two : (acc ++ ['$', d]).length = made + 2 := by
      rw [List.length_append, len]
      rfl
    have none : macroOf ('\\' :: d :: s) = none := rfl
    rw [expand_dollar none, expand_escape]
    refine writes_dollar behind small fun room => ?_
    refine .escape (turn_opening round curly room) nofun (by decide) room
      (Nat.lt_of_succ_lt small) ?_
    rw [append_two (expand getenv s)]
    exact ih two free (Nat.lt_of_succ_lt (Nat.lt_of_succ_lt (Nat.lt_of_succ_lt small)))

/-! ## The buffer -/

lemma terminate_take (pos : 0 < n) : terminate n (text.take n) = text.take (n - 1) ++ ['\x00'] := by
  unfold terminate
  rw [List.length_take]
  split
  case isTrue room =>
    have short : text.length ≤ n - 1 := by omega
    rw [List.take_of_length_le (by omega), List.take_of_length_le short]
  case isFalse full =>
    rw [List.dropLast_eq_take, List.length_take, List.take_take]
    congr 2
    omega

/-- The output has no more than the room in front of a turn and what is written by it. -/
lemma turn_room {raw : Str} (h : turn getenv n m raw c = some m') (room : m.output.length < n) :
    m'.output.length ≤ n := by
  have len : ∀ text, (put n m.output text).length ≤ n := fun text => by
    rw [put, List.length_append, List.length_take]
    omega
  have snoc : (m.output ++ [c]).length ≤ n := by
    rw [List.length_append]
    exact room
  unfold turn at h
  split at h
  case h_1 =>
    split_ifs at h <;> cases h
    · exact Nat.le_of_lt room
    · exact Nat.le_of_lt room
    · exact snoc
  case h_2 =>
    split_ifs at h <;> cases h
    · exact Nat.le_of_lt room
    · rw [put, List.length_append, List.length_take, List.length_append, List.length_singleton]
      omega
  case h_3 =>
    dsimp only at h
    split_ifs at h <;> cases h
    · exact len _
    · exact Nat.le_of_lt room
  case h_4 =>
    split_ifs at h <;> cases h
    · exact Nat.le_of_lt room
    · exact snoc

lemma loop_room {cnt : BitVec 32} (h : loop getenv n cnt m s = some m')
    (room : m.output.length ≤ n) : m'.output.length ≤ n := by
  fun_induction loop getenv n cnt m s with
  | case1 | case3 | case4 =>
    cases h
    exact room
  | case2 | case5 => cases h
  | case6 _ m _ more _ _ _ _ ih =>
    obtain ⟨next, here, h⟩ := Option.bind_eq_some_iff.mp h
    exact ih next h (turn_room here (Nat.lt_of_not_le (not_or.mp more).2))
  | case7 _ m _ _ more _ ih =>
    obtain ⟨next, here, h⟩ := Option.bind_eq_some_iff.mp h
    exact ih next h (turn_room here (Nat.lt_of_not_le (not_or.mp more).2))

lemma terminate_room (pos : 0 < n) (room : s.length ≤ n) :
    (terminate n s).length ≤ n ∧ (terminate n s).getLast? = some '\x00' := by
  unfold terminate
  split
  case isTrue less =>
    refine ⟨?_, List.getLast?_concat⟩
    rw [List.length_append]
    exact less
  case isFalse full =>
    refine ⟨?_, List.getLast?_concat⟩
    rw [List.length_append, List.length_dropLast, List.length_singleton]
    omega

/-- What is written ends with a NUL inside of the buffer, and on a clean line it is the text of the
reference as far as there is room. -/
theorem process_expand (pos : 0 < n) (input : Str) :
    (∀ output, cliSimpleProcessMacros getenv n input = some output →
      output.length ≤ n ∧ output.getLast? = some '\x00') ∧
    (input.length < 2 ^ 31 → Clean getenv n 0 input →
      cliSimpleProcessMacros getenv n input =
        some ((expand getenv input).take (n - 1) ++ ['\x00'])) := by
  refine ⟨fun output done => ?_, fun small clean => ?_⟩
  · obtain ⟨m, run, rfl⟩ := Option.map_eq_some_iff.mp done
    exact terminate_room pos (loop_room run (Nat.zero_le n))
  · have behind : '\x00' = '\\' → Free n 0 input := fun eq => absurd eq (by decide)
    obtain ⟨m, run, out⟩ := clean.writes List.length_nil behind small
    rw [List.take_nil] at run
    rw [cliSimpleProcessMacros, run, Option.map_some, out, terminate_take pos, List.nil_append]

/-- The line `\$$(x)'$'`. -/
theorem process_expand_line :
    cliSimpleProcessMacros (fun _ => some ['v']) 16 "\\$$(x)'$'".toList =
      some ((expand (fun _ => some ['v']) "\\$$(x)'$'".toList).take 15 ++ ['\x00']) := by
  have quote : Clean (fun _ => some ['v']) 16 2 ('\'' :: (['$'] ++ '\'' :: [])) :=
    .quote (by decide) nofun .nil
  have round : Clean (fun _ => some ['v']) 16 1 ('$' :: '(' :: (['x'] ++ ')' :: "'$'".toList)) :=
    .reference .round (by decide) (by decide) (by decide) quote
  exact (process_expand (by decide) _).2 (by decide) (.escape nofun round)

/-- A macro behind a pair of backslashes is not replaced. -/
theorem not_process_expand :
    cliSimpleProcessMacros (fun _ => some ['v']) 1024 "\\\\$(x)".toList ≠
      some ((expand (fun _ => some ['v']) "\\\\$(x)".toList).take 1023 ++ ['\x00']) := by
  have line : "\\\\$(x)".toList = ['\\', '\\', '$', '(', 'x', ')'] := rfl
  have name : macroOf ['(', 'x', ')'] = some (['x'], []) := by decide
  have text : expand (fun _ => some ['v']) ['\\', '\\', '$', '(', 'x', ')'] = ['\\', 'v'] :=
    expand_escape.trans (congrArg _ ((expand_macroOf name).trans (by rw [expand]; rfl)))
  have output : cliSimpleProcessMacros (fun _ => some ['v']) 1024
      ['\\', '\\', '$', '(', 'x', ')'] = some ['\\', '$', '(', 'x', ')', '\x00'] := rfl
  rw [line, text, output]
  decide

end Imx.Cli
