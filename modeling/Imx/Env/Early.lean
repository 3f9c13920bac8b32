import Imx.Env.FwWrite
import Imx.HashTable.Listed

/-!
# Reading the environment before relocation

Before the environment is imported, `getenv_f` of `cmd/nvedit.c` looks a variable up in the stored
text, a byte at a time. It copies a value as it is, where `himport_r` takes the escapes out that
`hexport_r` put in. `early_reads_iff` says when the two agree all the same.
-/

namespace Imx.Env.Early
open Imx.Base Imx.HashTable Imx.Env.FwWrite

/-! ## The code -/

/-- Does the pair at `i2` set the variable `s1` (C `envmatch`): where its value begins. The outer
`none` is a name that is read past its end, for a pair that ends with it. -/
def envmatch (s : Mem) : CStr → Nat → Option (Option Nat)
  | [], i2 => if s i2 = 0 then none else some (if s i2 = 61 then some (i2 + 1) else none)
  | a :: s1, i2 =>
    if a = s i2 then if a = 61 then some (some (i2 + 1)) else envmatch s s1 (i2 + 1)
    else some none

/-- The end of the pair at `nxt`, which has to come within the next `left` bytes: those in front of
`CONFIG_ENV_SIZE`. -/
def pairEnd (s : Mem) : Nat → Nat → Option Nat
  | 0, nxt => if s nxt = 0 then some nxt else none
  | left + 1, nxt => if s nxt = 0 then some nxt else pairEnd s left (nxt + 1)

/-- Copy a value to a buffer of `len` bytes: what is stored, and whether the NUL is. -/
def copyOut (s : Mem) : Nat → Nat → List UInt8 × Bool
  | 0, _ => ([], false)
  | len + 1, val =>
    if s val = 0 then ([0], true)
    else
      let r := copyOut s len (val + 1)
      (s val :: r.1, r.2)

/-- What is returned for the value at `val`, and the buffer: its last byte becomes a NUL where the
value is too long for it. -/
def copied (s : Mem) (len val : Nat) : Int × List UInt8 :=
  let r := copyOut s len val
  if r.2 then ((r.1.length - 1 : Nat), r.1)
  else (len, if len = 0 then [] else r.1.dropLast ++ [0])

/-- The loop over the pairs, at most `fuel` turns. -/
def getenvLoop (s : Mem) (size : Nat) (name : CStr) (len : Nat) :
    Nat → Nat → Option (Int × List UInt8)
  | 0, _ => none
  | fuel + 1, i =>
    if s i = 0 then some (-1, [])
    else
      match pairEnd s (size - i) i with
      | none => some (-1, [])
      | some nxt =>
        match envmatch s name i with
        | none => none
        | some none => getenvLoop s size name len fuel (nxt + 1)
        | some (some val) => some (copied s len val)

/-- Look a variable up in the stored environment of `size` bytes (C `getenv_f`): what is returned,
and what is in the buffer then. -/
def getenvF (s : Mem) (size : Nat) (name : CStr) (len : Nat) : Option (Int × List UInt8) :=
  getenvLoop s size name len (size + 2) 0

/-! ## Bytes in memory -/

variable {s : Mem} {i j n size len fuel val : Nat} {a b X : List UInt8} {c : UInt8}
  {k v w name : CStr} {x : Var} {us vs : List Var}

/-- The bytes stand at `i`. -/
def At (s : Mem) (i : Nat) (b : List UInt8) : Prop := s.read i b.length = b

lemma at_append : At s i (a ++ b) ↔ At s i a ∧ At s (i + a.length) b := by
  rw [At, List.length_append, Mem.read_add]
  constructor
  · intro eq
    exact List.append_inj eq (by simp)
  · rintro ⟨first, second⟩
    rw [first, second]

lemma at_cons : At s i (c :: b) ↔ s i = c ∧ At s (i + 1) b := by
  rw [At, List.length_cons, Mem.read_succ, List.cons.injEq]
  rfl

/-- A part of what is read stands there. -/
lemma At.of_read (read : s.read 0 n = a ++ b) : At s 0 a := by
  have len := congrArg List.length read
  rw [Mem.length_read, List.length_append] at len
  subst len
  rw [Mem.read_add] at read
  exact (List.append_inj read (by simp)).1

lemma At.nil : At s i [] := rfl

/-! ## One pair -/

lemma pairEnd_at (nul : (0 : UInt8) ∉ a) (here : At s i (a ++ [0])) (le : i + a.length ≤ size) :
    pairEnd s (size - i) i = some (i + a.length) := by
  generalize left : size - i = l
  induction a generalizing i l with
  | nil =>
    have zero : s i = 0 := (at_cons.1 here).1
    cases l with
    | zero => rw [pairEnd, if_pos zero]; rfl
    | succ l => rw [pairEnd, if_pos zero]; rfl
  | cons c a ih =>
    obtain ⟨first, rest⟩ := at_cons.1 here
    rw [List.mem_cons, not_or] at nul
    rw [List.length_cons] at le ⊢
    obtain ⟨l, rfl⟩ : ∃ n, l = n + 1 := ⟨l - 1, by omega⟩
    have notNul : ¬ s i = 0 := fun e => nul.1 (e.symm.trans first)
    rw [pairEnd, if_neg notNul, ih nul.2 rest (by omega) l (by omega), Nat.add_right_comm,
      ← Nat.add_assoc]

/-- A pair sets the variable it names and no other one. -/
lemma envmatch_at (kn : (0 : UInt8) ∉ k) (ke : (61 : UInt8) ∉ k) (nn : (0 : UInt8) ∉ name)
    (ne : (61 : UInt8) ∉ name) (here : At s i (k ++ [61])) :
    envmatch s name i = some (if name = k then some (i + k.length + 1) else none) := by
  induction k generalizing i name with
  | nil =>
    have equals : s i = 61 := (at_cons.1 here).1
    cases name with
    | nil => simp [envmatch, equals]
    | cons a name =>
      have a61 : a ≠ 61 := fun e => ne (e ▸ List.mem_cons_self)
      simp [envmatch, equals, a61]
  | cons c k ih =>
    obtain ⟨first, rest⟩ := at_cons.1 here
    have c0 : c ≠ 0 := fun e => kn (e ▸ List.mem_cons_self)
    have c61 : c ≠ 61 := fun e => ke (e ▸ List.mem_cons_self)
    cases name with
    | nil => simp [envmatch, first, c0, c61]
    | cons a name =>
      by_cases e : a = c
      · subst e
        rw [envmatch, first, if_pos rfl, if_neg c61,
          ih (mt (List.mem_cons_of_mem _) kn) (mt (List.mem_cons_of_mem _) ke)
            (mt (List.mem_cons_of_mem _) nn) (mt (List.mem_cons_of_mem _) ne) rest]
        simp only [List.cons.injEq, true_and, List.length_cons]
        rw [show i + 1 + k.length + 1 = i + (k.length + 1) + 1 from by omega]
      · simp [envmatch, first, e]

/-- A turn that comes to the pair of the name copies its value, unless the pair does not end. -/
lemma getenvLoop_hit (pk : PlainName k) (here : At s i (k ++ [61])) :
    getenvLoop s size k len (fuel + 1) i =
      some (if pairEnd s (size - i) i = none then (-1, []) else copied s len (i + k.length + 1)) := by
  obtain ⟨c, k', rfl⟩ := List.exists_cons_of_ne_nil pk.ne
  have c0 : ¬ s i = 0 := by
    rw [(at_cons.1 here).1]
    exact fun e => pk.nul (e ▸ List.mem_cons_self)
  rw [getenvLoop, if_neg c0, envmatch_at pk.nul pk.eq pk.nul pk.eq here]
  cases pairEnd s (size - i) i with
  | none => rfl
  | some nxt => simp

/-- A turn that comes to another pair goes on behind it. -/
lemma getenvLoop_miss (pv : PlainVar x) (nn : (0 : UInt8) ∉ name) (ne : (61 : UInt8) ∉ name)
    (other : name ≠ x.1) (here : At s i (rawLine 0 x.1 x.2))
    (le : i + (rawLine 0 x.1 x.2).length ≤ size + 1) :
    getenvLoop s size name len (fuel + 1) i =
      getenvLoop s size name len fuel (i + (rawLine 0 x.1 x.2).length) := by
  have pair : rawLine 0 x.1 x.2 = (x.1 ++ 61 :: x.2) ++ [0] := by simp [rawLine]
  have named : At s i (x.1 ++ [61]) := by
    rw [show rawLine 0 x.1 x.2 = (x.1 ++ [61]) ++ (x.2 ++ [0]) from by simp [rawLine]] at here
    exact (at_append.1 here).1
  have c0 : ¬ s i = 0 := by
    obtain ⟨c, text, head, c0⟩ := rawLine_head pv.nul x.2 []
    rw [List.append_nil] at head
    rw [head] at here
    rwa [(at_cons.1 here).1]
  have nul : (0 : UInt8) ∉ x.1 ++ 61 :: x.2 := by simp [pv.nul, pv.val]
  have ends : pairEnd s (size - i) i = some (i + (x.1 ++ 61 :: x.2).length) := by
    rw [pair] at here le
    rw [List.length_append, List.length_singleton] at le
    exact pairEnd_at nul here (by omega)
  have miss := envmatch_at pv.nul pv.eq nn ne named
  rw [getenvLoop, if_neg c0, ends, miss]
  simp only [if_neg other]
  congr 1
  simp [rawLine]
  omega

/-- The search passes the pairs of other names. -/
lemma getenvLoop_pairs (good : ∀ x ∈ us, PlainVar x)
    (nn : (0 : UInt8) ∉ name) (ne : (61 : UInt8) ∉ name) (others : ∀ x ∈ us, name ≠ x.1)
    (here : At s i (rawLines 0 us)) (le : i + (rawLines 0 us).length ≤ size + 1) :
    getenvLoop s size name len (fuel + us.length) i =
      getenvLoop s size name len fuel (i + (rawLines 0 us).length) := by
  induction us generalizing i with
  | nil => rfl
  | cons x us ih =>
    have pv := good x List.mem_cons_self
    rw [rawLines_cons] at here le ⊢
    obtain ⟨first, rest⟩ := at_append.1 here
    rw [List.length_append] at le ⊢
    rw [List.length_cons, ← Nat.add_assoc,
      getenvLoop_miss pv nn ne (others x List.mem_cons_self) first (by omega),
      ih (fun y hy => good y (List.mem_cons_of_mem _ hy))
        (fun y hy => others y (List.mem_cons_of_mem _ hy)) rest (by omega), Nat.add_assoc]

/-! ## The value -/

lemma copyOut_at (nul : (0 : UInt8) ∉ v) (here : At s val (v ++ [0])) (room : v.length < len) :
    copyOut s len val = (v ++ [0], true) := by
  obtain ⟨len, rfl⟩ : ∃ n, len = n + 1 := ⟨len - 1, by omega⟩
  induction v generalizing val len with
  | nil =>
    have zero : s val = 0 := (at_cons.1 here).1
    rw [copyOut, if_pos zero]
    rfl
  | cons c v ih =>
    obtain ⟨first, rest⟩ := at_cons.1 here
    rw [List.mem_cons, not_or] at nul
    have notNul : ¬ s val = 0 := fun e => nul.1 (e.symm.trans first)
    rw [List.length_cons] at room
    obtain ⟨len, rfl⟩ : ∃ n, len = n + 1 := ⟨len - 1, by omega⟩
    rw [copyOut, if_neg notNul, ih nul.2 rest len (by omega), first]
    rfl

/-- A buffer longer than the value gets all of it. -/
lemma copied_at (nul : (0 : UInt8) ∉ v) (here : At s val (v ++ [0])) (room : v.length < len) :
    copied s len val = ((v.length : Int), v ++ [0]) := by
  rw [copied, copyOut_at nul here room]
  simp

/-- What is copied stands in memory. -/
lemma at_copyOut (s : Mem) (len val : Nat) : At s val (copyOut s len val).1 := by
  induction len generalizing val with
  | zero => exact At.nil
  | succ len ih =>
    rw [copyOut]
    split_ifs with zero
    · exact at_cons.2 ⟨zero, At.nil⟩
    · exact at_cons.2 ⟨rfl, ih (val + 1)⟩

/-- A value that is returned whole stands in memory with its NUL. -/
lemma at_of_copied (eq : copied s len val = ((v.length : Int), v ++ [0])) (room : v.length < len) :
    At s val (v ++ [0]) := by
  rw [copied] at eq
  by_cases whole : (copyOut s len val).2 = true
  · rw [if_pos whole] at eq
    rw [← (Prod.mk.inj eq).2]
    exact at_copyOut s len val
  · rw [if_neg whole] at eq
    have same := (Prod.mk.inj eq).1
    omega

/-! ## What the import reads -/

section Import

variable {hk : Hooks} {old : Option Htab} {t' : Htab} {slack : Nat} {text tail U : List UInt8}
  {ls : List Line}

/-- The table made from a text has no more names than slots, and its values are those the lines of
the text assign. -/
lemma imported_assigned (acc : hk.Accepting) (pos : n ≠ 0)
    (imported : himportR hk old s n 0 0 false [] = some (t', true)) :
    ∃ m' : Map, (∀ k, found hk t' k = m'.lookup k) ∧ m'.keys.length ≤ importSize n ∧
      ∀ k v, m'.lookup k = some v → .assign k v ∈ importScript 0 false s n := by
  obtain ⟨create, good⟩ := hcreateR_import n
  rw [himportR_script hk old s 0 0 false [] pos, startTable_new, create, Option.bind_some,
    List.map_nil, runScript] at imported
  obtain ⟨r, run, rest⟩ := Option.bind_eq_some_iff.1 imported
  have named : ∀ l ∈ importScript 0 false s n, l.nameless = false := by
    intro l mem
    by_contra nameless
    rw [runLines_nameless run ⟨l, mem, by simpa using nameless⟩, if_neg Bool.false_ne_true] at rest
    cases rest
  have unsaid : Said ∅ fun _ => none := fun x v h => by simp at h
  obtain ⟨t₁, m₁, run₁, loose, said, -⟩ := (Rep.empty good).loose.script acc unsaid 0 named
  obtain rfl := Option.some.inj (run.symm.trans run₁)
  obtain rfl : t₁ = t' := congrArg Prod.fst (Option.some.inj rest)
  have size : t₁.size = importSize n := runLines_size good run
  refine ⟨m₁, loose.found, size ▸ loose.rep.room, fun k v held => ?_⟩
  have value := said k v held
  rw [foldl_settle] at value
  cases last : lastAbout (importScript 0 false s n) k with
  | none =>
    rw [last] at value
    cases value
  | some l =>
    rw [last] at value
    obtain ⟨mem, name⟩ := mem_of_lastAbout last
    cases l with
    | comment => cases value
    | remove name => cases value
    | assign name v' =>
      obtain rfl := Option.some.inj name
      obtain rfl := Option.some.inj value
      exact mem

/-- A name that is assigned is one the parser can read back. -/
lemma goodName_of_assigned (ended : Ended text) (ne : k ≠ [])
    (mem : .assign k v ∈ script 0 slack fuel text) : GoodName 0 k := by
  induction fuel generalizing text with
  | zero => cases mem
  | succ fuel ih =>
    have reads := ended.reads 0
    rw [script] at mem
    have here : (parseLine 0 text).1 = .assign k v → GoodName 0 k := by
      intro eq
      rw [eq] at reads
      generalize (parseLine 0 text).2 = rest at reads
      cases reads with
      | assign blank head all keep read =>
        have notIn : ∀ c, nameByte 0 c = false → c ∉ k := fun c no h => by
          rw [all c h] at no
          cases no
        refine ⟨ne, notIn 0 rfl, notIn 61 rfl, notIn 0 rfl, ?_⟩
        rwa [List.head?_append_of_ne_nil _ ne] at head
    split_ifs at mem with more
    · rcases List.mem_cons.1 mem with eq | mem
      · exact here eq.symm
      · obtain ⟨line, -, eq⟩ := reads.consumes ended
        refine ih ((eq ▸ ended).append fun nil => ?_) mem
        rw [nil] at more
        exact Nat.not_lt_zero _ more.2.1
    · exact here (List.mem_singleton.1 mem).symm

/-- A value is read up to the next NUL, and is no longer than its text. -/
lemma parseValue_cut (nul : (0 : UInt8) ∉ X) (tail : List UInt8) :
    (parseValue 0 (X ++ 0 :: tail)).2 = 0 :: tail ∧
      (parseValue 0 (X ++ 0 :: tail)).1.length ≤ X.length := by
  rw [parseValue_nul_sep nul]
  exact ⟨rfl, length_readValue_le nul⟩

lemma prefix_split {R : List UInt8} (h : U <+: a ++ c :: R) :
    U <+: a ∨ ∃ X, U = a ++ c :: X ∧ X <+: R := by
  induction a generalizing U with
  | nil =>
    rcases List.prefix_cons_iff.1 h with rfl | ⟨X, rfl, pre⟩
    · exact .inl (List.prefix_refl _)
    · exact .inr ⟨X, rfl, pre⟩
  | cons d a ih =>
    rcases List.prefix_cons_iff.1 h with rfl | ⟨U, rfl, pre⟩
    · exact .inl List.nil_prefix
    · rcases ih pre with whole | ⟨X, rfl, rest⟩
      · exact .inl (List.cons_prefix_cons.2 ⟨rfl, whole⟩)
      · exact .inr ⟨X, rfl, rest⟩

/-- A line that may be cut: without its `=` and a byte behind it, it removes a name. -/
lemma parseLine_cut {R : List UInt8} (gn : GoodName 0 k) (ne : w ≠ []) (nul : (0 : UInt8) ∉ w)
    (cut : U <+: rawLine 0 k w ++ R) :
    (∃ name, parseLine 0 (U ++ [0]) = (.remove name, [])) ∨
      ∃ X rest, U = k ++ 61 :: X ∧
        parseLine 0 (U ++ [0]) = (.assign k (parseValue 0 (X ++ [0])).1, rest) ∧
        (rest = [] ∨ ∃ U', U = rawLine 0 k w ++ U' ∧ rest = U' ++ [0] ∧ U' <+: R) := by
  have isName : ∀ {a : CStr}, a <+: k → ∀ c ∈ a, nameByte 0 c = true := by
    intro a pre c mem
    have h1 : c ≠ 61 := fun e => gn.eq (e ▸ pre.subset mem)
    have h2 : c ≠ 0 := fun e => gn.nul (e ▸ pre.subset mem)
    simp [nameByte, h1, h2]
  have text : rawLine 0 k w ++ R = k ++ 61 :: (w ++ 0 :: R) := by simp [rawLine]
  rw [text] at cut
  rcases prefix_split cut with short | ⟨X, rfl, cut₁⟩
  · have head : ∀ x ∈ (U ++ 0 :: []).head?, isblank x = false ∧ x ≠ 35 := by
      cases U with
      | nil =>
        rintro x ⟨⟩
        exact ⟨rfl, by decide⟩
      | cons c U =>
        rintro x ⟨⟩
        obtain ⟨k', rfl⟩ := short
        exact gn.head c rfl
    have line := @parseLine_name 0 0 [] U [] (List.forall_mem_nil _) head (isName short) rfl
    exact .inl ⟨U, by rw [List.nil_append, if_pos rfl] at line; exact line⟩
  · have head : ∀ x ∈ (k ++ 61 :: (X ++ [0])).head?, isblank x = false ∧ x ≠ 35 := by
      rw [List.head?_append_of_ne_nil _ gn.ne]
      exact gn.head
    have line := @parseLine_name 0 61 (X ++ [0]) k [] (List.forall_mem_nil _) head
      (isName (List.prefix_refl k)) rfl
    rw [List.nil_append, if_neg (by decide)] at line
    obtain ⟨d, w', rfl⟩ := List.exists_cons_of_ne_nil ne
    have d0 : d ≠ 0 := fun e => nul (e ▸ List.mem_cons_self)
    rw [show k ++ 61 :: X ++ [0] = k ++ 61 :: (X ++ [0]) from by simp, line]
    cases X with
    | nil => exact .inl ⟨k, by simp⟩
    | cons e X =>
      obtain rfl : e = d := (List.cons_prefix_cons.1 cut₁).1
      refine .inr ⟨e :: X, _, rfl, if_neg (by simp [d0]), ?_⟩
      rcases prefix_split cut₁ with short | ⟨U', eq, cut₂⟩
      · have stop := (@parseValue_cut (e :: X) (fun h => nul (short.subset h)) []).1
        exact .inl (by rw [stop]; rfl)
      · refine .inr ⟨U', ?_, ?_, cut₂⟩
        · rw [eq]
          simp [rawLine]
        · have stop := (parseValue_cut nul (U' ++ [0])).1
          rw [eq, show e :: w' ++ 0 :: U' ++ [0] = e :: w' ++ 0 :: (U' ++ [0]) from by simp, stop]
          rfl

/-- An assignment in a text of lines that may be cut is the line of a variable, as far as it is
there. -/
lemma assigned_cut (good : ∀ y ∈ x :: vs, GoodName 0 y.1 ∧ y.2 ≠ [] ∧ (0 : UInt8) ∉ y.2)
    (cut : U <+: rawLines 0 (x :: vs) ++ 0 :: tail)
    (mem : .assign k w ∈ script 0 slack fuel (U ++ [0])) :
    ∃ us y us' X, x :: vs = us ++ y :: us' ∧ y.1 = k ∧ U = rawLines 0 us ++ (k ++ 61 :: X) ∧
      w = (parseValue 0 (X ++ [0])).1 := by
  induction fuel generalizing x vs U with
  | zero => cases mem
  | succ fuel ih =>
    obtain ⟨gn, ne, nul⟩ := good x List.mem_cons_self
    rw [rawLines_cons, List.append_assoc] at cut
    rw [script] at mem
    rcases parseLine_cut gn ne nul cut with ⟨name, line⟩ | ⟨X, rest, eq, line, ends⟩
    · simp [line] at mem
    · rw [line] at mem
      by_cases here : k = x.1 ∧ w = (parseValue 0 (X ++ [0])).1
      · exact ⟨[], x, vs, X, rfl, here.1.symm, by rw [eq, here.1]; rfl, here.2⟩
      · have other : ¬ Line.assign k w = .assign x.1 (parseValue 0 (X ++ [0])).1 := by simpa using here
        split_ifs at mem with more
        · have later := (List.mem_cons.1 mem).resolve_left other
          rcases ends with rfl | ⟨U', rfl, rfl, cut'⟩
          · exact absurd more.2.1 (Nat.not_lt_zero _)
          · cases vs with
            | nil =>
              rcases List.prefix_cons_iff.1 cut' with rfl | ⟨Y, rfl, -⟩
              · exact absurd rfl more.2.2
              · exact absurd rfl more.2.2
            | cons z vs =>
              obtain ⟨us, y, us', X', split, name, there, value⟩ :=
                ih (fun y hy => good y (List.mem_cons_of_mem _ hy)) cut' later
              refine ⟨x :: us, y, us', X', by rw [split]; rfl, name, ?_, value⟩
              rw [there, rawLines_cons, List.append_assoc]
        · exact absurd (List.mem_singleton.1 mem) other

/-- A text with an escape in it is longer than the value it is read as. -/
lemma parseValue_shorter (nul : (0 : UInt8) ∉ a) (plain : (92 : UInt8) ∉ a) (notNul : c ≠ 0)
    (text : List UInt8) :
    (parseValue 0 (a ++ 92 :: c :: (text ++ [0]))).1.length <
      ((a ++ 92 :: c :: text).takeWhile (· != 0)).length := by
  induction a with
  | nil =>
    obtain ⟨run, d, rest, eq, all, stop, -, take, -⟩ :=
      (show Ended (text ++ [0]) from List.getLast?_append_of_ne_nil _ (by simp)).split
        (p := (· != 0)) rfl
    obtain rfl : d = 0 := by simpa using stop
    have runNul : (0 : UInt8) ∉ run := fun h => by simpa using all 0 h
    have short := (parseValue_cut runNul rest).2
    have whole : text.takeWhile (· != 0) = run := by
      rw [← take, List.takeWhile_append]
      split_ifs with h
      · rw [(List.takeWhile_prefix _).eq_of_length h]
        exact (List.append_nil text).symm
      · rfl
    rw [List.nil_append, List.nil_append, parseValue, if_neg (by decide), if_pos ⟨rfl, notNul⟩, eq,
      List.takeWhile_cons_of_pos (by decide), List.takeWhile_cons_of_pos (by simpa using notNul),
      whole]
    simp only [List.length_cons]
    omega
  | cons d a ih =>
    rw [List.mem_cons, not_or] at nul plain
    have more := ih nul.2 plain.2
    rw [List.cons_append, List.cons_append,
      List.takeWhile_cons_of_pos (by simpa using Ne.symm nul.1), List.length_cons]
    obtain ⟨e, rest, eq⟩ := List.exists_cons_of_ne_nil
      (show a ++ 92 :: c :: (text ++ [0]) ≠ [] from by simp)
    rw [eq] at more ⊢
    rw [parseValue, if_neg (by simp [Ne.symm nul.1]), if_neg (by simp [Ne.symm plain.1])]
    simp only [List.length_cons]
    omega

/-- A value that stands in memory with its NUL is as long as what is there up to a NUL. -/
lemma length_of_at (here : At s val (v ++ [0])) (there : At s val X) :
    (X.takeWhile (· != 0)).length ≤ v.length := by
  by_contra longer
  have lt : v.length < (X.takeWhile (· != 0)).length := by omega
  have zero : s (val + v.length) = 0 := (at_cons.1 (at_append.1 here).2).1
  have pre : At s val (X.takeWhile (· != 0)) := by
    rw [← List.takeWhile_append_dropWhile (p := (· != 0)) (l := X)] at there
    exact (at_append.1 there).1
  have byte := congrArg (fun l => l[v.length]?) pre
  simp only [Mem.getElem?_read, if_pos lt, zero] at byte
  have mem := List.mem_of_getElem? byte.symm
  have := List.mem_takeWhile_imp mem
  simp at this

end Import

/-! ## The search of a text -/

/-- The search comes to the first pair of a name. -/
lemma getenvF_hit (good : ∀ x ∈ us, PlainVar x) (pk : PlainName k)
    (others : ∀ x ∈ us, k ≠ x.1) (here : At s 0 (rawLines 0 us ++ (k ++ [61])))
    (le : (rawLines 0 us).length ≤ size) :
    getenvF s size k len =
      some (if pairEnd s (size - (rawLines 0 us).length) (rawLines 0 us).length = none then (-1, [])
        else copied s len ((rawLines 0 us).length + k.length + 1)) := by
  obtain ⟨lines, pair⟩ := at_append.1 here
  have short := length_le_rawLines 0 us
  obtain ⟨fuel, eq⟩ : ∃ f, size + 2 = f + 1 + us.length := ⟨size + 1 - us.length, by omega⟩
  rw [getenvF, eq, getenvLoop_pairs good pk.nul pk.eq others lines (by omega), Nat.zero_add]
  rw [Nat.zero_add] at pair
  exact getenvLoop_hit pk pair

/-- The search for a name without a pair comes to the end of the text. -/
lemma getenvF_miss (good : ∀ x ∈ us, PlainVar x) (nn : (0 : UInt8) ∉ name)
    (ne : (61 : UInt8) ∉ name) (others : ∀ x ∈ us, name ≠ x.1) (here : At s 0 (rawLines 0 us ++ [0]))
    (le : (rawLines 0 us).length ≤ size) :
    getenvF s size name len = some (-1, []) := by
  obtain ⟨lines, last⟩ := at_append.1 here
  have short := length_le_rawLines 0 us
  obtain ⟨fuel, eq⟩ : ∃ f, size + 2 = f + 1 + us.length := ⟨size + 1 - us.length, by omega⟩
  rw [getenvF, eq, getenvLoop_pairs good nn ne others lines (by omega), getenvLoop,
    if_pos (at_cons.1 last).1]

/-! ## The two ways to read -/

section Export

variable {hk : Hooks} {old : Option Htab} {rx : Regex} {t : Htab} {m : Map} {flag cap : Nat}
  {resp : Option Mem} {calloc : Bool} {env : Mem}

/-- `getenv_f` gives for every name of the table the value that is found after an import, and -1 for
the other names. -/
def EarlyAgrees (hk : Hooks) (old : Option Htab) (s : Mem) (n size : Nat) (m : Map) : Prop :=
  ∃ t', himportR hk old s n 0 0 false [] = some (t', true) ∧
    (∀ k v, m.lookup k = some v → ∃ v', found hk t' k = some v' ∧
      ∀ len, v.length < len → getenvF s size k len = some ((v'.length : Int), v' ++ [0])) ∧
    ∀ name : CStr, (0 : UInt8) ∉ name → (61 : UInt8) ∉ name → m.lookup name = none →
      ∀ len, getenvF s size name len = some (-1, [])

/-- Names the parser can read back, values without a backslash, and a slot for each of them in the
table made for a text of `n` bytes. -/
structure ReadsBack (m : Map) (n : Nat) : Prop where
  name : ∀ k v, m.lookup k = some v → GoodName 0 k
  plain : ∀ k v, m.lookup k = some v → (92 : UInt8) ∉ v
  room : m.keys.length ≤ importSize n

lemma exported_size (dots : hasFlag flag hHideDot = false)
    (exported : hexportR rx t 0 flag resp calloc cap [] = some (n, env)) :
    n = exportSize 0 (entries t) cap ∧ (resp ≠ none ∨ calloc = true) ∧
      (cap = 0 ∨ totlen 0 (entries t) < cap) := by
  rw [hexportR, exported_all dots] at exported
  simp only at exported
  by_cases small : cap ≠ 0 ∧ cap < totlen 0 (entries t) + 1
  · rw [if_pos small] at exported
    cases exported
  · rw [if_neg small] at exported
    obtain ⟨res, buffer, eq⟩ := Option.map_eq_some_iff.1 exported
    refine ⟨(Prod.mk.inj eq).1.symm, ?_, by omega⟩
    cases resp with
    | none =>
      rw [resultBuffer] at buffer
      split_ifs at buffer with mem
      exact .inr mem
    | some r => exact .inl (Option.some_ne_none r)

/-- The first pass counts four bytes more than name and value have. -/
lemma totlen_vars (es : List Entry) :
    totlen 0 es = ((es.map varOf).map fun x => x.1.length + x.2.length + 4).sum := by
  rw [totlen, List.map_map]
  congr 1
  refine List.map_congr_left fun e _ => ?_
  simp only [entryLen, if_pos, varOf, Function.comp]
  omega

/-- Without escapes, the lines are shorter than that. -/
lemma length_rawLines_le (plain : ∀ x ∈ us, escapeValue 0 x.2 = x.2) :
    (rawLines 0 (us.map (rawVar 0))).length ≤
      (us.map fun x => x.1.length + x.2.length + 4).sum := by
  induction us with
  | nil => exact Nat.le_refl 0
  | cons x us ih =>
    have rest := ih fun y hy => plain y (List.mem_cons_of_mem _ hy)
    have here := plain x List.mem_cons_self
    rw [List.map_cons, rawLines_cons, List.length_append, List.map_cons, List.sum_cons, rawVar, here]
    simp only [rawLine, List.length_append, List.length_cons, List.length_nil]
    omega

lemma not_before {us' : List Var} (nodup : (us ++ x :: us').NodupKeys) : ∀ y ∈ us, x.1 ≠ y.1 := by
  intro y mem eq
  refine absurd ?_ (List.nodupKeys_cons.1 (List.nodupKeys_middle.1 nodup)).1
  rw [eq]
  exact List.mem_keys_of_mem (List.mem_append_left _ mem)

/-- A name stands in one place of a list without a second one of it. -/
lemma split_unique {us' ws ws' : List Var} {y : Var} (nodup : (us ++ x :: us').NodupKeys)
    (eq : us ++ x :: us' = ws ++ y :: ws') (name : x.1 = y.1) : us = ws ∧ x = y := by
  induction us generalizing ws with
  | nil =>
    cases ws with
    | nil => exact ⟨rfl, (List.cons.inj eq).1⟩
    | cons w ws =>
      obtain ⟨rfl, rfl⟩ := List.cons.inj eq
      refine absurd ?_ (List.nodupKeys_cons.1 nodup).1
      rw [name]
      exact List.mem_keys_of_mem (by simp)
  | cons u us ih =>
    cases ws with
    | nil =>
      obtain ⟨rfl, -⟩ := List.cons.inj eq
      refine absurd ?_ (List.nodupKeys_cons.1 nodup).1
      rw [← name]
      exact List.mem_keys_of_mem (by simp)
    | cons w ws =>
      obtain ⟨rfl, rest⟩ := List.cons.inj eq
      obtain ⟨rfl, same⟩ := ih (List.nodupKeys_cons.1 nodup).2 rest
      exact ⟨rfl, same⟩

/-! ## A value with an escape -/

section Escape

variable {us' : List Var}

lemma rawVars_keys (vs : List Var) : (vs.map (rawVar 0)).keys = vs.keys := by
  rw [List.keys, List.map_map]
  rfl

/-- A value with a backslash, up to the first one. -/
lemma escaped_value (nul : (0 : UInt8) ∉ v) (bs : (92 : UInt8) ∈ v) :
    ∃ a b, v = a ++ 92 :: b ∧ (0 : UInt8) ∉ a ∧ (92 : UInt8) ∉ a ∧
      escapeValue 0 v = a ++ 92 :: 92 :: escapeValue 0 b := by
  obtain ⟨a, b, rfl, notIn⟩ := List.eq_append_cons_of_mem bs
  have aNul : (0 : UInt8) ∉ a := fun h => nul (List.mem_append_left _ h)
  refine ⟨a, b, rfl, aNul, notIn, ?_⟩
  rw [escapeValue, List.flatMap_append, ← escapeValue, (escapeValue_eq_iff aNul).2 notIn]
  rfl

/-- What is assigned to the first variable with a backslash is read from a text that has the first
escape whole, although the end may be cut off: the lines in front are as long as they were counted
and the value is longer. -/
lemma escaped_cut (good : ∀ y ∈ (us ++ ⟨k, v⟩ :: us').map (rawVar 0),
      GoodName 0 y.1 ∧ y.2 ≠ [] ∧ (0 : UInt8) ∉ y.2)
    (nodup : (us ++ ⟨k, v⟩ :: us').NodupKeys) (nul : (0 : UInt8) ∉ v) (bs : (92 : UInt8) ∈ v)
    (clean : ∀ x ∈ us, escapeValue 0 x.2 = x.2)
    (cut : U <+: rawLines 0 ((us ++ ⟨k, v⟩ :: us').map (rawVar 0)) ++ 0 :: tail)
    (big : ((us ++ ⟨k, v⟩ :: us').map fun x => x.1.length + x.2.length + 4).sum < U.length)
    (assigned : .assign k w ∈ script 0 slack fuel (U ++ [0])) :
    ∃ a Y, (0 : UInt8) ∉ a ∧ (92 : UInt8) ∉ a ∧
      U = rawLines 0 (us.map (rawVar 0)) ++ (k ++ 61 :: (a ++ 92 :: 92 :: Y)) ∧
      w = (parseValue 0 (a ++ 92 :: 92 :: (Y ++ [0]))).1 := by
  have lines : (us ++ ⟨k, v⟩ :: us').map (rawVar 0) =
      us.map (rawVar 0) ++ ⟨k, escapeValue 0 v⟩ :: us'.map (rawVar 0) := by
    rw [List.map_append]
    rfl
  have nodupLines :
      (us.map (rawVar 0) ++ ⟨k, escapeValue 0 v⟩ :: us'.map (rawVar 0)).NodupKeys := by
    rw [← lines, List.NodupKeys, rawVars_keys]
    exact nodup
  rw [lines] at cut good
  obtain ⟨z, zs, cons⟩ := List.exists_cons_of_ne_nil
    (show us.map (rawVar 0) ++ ⟨k, escapeValue 0 v⟩ :: us'.map (rawVar 0) ≠ [] from by simp)
  obtain ⟨ws, y, ws', X, split, name, block, value⟩ :=
    assigned_cut (cons ▸ good) (cons ▸ cut) assigned
  obtain ⟨rfl, rfl⟩ := split_unique nodupLines (cons.trans split) name.symm
  -- there is more of the value than its first escape
  have short := length_rawLines_le clean
  have long : v.length + 2 ≤ X.length := by
    have len := congrArg List.length block
    rw [List.length_append, List.length_append, List.length_cons] at len
    rw [List.map_append, List.sum_append, List.map_cons, List.sum_cons] at big
    dsimp only at big
    omega
  obtain ⟨a, b, rfl, aNul, notIn, escapes⟩ := escaped_value nul bs
  have cutX : X <+: a ++ [92, 92] ++ (escapeValue 0 b ++
      0 :: (rawLines 0 (us'.map (rawVar 0)) ++ 0 :: tail)) := by
    rw [block, rawLines_append, rawLines_cons, List.append_assoc, List.prefix_append_right_inj,
      rawLine, escapes] at cut
    simp only [List.append_assoc, List.cons_append, List.nil_append, List.prefix_append_right_inj,
      List.cons_prefix_cons, true_and] at cut ⊢
    exact cut
  obtain ⟨Y, rfl⟩ : a ++ [92, 92] <+: X := by
    refine List.prefix_of_prefix_length_le (List.prefix_append _ _) cutX ?_
    simp only [List.length_append, List.length_cons, List.length_nil] at long ⊢
    omega
  refine ⟨a, Y, aNul, notIn, ?_, ?_⟩
  · rw [block]
    simp
  · rw [value]
    simp

end Escape

variable (rep : Rep t m) (good : ∀ k v, m.lookup k = some v → GoodName 0 k ∧ GoodValue v)
include rep good

/-- Values that are read alike before and after an import have no backslash. -/
lemma no_backslash (acc : hk.Accepting) (dots : hasFlag flag hHideDot = false)
    (exported : hexportR rx t 0 flag resp calloc cap [] = some (n, env))
    (stored : s.read 0 n = env.read 0 n) (inside : n ≤ size) (agrees : EarlyAgrees hk old s n size m) :
    ∀ k v, m.lookup k = some v → (92 : UInt8) ∉ v := by
  obtain ⟨t', imported, early, -⟩ := agrees
  obtain ⟨es, perm, big, read⟩ := hexportR_text dots exported
  have strings : ∀ k v, m.lookup k = some v → PlainName k ∧ (0 : UInt8) ∉ v := fun k v look =>
    ⟨plainName_of_good (good k v look).1, (good k v look).2.nul⟩
  obtain ⟨text, look, plain⟩ := export_strings rep strings perm
  have vars : (es.map varOf).Perm m.entries := (perm.map varOf).trans rep.entries_perm
  have nodup : (es.map varOf).NodupKeys := (List.perm_nodupKeys vars).2 m.nodupKeys
  have total : totlen 0 es = totlen 0 (entries t) := (perm.map (entryLen 0)).sum_eq
  rw [← total, totlen_vars] at big
  -- the block and the text are both at the beginning of what is in memory
  have cut : s.read 0 n <+: rawLines 0 ((es.map varOf).map (rawVar 0)) ++
      0 :: env.read (exportText 0 es).length n := by
    have both := @Mem.read_add env 0 n (exportText 0 es).length
    rw [Nat.add_comm n, Mem.read_add, read, Nat.zero_add, Nat.zero_add, text, List.append_assoc,
      ← stored] at both
    exact ⟨_, by rw [← both, text]; rfl⟩
  generalize es.map varOf = vs at *
  by_contra bs
  have some' : ∃ x ∈ vs, (92 : UInt8) ∈ x.2 := by
    push Not at bs
    obtain ⟨k, v, held, mem⟩ := bs
    exact ⟨⟨k, v⟩, look.1 held, mem⟩
  -- the first variable with a backslash
  obtain ⟨⟨k, v⟩, first⟩ : ∃ x, vs.find? (fun x => decide ((92 : UInt8) ∈ x.2)) = some x := by
    rw [← Option.isSome_iff_exists, List.find?_isSome]
    simpa using some'
  obtain ⟨bs, us, us', rfl, clean⟩ := List.find?_eq_some_iff_append.1 first
  have held : m.lookup k = some v := look.2 (by simp)
  have goodLines : ∀ y ∈ (us ++ ⟨k, v⟩ :: us').map (rawVar 0),
      GoodName 0 y.1 ∧ y.2 ≠ [] ∧ (0 : UInt8) ∉ y.2 := by
    intro y mem
    obtain ⟨z, hz, rfl⟩ := List.mem_map.1 mem
    obtain ⟨gn, gv⟩ := good z.1 z.2 (look.2 hz)
    obtain ⟨d, text, eq, -⟩ := @escapeValue_head _ 0 (by decide) gv.ne gv.nul
    refine ⟨gn, ?_, (plain _ mem).val⟩
    rw [rawVar, eq]
    exact List.cons_ne_nil _ _
  have same : ∀ x ∈ us, escapeValue 0 x.2 = x.2 := fun x mem =>
    (escapeValue_eq_iff (strings _ _ (look.2 (List.mem_append_left _ mem))).2).2
      (by simpa using clean x mem)
  obtain ⟨v', found', gets⟩ := early k v held
  have pos : n ≠ 0 := by omega
  obtain ⟨m', holds, -, lines⟩ := imported_assigned acc pos imported
  have assigned := lines k v' (holds k ▸ found')
  rw [importScript, importCopy, if_neg Bool.false_ne_true] at assigned
  obtain ⟨a, Y, aNul, notIn, block, value⟩ := escaped_cut goodLines nodup (strings k v held).2
    (by simpa using bs) same cut (by rwa [Mem.length_read]) assigned
  have shorter := parseValue_shorter aNul notIn (show (92 : UInt8) ≠ 0 by decide) Y
  -- what `getenv_f` copies is at least that long
  have here : At s 0 (rawLines 0 (us.map (rawVar 0)) ++ (k ++ [61]) ++ (a ++ 92 :: 92 :: Y)) := by
    refine @At.of_read s n _ [] ?_
    rw [block]
    simp
  obtain ⟨pair, text'⟩ := at_append.1 here
  have inner : (rawLines 0 (us.map (rawVar 0))).length ≤ size := by
    have len := congrArg List.length block
    rw [Mem.length_read, List.length_append] at len
    omega
  have hit := @getenvF_hit s size (v.length + v'.length + 1) k (us.map (rawVar 0))
    (fun x mem => plain x (by rw [List.map_append]; exact List.mem_append_left _ mem))
    (strings k v held).1 (fun x mem => ?_) pair inner
  · rw [gets _ (by omega)] at hit
    split_ifs at hit with ends
    · have same := congrArg Prod.fst (Option.some.inj hit)
      dsimp only at same
      omega
    · have there := at_of_copied (Option.some.inj hit).symm (by omega)
      rw [List.length_append, List.length_append, List.length_singleton, ← Nat.add_assoc,
        Nat.zero_add] at text'
      have le := length_of_at there text'
      rw [value] at le
      omega
  · obtain ⟨y, hy, rfl⟩ := List.mem_map.1 mem
    exact not_before nodup y hy

/-- Names without blanks and values without backslashes are read alike before and after an import,
as far as the new table has slots. -/
lemma ReadsBack.agrees (acc : hk.Accepting) (dots : hasFlag flag hHideDot = false)
    (exported : hexportR rx t 0 flag resp calloc cap [] = some (n, env))
    (stored : s.read 0 n = env.read 0 n) (inside : n ≤ size) (reads : ReadsBack m n) :
    EarlyAgrees hk old s n size m := by
  obtain ⟨rfl, buffer, fits⟩ := exported_size dots exported
  have strings : ∀ k v, m.lookup k = some v → PlainName k ∧ (0 : UInt8) ∉ v := fun k v look =>
    ⟨plainName_of_good (good k v look).1, (good k v look).2.nul⟩
  have short : (exportText 0 (entries t)).length ≤ exportSize 0 (entries t) cap := by
    obtain ⟨-, look, -⟩ := export_strings rep strings (List.Perm.refl (entries t))
    have le := @length_exportText_le (entries t) fun e he =>
      (escapeValue_eq_iff (strings _ _ (look.2 (List.mem_map_of_mem he))).2).2
        (reads.plain _ _ (look.2 (List.mem_map_of_mem he)))
    rw [exportSize]
    split_ifs with zero
    · exact le
    · omega
  obtain ⟨es, env', perm, exported', read⟩ := hexportR_eq rx dots buffer fits short
  obtain rfl : env' = env := (Prod.mk.inj (Option.some.inj (exported'.symm.trans exported))).2
  obtain ⟨t', imported, rep'⟩ := @import_text hk t m 0 old es s _ acc rep
    ⟨by decide, by decide, rfl, by decide⟩ good perm (stored.trans read) reads.room
  obtain ⟨text, look, plain⟩ := export_strings rep strings perm
  have vars : (es.map varOf).Perm m.entries := (perm.map varOf).trans rep.entries_perm
  have nodup : (es.map varOf).NodupKeys := (List.perm_nodupKeys vars).2 m.nodupKeys
  have same : (es.map varOf).map (rawVar 0) = es.map varOf := by
    refine (List.map_congr_left fun x mem => ?_).trans (List.map_id _)
    rw [rawVar, (escapeValue_eq_iff (strings _ _ (look.2 mem)).2).2 (reads.plain _ _ (look.2 mem))]
    rfl
  rw [same] at text plain
  have block : At s 0 (rawLines 0 (es.map varOf) ++ [0]) := by
    rw [← text]
    exact At.of_read (stored.trans read)
  have fitsIn : (rawLines 0 (es.map varOf)).length ≤ size := by
    have len := congrArg List.length (stored.trans read)
    rw [Mem.length_read, text, List.length_append, List.length_append] at len
    omega
  refine ⟨t', imported, fun k v held => ⟨v, rep'.loose.found k |>.trans held, fun len room => ?_⟩,
    fun name nn ne absent len => ?_⟩
  · obtain ⟨us, us', split⟩ := List.append_of_mem (look.1 held)
    rw [split] at nodup block fitsIn plain
    have here : At s 0 (rawLines 0 us ++ (k ++ 61 :: v ++ [0])) := by
      rw [rawLines_append, rawLines_cons, rawLine, ← List.append_assoc, List.append_assoc] at block
      exact (at_append.1 block).1
    have parts : At s 0 (rawLines 0 us ++ (k ++ [61]) ++ (v ++ [0])) := by simpa using here
    obtain ⟨pair, value⟩ := at_append.1 parts
    rw [rawLines_append, rawLines_cons, List.length_append, List.length_append] at fitsIn
    have ends : pairEnd s (size - (rawLines 0 us).length) (rawLines 0 us).length ≠ none := by
      have line := (at_append.1 here).2
      rw [Nat.zero_add] at line
      simp only [rawLine, List.length_append] at fitsIn
      rw [pairEnd_at (by simp [(strings k v held).1.nul, (strings k v held).2]) line ?_]
      · exact Option.some_ne_none _
      · rw [List.length_append]
        omega
    rw [getenvF_hit (fun x mem => plain x (List.mem_append_left _ mem)) (strings k v held).1
      (not_before nodup) pair (by omega), if_neg ends, copied_at (strings k v held).2 ?_ room]
    simpa [Nat.add_assoc] using value
  · refine getenvF_miss plain nn ne (fun x mem eq => ?_) block fitsIn
    have held := look.2 mem
    rw [← eq, absent] at held
    cases held

end Export

/-- Where no change is refused, the stored environment is read alike before and after the import, for
every name, exactly when no name has an equals sign, or a blank or `#` in front, no value has a
backslash, and the table made for the block has a slot for each variable. `hexport_r` escapes
backslashes also for a NUL separator, which `getenv_f` does not know. -/
theorem early_reads_iff {hk : Hooks} {old : Option Htab} {rx : Regex} {t : Htab} {m : Map}
    {flag cap : Nat} {resp : Option Mem} {calloc : Bool} {env : Mem} (acc : hk.Accepting)
    (rep : Rep t m) (strings : ∀ k v, m.lookup k = some v → k ≠ [] ∧ GoodValue v)
    (dots : hasFlag flag hHideDot = false)
    (exported : hexportR rx t 0 flag resp calloc cap [] = some (n, env))
    (stored : s.read 0 n = env.read 0 n) (inside : n ≤ size) :
    EarlyAgrees hk old s n size m ↔ ReadsBack m n := by
  constructor
  · intro agrees
    obtain ⟨t', imported, early, -⟩ := id agrees
    obtain ⟨-, -, big, -⟩ := hexportR_text dots exported
    have pos : n ≠ 0 := by omega
    obtain ⟨m', holds, room, lines⟩ := imported_assigned acc pos imported
    have held : ∀ k v, m.lookup k = some v → ∃ v', m'.lookup k = some v' := by
      intro k v look
      obtain ⟨v', found', -⟩ := early k v look
      exact ⟨v', holds k ▸ found'⟩
    have name : ∀ k v, m.lookup k = some v → GoodName 0 k := by
      intro k v look
      obtain ⟨v', look'⟩ := held k v look
      exact goodName_of_assigned (importCopy_ended s n false).1 (strings k v look).1 (lines k v' look')
    refine ⟨name, ?_, ?_⟩
    · exact no_backslash rep (fun k v look => ⟨name k v look, (strings k v look).2⟩) acc dots exported
        stored inside agrees
    · have sub : m.keys ⊆ m'.keys := by
        intro k mem
        obtain ⟨v, look⟩ := Option.isSome_iff_exists.1 (AList.lookup_isSome.2 (AList.mem_keys.2 mem))
        obtain ⟨v', look'⟩ := held k v look
        exact AList.mem_keys.1 (AList.lookup_isSome.1 (by rw [look']; rfl))
      exact (List.subperm_of_subset m.nodupKeys sub).length_le.trans room
  · intro reads
    exact reads.agrees rep (fun k v look => ⟨reads.name k v look, (strings k v look).2⟩) acc dots
      exported stored inside

/-- The variable `a` is read alike. -/
theorem early_reads_iff_plain :
    ∃ n env, hexportR none oneVariable 0 0 none true 0 [] = some (n, env) ∧
      EarlyAgrees plainHooks none env n 64 ((∅ : Map).insert [97] [120]) := by
  refine ⟨_, _, rfl, (@early_reads_iff _ _ 64 _ none none _ _ 0 0 none true _ plainHooks_accepting
    oneVariable_rep (fun k v look => ?_) rfl rfl rfl (by decide)).2
    ⟨fun k v look => ?_, fun k v look => ?_, by decide⟩⟩
  · obtain ⟨rfl, rfl⟩ := lookup_single look
    exact ⟨by decide, by decide, by decide⟩
  · obtain ⟨rfl, -⟩ := lookup_single look
    exact goodName_a
  · obtain ⟨-, rfl⟩ := lookup_single look
    decide

/-- A value with a backslash: `getenv_f` gives four bytes, and three are found after the import. -/
theorem early_read_escaped :
    Rep sampleTable sampleMap ∧
    (∀ k v, sampleMap.lookup k = some v → GoodName 0 k ∧ GoodValue v) ∧
    ∃ n env, hexportR none sampleTable 0 0 none true 0 [] = some (n, env) ∧
      getenvF env 64 [97] 32 = some (4, [120, 59, 92, 92, 0]) ∧
      (himportR plainHooks none env n 0 0 false []).map (fun r => (found plainHooks r.1 [97], r.2)) =
        some (some [120, 59, 92], true) ∧
      ¬ EarlyAgrees plainHooks none env n 64 sampleMap := by
  refine ⟨sampleTable_rep, fun k v look => ?_, ?_⟩
  · obtain ⟨rfl, rfl⟩ := lookup_single look
    exact ⟨goodName_a, by decide, by decide⟩
  obtain ⟨n, env, exported, gets, imports⟩ :
      ∃ n env, hexportR none sampleTable 0 0 none true 0 [] = some (n, env) ∧
        getenvF env 64 [97] 32 = some (4, [120, 59, 92, 92, 0]) ∧
        (himportR plainHooks none env n 0 0 false []).map
          (fun r => (found plainHooks r.1 [97], r.2)) = some (some [120, 59, 92], true) :=
    ⟨_, _, rfl, by decide, by decide⟩
  refine ⟨n, env, exported, gets, imports, ?_⟩
  rintro ⟨t', imported, early, -⟩
  obtain ⟨v', held, early⟩ := early [97] [120, 59, 92] (AList.lookup_insert _)
  rw [imported, Option.map_some, held] at imports
  obtain rfl : v' = [120, 59, 92] :=
    Option.some.inj (Prod.mk.inj (Option.some.inj imports)).1
  exact absurd (gets.symm.trans (early 32 (by decide))) (by decide)

end Imx.Env.Early
