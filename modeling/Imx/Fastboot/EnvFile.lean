import Mathlib.Data.List.Basic
import Mathlib.Tactic.Common

/-!
# An environment sent over fastboot

`parse_env` runs over a text in the transfer buffer with four pointers: where the variable and its
value begin and end. The first run only looks for something to set, the second one sets it and
writes NULs behind the names and values. Below the code is the machine it amounts to as long as no line end
is escaped in a value, `Mode`: it holds the line that is being read instead of pointers into it.
-/

namespace Imx.Fastboot

abbrev Str := List UInt8

/-! ## The code -/

def isEol (c : UInt8) : Bool := c = 13 ∨ c = 10

def isBlank (c : UInt8) : Bool := c = 32 ∨ c = 9

/-- A call of `setenv`; the variable is unset when there is no value. -/
structure Setenv where
  var : Str
  val : Option Str
deriving DecidableEq, Repr

/-- What is before the first NUL. -/
def cut (s : Str) : Str := s.takeWhile (· ≠ 0)

lemma cut_append {n tail : Str} : cut (n ++ 0 :: tail) = cut n := by
  induction n with
  | nil => rfl
  | cons c n ih =>
    rw [cut, cut, List.cons_append, List.takeWhile_cons, List.takeWhile_cons]
    split
    · exact congrArg (c :: ·) ih
    · rfl

/-- The string at an index of the buffer. -/
def cstr (buff : Str) (p : Nat) : Option Str :=
  if 0 ∈ buff.drop p then some (cut (buff.drop p)) else none

/-- A write into the buffer, which holds the bytes that may be accessed and no others. -/
def putByte (buff : Str) (p : Nat) (c : UInt8) : Option Str :=
  if p < buff.length then some (buff.set p c) else none

/-- The index before this one. -/
def before : Nat → Option Nat
  | 0 => none
  | i + 1 => some i

/-- The buffer, the variables of `parse_env` and the calls that were made. -/
structure Parse where
  buff : Str
  var : Option Nat
  varEnd : Option Nat
  val : Option Nat
  valEnd : Option Nat
  commentStart : Bool
  sets : Nat
  calls : List Setenv

def saveEnv (s : Parse) : Option Parse := do
  let p ← s.var
  let var ← cstr s.buff p
  match s.val with
  | none => some { s with calls := s.calls ++ [⟨var, none⟩] }
  | some q =>
    let val ← cstr s.buff q
    some { s with calls := s.calls ++ [⟨var, some val⟩] }

/-- How one pass of the loop ends. -/
inductive Step where
  | next (s : Parse)
  | internalError (s : Parse)

/-- The variable is unset at the end of its line. -/
def unset (save : Bool) (s : Parse) (i : Nat) : Option Parse := do
  let s ← if save then do
      let buff ← putByte s.buff i 0
      saveEnv { s with buff := buff }
    else some s
  some { s with var := none, varEnd := none, sets := s.sets + 1 }

/-- The second byte of a DOS line end. -/
def dosEnd (buff : Str) (i : Nat) (c : UInt8) : Option Str :=
  if c = 13 then do
    let e ← buff[i + 1]?
    if e = 10 then putByte buff (i + 1) 32 else some buff
  else some buff

/-- The end of a line with a value, which may be escaped. -/
def endValue (s : Parse) (i : Nat) (c : UInt8) : Option Parse := do
  let j ← before i
  let d ← s.buff[j]?
  if d = 92 then
    let buff ← dosEnd s.buff i c
    let buff ← putByte buff i 32
    let buff ← putByte buff j 32
    some { s with buff := buff }
  else some { s with valEnd := some i }

/-- A pair of a variable and a value may be ready. -/
def ready (save : Bool) (s : Parse) : Option Parse :=
  match s.valEnd with
  | none => some s
  | some q => do
    let s ← if save then do
        let p ← s.varEnd
        let buff ← putByte s.buff p 0
        let buff ← putByte buff q 0
        saveEnv { s with buff := buff }
      else some s
    some { s with var := none, varEnd := none, val := none, valEnd := none, sets := s.sets + 1 }

/-- One pass of the loop. -/
def parseStep (save : Bool) (s : Parse) (i : Nat) : Option Step := do
  let c ← s.buff[i]?
  if s.var = none then
    let s := if s.commentStart || c == 35 then { s with commentStart := !isEol c }
      else if isBlank c || isEol c then s else { s with var := some i }
    return .next (← ready save s)
  else if (s.varEnd = none ∨ s.val = none) ∧ isEol c then
    let s ← unset save s i
    return .next (← ready save s)
  else if s.varEnd = none then
    return .next (← ready save (if isBlank c then { s with varEnd := some i } else s))
  else if s.val = none then
    return .next (← ready save (if isBlank c then s else { s with val := some i }))
  else if s.valEnd = none then
    if isEol c then
      let s ← endValue s i c
      return .next (← ready save s)
    else return .next (← ready save s)
  else return .internalError s

/-- The loop with `n` bytes left. -/
def parseLoop (save : Bool) : Nat → Nat → Parse → Option Step
  | 0, _, s => some (.next s)
  | n + 1, i, s => do
    match ← parseStep save s i with
    | .next s => parseLoop save n (i + 1) s
    | .internalError s => some (.internalError s)

/-- The text may end without a line end. -/
def lastLine (save : Bool) (s : Parse) : Option Parse :=
  if s.var ≠ none ∧ s.valEnd = none then do
    let s ← if save then do
        let buff ← match s.varEnd with
          | none => some s.buff
          | some p => putByte s.buff p 0
        saveEnv { s with buff := buff }
      else some s
    some { s with sets := s.sets + 1 }
  else some s

/-- What a run leaves. -/
structure Parsed where
  ret : Nat
  errString : String
  buff : Str
  calls : List Setenv

def parseEnv (save : Bool) (buff : Str) (size : Nat) (errString : String) : Option Parsed := do
  let buff ← if save then putByte buff size 0 else some buff
  match ← parseLoop save size 0 ⟨buff, none, none, none, none, false, 0, []⟩ with
  | .internalError s => some ⟨1, "Internal Error", s.buff, s.calls⟩
  | .next s =>
    let s ← lastLine save s
    if s.sets = 0 then some ⟨1, "No variables set", s.buff, s.calls⟩
    else some ⟨0, errString, s.buff, s.calls⟩

def saveenvToPtn (buff : Str) (size : Nat) : Option Parsed := do
  let dry ← parseEnv false buff size "Unknown Error"
  if dry.ret = 0 then parseEnv true dry.buff size dry.errString else some { dry with ret := 1 }

/-! ## The machine -/

/-- The line that is being read: the name, the first blank behind it and the others, the value with
its last byte. -/
inductive Mode where
  | blank
  | comment
  | name (n : Str)
  | gap (n : Str) (b : UInt8) (bs : Str)
  | value (n : Str) (b : UInt8) (bs v : Str) (c : UInt8)

/-- What was read since the variable began. -/
def Mode.cur : Mode → Str
  | blank | comment => []
  | name n => n
  | gap n b bs => n ++ b :: bs
  | value n b bs v c => n ++ b :: bs ++ v ++ [c]

/-- One more byte of the line. -/
def Mode.feed (d : UInt8) : Mode → Mode
  | blank => if d = 35 then comment else if isBlank d then blank else name [d]
  | comment => comment
  | name n => if isBlank d then gap n d [] else name (n ++ [d])
  | gap n b bs => if isBlank d then gap n b (bs ++ [d]) else value n b bs [] d
  | value n b bs v c => value n b bs (v ++ [c]) d

/-- What is set when the line ends, and what when the text does. -/
def Mode.ended : Mode → List Setenv
  | blank | comment => []
  | name n => [⟨cut n, none⟩]
  | gap n b bs => [⟨cut (n ++ b :: bs), none⟩]
  | value n _ _ v c => [⟨cut n, some (cut (v ++ [c]))⟩]

def Mode.last : Mode → List Setenv
  | blank | comment => []
  | name n | gap n _ _ => [⟨cut n, none⟩]
  | value n _ _ v c => [⟨cut n, some (cut (v ++ [c]))⟩]

/-- A line end would be escaped here. -/
def Mode.Escapes : Mode → Prop
  | value _ _ _ _ c => c = 92
  | _ => False

/-- The lines of a text that end. -/
def Mode.made : Mode → Str → List Setenv
  | _, [] => []
  | m, c :: text => if isEol c then m.ended ++ blank.made text else (m.feed c).made text

/-- The line a text ends in. -/
def Mode.after : Mode → Str → Mode
  | m, [] => m
  | m, c :: text => if isEol c then blank.after text else (m.feed c).after text

/-- No line end is escaped in a value. -/
def Mode.Calm : Mode → Str → Prop
  | _, [] => True
  | m, c :: text => if isEol c then ¬ m.Escapes ∧ blank.Calm text else (m.feed c).Calm text

/-- The pointers into a buffer where the variable begins at `p`. -/
def Mode.view (buff : Str) (sets : Nat) (calls : List Setenv) (p : Nat) : Mode → Parse
  | blank => ⟨buff, none, none, none, none, false, sets, calls⟩
  | comment => ⟨buff, none, none, none, none, true, sets, calls⟩
  | name _ => ⟨buff, some p, none, none, none, false, sets, calls⟩
  | gap n _ _ => ⟨buff, some p, some (p + n.length), none, none, false, sets, calls⟩
  | value n _ bs _ _ => ⟨buff, some p, some (p + n.length), some (p + n.length + (bs.length + 1)),
      none, false, sets, calls⟩

end Imx.Fastboot
