import Mathlib.Data.List.Basic
import Mathlib.Tactic.Common

/-!
# The hwconfig interface

Model of `common/hwconfig.c`. A string is the list of its characters, the terminating NUL left out,
and a pointer into a string is the text from there on. The names are found by a substring search
that goes on behind each occurrence that is no name; nothing bounds that loop, and it is run with a
count of its turns. The board and the CPU have no configuration of their own (the weak
definitions).
-/

namespace Imx.Hwconfig

/-- The characters of a C string, the terminating NUL left out. -/
abbrev Str := List Char

/-- The first place of a string in another one (C `strstr`): the text in front of it and the text
from there on. -/
def strstr (needle : Str) : Str → Option (Str × Str)
  | [] => if needle = [] then some ([], []) else none
  | c :: s =>
    if needle.isPrefixOf (c :: s) then some ([], c :: s)
    else (strstr needle s).map fun (skipped, str) => (c :: skipped, str)

/-- The text in front of the first character of a set (C `strpbrk`). -/
def strpbrk (stopchs : Str) (s : Str) : Option Str :=
  if s.any (· ∈ stopchs) then some (s.takeWhile (· ∉ stopchs)) else none

/-- The characters around the names of a string. -/
structure Syntax where
  stopchs : Str
  eqch : Char
deriving DecidableEq, Repr

/-- The test of an occurrence: it stands at `opts` or behind a stop character, and a stop character,
the character before an argument or the end of the string follows. -/
def accepts (sy : Syntax) (skipped end' : Str) : Bool :=
  (skipped = [] || skipped.getLast?.any (· ∈ sy.stopchs)) &&
    match end' with
    | [] => true
    | c :: _ => c ∈ sy.stopchs || c = sy.eqch

/-- The pointer that is returned, and the length of the argument if one is asked for. -/
def matched (sy : Syntax) (maxlen : Nat) (opt str : Str) (arglen : Bool) : Option (Str × Nat) :=
  if !arglen then some (str, 0)
  else
    match str.drop opt.length with
    | [] => none
    | c :: arg =>
      if c ≠ sy.eqch then none
      else
        match strpbrk sy.stopchs str with
        | none => some (arg, min maxlen str.length - opt.length - 1)
        | some front => some (arg, front.length - opt.length - 1)

/-- Look for an option from a place on that is `off` characters behind the start (C
`hwconfig_parse`). -/
def hwconfigParse (sy : Syntax) (maxlen : Nat) (opt : Str) (arglen : Bool) :
    Nat → Nat → Str → Option (Option (Str × Nat))
  | 0, _, _ => none
  | fuel + 1, off, opts =>
    match strstr opt opts with
    | none => some none
    | some (skipped, str) =>
      let end' := str.drop opt.length
      if off + skipped.length + opt.length > maxlen then some none
      else if accepts sy skipped end' then some (matched sy maxlen opt str arglen)
      else hwconfigParse sy maxlen opt arglen fuel (off + skipped.length + opt.length) end'

/-- The options of a configuration. -/
def options : Syntax := ⟨[';'], ':'⟩

/-- The sub-options of an argument. -/
def suboptions : Syntax := ⟨[',', ';'], '='⟩

/-- The environment: whether it can be read, and the variable `hwconfig`. -/
structure Env where
  ready : Bool
  hwconfig : Option Str
deriving DecidableEq, Repr

/-- C `board_hwconfig`. -/
def boardHwconfig : Str := []

/-- C `cpu_hwconfig`. -/
def cpuHwconfig : Str := []

/-- Look for an option in the whole of a string. -/
def lookIn (s opt : Str) (arglen : Bool) (fuel : Nat) : Option (Option (Str × Nat)) :=
  hwconfigParse options s.length opt arglen fuel 0 s

/-- Look for an option in a buffer or the environment, then in what the board and the CPU say (C
`__hwconfig`). -/
def hwconfig (env : Env) (opt : Str) (arglen : Bool) (buf : Option Str) (fuel : Nat) :
    Option (Option (Str × Nat)) :=
  if buf = none ∧ !env.ready then some none
  else do
    let ret ← match buf.or env.hwconfig with
      | some s => lookIn s opt arglen fuel
      | none => some none
    if ret.isSome then some ret
    else do
      let ret ← lookIn boardHwconfig opt arglen fuel
      if ret.isSome then some ret else lookIn cpuHwconfig opt arglen fuel

/-- Is an option specified (C `hwconfig_f`). -/
def hwconfigF (env : Env) (opt : Str) (buf : Option Str) (fuel : Nat) : Option Bool :=
  (hwconfig env opt false buf fuel).map Option.isSome

/-- The argument of an option (C `hwconfig_arg_f`). -/
def hwconfigArgF (env : Env) (opt : Str) (buf : Option Str) (fuel : Nat) :
    Option (Option (Str × Nat)) :=
  hwconfig env opt true buf fuel

/-- Is a sub-option specified (C `hwconfig_sub_f`). -/
def hwconfigSubF (env : Env) (opt subopt : Str) (buf : Option Str) (fuel : Nat) : Option Bool := do
  match ← hwconfig env opt true buf fuel with
  | none => some false
  | some (arg, arglen) =>
    (hwconfigParse suboptions arglen subopt false fuel 0 arg).map Option.isSome

/-- The argument of a sub-option (C `hwconfig_subarg_f`). -/
def hwconfigSubargF (env : Env) (opt subopt : Str) (buf : Option Str) (fuel : Nat) :
    Option (Option (Str × Nat)) := do
  match ← hwconfig env opt true buf fuel with
  | none => some none
  | some (arg, arglen) => hwconfigParse suboptions arglen subopt true fuel 0 arg

end Imx.Hwconfig
