import Mathlib.Tactic.Common

/-!
# Macros of the simple shell

Model of `cli_simple_process_macros` of `common/cli_simple.c`. A `char` is a `Char`, a C string the
list of what stands before its NUL, `n` is `CONFIG_SYS_CBSIZE` and `getenv` the environment. The
variables of the function are a record `Macros`; its `output` is what has been written, so that
`outputcnt` is what is left of `n`. The result is `none` where `envname` or the input is overrun.

C → Lean naming: `state` 0, 1, 2, 3 → `dollar`, `opening`, `closing`, `quote`, where `closing` holds
the characters since `varname_start`.
-/

namespace Imx.Cli

/-- A C string. -/
abbrev Str := List Char

/-- What the loop waits for. -/
inductive State
  | dollar
  | opening
  | closing (varname : Str)
  | quote
  deriving DecidableEq, Repr

structure Macros where
  state : State
  prev : Char
  output : Str
  deriving DecidableEq, Repr

variable (getenv : Str → Option Str) (n : Nat)

/-- Write a text while there is room. -/
def put (n : Nat) (output text : Str) : Str := output ++ text.take (n - output.length)

/-- The turn of the loop for a character `c`, where `raw` is what the input was moved over. -/
def turn (m : Macros) (raw : Str) (c : Char) : Option Macros :=
  match m.state with
  | .dollar =>
    if c = '\'' ∧ m.prev ≠ '\\' then
      some { m with state := .quote, prev := c }
    else if c = '$' ∧ m.prev ≠ '\\' then
      some { m with state := .opening, prev := c }
    else
      some { m with prev := c, output := m.output ++ [c] }
  | .opening =>
    if c = '(' ∨ c = '{' then
      some { m with state := .closing [], prev := c }
    else
      some { state := .dollar, prev := c, output := put n (m.output ++ ['$']) [c] }
  | .closing varname =>
    if c = ')' ∨ c = '}' then
      let envname := (varname ++ raw).dropLast
      if n ≤ envname.length then
        none
      else
        some { state := .dollar, prev := c, output := put n m.output ((getenv envname).getD []) }
    else
      some { m with state := .closing (varname ++ raw), prev := c }
  | .quote =>
    if c = '\'' ∧ m.prev ≠ '\\' then
      some { m with state := .dollar, prev := c }
    else
      some { m with prev := c, output := m.output ++ [c] }

/-- `while (inputcnt && outputcnt)`. -/
def loop (inputcnt : BitVec 32) (m : Macros) : Str → Option Macros
  | [] => if inputcnt = 0 ∨ n ≤ m.output.length then some m else none
  | c :: input =>
    if inputcnt = 0 ∨ n ≤ m.output.length then
      some m
    else if m.state ≠ .quote ∧ c = '\\' ∧ m.prev ≠ '\\' then
      -- remove one level of escape characters
      if inputcnt - 1 = 0 then
        some m
      else
        match input with
        | [] => none
        | d :: input =>
          (turn getenv n { m with prev := c } [c, d] d).bind fun m => loop (inputcnt - 2) m input
    else
      (turn getenv n m [c] c).bind fun m => loop (inputcnt - 1) m input

/-- The NUL behind the text, or in place of its last character if there is no room. -/
def terminate (output : Str) : Str :=
  if output.length < n then output ++ ['\x00'] else output.dropLast ++ ['\x00']

/-- The bytes of `output`, up to the NUL that is written last. -/
def cliSimpleProcessMacros (input : Str) : Option Str :=
  (loop getenv n (BitVec.ofNat 32 input.length) ⟨.dollar, '\x00', []⟩ input).map fun m =>
    terminate n m.output

end Imx.Cli
