import Imx.Base.Mem
import Imx.HashTable.Defs

/-!
# Importing into the table

`himport_r` copies the text, appends a NUL and parses the copy in place: names and values are cut
out of it by storing NUL bytes, and a value with escapes moves down over them. The copy is a list
of bytes, so that an access outside of it gives `none`; `none` also stands for a loop that would
not end.
-/

namespace Imx.HashTable
open Imx.Base

/-- Keep the existing table. -/
def hNoclear : Nat := 1

/-- The fewest entries a new table is made for (C `CONFIG_ENV_MIN_ENTRIES`). -/
def envMinEntries : Nat := 64
/-- The most entries a new table is made for (C `CONFIG_ENV_MAX_ENTRIES`). -/
def envMaxEntries : Nat := 512

/-- The number of entries a new table is made for. -/
def importEntries (size : Nat) : Nat :=
  if envMaxEntries < envMinEntries + size / 8 then envMaxEntries else envMinEntries + size / 8

/-- Is `name` among the variables, and the list without it (C `drop_var_from_set`); no list means
all of them. -/
def dropVarFromSet (name : CStr) (vars : List (Option CStr)) : Bool × List (Option CStr) :=
  if vars.isEmpty then (true, vars)
  else (vars.contains (some name), vars.map fun v => if v = some name then none else v)

/-- A space or a tab (C `isblank`). -/
def isblank (c : UInt8) : Bool := c == 32 || c == 9

/-- Go on from `dp` while `p` holds: `for (; p(*dp); ++dp)`. -/
def scan (p : UInt8 → Bool) (data : List UInt8) (dp : Nat) : Option Nat :=
  ((data.drop dp).findIdx? fun c => !p c).map fun (n : Nat) => dp + n

/-- `*dp = c`. -/
def store (data : List UInt8) (dp : Nat) (c : UInt8) : Option (List UInt8) :=
  if dp < data.length then some (data.set dp c) else none

/-- The string at `p`. -/
def cstrAt (data : List UInt8) (p : Nat) : CStr :=
  (data.drop p).takeWhile (· != 0)

/-- The loop over a value, at most `fuel` turns: a backslash is dropped and the byte after it
taken as it is. -/
def valueLoop (sep : UInt8) : Nat → List UInt8 → Nat → Nat → Option (List UInt8 × Nat × Nat)
  | 0, _, _, _ => none
  | fuel + 1, data, sp, dp =>
    match data[dp]? with
    | none => none
    | some c =>
      if c = 0 ∨ c = sep then some (data, sp, dp)
      else if c = 92 then
        match data[dp + 1]? with
        | none => none
        | some d =>
          if d ≠ 0 then valueLoop sep fuel (data.set sp d) (sp + 1) (dp + 2)
          else valueLoop sep fuel (data.set sp c) (sp + 1) (dp + 1)
      else valueLoop sep fuel (data.set sp c) (sp + 1) (dp + 1)

/-- What the parser works on. -/
structure Parser where
  t : Htab
  data : List UInt8
  dp : Nat
  vars : List (Option CStr)

section Parse

variable (hk : Hooks) (sep : UInt8) (flag : Nat)

/-- A line `name` or `name=`: delete the variable. -/
def importDelete (st : Parser) (name dp : Nat) (c : UInt8) : Option Parser :=
  let (data, dp) := if c = 61 then (st.data.set dp 0, dp + 1) else (st.data, dp)
  match store data dp 0 with
  | none => none
  | some data =>
    let (listed, vars) := dropVarFromSet (cstrAt data name) st.vars
    if listed then
      (hdeleteR hk st.t (cstrAt data name) flag).map fun (r : Htab × Bool) =>
        { t := r.1, data, dp := dp + 1, vars }
    else some { st with data, dp := dp + 1, vars }

/-- A line `name=value`, with `dp` at the `=`: enter the variable. The inner `none` is the failure
on an empty name. -/
def importEnter (st : Parser) (name dp : Nat) : Option (Option Parser) :=
  match valueLoop sep (st.data.length + 1) (st.data.set dp 0) (dp + 1) (dp + 1) with
  | none => none
  | some (data, sp, dp') =>
    match store data sp 0 with
    | none => none
    | some data =>
      let key := cstrAt data name
      if key = [] then some none
      else
        let (listed, vars) := dropVarFromSet key st.vars
        if listed then
          let item : Item := { key, data := some (cstrAt data (dp + 1)) }
          (hsearchR hk st.t item .enter flag).map fun (r : Htab × Res) =>
            some { t := r.1, data, dp := dp' + 1, vars }
        else some (some { st with data, dp := dp' + 1, vars })

/-- One turn of the parse loop. -/
def importLine (st : Parser) : Option (Option Parser) := do
  let dp ← scan isblank st.data st.dp
  let c ← st.data[dp]?
  if c = 35 then
    let dp ← scan (fun c => c != 0 && c != sep) st.data dp
    some (some { st with dp := dp + 1 })
  else
    let name := dp
    let dp ← scan (fun c => c != 61 && c != 0 && c != sep) st.data dp
    let c ← st.data[dp]?
    if c = 0 then (importDelete hk flag st name dp c).map some
    else
      let d ← st.data[dp + 1]?
      if d = 0 ∨ c = sep ∨ d = sep then (importDelete hk flag st name dp c).map some
      else importEnter hk sep flag st name dp

/-- The parse loop, at most `fuel` turns; the Boolean tells whether the text was parsed to its
end. -/
def importLoop (size : Nat) : Nat → Parser → Option (Parser × Bool)
  | 0, _ => none
  | fuel + 1, st =>
    match importLine hk sep flag st with
    | none => none
    | some none => some (st, false)
    | some (some st) =>
      if st.dp < size ∧ st.data[st.dp]? ≠ some 0 then importLoop size fuel st
      else some (st, true)

/-- The listed variables that were not in the text are deleted. -/
def dropRest (t : Htab) : List (Option CStr) → Option Htab
  | [] => some t
  | none :: vars => dropRest t vars
  | some v :: vars => (hdeleteR hk t v flag).bind fun (r : Htab × Bool) => dropRest r.1 vars

end Parse

/-- Remove the carriage returns in front of line feeds, at most `fuel` turns; gives the copy and
how many were removed. -/
def crlfLoop (size : Nat) : Nat → List UInt8 → Nat → Nat → List UInt8 × Nat
  | 0, data, _, ignored => (data, ignored)
  | fuel + 1, data, dp, ignored =>
    match data[dp]? with
    | none => (data, ignored)
    | some c =>
      if dp < size ∧ c ≠ 0 then
        if c = 13 ∧ dp + 1 < size ∧ data[dp + 1]? = some 10 then
          crlfLoop size fuel data (dp + 1) (ignored + 1)
        else crlfLoop size fuel (data.set (dp - ignored) c) (dp + 1) ignored
      else (data, ignored)

/-- Import a text of `size` bytes at `env` (C `himport_r`, when memory is found): the table, if
there is one, and whether 1 is returned. -/
def himportR (hk : Hooks) (htab : Option Htab) (env : Mem) (size : Nat) (sep : UInt8) (flag : Nat)
    (crlfIsLf : Bool) (vars : List CStr) : Option (Htab × Bool) := do
  let data := env.read 0 size ++ [0]
  let htab := if flag &&& hNoclear = 0 then none else htab
  let t ← match htab with
    | some t => some t
    | none => hcreateR (importEntries size)
  if size = 0 then some (t, true)
  else
    let (data, ignored) := if crlfIsLf then crlfLoop size size data 0 0 else (data, 0)
    let st : Parser := { t, data, dp := 0, vars := vars.map some }
    let (st, ok) ← importLoop hk sep flag (size - ignored) (size + 1) st
    if ok then
      let t ← dropRest hk flag st.t st.vars
      some (t, true)
    else some (st.t, false)

end Imx.HashTable
