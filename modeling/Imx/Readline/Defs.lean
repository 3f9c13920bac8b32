import Imx.Base.Mem

/-!
# Reading a command line

Model of `common/cli_readline.c` without what it prints: `cread_line` with its history and its
escape sequences, and the simple loop `cli_readline_into_buffer` uses before relocation. The buffer
is the memory from `buf` on; `top` is one more than the highest index stored at so far. Keys are
bytes; TAB, which calls the completion code, is left out. Waiting for a key and its timeouts are not
modelled.
-/

namespace Imx.Readline
open Imx.Base

/-- The bytes of a C string, the terminating NUL left out. -/
abbrev CStr := List UInt8

/-! ## History -/

/-- The number of lines kept (C `HIST_MAX`). -/
def histMax : Nat := 20

/-- The history; no current line is -1. -/
structure Hist where
  max : Nat
  addIdx : Nat
  cur : Option Nat
  lines : Nat → CStr

/-- An empty history (C `hist_init`). -/
def Hist.init : Hist where
  max := 0
  addIdx := 0
  cur := none
  lines _ := []

/-- Add a line (C `cread_add_to_hist`). -/
def Hist.add (h : Hist) (line : CStr) : Hist :=
  let addIdx := if h.addIdx + 1 ≥ histMax then 0 else h.addIdx + 1
  { h with
    lines := Function.update h.lines h.addIdx line
    addIdx
    max := if addIdx > h.max then addIdx else h.max }

/-- The line before the current one (C `hist_prev`). -/
def Hist.prev (h : Hist) : Hist × Option CStr :=
  match h.cur with
  | none => (h, none)
  | some old =>
    let cur := if old = 0 then h.max else old - 1
    if cur = h.addIdx then (h, none) else ({ h with cur := some cur }, some (h.lines cur))

/-- The line after the current one (C `hist_next`). -/
def Hist.next (h : Hist) : Hist × Option CStr :=
  match h.cur with
  | none => (h, none)
  | some old =>
    if old = h.addIdx then (h, none)
    else
      let cur := if old + 1 > h.max then 0 else old + 1
      ({ h with cur := some cur }, some (if cur = h.addIdx then [] else h.lines cur))

/-! ## The editor -/

/-- The variables of `cread_line`; `escSave` are the bytes of an escape sequence seen so far. -/
structure Line where
  buf : Mem
  num : Nat
  eolNum : Nat
  insert : Bool
  escSave : List UInt8
  hist : Hist
  top : Nat

/-- Store some bytes. -/
def Line.store (s : Line) (i : Nat) (bs : List UInt8) : Line :=
  { s with
    buf := s.buf.write i bs
    top := if bs = [] then s.top else max s.top (i + bs.length) }

/-- Insert a byte at the cursor or put it over the one there (C `cread_add_char`). -/
def Line.addChar (len : Nat) (s : Line) (ichar : UInt8) (insert : Bool) : Line :=
  if (insert ∨ s.num = s.eolNum) ∧ s.eolNum > len - 1 then s
  else
    let eolNum := if insert ∨ s.num = s.eolNum then s.eolNum + 1 else s.eolNum
    let wlen := eolNum - s.num
    let moved :=
      if insert ∧ wlen > 1 then s.store (s.num + 1) (s.buf.read s.num (wlen - 1)) else s
    { moved.store s.num [ichar] with num := s.num + 1, eolNum }

/-- Add some bytes one after the other (C `cread_add_str`). -/
def Line.addStr (len : Nat) (s : Line) (str : List UInt8) (insert : Bool) : Line :=
  str.foldl (fun s ichar => s.addChar len ichar insert) s

/-- C `BEGINNING_OF_LINE`. -/
def Line.beginningOfLine (s : Line) : Line := { s with num := 0 }

/-- C `ERASE_TO_EOL`. -/
def Line.eraseToEol (s : Line) : Line :=
  if s.num < s.eolNum then { s with eolNum := s.num } else s

/-- C `REFRESH_TO_EOL`. -/
def Line.refreshToEol (s : Line) : Line :=
  if s.num < s.eolNum then { s with num := s.eolNum } else s

/-- Replace the line by one of the history, if there is one. -/
def Line.recall (s : Line) (r : Hist × Option CStr) : Line :=
  match r.2 with
  | none => { s with hist := r.1 }
  | some hline =>
    let s := { s with hist := r.1 }.beginningOfLine.eraseToEol
    let s := s.store 0 (hline ++ [0])
    { s with eolNum := hline.length }.refreshToEol

/-- What a byte does outside of an escape sequence (the `switch` of `cread_line`). -/
def Line.dispatch (len : Nat) (s : Line) (ichar : UInt8) : Line :=
  if ichar = 0x1b then { s with escSave := [ichar] }
  else if ichar = 1 then s.beginningOfLine
  else if ichar = 6 then if s.num < s.eolNum then { s with num := s.num + 1 } else s
  else if ichar = 2 then if s.num ≠ 0 then { s with num := s.num - 1 } else s
  else if ichar = 4 then
    if s.num < s.eolNum then
      let wlen := s.eolNum - s.num - 1
      let moved := if wlen ≠ 0 then s.store s.num (s.buf.read (s.num + 1) wlen) else s
      { moved with eolNum := s.eolNum - 1 }
    else s
  else if ichar = 11 then s.eraseToEol
  else if ichar = 5 then s.refreshToEol
  else if ichar = 15 then { s with insert := !s.insert }
  else if ichar = 24 ∨ ichar = 21 then s.beginningOfLine.eraseToEol
  else if ichar = 255 ∨ ichar = 127 ∨ ichar = 8 then
    if s.num ≠ 0 then
      let wlen := s.eolNum - s.num
      let num := s.num - 1
      { s.store num (s.buf.read (num + 1) wlen) with num, eolNum := s.eolNum - 1 }
    else s
  else if ichar = 16 then s.recall s.hist.prev
  else if ichar = 14 then s.recall s.hist.next
  else s.addChar len ichar s.insert

/-- The control byte an escape sequence stands for by its last byte. -/
def escKey (ichar : UInt8) : Option UInt8 :=
  if ichar = 68 then some 2
  else if ichar = 67 then some 6
  else if ichar = 72 then some 1
  else if ichar = 65 then some 16
  else if ichar = 66 then some 14
  else none

/-- What a byte does that does not end the line. -/
def Line.key (len : Nat) (s : Line) (ichar : UInt8) : Line :=
  match s.escSave with
  | [] => s.dispatch len ichar
  | [_] =>
    if ichar = 91 then { s with escSave := s.escSave ++ [ichar] }
    else { s.addStr len s.escSave s.insert with escSave := [] }
  | _ =>
    match escKey ichar with
    | some key => { s with escSave := [] }.dispatch len key
    | none => { s.addStr len (s.escSave ++ [ichar]) s.insert with escSave := [] }

/-- The loop that puts the bytes already in the buffer back one by one, `n` of them from `i` on. -/
def Line.initLoop (len : Nat) : Nat → Nat → Line → Line
  | 0, _, s => s
  | n + 1, i, s => initLoop len n (i + 1) (s.addChar len (s.buf i) true)

/-- The state when `cread_line` begins to wait for keys, for a buffer that holds a string of
`initLen` bytes. -/
def Line.start (len : Nat) (buf : Mem) (initLen : Nat) (hist : Hist) : Line :=
  Line.initLoop len initLen 0
    { buf, num := 0, eolNum := 0, insert := true, escSave := [], hist, top := 0 }

/-- The end of the line: it is terminated and goes to the history, unless it is empty or begins with
a `!`. -/
def Line.finish (s : Line) : Line :=
  let s := s.store s.eolNum [0]
  let line := (s.buf.read 0 s.eolNum).takeWhile (· != 0)
  let hist := if line ≠ [] ∧ line.head? ≠ some 33 then s.hist.add line else s.hist
  { s with hist := { hist with cur := some hist.addIdx } }

/-- `cread_line` on some keys and a last one: what it holds and what it returned, if it did. -/
def creadLine (len : Nat) : Line → List UInt8 → Line × Option Int
  | s, [] => (s, none)
  | s, ichar :: keys =>
    if ichar = 10 ∨ ichar = 13 then (s.finish, some s.eolNum)
    else if ichar = 3 ∧ s.escSave = [] then (s.store 0 [0], some (-1))
    else creadLine len (s.key len ichar) keys

/-! ## Before relocation -/

/-- The variables of the simple loop; the pointer is at index `n` of the buffer. -/
structure Simple where
  buf : Mem
  n : Nat
  top : Nat

/-- Store a byte at the pointer. -/
def Simple.store (s : Simple) (i : Nat) (c : UInt8) : Simple :=
  { s with buf := s.buf.write i [c], top := max s.top (i + 1) }

/-- C `delete_char`. -/
def Simple.deleteChar (s : Simple) : Simple := { s with n := s.n - 1 }

/-- The loop that deletes a word, at most `fuel` bytes of it. -/
def Simple.wordLoop : Nat → Simple → Simple
  | 0, s => s
  | fuel + 1, s => if 0 < s.n ∧ s.buf s.n ≠ 32 then wordLoop fuel s.deleteChar else s

/-- The simple loop of `cli_readline_into_buffer` on some keys. -/
def simpleLoop (cbsize : Nat) : Simple → List UInt8 → Simple × Option Int
  | s, [] => (s, none)
  | s, c :: keys =>
    if c = 10 ∨ c = 13 then (s.store s.n 0, some s.n)
    else if c = 0 then simpleLoop cbsize s keys
    else if c = 3 then (s.store 0 0, some (-1))
    else if c = 0x15 then simpleLoop cbsize { s with n := 0 } keys
    else if c = 0x17 then simpleLoop cbsize (s.deleteChar.wordLoop s.n) keys
    else if c = 8 ∨ c = 0x7f then simpleLoop cbsize s.deleteChar keys
    else if s.n + 2 < cbsize then simpleLoop cbsize { s.store s.n c with n := s.n + 1 } keys
    else simpleLoop cbsize s keys

/-- What `cli_readline_into_buffer` leaves: one more than the highest index stored at, and the value
it returned, if it did (C `cli_readline_into_buffer`). -/
def cliReadlineIntoBuffer (cbsize : Nat) (reloc : Bool) (buf : Mem) (initLen : Nat) (hist : Hist)
    (keys : List UInt8) : Nat × Option Int :=
  if reloc then
    let (s, rc) := creadLine cbsize (Line.start cbsize buf initLen hist) keys
    (s.top, rc)
  else
    let (s, rc) := simpleLoop cbsize { buf, n := 0, top := 0 } keys
    (s.top, rc)

end Imx.Readline
