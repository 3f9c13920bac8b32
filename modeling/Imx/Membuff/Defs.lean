import Imx.Base.Mem

/-!
# Memory buffers

Model of `lib/membuff.c`: a circular byte buffer between the pointers `start` and `end`, filled at
`head` and drained at `tail`. Pointers are offsets from `start`, so that `start` itself is `0` and
`end` is `size`; a `NULL` start is the flag `null`. One slot is always left empty, so that
`head = tail` means that nothing is held.

C → Lean naming (drop the `membuff_` prefix): `membuff_putrawflex`/`membuff_putraw` → `putraw`;
`membuff_putbyte` → `putbyte`; `membuff_getraw` → `getraw`; `membuff_getbyte`/`membuff_peekbyte` →
`getbyte`/`peekbyte`; `membuff_get`/`membuff_put` → `get`/`put`; `membuff_makecontig` →
`makecontig`; `membuff_readline` → `readline`; `membuff_extend_by` → `extendBy`.
-/

namespace Imx
open Imx.Base

/-- The control block of a buffer together with the bytes it points to (C `struct membuff`). -/
structure Membuff where
  mem : Mem
  null : Bool
  size : Nat
  head : Nat
  tail : Nat

namespace Membuff

/-- Forget everything held (C `membuff_purge`). -/
def purge (mb : Membuff) : Membuff :=
  { mb with head := 0, tail := 0 }

/-- A fresh buffer over `size` bytes of memory (C `membuff_init`). -/
def init (mem : Mem) (size : Nat) : Membuff :=
  purge { mem, null := false, size, head := 0, tail := 0 }

/-- `len` cut down to `maxlen`; a negative `maxlen` is no limit. -/
def clamp (len : Nat) (maxlen : Int) : Nat :=
  if 0 ≤ maxlen ∧ maxlen < len then maxlen.toNat else len

/-- Where and how much can be written in one piece: the offset of the piece, its length and the
buffer with the piece marked as written (C `membuff_putrawflex`, `membuff_putraw`). -/
def putraw (mb : Membuff) (maxlen : Int) (update : Bool) : Nat × Nat × Membuff :=
  if mb.null then
    (mb.head, 0, mb)
  else if mb.tail ≤ mb.head then
    let len := clamp (mb.size - mb.head - 1) maxlen
    let mb' := if update then { mb with head := mb.head + len } else mb
    -- when the tail is not at the start, the very last slot can be used too
    if (maxlen < 0 ∨ len < maxlen) ∧ mb.tail ≠ 0 then
      (mb.head, len + 1, if update then { mb' with head := 0 } else mb')
    else
      (mb.head, len, mb')
  else
    let len := clamp (mb.tail - mb.head - 1) maxlen
    (mb.head, len, if update then { mb with head := mb.head + len } else mb)

/-- Append one byte (C `membuff_putbyte`). -/
def putbyte (mb : Membuff) (ch : Int) : Bool × Membuff :=
  let (off, len, mb) := mb.putraw 1 true
  if len ≠ 1 then
    (false, mb)
  else
    (true, { mb with mem := mb.mem.write off [UInt8.ofInt ch] })

/-- Where and how much can be read in one piece: the offset of the piece, its length and the
buffer with the piece marked as read (C `membuff_getraw`). -/
def getraw (mb : Membuff) (maxlen : Int) (update : Bool) : Nat × Nat × Membuff :=
  if mb.tail < mb.head then
    let len := clamp (mb.head - mb.tail) maxlen
    (mb.tail, len, if update then { mb with tail := mb.tail + len } else mb)
  else if mb.head < mb.tail then
    let len := clamp (mb.size - mb.tail) maxlen
    let tail := mb.tail + len
    (mb.tail, len, if update then { mb with tail := if tail = mb.size then 0 else tail } else mb)
  else
    (0, 0, mb)

/-- Remove one byte; `-1` when nothing is held (C `membuff_getbyte`). -/
def getbyte (mb : Membuff) : Int × Membuff :=
  let (off, len, mb') := mb.getraw 1 true
  (if len ≠ 1 then -1 else (mb.mem off).toNat, mb')

/-- Look at the next byte; `-1` when nothing is held (C `membuff_peekbyte`). -/
def peekbyte (mb : Membuff) : Int :=
  let (off, len, _) := mb.getraw 1 false
  if len ≠ 1 then -1 else (mb.mem off).toNat

/-- The loop of `get`: at most `n` more pieces, none after an empty one. -/
def getLoop (mb : Membuff) (maxlen : Int) : Nat → List UInt8 × Membuff
  | 0 => ([], mb)
  | n + 1 =>
    let (off, len, mb') := mb.getraw maxlen true
    let bytes := mb.mem.read off len
    if len = 0 then
      (bytes, mb')
    else
      let (rest, mb'') := mb'.getLoop (maxlen - len) n
      (bytes ++ rest, mb'')

/-- Remove up to `maxlen` bytes (C `membuff_get`). -/
def get (mb : Membuff) (maxlen : Int) : List UInt8 × Membuff :=
  mb.getLoop maxlen 2

/-- The loop of `put`: `n` more pieces, `written` bytes stored so far. -/
def putLoop (mb : Membuff) (buff : List UInt8) (written : Nat) : Nat → Nat × Membuff
  | 0 => (written, mb)
  | n + 1 =>
    let (off, towrite, mb') := mb.putraw buff.length true
    let mb' := { mb' with mem := mb'.mem.write off (buff.take towrite) }
    mb'.putLoop (buff.drop towrite) (written + towrite) n

/-- Append as many of the bytes as fit and return how many did (C `membuff_put`). -/
def put (mb : Membuff) (buff : List UInt8) : Nat × Membuff :=
  mb.putLoop buff 0 2

/-- How many bytes are held, by reading a copy of the control block twice (C `membuff_avail`). -/
def avail (mb : Membuff) : Nat :=
  let (_, n1, mb1) := mb.getraw (-1) true
  let (_, n2, _) := mb1.getraw (-1) true
  n1 + n2

/-- How many bytes can still be put (C `membuff_free`). -/
def free (mb : Membuff) : Nat :=
  if mb.size = 0 then 0 else mb.size - 1 - mb.avail

/-- Move what is held to the start of the buffer, if there is room to do it
(C `membuff_makecontig`). -/
def makecontig (mb : Membuff) : Bool × Membuff :=
  if mb.head < mb.tail then
    let topsize := mb.size - mb.tail
    let botsize := mb.head
    if mb.tail ≤ mb.head + topsize then
      (false, mb)
    else
      let mem := mb.mem.memmove topsize 0 botsize
      let mem := mem.memcpy 0 mb.tail topsize
      (true, { mb with mem, tail := 0, head := topsize + botsize })
  else
    let topsize := mb.head - mb.tail
    (true, { mb with mem := mb.mem.memcpy 0 mb.tail topsize, tail := 0, head := topsize })

/-- The scanning loop of `readline`: `n` is what is left of `maxlen - 1 - len`, `s` and `stop` the
read position and its bound, `str` the bytes copied so far. A byte that ends the line stops the
loop with the position after it. -/
def readlineLoop (mb : Membuff) (minch : Int) (s stop : Nat) (str : List UInt8) :
    Nat → Option (List UInt8 × Nat)
  | 0 => none
  | n + 1 =>
    if s < stop then
      let c := mb.mem s
      if c = 10 ∨ c.toNat < minch then
        some (str, s + 1)
      else if s + 1 = stop ∧ mb.head < mb.tail then
        mb.readlineLoop minch 0 mb.head (str ++ [c]) n
      else
        mb.readlineLoop minch (s + 1) stop (str ++ [c]) n
    else
      none

/-- Remove one line: the number of bytes removed, the string left in the caller's buffer (its
terminating byte replaced by NUL) and the buffer; `0` when there is no whole line of less than
`maxlen` bytes (C `membuff_readline`). -/
def readline (mb : Membuff) (maxlen minch : Int) : Nat × List UInt8 × Membuff :=
  let stop := if mb.tail ≤ mb.head then mb.head else mb.size
  match mb.readlineLoop minch mb.tail stop [] (maxlen - 1).toNat with
  | none => (0, [], mb)
  | some (str, s) => (str.length + 1, str, { mb with tail := if s = mb.size then 0 else s })

/-- The doubling loop of `extendBy`, `fuel` bounding its rounds; `none` when the doubled size
leaves the range of `int`. -/
def doubleUntil (goal : Nat) : Nat → Nat → Option Nat
  | 0, size => some size
  | fuel + 1, size =>
    if size < goal then
      if 2 * size < 2 ^ 31 then doubleUntil goal fuel (2 * size) else none
    else
      some size

/-- The size that doubling reaches when the buffer is asked to grow; every round adds at least one
byte, so that `grow` rounds are enough. -/
def grownSize (mb : Membuff) (grow : Nat) : Option Nat :=
  doubleUntil (mb.size + grow) grow mb.size

/-- How `extendBy` ends. -/
inductive ExtendRes where
  | ok
  | e2big
  | enomem
  deriving DecidableEq, Repr

/-- Take over a larger allocation, moving the part between `tail` and the old end to the new end. -/
def enlarge (mb : Membuff) (size : Nat) (junk : Mem) : Membuff :=
  let mem := mb.mem.realloc junk mb.size
  if mb.head < mb.tail then
    let tail := mb.tail + (size - mb.size)
    { mb with mem := mem.memmove tail mb.tail (mb.size - mb.tail), size, tail }
  else
    { mb with mem, size }

/-- Make the buffer larger by at least `grow` bytes, up to `max` (`-1` is no bound). `realloc` is
what the allocator answers: failure, or the bytes that follow the old contents in the new
allocation. `none` is the overflow of the doubling loop (C `membuff_extend_by`). -/
def extendBy (mb : Membuff) (grow : Nat) (max : Int) (realloc : Option Mem) :
    Option (ExtendRes × Membuff) :=
  (mb.grownSize grow).map fun (grown : Nat) =>
    let size : Int := if max ≠ -1 then min grown max else grown
    if size - mb.size ≤ 0 then
      (.e2big, mb)
    else
      match realloc with
      | none => (.enomem, mb)
      | some junk => (.ok, mb.enlarge size.toNat junk)

end Membuff

end Imx
