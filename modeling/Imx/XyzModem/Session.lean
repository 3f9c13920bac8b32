import Imx.XyzModem.Defs

/-!
# A YMODEM session

What a sender puts on the line that repeats each block until it is acknowledged, where blocks are
lost, damaged or repeated. The receiver acknowledges a block before it waits for the next one, so
between the first time that a block comes through and the first time that the next one does, there
are only losses and that block again.
-/

namespace Imx.XyzModem
open Imx.Base

/-- What the line gives. -/
abbrev Line := List (Option UInt8)

/-- A block on the line. -/
def packet (n : Nat) (data : List UInt8) : Line :=
  ([if data.length = 128 then soh else stx, UInt8.ofNat n, ~~~ UInt8.ofNat n] ++
    (data ++ bytesBe 2 (cygCrc16 data).toNat)).map some

def IsBlock (data : List UInt8) : Prop := data.length = 128 ∨ data.length = 1024

instance (data : List UInt8) : Decidable (IsBlock data) := inferInstanceAs (Decidable (_ ∨ _))

/-- A block that was lost or damaged, as the receiver finds it. -/
structure Loss where
  line : Line
  stat : Stat
  detected : stat = .timeout ∨ stat = .frame ∨ stat = .cksum
  found : ∀ (s : Xyz) (rest : Line), s.crcMode = true → s.line = line ++ rest →
    (getHdr s).1 = stat ∧ (getHdr s).2.line = rest

/-- What comes instead of the next block: a loss, or the block before it again. -/
inductive Try where
  | lost (x : Loss)
  | again

def Try.line (before : Line) : Try → Line
  | .lost x => x.line
  | .again => before

/-- What comes behind the end of the file: the last header, a loss, or the end of the file again. -/
inductive Closing where
  | header (data : List UInt8) (block : IsBlock data) (rest : Line)
  | lost (x : Loss) (rest : Line)
  | again (rest : Line)

def Closing.line : Closing → Line
  | .header data _ rest => packet 0 data ++ rest
  | .lost x rest => x.line ++ rest
  | .again rest => some eot :: rest

/-- The rest of a session behind block `n` with the data `before`. -/
def stream (closing : Closing) (last : List Try) :
    Nat → List UInt8 → List (List Try × List UInt8) → Line
  | n, before, [] => last.flatMap (Try.line (packet n before)) ++ some eot :: closing.line
  | n, before, (tries, data) :: blocks =>
    tries.flatMap (Try.line (packet n before)) ++
      (packet (n + 1) data ++ stream closing last (n + 1) data blocks)

/-- Each of the blocks begins before the end of the file, which they hold. -/
def Needed (total : Nat) : Nat → List (List Try × List UInt8) → Prop
  | read, [] => total ≤ read
  | read, (_, data) :: blocks => read < total ∧ Needed total (read + data.length) blocks

/-- The digits of a number. -/
def decimal (n : Nat) : List UInt8 := (Nat.toDigits 10 n).map fun c => UInt8.ofNat c.toNat

/-- A file, its blocks, each with what comes before it, and what comes before the header and before
and behind the end of the file. -/
structure Session where
  file : List UInt8
  header : List UInt8
  before : List Loss
  blocks : List (List Try × List UInt8)
  last : List Try
  closing : Closing
  nonempty : file ≠ []
  headerBlock : IsBlock header
  announces : ∃ name rest, 0 ∉ name ∧ header = name ++ 0 :: (decimal file.length ++ rest) ∧
    (rest.head? = some 0 ∨ rest.head? = some 0x20)
  isBlock : ∀ b ∈ blocks, IsBlock b.2
  needed : Needed file.length 0 blocks
  carries : (blocks.flatMap Prod.snd).take file.length = file
  /-- Otherwise the receiver asks for blocks without a CRC. -/
  asked : (before.filter (·.stat = .timeout)).length < maxRetriesWithCrc

def Session.line (x : Session) : Line :=
  x.before.flatMap Loss.line ++
    (packet 0 x.header ++ stream x.closing x.last 0 x.header x.blocks)

/-! ## What is read -/

/-- The characters that calls return one after the other, up to one that fails. -/
def readAll (s : Xyz) : List Nat → Option (List UInt8)
  | [] => some []
  | size :: sizes =>
    (streamRead s size).bind fun r =>
      if r.err = none then (readAll r.state sizes).map (r.buf ++ ·) else some []

/-- Whatever the sizes are, what is read is the file. -/
def Delivers (s : Xyz) (x : Session) : Prop :=
  (streamOpen { s with line := x.line } .ymodem).1 = none ∧
    ∀ sizes, readAll (streamOpen { s with line := x.line } .ymodem).2 sizes =
      some (x.file.take sizes.sum)

end Imx.XyzModem
