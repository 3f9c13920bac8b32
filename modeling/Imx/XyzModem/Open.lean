import Imx.Base.Digits
import Imx.XyzModem.Block

/-!
# Opening a session

The header block says how long the file is. Before it comes there may be losses, fewer than the
receiver has tries.
-/

namespace Imx.XyzModem
open Imx.Base

variable {s s' : Xyz} {data : List UInt8} {rest : Line} {n : Nat} {x : Session} {stat : Stat}

/-! ## The length -/

/-- How often the receiver asked for a CRC in vain. -/
def silent (loss : Loss) : Nat := if loss.stat = .timeout then 1 else 0

/-- The state behind the header. -/
structure Opened (x : Session) (s : Xyz) : Prop where
  line : s.line = stream x.closing x.last 0 x.header x.blocks
  nextBlk : s.nextBlk = 1
  len : s.len = 0
  mode : s.mode = .ymodem
  crcMode : s.crcMode = true
  atEof : s.atEof = false
  fileLength : s.fileLength = x.file.length
  readLength : s.readLength = 0

end Imx.XyzModem
