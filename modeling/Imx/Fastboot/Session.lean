import Imx.Base.Mem
import Imx.Base.Run
import Imx.Gpt.Uuid
import Imx.Fastboot.EnvFile

/-!
# A fastboot session

The host sends commands and the data of downloads over one endpoint, and both come in one request
with one buffer. `rx_handler_command` compares what is in the buffer with the commands it knows,
`rx_handler_dl_image` stores the data. Below the code is the session as the host knows it (`Host`):
it has no buffer, only the packets.
-/

namespace Imx.Fastboot
open Imx.Base

/-- The bytes of a text. -/
def ascii (s : String) : Str := s.toList.map fun c => UInt8.ofNat c.toNat

/-! ## The endpoint -/

/-- `EP_BUFFER_SIZE`, the size of the buffer of a request. -/
def epBufferSize : Nat := 4096

/-- The speed of the bus. -/
inductive Speed where
  | full
  | high
deriving DecidableEq

/-- `wMaxPacketSize` in the descriptor of the endpoint. -/
def Speed.maxPacket : Speed → Nat
  | full => 64
  | high => 512

/-- What the controller makes of it when it enables the endpoint. -/
def Speed.epMaxpacket (speed : Speed) : Nat :=
  if 64 < speed.maxPacket ∧ speed = .full then 64 else speed.maxPacket

/-! ## Commands -/

/-- The functions that carry out the commands. -/
inductive Callback where
  | cbRebootBootloader
  | cbReboot
  | cbGetvar
  | cbDownload
  | cbBoot
  | cbContinue
  | cbFlash
  | cbErase
  | cbOem
deriving DecidableEq

/-- A function that is called, the text in the buffer and, where it is read, the one four bytes into
it. -/
structure Call where
  cb : Callback
  text : Str
  arg : Str
deriving DecidableEq

/-- What can be seen of a session. -/
inductive Event where
  | run (call : Call)
  | reply (text : String)
deriving DecidableEq

/-- The configuration: `CONFIG_FSL_FASTBOOT`, `CONFIG_FASTBOOT_FLASH`, `CONFIG_FASTBOOT_BUF_SIZE`,
the block size when the storage is NAND, and the functions for all commands but a download, which
may do anything to the memory and the rest of the board and send something. -/
structure Board (β : Type) where
  fsl : Bool
  flash : Bool
  bufSize : Nat
  bufSize_lt : bufSize < 2 ^ 32
  nandBlock : Nat
  speed : Speed
  callback : Call → Nat → Mem → β → Mem × β × List String

variable {β : Type}

def cmdDispatchInfo (fsl flash : Bool) : List (Str × Callback) :=
  (if fsl then [(ascii "reboot-bootloader", Callback.cbRebootBootloader)] else []) ++
  [(ascii "reboot", Callback.cbReboot), (ascii "getvar:", Callback.cbGetvar),
    (ascii "download:", Callback.cbDownload), (ascii "boot", Callback.cbBoot),
    (ascii "continue", Callback.cbContinue)] ++
  (if flash then [(ascii "flash", Callback.cbFlash), (ascii "erase", Callback.cbErase)] else []) ++
  [(ascii "oem", Callback.cbOem)]

/-- The commands of a configuration. -/
def Board.commands (b : Board β) : List (Str × Callback) := cmdDispatchInfo b.fsl b.flash

/-! ## The session -/

/-- The request with its buffer, the download, the memory from `CONFIG_FASTBOOT_BUF_ADDR` on and the
rest of the board. Besides, what was seen, which ranges of the memory were stored to, the lengths of
the requests that were queued, and whether a NULL pointer was followed. -/
structure Session (β : Type) where
  buf : Mem
  length : Nat
  dlImage : Bool
  downloadSize : Nat
  downloadBytes : Nat
  ram : Mem
  rest : β
  log : List Event
  stores : List (Nat × Nat)
  queued : List Nat
  fault : Bool

/-- The session when the endpoints were enabled. -/
def Session.start (downloadSize downloadBytes : Nat) (ram : Mem) (rest : β) : Session β :=
  ⟨Mem.zero, epBufferSize, false, downloadSize, downloadBytes, ram, rest, [], [], [epBufferSize],
    false⟩

def txWriteStr (s : Session β) (text : String) : Session β :=
  { s with log := s.log ++ [Event.reply text] }

def usbEpQueue (s : Session β) : Session β := { s with queued := s.queued ++ [s.length] }

/-- A buffer begins with a text (`strcmp_l1` gives zero). -/
def strcmpL1 : Str → Mem → Nat → Bool
  | [], _, _ => true
  | c :: s, m, a => m a == c && (c == 0 || strcmpL1 s m (a + 1))

/-- The string at an index of the buffer of the request. -/
@[irreducible]
def cstrAt (m : Mem) (a : Nat) : Str := cut (m.read a (epBufferSize - a))

/-- The string at the beginning of the buffer is cut at the first colon; what is behind it. -/
def strsep (m : Mem) : Mem × Option Str :=
  match (cstrAt m 0).dropWhile (· ≠ 58) with
  | [] => (m, none)
  | _ :: cmd => (m.write ((cstrAt m 0).takeWhile (· ≠ 58)).length [0], some cmd)

/-- The bytes that are still to come, in 32 bits. -/
def Session.remain (s : Session β) : Nat := (s.downloadSize + 2 ^ 32 - s.downloadBytes) % 2 ^ 32

def rxBytesExpected (s : Session β) (maxpacket : Nat) : Nat :=
  if 2 ^ 31 ≤ s.remain then 0
  else if epBufferSize < s.remain then epBufferSize
  else if s.remain < maxpacket then maxpacket
  else if s.remain % maxpacket ≠ 0 then s.remain + (maxpacket - s.remain % maxpacket)
  else s.remain

/-- The length of a request for data. -/
def dataLength (b : Board β) (s : Session β) : Nat :=
  if rxBytesExpected s b.speed.maxPacket < b.speed.epMaxpacket then b.speed.epMaxpacket
  else rxBytesExpected s b.speed.maxPacket

/-- A number as `%08x` prints it. -/
def hex8 (n : Nat) : String :=
  String.ofList ((List.range 8).reverse.map fun i => Nat.digitChar (n / 16 ^ i % 16))

def cbDownload (b : Board β) (s : Session β) : Session β :=
  match strsep s.buf with
  | (buf, none) => { s with buf := buf, fault := true }
  | (buf, some cmd) =>
    let size := Gpt.simpleStrtoul cmd % 2 ^ 32
    let s := { s with buf := buf, downloadSize := size, downloadBytes := 0 }
    if size = 0 then txWriteStr s "FAILdata invalid size"
    else if b.bufSize < size then txWriteStr { s with downloadSize := 0 } "FAILdata too large"
    else txWriteStr { s with dlImage := true, length := dataLength b s } ("DATA" ++ hex8 size)

/-- The other functions. Three of them cut the string in the buffer at its first colon. -/
def cbOther (b : Board β) (s : Session β) (call : Call) : Session β :=
  let (ram, rest, sent) := b.callback call s.downloadBytes s.ram s.rest
  { s with
    buf := if call.cb ∈ [.cbGetvar, .cbFlash, .cbErase] then (strsep s.buf).1 else s.buf
    ram := ram, rest := rest, log := s.log ++ sent.map .reply }

def funcCb (b : Board β) (s : Session β) (cb : Callback) : Session β :=
  let call : Call := ⟨cb, cstrAt s.buf 0, if cb = .cbOem then cstrAt s.buf 4 else []⟩
  let s := { s with log := s.log ++ [Event.run call] }
  if cb = .cbDownload then cbDownload b s else cbOther b s call

def rxHandlerCommand (b : Board β) (s : Session β) (actual : Nat) : Session β :=
  if s.length = 0 then s
  else
    let s := match b.commands.find? fun e => strcmpL1 e.1 s.buf 0 with
      | none => txWriteStr s "FAILunknown command"
      | some e =>
        if actual < s.length then funcCb b { s with buf := s.buf.write actual [0] } e.2
        else txWriteStr s "FAILbuffer overflow"
    usbEpQueue { s with buf := s.buf.write 0 [0] }

/-- The blocks of the NAND are filled up with zeros, as far as there is room. -/
def padLoop (b : Board β) : Nat → Session β → Session β
  | 0, s => s
  | n + 1, s =>
    if b.bufSize ≤ s.downloadBytes then s
    else padLoop b n { s with
      ram := s.ram.write s.downloadBytes [0], downloadBytes := s.downloadBytes + 1
      stores := s.stores ++ [(s.downloadBytes, 1)] }

def pad (b : Board β) (s : Session β) : Session β :=
  if b.nandBlock ≠ 0 ∧ s.downloadBytes % b.nandBlock ≠ 0 then
    padLoop b (b.nandBlock - s.downloadBytes % b.nandBlock) s
  else s

/-- The first bytes of the buffer are appended to the download. -/
def transfer (s : Session β) (transferSize : Nat) : Session β :=
  { s with
    ram := s.ram.write s.downloadBytes (s.buf.read 0 transferSize)
    downloadBytes := (s.downloadBytes + transferSize) % 2 ^ 32
    stores := s.stores ++ [(s.downloadBytes, transferSize)] }

def rxHandlerDlImage (b : Board β) (s : Session β) (actual : Nat) : Session β :=
  let s := transfer s (min actual s.remain)
  if s.downloadSize ≤ s.downloadBytes then
    let s := { s with downloadSize := 0, dlImage := false, length := epBufferSize }
    usbEpQueue (pad b (txWriteStr s "OKAY"))
  else usbEpQueue { s with length := dataLength b s }

/-- A request is completed with some bytes. -/
def step (b : Board β) (s : Session β) (data : Str) : Session β :=
  if s.fault then s
  else
    let s := { s with buf := s.buf.write 0 data }
    if s.dlImage then rxHandlerDlImage b s data.length else rxHandlerCommand b s data.length

/-! ## The host's view -/

/-- The host sends commands, or the data of a download of `size` bytes, of which `got` were sent. -/
inductive Phase where
  | command
  | data (size : Nat) (got : Str)

/-- The session without a buffer. `ram` is the memory when the phase began. -/
structure Host (β : Type) where
  phase : Phase
  downloadBytes : Nat
  ram : Mem
  rest : β
  log : List Event

/-- The memory, with the data at its beginning. -/
def Host.memory (h : Host β) : Mem :=
  match h.phase with
  | .command => h.ram
  | .data _ got => h.ram.write 0 got

/-- The zeros behind a download. -/
def padLen (b : Board β) (size : Nat) : Nat :=
  if b.nandBlock ≠ 0 ∧ size % b.nandBlock ≠ 0 then
    min (b.nandBlock - size % b.nandBlock) (b.bufSize - size)
  else 0

/-- A command is carried out. -/
def Host.obey (b : Board β) (h : Host β) (call : Call) : Host β :=
  if call.cb = .cbDownload then
    let size := Gpt.simpleStrtoul (call.text.drop 9) % 2 ^ 32
    if size = 0 then
      { h with
        downloadBytes := 0
        log := h.log ++ [Event.run call] ++ [Event.reply "FAILdata invalid size"] }
    else if b.bufSize < size then
      { h with
        downloadBytes := 0
        log := h.log ++ [Event.run call] ++ [Event.reply "FAILdata too large"] }
    else
      { h with
        phase := .data size [], downloadBytes := 0,
        log := h.log ++ [Event.run call] ++ [Event.reply ("DATA" ++ hex8 size)] }
  else
    let (ram, rest, sent) := b.callback call h.downloadBytes h.ram h.rest
    { h with ram := ram, rest := rest, log := h.log ++ [Event.run call] ++ sent.map .reply }

/-- A packet is sent. -/
def Host.send (b : Board β) (h : Host β) (data : Str) : Host β :=
  match h.phase with
  | .command =>
    match b.commands.find? fun e => e.1.isPrefixOf data with
    | none => { h with log := h.log ++ [Event.reply "FAILunknown command"] }
    | some e =>
      if data.length < epBufferSize then
        h.obey b ⟨e.2, cut data, if e.2 = .cbOem then cut (data.drop 4) else []⟩
      else { h with log := h.log ++ [Event.reply "FAILbuffer overflow"] }
  | .data size got =>
    if size ≤ (got ++ data).length then
      { phase := .command, downloadBytes := size + padLen b size
        ram := (h.ram.write 0 ((got ++ data).take size)).write size
          (List.replicate (padLen b size) 0)
        rest := h.rest, log := h.log ++ [Event.reply "OKAY"] }
    else { h with phase := .data size (got ++ data) }

def Host.start (downloadBytes : Nat) (ram : Mem) (rest : β) : Host β :=
  ⟨.command, downloadBytes, ram, rest, []⟩

end Imx.Fastboot
