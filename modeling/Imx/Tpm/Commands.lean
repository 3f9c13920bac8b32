import Imx.Tpm.Defs

/-!
# The commands of the TPM library

Model of the upper half of `lib/tpm.c`: the commands, each with its request and its check. A run is
the row of transfers a command makes, its own one last; a command that needs a session may open one
first. What an authorised key load writes to its request is kept for itself.
-/

namespace Imx.Tpm
open Imx.Base

/-- A command that is a constant array, with zeros behind the bytes that are given. -/
def array (size : Nat) (bytes : List UInt8) : List UInt8 :=
  bytes ++ List.replicate (size - bytes.length) 0

def tpmStartup (mode : BitVec 16) (x : Exchange) : Stage :=
  let command := [0x0, 0xc1, 0x0, 0x0, 0x0, 0xc, 0x0, 0x0, 0x0, 0x99, 0x0, 0x0]
  transfer (packByteString commandBufferSize [.s 0 command, .w 10 mode]) commandBufferSize x .none

def tpmSelfTestFull (x : Exchange) : Stage :=
  let command := [0x0, 0xc1, 0x0, 0x0, 0x0, 0xa, 0x0, 0x0, 0x0, 0x50]
  transfer (true, [.s 0 command]) commandBufferSize x .none

def tpmContinueSelfTest (x : Exchange) : Stage :=
  let command := [0x0, 0xc1, 0x0, 0x0, 0x0, 0xa, 0x0, 0x0, 0x0, 0x53]
  transfer (true, [.s 0 command]) commandBufferSize x .none

def tpmNvDefineSpace (index perm size : BitVec 32) (x : Exchange) : Stage :=
  let pcrInfoShort := [0x0, 0x3, 0, 0, 0, 0x1f] ++ List.replicate 20 0
  let command := [0x0, 0xc1, 0x0, 0x0, 0x0, 0x65, 0x0, 0x0, 0x0, 0xcc, 0x0, 0x18, 0, 0, 0, 0] ++
    pcrInfoShort ++ pcrInfoShort ++ [0x0, 0x17, 0, 0, 0, 0, 0, 0, 0, 0, 0, 0, 0]
  transfer (packByteString commandBufferSize [.s 0 command, .d 12 index, .d 70 perm, .d 77 size])
    commandBufferSize x .none

def tpmNvReadValue (index count : BitVec 32) (x : Exchange) : Stage :=
  let command := array 22 [0x0, 0xc1, 0x0, 0x0, 0x0, 0x16, 0x0, 0x0, 0x0, 0xcf]
  transfer (packByteString commandBufferSize [.s 0 command, .d 10 index, .d 18 count])
    commandBufferSize x (.nvRead count)

def tpmNvWriteValue (index : BitVec 32) (data : Mem) (length : BitVec 32) (x : Exchange) : Stage :=
  let command := array 256 [0x0, 0xc1, 0x0, 0x0, 0x0, 0x0, 0x0, 0x0, 0x0, 0xcd]
  let totalLength := BitVec.ofNat 32 (tpmRequestHeaderLength + 12 + length.toNat)
  transfer
    (packByteString commandBufferSize
      [.s 0 command, .d 2 totalLength, .d 10 index, .d 18 length, .s 22 (data.read 0 length.toNat)])
    commandBufferSize x .none

def tpmExtend (index : BitVec 32) (inDigest : Mem) (x : Exchange) : Stage :=
  let command := array 34 [0x0, 0xc1, 0x0, 0x0, 0x0, 0x22, 0x0, 0x0, 0x0, 0x14]
  transfer
    (packByteString commandBufferSize
      [.s 0 command, .d 10 index, .s 14 (inDigest.read 0 pcrDigestLength)])
    (tpmResponseHeaderLength + pcrDigestLength) x (.field 10 20)

def tpmPcrRead (index count : BitVec 32) (x : Exchange) : Stage :=
  let command := [0x0, 0xc1, 0x0, 0x0, 0x0, 0xe, 0x0, 0x0, 0x0, 0x15, 0x0, 0x0, 0x0, 0x0]
  if count.toNat < pcrDigestLength then .ended tpmLibError
  else
    transfer (packByteString commandBufferSize [.s 0 command, .d 10 index]) commandBufferSize x
      (.field 10 20)

def tpmTscPhysicalPresence (presence : BitVec 16) (x : Exchange) : Stage :=
  let command := [0x0, 0xc1, 0x0, 0x0, 0x0, 0xc, 0x40, 0x0, 0x0, 0xa, 0x0, 0x0]
  transfer (packByteString commandBufferSize [.s 0 command, .w 10 presence]) commandBufferSize x
    .none

def tpmReadPubek (count : BitVec 32) (x : Exchange) : Stage :=
  let command := array 30 [0x0, 0xc1, 0x0, 0x0, 0x0, 0x1e, 0x0, 0x0, 0x0, 0x7c]
  transfer (true, [.s 0 command]) (commandBufferSize + tpmPubekSize) x (.pubek count)

def tpmForceClear (x : Exchange) : Stage :=
  let command := [0x0, 0xc1, 0x0, 0x0, 0x0, 0xa, 0x0, 0x0, 0x0, 0x5d]
  transfer (true, [.s 0 command]) commandBufferSize x .none

def tpmPhysicalEnable (x : Exchange) : Stage :=
  let command := [0x0, 0xc1, 0x0, 0x0, 0x0, 0xa, 0x0, 0x0, 0x0, 0x6f]
  transfer (true, [.s 0 command]) commandBufferSize x .none

def tpmPhysicalDisable (x : Exchange) : Stage :=
  let command := [0x0, 0xc1, 0x0, 0x0, 0x0, 0xa, 0x0, 0x0, 0x0, 0x70]
  transfer (true, [.s 0 command]) commandBufferSize x .none

def tpmPhysicalSetDeactivated (state : UInt8) (x : Exchange) : Stage :=
  let command := [0x0, 0xc1, 0x0, 0x0, 0x0, 0xb, 0x0, 0x0, 0x0, 0x72, 0x0]
  transfer (packByteString commandBufferSize [.s 0 command, .b 10 state]) commandBufferSize x .none

def tpmGetCapability (capArea subCap count : BitVec 32) (x : Exchange) : Stage :=
  let command := [0x0, 0xc1, 0x0, 0x0, 0x0, 0x16, 0x0, 0x0, 0x0, 0x65, 0x0, 0x0, 0x0, 0x0,
    0x0, 0x0, 0x0, 0x4, 0x0, 0x0, 0x0, 0x0]
  transfer (packByteString commandBufferSize [.s 0 command, .d 10 capArea, .d 18 subCap])
    commandBufferSize x (.capability count)

def tpmGetPermanentFlags (x : Exchange) : Stage :=
  let command := [0x0, 0xc1, 0x0, 0x0, 0x0, 0x16, 0x0, 0x0, 0x0, 0x65, 0x0, 0x0, 0x0, 0x4,
    0x0, 0x0, 0x0, 0x4, 0x0, 0x0, 0x1, 0x8]
  transfer (true, [.s 0 command]) commandBufferSize x .permanentFlags

/-- The format is `"d"`: what is packed is the address of the array `command`, and the index is left
out. -/
def tpmGetPermissions (command _index : BitVec 32) (x : Exchange) : Stage :=
  transfer (packByteString commandBufferSize [.d 0 command]) commandBufferSize x (.field 60 4)

/-! ## Sessions -/

/-- What a command does, with the session it leaves and what it has written to the request of a
variable length. -/
structure Run where
  stages : List Stage
  session : Session
  written : List Item

/-- What the command returns. -/
def Run.code (h : Hash) (r : Run) : Option (BitVec 32) := (r.stages.getLast?.map (·.code h)).join

def tpmTerminateAuthSession (authHandle : BitVec 32) (s : Session) (x : Exchange) :
    Stage × Session :=
  let command := [0x00, 0xc1, 0x00, 0x00, 0x00, 0x00, 0x00, 0x00, 0x00, 0xba, 0x00, 0x00, 0x00,
    0x00, 0x00, 0x00, 0x00, 0x02]
  let p := packByteString commandBufferSize [.s 0 command, .d tpmRequestHeaderLength authHandle]
  if !p.1 then (.ended tpmLibError, s)
  else
    let s := if s.valid ∧ s.handle = authHandle then { s with valid := false } else s
    (.asked (tpmSendrecvCommand p.2 commandBufferSize x) .none, s)

def tpmEndOiap (s : Session) (x : Exchange) : Stage × Session :=
  if s.valid then tpmTerminateAuthSession s.handle s x else (.ended tpmSuccess, s)

/-- The session after `unpack_byte_string` of its handle and its nonce, which may stop between the
two. -/
def Session.opened (s : Session) (r : Reply) : Session :=
  let u := unpackByteString r.length [(10, 4), (14, digestLength)]
  match u.2 with
  | [] => s
  | [_] => { s with handle := be32 r.response 10 }
  | _ => ⟨true, be32 r.response 10, fun i => r.response (14 + i), s.nonceOdd⟩

/-- A session that is open is terminated, whatever comes of it. -/
def tpmOiap (s : Session) (x y : Exchange) : Run :=
  let command := [0x00, 0xc1, 0x00, 0x00, 0x00, 0x0a, 0x00, 0x00, 0x00, 0x0a]
  let first :=
    if s.valid then
      let t := tpmTerminateAuthSession s.handle s x
      ([t.1], t.2, y)
    else ([], s, x)
  let r := tpmSendrecvCommand [.s 0 command] commandBufferSize first.2.2
  let s := if r.status ≠ 0 then first.2.1 else first.2.1.opened r
  ⟨first.1 ++ [Stage.asked r .oiap], s, []⟩

/-- The session after the response to an authorised command. -/
def Session.answered (s : Session) (r : Reply)
    (verified : Option (BitVec 32 × Session × List (Nat × Nat))) : Session :=
  if r.status ≠ 0 then if r.status = tpmAuthfail then { s with valid := false } else s
  else (verified.map (·.2.1)).getD s

variable (h : Hash)

/-- The memory of the stack that is read before it is written: the request, and the variable
`hmac_data`. -/
structure Stack where
  request : Mem
  hmacData : Mem

/-- Pack the request of a key load: an error, what is written to the request, and the session. -/
def loadKey2Request (stack : Stack) (parentHandle : BitVec 32) (key : Mem) (keyLength : BitVec 32)
    (auth : List UInt8) (s : Session) : BitVec 32 × List Item × Session :=
  let command := array 14 [0x00, 0xc2, 0x00, 0x00, 0x00, 0x00, 0x00, 0x00, 0x00, 0x41]
  let size := command.length + tpmKey12MaxLength + tpmRequestAuthLength
  let p := packByteString size
    [.s 0 command,
      .d 2 (BitVec.ofNat 32 (command.length + keyLength.toNat + tpmRequestAuthLength)),
      .d tpmRequestHeaderLength parentHandle,
      .s (tpmRequestHeaderLength + 4) (key.read 0 keyLength.toNat)]
  if !p.1 then (tpmLibError, p.2, s)
  else
    let request := store stack.request p.2
    let length := sizeT (command.length + keyLength.toNat)
    let a := createRequestAuth h stack.hmacData request length 4 s (fun i => request (length + i))
      auth
    (a.1, p.2 ++ a.2.1.map fun item => ⟨length + item.offset, item.bytes⟩, a.2.2)

/-- A key is loaded in a session that is open. -/
def loadKey2 (stack : Stack) (parentHandle : BitVec 32) (key : Mem) (keyLength : BitVec 32)
    (auth : List UInt8) (keyHandle : Bool) (s : Session) (x : Exchange) : Run :=
  let req := loadKey2Request h stack parentHandle key keyLength auth s
  if req.1 ≠ 0 then ⟨[.ended req.1], req.2.2, req.2.1⟩
  else
    let s := req.2.2
    let r := tpmSendrecvCommand req.2.1 commandBufferSize x
    ⟨[.asked r (.loadKey2 s auth keyHandle)],
      s.answered r (verifyResponseAuth h 0x41 r 4 s auth), req.2.1⟩

/-- A command that needs a session: one is opened if there is none, and an error ends it. -/
def inSession (s : Session) (x y : Exchange) (f : Session → Exchange → Run) : Run :=
  if s.valid then f s x
  else
    let o := tpmOiap s x y
    if o.code h ≠ some 0 then o
    else
      let r := f o.session y
      { r with stages := o.stages ++ r.stages }

def tpmLoadKey2Oiap (stack : Stack) (parentHandle : BitVec 32) (key : Mem) (keyLength : BitVec 32)
    (auth : List UInt8) (keyHandle : Bool) (s : Session) (x y : Exchange) : Run :=
  inSession h s x y (loadKey2 h stack parentHandle key keyLength auth keyHandle)

/-- A public key is read in a session that is open. -/
def getPubKey (stack : Stack) (keyHandle : BitVec 32) (usageAuth : List UInt8)
    (pubkeyLen : Option (BitVec 32)) (s : Session) (x : Exchange) : Run :=
  let command := array 14 [0x00, 0xc2, 0x00, 0x00, 0x00, 0x00, 0x00, 0x00, 0x00, 0x21]
  let p := packByteString (command.length + tpmRequestAuthLength)
    [.s 0 command, .d 2 (BitVec.ofNat 32 (command.length + tpmRequestAuthLength)),
      .d tpmRequestHeaderLength keyHandle]
  if !p.1 then ⟨[.ended tpmLibError], s, []⟩
  else
    let request := store stack.request p.2
    let a := createRequestAuth h stack.hmacData request command.length 4 s
      (fun i => request (command.length + i)) usageAuth
    if a.1 ≠ 0 then ⟨[.ended a.1], a.2.2, []⟩
    else
      let s := a.2.2
      let items := p.2 ++ a.2.1.map fun item => ⟨command.length + item.offset, item.bytes⟩
      let r := tpmSendrecvCommand items
        (tpmResponseHeaderLength + tpmPubkeyMaxLength + tpmResponseAuthLength) x
      ⟨[.asked r (.getPubKey s usageAuth pubkeyLen)],
        s.answered r (verifyResponseAuth h 0x21 r 0 s usageAuth), []⟩

def tpmGetPubKeyOiap (stack : Stack) (keyHandle : BitVec 32) (usageAuth : List UInt8)
    (pubkeyLen : Option (BitVec 32)) (s : Session) (x y : Exchange) : Run :=
  inSession h s x y (getPubKey h stack keyHandle usageAuth pubkeyLen)

end Imx.Tpm
