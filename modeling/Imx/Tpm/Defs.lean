import Imx.Base.Access
import Imx.Base.Bytes
import Imx.Base.Mem

/-!
# Talking to the TPM

Model of the lower half of `lib/tpm.c`, of `tpm_xfer`, and of the authorisation sessions, with a
`size_t` of 32 bits. `pack_byte_string` is taken as the row of writes it makes, `unpack_byte_string`
as the row of ranges it copies out. An `Exchange` is what the driver does and what is in the
response buffer before; a `Stage` is one transfer and what is done with the response.
-/

namespace Imx.Tpm
open Imx.Base

def tpmLibError : BitVec 32 := BitVec.allOnes 32
def tpmSuccess : BitVec 32 := 0
def tpmAuthfail : BitVec 32 := 1

def commandBufferSize : Nat := 256
def tpmRequestHeaderLength : Nat := 10
def tpmResponseHeaderLength : Nat := 10
def pcrDigestLength : Nat := 20
def digestLength : Nat := 20
def tpmRequestAuthLength : Nat := 45
def tpmResponseAuthLength : Nat := 41
def tpmKey12MaxLength : Nat := 618
def tpmPubkeyMaxLength : Nat := 288
def tpmPubekSize : Nat := 256

/-- C `sizeof(struct tpm_permanent_flags)`. -/
def sizeofPermanentFlags : Nat := 22

/-- A sum of `size_t`. -/
def sizeT (n : Nat) : Nat := n % 2 ^ 32

/-! ## Packing -/

/-- A value and where it is packed, as the bytes that are written. -/
structure Item where
  offset : Nat
  bytes : List UInt8

def Item.b (offset : Nat) (value : UInt8) : Item := ⟨offset, [value]⟩
def Item.w (offset : Nat) (value : BitVec 16) : Item := ⟨offset, bytesBe 2 value.toNat⟩
def Item.d (offset : Nat) (value : BitVec 32) : Item := ⟨offset, bytesBe 4 value.toNat⟩
def Item.s (offset : Nat) (data : List UInt8) : Item := ⟨offset, data⟩

/-- Whether it succeeds, and what it has written. -/
def packByteString (size : Nat) : List Item → Bool × List Item
  | [] => (true, [])
  | item :: items =>
    if size < sizeT (item.offset + item.bytes.length) then (false, [])
    else
      let r := packByteString size items
      (r.1, item :: r.2)

/-- What is in memory after the writes. -/
def store (str : Mem) (items : List Item) : Mem :=
  items.foldl (fun m item => m.write item.offset item.bytes) str

/-- Whether it succeeds, and which ranges it has copied out. -/
def unpackByteString (size : Nat) : List (Nat × Nat) → Bool × List (Nat × Nat)
  | [] => (true, [])
  | (offset, length) :: fields =>
    if size < sizeT (offset + length) then (false, [])
    else
      let r := unpackByteString size fields
      (r.1, (offset, length) :: r.2)

def be32 (str : Mem) (offset : Nat) : BitVec 32 :=
  BitVec.ofNat 32 (65536 * str.be16 offset + str.be16 (offset + 2))

/-! ## Transfers -/

/-- What the driver does: it fails with the negative number `-(code + 1)`, or it answers and then
cleans up, which fails if the number is not 0. -/
inductive Outcome where
  | failed (code : Nat)
  | answered (bytes : List UInt8) (cleanup : Int)

/-- What happens at a transfer: what `uclass_first_device` returns, what is in the response buffer
before, and what the driver does. -/
structure Exchange where
  device : BitVec 32
  buffer : Mem
  outcome : Outcome

/-- What is returned, what is in the buffer then, and the size. -/
def tpmXfer (outcome : Outcome) (recvbuf : Mem) (recvSize : Nat) : Int × Mem × Nat :=
  match outcome with
  | .failed code => (Int.negSucc code, recvbuf, recvSize)
  | .answered bytes cleanup =>
    -- ENOSPC
    if recvSize < bytes.length then (-28, recvbuf, recvSize)
    else (cleanup, recvbuf.write 0 bytes, bytes.length)

/-- The response as the caller sees it. -/
structure Reply where
  request : List Item
  /-- what `uclass_first_device` has returned -/
  device : BitVec 32
  /-- the driver said that the transfer succeeded -/
  ok : Bool
  response : Mem
  length : Nat
  status : BitVec 32

def tpmReturnCode (response : Mem) : BitVec 32 := be32 response 6

def tpmSendrecvCommand (command : List Item) (size : Nat) (x : Exchange) : Reply :=
  if x.device ≠ 0 then ⟨command, x.device, false, x.buffer, size, x.device⟩
  else
    let r := tpmXfer x.outcome x.buffer size
    let err := BitVec.ofInt 32 r.1
    -- the number has no sign
    let status := if err < 0 then tpmLibError else tpmReturnCode r.2.1
    ⟨command, x.device, r.1 = 0, r.2.1, r.2.2, status⟩

/-- How many bytes the chip has answered. -/
def Reply.received (r : Reply) : Nat := if r.ok then r.length else 0

/-- The transfer succeeded, and the return code in the response is 0. -/
structure Reply.Honest (r : Reply) : Prop where
  ok : r.ok
  long : tpmResponseHeaderLength ≤ r.received
  status : tpmReturnCode r.response = 0

/-! ## Sessions -/

abbrev Digest := Fin 20 → UInt8

/-- The hash functions. -/
structure Hash where
  sha1 : List UInt8 → Digest
  sha1Hmac : List UInt8 → List UInt8 → Digest

/-- C `struct session_data`. -/
structure Session where
  valid : Bool
  handle : BitVec 32
  nonceEven : Digest
  nonceOdd : Digest

/-- Returns what is written to the authorisation block of the request, and the session. `hmacData`
is what is in the variable of that name before. -/
def createRequestAuth (h : Hash) (hmacData request : Mem) (requestLen0 handlesLen : Nat)
    (s : Session) (requestAuth : Mem) (auth : List UInt8) : BitVec 32 × List Item × Session :=
  if !s.valid then (tpmLibError, [], s)
  else
    let digest := h.sha1 (request.read 6 4 ++
      if tpmRequestHeaderLength + handlesLen < requestLen0 then
        request.read (tpmRequestHeaderLength + handlesLen)
          (requestLen0 - tpmRequestHeaderLength - handlesLen)
      else [])
    let hmacData := hmacData.write 0 (List.ofFn digest)
    let s := { s with
      nonceOdd := h.sha1 (List.ofFn s.nonceOdd ++ hmacData.read 0 (digestLength * 3 + 1)) }
    let p := packByteString tpmRequestAuthLength
      [.d 0 s.handle, .s 4 (List.ofFn s.nonceOdd), .b 24 1]
    let requestAuth := store requestAuth p.2
    let q := packByteString (digestLength * 3 + 1)
      [.s digestLength (List.ofFn s.nonceEven),
        .s (2 * digestLength) (requestAuth.read 4 (digestLength + 1))]
    let hmacData := store hmacData q.2
    if !p.1 then (tpmLibError, p.2, s)
    else if !q.1 then (tpmLibError, p.2, s)
    else
      let mac := h.sha1Hmac auth (hmacData.read 0 (digestLength * 3 + 1))
      (tpmSuccess, p.2 ++ [Item.s 25 (List.ofFn mac)], s)

/-- Verify the block of `TPM_RESPONSE_AUTH_LENGTH` bytes at the end of a response. Returns the
session and what is copied to it. `none` is a response that is shorter: what is read then is not in
it. -/
def verifyResponseAuth (h : Hash) (commandCode : BitVec 32) (r : Reply) (handlesLen : Nat)
    (s : Session) (auth : List UInt8) : Option (BitVec 32 × Session × List (Nat × Nat)) :=
  let responseLen0 := sizeT (r.length + 2 ^ 32 - tpmResponseAuthLength)
  let responseAuth := r.length - tpmResponseAuthLength
  if !s.valid then some (tpmAuthfail, s, [])
  else if responseLen0 < tpmResponseHeaderLength then some (tpmLibError, s, [])
  else if r.length < tpmResponseAuthLength then none
  else
    let digest := h.sha1 (r.response.read 6 4 ++ bytesBe 4 commandCode.toNat ++
      if tpmResponseHeaderLength + handlesLen < responseLen0 then
        r.response.read (tpmResponseHeaderLength + handlesLen)
          (responseLen0 - tpmResponseHeaderLength - handlesLen)
      else [])
    let s := { s with nonceEven := fun i => r.response (responseAuth + i) }
    let hmacData := List.ofFn digest ++ List.ofFn s.nonceEven ++ List.ofFn s.nonceOdd ++
      [r.response (responseAuth + 20)]
    if List.ofFn (h.sha1Hmac auth hmacData) ≠ r.response.read (responseAuth + 21) digestLength then
      some (tpmAuthfail, s, [(responseAuth, digestLength)])
    else some (tpmSuccess, s, [(responseAuth, digestLength)])

/-! ## Responses -/

/-- What is done with a response whose return code is 0. -/
inductive Check where
  /-- nothing -/
  | none
  /-- a field is copied out -/
  | field (offset length : Fin 256)
  /-- C `tpm_nv_read_value` -/
  | nvRead (count : BitVec 32)
  /-- C `tpm_read_pubek` -/
  | pubek (count : BitVec 32)
  /-- C `tpm_get_capability` -/
  | capability (count : BitVec 32)
  /-- C `tpm_get_permanent_flags` -/
  | permanentFlags
  /-- C `tpm_oiap` -/
  | oiap
  /-- C `tpm_load_key2_oiap`, with whether the handle of the key is asked for -/
  | loadKey2 (s : Session) (auth : List UInt8) (keyHandle : Bool)
  /-- C `tpm_get_pub_key_oiap`, with the room for the key, if it is asked for -/
  | getPubKey (s : Session) (auth : List UInt8) (pubkeyLen : Option (BitVec 32))

/-- The code for an unpacking. -/
def unpacked (ok : Bool) : Option (BitVec 32) := some (if ok then 0 else tpmLibError)

/-- What is returned, and what is copied out of the response. It is not known what is returned if
other memory than the response was read. -/
def Check.run (h : Hash) (r : Reply) : Check → Option (BitVec 32) × List (Nat × Nat)
  | .none => (some 0, [])
  | .field offset length =>
    let u := unpackByteString r.length [(offset.1, length.1)]
    (unpacked u.1, u.2)
  | .nvRead count =>
    if !(unpackByteString r.length [(10, 4)]).1 then (some tpmLibError, [])
    else
      let dataSize := be32 r.response 10
      if count < dataSize then (some tpmLibError, [])
      else
        let u := unpackByteString r.length [(14, dataSize.toNat)]
        (unpacked u.1, u.2)
  | .pubek count =>
    if !(unpackByteString r.length [(2, 4)]).1 then (some tpmLibError, [])
    else
      let dataSize := be32 r.response 2
      let headerAndChecksumSize := tpmResponseHeaderLength + 20
      if dataSize.toNat < headerAndChecksumSize then (some tpmLibError, [])
      else
        let dataSize := dataSize.toNat - headerAndChecksumSize
        if count.toNat < dataSize then (some tpmLibError, [])
        else
          let u := unpackByteString r.length [(10, dataSize)]
          (unpacked u.1, u.2)
  | .capability count =>
    if !(unpackByteString r.length [(10, 4)]).1 then (some tpmLibError, [])
    else
      let capSize := be32 r.response 10
      if r.length < capSize.toNat ∨ count < capSize then (some tpmLibError, [])
      else
        let u := unpackByteString r.length [(14, capSize.toNat)]
        (unpacked u.1, u.2)
  | .permanentFlags => (some 0, [(tpmResponseHeaderLength, sizeofPermanentFlags)])
  | .oiap =>
    let u := unpackByteString r.length [(10, 4), (14, digestLength)]
    (unpacked u.1, u.2)
  | .loadKey2 s auth keyHandle =>
    match verifyResponseAuth h 0x41 r 4 s auth with
    | Option.none => (Option.none, [])
    | some (err, _, nonce) =>
      if err ≠ 0 then (some err, nonce)
      else if keyHandle then
        let u := unpackByteString r.length [(tpmResponseHeaderLength, 4)]
        (unpacked u.1, nonce ++ u.2)
      else (some 0, nonce)
  | .getPubKey s auth pubkeyLen =>
    match verifyResponseAuth h 0x21 r 0 s auth with
    | Option.none => (Option.none, [])
    | some (err, _, nonce) =>
      if err ≠ 0 then (some err, nonce)
      else
        match pubkeyLen with
        | Option.none => (some 0, nonce)
        | some room =>
          let length := sizeT (r.length + 2 ^ 32 - tpmResponseHeaderLength - tpmResponseAuthLength)
          if room.toNat < length then (some tpmLibError, nonce)
          else (some 0, nonce ++ [(tpmResponseHeaderLength, length)])

/-! ## Stages -/

/-- A call comes back without a transfer, or it is a transfer and a check of the response. -/
inductive Stage where
  | ended (code : BitVec 32)
  | asked (r : Reply) (check : Check)

/-- What is returned. -/
def Stage.code (h : Hash) : Stage → Option (BitVec 32)
  | ended code => some code
  | asked r check => if r.status ≠ 0 then some r.status else (check.run h r).1

/-- What is copied out of the response, in as many bytes as there are. -/
def Stage.copies (h : Hash) : Stage → List Access
  | ended _ => []
  | asked r check =>
    if r.status ≠ 0 then []
    else (check.run h r).2.map fun f => ⟨r.received, f.1, f.2⟩

/-- Most commands are packed, sent and checked. -/
def transfer (p : Bool × List Item) (size : Nat) (x : Exchange) (check : Check) : Stage :=
  if p.1 then .asked (tpmSendrecvCommand p.2 size x) check else .ended tpmLibError

end Imx.Tpm
