import Imx.Base.Mem

/-!
# The NFS client

Model of `net/nfs.c` without writing to flash. A `Client` holds the static variables of the file,
the memory with the path buffer and the loaded file, and the state of the network loop. A `long`
and a pointer have 32 bits; an `int` is an integer, an `unsigned` a number below `2 ^ 32`. What is
printed, the timer and the addresses of the hosts are left out.

A reply is copied into a structure on the stack first, so that what lies behind a short packet is
whatever the stack held: it is an argument of the reply functions.

C → Lean naming (drop the `nfs_` prefix): `nfs_server_mount_port` → `serverMountPort`;
`nfs_download_state` → `downloadState`; `STATE_PRCLOOKUP_PROG_MOUNT_REQ` → `Phase.lookupMount`;
`STATE_READ_REQ` → `Phase.read`, and so on.
-/

namespace Imx.Nfs
open Imx.Base

/-- An unsigned number of 32 bits. -/
def u32 (n : Nat) : Nat := n % 2 ^ 32

/-- The `int` with the bits of an unsigned number. -/
def toInt (n : Nat) : Int := if n < 2 ^ 31 then n else (n : Int) - 2 ^ 32

/-- The unsigned number with the bits of an `int`. -/
def toUnsigned (i : Int) : Nat := (i % 2 ^ 32).toNat

/-- A number as four bytes, the high one first (C `htonl`). -/
def htonl (n : Nat) : List UInt8 :=
  [UInt8.ofNat (n / 2 ^ 24), UInt8.ofNat (n / 2 ^ 16), UInt8.ofNat (n / 2 ^ 8), UInt8.ofNat n]

/-- The number in four bytes at an address (C `ntohl`). -/
def ntohl (m : Mem) (a : Nat) : Nat :=
  2 ^ 24 * (m a).toNat + 2 ^ 16 * (m (a + 1)).toNat + 2 ^ 8 * (m (a + 2)).toNat + (m (a + 3)).toNat

/-- The states of the protocol (C `STATE_*_REQ`). -/
inductive Phase where
  | lookupMount
  | lookupNfs
  | mount
  | umount
  | lookup
  | read
  | readlink
deriving DecidableEq, Repr

/-- The state of the network loop; `again` is a transfer given up by `net_start_again`. -/
inductive NetState where
  | continue
  | success
  | fail
  | again
deriving DecidableEq, Repr

/-- The variables of the client; `path` and `filename` are addresses. -/
structure Client where
  phase : Phase
  fsMounted : Bool
  rpcId : Nat
  offset : Int
  len : Int
  dirfh : List UInt8
  filefh : List UInt8
  downloadState : NetState
  serverMountPort : Int
  serverPort : Int
  ourPort : Nat
  timeoutCount : Nat
  path : Nat
  filename : Nat
  mem : Mem
  loadAddr : Nat
  netBootFileSize : Nat
  net : NetState

/-- A call that is sent. -/
structure Sent where
  prog : Nat
  proc : Nat
  id : Nat
  port : Int
  data : List UInt8
deriving DecidableEq, Repr

/-- The programs and their procedures (C `PROG_*`, `PORTMAP_*`, `MOUNT_*`, `NFS_*`). -/
def progPortmap : Nat := 100000
def progNfs : Nat := 100003
def progMount : Nat := 100005
def portmapGetport : Nat := 3
def mountAddentry : Nat := 1
def mountUmountall : Nat := 4
def nfsLookup : Nat := 4
def nfsReadlink : Nat := 5
def nfsRead : Nat := 6

/-- The port of the portmapper (C `SUNRPC_PORT`). -/
def sunrpcPort : Int := 111

/-- The length of a file handle (C `NFS_FHSIZE`). -/
def fhsize : Nat := 32

/-- The bytes asked for in a read (C `NFS_READ_SIZE`). -/
def readSize : Int := 1024

/-- A reply to a call that was not made yet (C `NFS_RPC_ERR`). -/
def rpcErr : Int := 1
/-- A reply to an earlier call (C `NFS_RPC_DROP`). -/
def rpcDrop : Int := 124

/-- The errors that stand for a link (C `NFSERR_ISDIR`, `NFSERR_INVAL`). -/
def errIsdir : Int := 21
def errInval : Int := 22

/-- The most timeouts in a row (C `NFS_RETRY_COUNT`). -/
def retryCount : Nat := 30

/-! ## Paths -/

/-- The string at an address of the path buffer, which has 2048 bytes. -/
def cstr (m : Mem) (a : Nat) : List UInt8 := (m.read a 2048).takeWhile (· != 0)

/-- The loop of `basename` over the last `n` characters: the address behind the last slash, or the
one in front of the path. -/
def basenameLoop (m : Mem) (path : Nat) : Nat → Nat
  | 0 => path - 1
  | n + 1 => if m (path + n) = 47 then path + n + 1 else basenameLoop m path n

/-- The file name in a path (C `basename`). -/
def basename (m : Mem) (path : Nat) : Nat := basenameLoop m path (cstr m path).length

/-- Cut the file name off a path (C `dirname`, which returns the path). -/
def dirname (m : Mem) (path : Nat) : Mem := m.write (basename m path - 1) [0]

namespace Client

/-- Put a block of the file in its place (C `store_block`). -/
def storeBlock (c : Client) (src : List UInt8) (offset : Nat) : Client :=
  let newsize := u32 (offset + src.length)
  { c with
    mem := c.mem.write (u32 (c.loadAddr + offset)) src
    netBootFileSize := if c.netBootFileSize < newsize then newsize else c.netBootFileSize }

/-! ## Requests -/

/-- The credentials and the verifier of every call but those to the portmapper
(C `rpc_add_credentials`). -/
def credentials : List UInt8 := [1, 20, 0, 0, 0, 0, 0, 0, 0].flatMap htonl

/-- A string in a call: its length, then its bytes filled up to a multiple of four. -/
def rpcString (s : List UInt8) : List UInt8 :=
  htonl s.length ++ s ++ List.replicate ((4 - s.length % 4) % 4) 0

/-- Send a call under the next id (C `rpc_req`). -/
def rpcReq (c : Client) (prog proc : Nat) (data : List UInt8) : Client × List Sent :=
  let c := { c with rpcId := u32 (c.rpcId + 1) }
  let port := if prog = progPortmap then sunrpcPort
    else if prog = progMount then c.serverMountPort
    else c.serverPort
  (c, [{ prog, proc, id := c.rpcId, port, data }])

/-- Ask for the port of a program (C `rpc_lookup_req`). -/
def rpcLookupReq (c : Client) (prog ver : Nat) : Client × List Sent :=
  c.rpcReq progPortmap portmapGetport ([0, 0, 0, 0, prog, ver, 17, 0].flatMap htonl)

/-- Mount the directory (C `nfs_mount_req`). -/
def mountReq (c : Client) : Client × List Sent :=
  c.rpcReq progMount mountAddentry (credentials ++ rpcString (cstr c.mem c.path))

/-- Unmount what is mounted (C `nfs_umountall_req`). -/
def umountallReq (c : Client) : Client × List Sent :=
  if c.serverMountPort = -1 ∨ ¬ c.fsMounted then (c, [])
  else c.rpcReq progMount mountUmountall credentials

/-- Read the link (C `nfs_readlink_req`). -/
def readlinkReq (c : Client) : Client × List Sent :=
  c.rpcReq progNfs nfsReadlink (credentials ++ c.filefh)

/-- Look the file up (C `nfs_lookup_req`). -/
def lookupReq (c : Client) : Client × List Sent :=
  c.rpcReq progNfs nfsLookup (credentials ++ c.dirfh ++ rpcString (cstr c.mem c.filename))

/-- Read from the file (C `nfs_read_req`). -/
def readReq (c : Client) : Client × List Sent :=
  c.rpcReq progNfs nfsRead
    (credentials ++ c.filefh ++ htonl (toUnsigned c.offset) ++ htonl (toUnsigned c.len) ++ htonl 0)

/-- Send what the phase asks for (C `nfs_send`). -/
def send (c : Client) : Client × List Sent :=
  match c.phase with
  | .lookupMount => c.rpcLookupReq progMount 1
  | .lookupNfs => c.rpcLookupReq progNfs 2
  | .mount => c.mountReq
  | .umount => c.umountallReq
  | .lookup => c.lookupReq
  | .read => c.readReq
  | .readlink => c.readlinkReq

/-- Go to another phase and send what it asks for. -/
def goto (c : Client) (phase : Phase) : Client × List Sent := { c with phase }.send

/-! ## Replies

The fields of a reply are its id, type, `rstatus`, `verifier`, `v2` and `astatus`, four bytes each,
then the data. -/

/-- The structure on the stack after a reply of `len` bytes was copied into it. -/
def rpcPkt (stack pkt : Mem) (len : Nat) : Mem := stack.write 0 (pkt.read 0 len)

/-- A word of the data of a reply. -/
def replyData (r : Mem) (i : Nat) : Nat := ntohl r (24 + 4 * i)

/-- The size of a reply with its data (C `sizeof(rpc_pkt.u.reply)`). -/
def replySize : Nat := 100

/-- The first test of every reply function: a reply to another call than the last one. -/
def wrongId (c : Client) (r : Mem) : Option Int :=
  if ntohl r 0 > c.rpcId then some (-rpcErr)
  else if ntohl r 0 < c.rpcId then some (-rpcDrop)
  else none

/-- The call was refused. -/
def refused (r : Mem) : Bool := ntohl r 8 ≠ 0 ∨ ntohl r 12 ≠ 0 ∨ ntohl r 20 ≠ 0

/-- C `rpc_lookup_reply`. -/
def rpcLookupReply (c : Client) (prog : Nat) (r : Mem) : Client × Int :=
  match c.wrongId r with
  | some ret => (c, ret)
  | none =>
    if refused r then (c, -1)
    else if prog = progMount then ({ c with serverMountPort := toInt (replyData r 0) }, 0)
    else if prog = progNfs then ({ c with serverPort := toInt (replyData r 0) }, 0)
    else (c, 0)

/-- C `nfs_mount_reply`. -/
def mountReply (c : Client) (r : Mem) : Client × Int :=
  match c.wrongId r with
  | some ret => (c, ret)
  | none =>
    if refused r ∨ replyData r 0 ≠ 0 then (c, -1)
    else ({ c with fsMounted := true, dirfh := r.read 28 fhsize }, 0)

/-- C `nfs_umountall_reply`. -/
def umountallReply (c : Client) (r : Mem) : Client × Int :=
  match c.wrongId r with
  | some ret => (c, ret)
  | none =>
    if refused r then (c, -1)
    else ({ c with fsMounted := false, dirfh := List.replicate fhsize 0 }, 0)

/-- C `nfs_lookup_reply`. -/
def lookupReply (c : Client) (r : Mem) : Client × Int :=
  match c.wrongId r with
  | some ret => (c, ret)
  | none =>
    if refused r ∨ replyData r 0 ≠ 0 then (c, -1)
    else ({ c with filefh := r.read 28 fhsize }, 0)

/-- The path a link leads to: its text goes behind the path and a slash, or in its place if it
begins with a slash. -/
def followLink (m : Mem) (path : Nat) (link : List UInt8) (absolute : Bool) : Mem :=
  if absolute then m.write path (link ++ [0])
  else m.write (path + (cstr m path).length) (47 :: link ++ [0])

/-- C `nfs_readlink_reply`. -/
def readlinkReply (c : Client) (r : Mem) : Client × Int :=
  match c.wrongId r with
  | some ret => (c, ret)
  | none =>
    if refused r ∨ replyData r 0 ≠ 0 then (c, -1)
    else
      let link := r.read 32 (replyData r 1)
      ({ c with mem := followLink c.mem c.path link (r 32 = 47) }, 0)

/-- C `nfs_read_reply`, with the reply copied from the packet whatever its length; the data behind
the reply are stored from the packet itself. -/
def readReply (c : Client) (r pkt : Mem) : Client × Int :=
  match c.wrongId r with
  | some ret => (c, ret)
  | none =>
    if refused r ∨ replyData r 0 ≠ 0 then
      if ntohl r 8 ≠ 0 then (c, -9999)
      else if ntohl r 20 ≠ 0 then (c, -9999)
      else (c, toInt (u32 (2 ^ 32 - replyData r 0)))
    else
      let rlen := replyData r 18
      (c.storeBlock (pkt.read replySize rlen) (toUnsigned c.offset), toInt rlen)

/-! ## Events -/

/-- The answer to the reply of a phase in which a wrong id ends the transfer: drop it, unmount, or
go on. -/
def afterReply (c : Client) (reply : Int) (ok : Client → Client × List Sent) : Client × List Sent :=
  if reply = -rpcDrop then (c, [])
  else if reply = -rpcErr then c.goto .umount
  else ok c

/-- A reply arrives while a read is waited for (C `case STATE_READ_REQ`). -/
def handleRead (c : Client) (r pkt : Mem) : Client × List Sent :=
  let (c, rlen) := c.readReply r pkt
  if rlen > 0 then { c with offset := c.offset + rlen }.send
  else if rlen = -errIsdir ∨ rlen = -errInval then c.goto .readlink
  else
    let c := if rlen = 0 then { c with downloadState := .success } else c
    c.goto .umount

/-- A packet of `len` bytes arrives (C `nfs_handler`). -/
def handler (c : Client) (stack pkt : Mem) (dest len : Nat) : Client × List Sent :=
  if dest ≠ c.ourPort then (c, [])
  else
    let r := rpcPkt stack pkt len
    match c.phase with
    | .lookupMount =>
      let (c, reply) := c.rpcLookupReply progMount r
      if reply = -rpcDrop then (c, []) else c.goto .lookupNfs
    | .lookupNfs =>
      let (c, reply) := c.rpcLookupReply progNfs r
      if reply = -rpcDrop then (c, []) else c.goto .mount
    | .mount =>
      let (c, reply) := c.mountReply r
      c.afterReply reply fun c => c.goto .lookup
    | .umount =>
      let (c, reply) := c.umountallReply r
      if reply = -rpcDrop then (c, [])
      else if reply = -rpcErr then ({ c with net := .fail }, [])
      else ({ c with net := c.downloadState }, [])
    | .lookup =>
      let (c, reply) := c.lookupReply r
      c.afterReply reply fun c => { c with offset := 0, len := readSize }.goto .read
    | .readlink =>
      let (c, reply) := c.readlinkReply r
      c.afterReply reply fun c =>
        { c with filename := basename c.mem c.path, mem := dirname c.mem c.path }.goto .mount
    | .read => c.handleRead (rpcPkt stack pkt replySize) pkt

/-- The timer expires (C `nfs_timeout_handler`). -/
def timeout (c : Client) : Client × List Sent :=
  let c := { c with timeoutCount := c.timeoutCount + 1 }
  if c.timeoutCount > retryCount then ({ c with net := .again }, []) else c.send

/-- The path of the file: the boot file name behind the address of the server if it has one, or
the default name. -/
def bootPath (name defaultFilename : List UInt8) : List UInt8 :=
  if name = [] then defaultFilename
  else
    match name.dropWhile (· != 58) with
    | [] => name
    | _ :: p => p

/-- A transfer begins; the path goes to `pathBuff` (C `nfs_start`). -/
def start (c : Client) (pathBuff : Nat) (name defaultFilename : List UInt8) : Client × List Sent :=
  let mem := c.mem.write pathBuff (bootPath name defaultFilename ++ [0])
  { c with
    downloadState := .fail
    path := pathBuff
    filename := basename mem pathBuff
    mem := dirname mem pathBuff
    timeoutCount := 0
    ourPort := 1000
    net := .continue }.goto .lookupMount

end Client

end Imx.Nfs
