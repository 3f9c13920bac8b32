import Imx.Nfs.Stale

/-!
# Replies and buffers

Which bytes the reply functions of `net/nfs.c` read and write. `accesses` lists them in the order of
the source, `Contained` says that all of them lie in their buffers and that a link leaves the path a
string in its buffer, and `Roomy` is what a packet must be for that: nothing in the code checks it.
`contained_iff` is about whole runs, in which a path grows through the links that were followed.
-/

namespace Imx.Nfs
open Imx.Base

/-- What the reply functions work on: the packet, its copy on the stack, a file handle, the path
buffer, and the place of the block that is stored. -/
inductive Buffer where
  | packet
  | reply
  | handle
  | path
  | block
deriving DecidableEq, Repr

/-- A range of bytes that is read or written, counted from the beginning of the buffer. -/
structure Access where
  buffer : Buffer
  start : Int
  len : Nat
deriving DecidableEq, Repr

/-- The bytes of the copy on the stack (C `sizeof(struct rpc_t)`). -/
def rpcSize : Nat := 2048

/-- The bytes of the path buffer (C `nfs_path_buff`). -/
def pathSize : Nat := 2048

/-- The bytes of a buffer when a packet of `len` bytes has arrived: a block has those that arrived
behind the reply. -/
def Buffer.size (len : Nat) : Buffer → Nat
  | packet => len
  | reply => rpcSize
  | handle => fhsize
  | path => pathSize
  | block => len - Client.replySize

/-- The access lies in its buffer. -/
def Access.Inside (len : Nat) (a : Access) : Prop :=
  0 ≤ a.start ∧ a.start + a.len ≤ a.buffer.size len

/-- The path is a string in its buffer. -/
def Terminated (pathBuff : Nat) (m : Mem) : Prop := ∃ i < pathSize, m (pathBuff + i) = 0

/-- The accesses of a `memcpy`. -/
def memcpy (src : Buffer) (s : Int) (dst : Buffer) (d : Int) (n : Nat) : List Access :=
  [⟨src, s, n⟩, ⟨dst, d, n⟩]

/-- Words of a reply are read until one is not 0. -/
def tests (r : Mem) : List Nat → List Access
  | [] => []
  | a :: as => ⟨.reply, a, 4⟩ :: if ntohl r a = 0 then tests r as else []

namespace Client

section
variable (c : Client) (r : Mem)

/-- The accesses of a reply function that copies `n` bytes, looks at the id and at the words that
say whether the call failed, and does `no` or `yes` then. -/
def parse (n : Nat) (words : List Nat) (no yes : List Access) : List Access :=
  memcpy .packet 0 .reply 0 n ++ ⟨.reply, 0, 4⟩ ::
    match c.wrongId r with
    | some _ => []
    | none => tests r words ++ if words.all fun a => ntohl r a = 0 then yes else no

/-- The accesses of C `rpc_lookup_reply`. -/
def rpcLookupReplyAccesses (len : Nat) : List Access :=
  c.parse r len [8, 12, 20] [] [⟨.reply, 24, 4⟩]

/-- The accesses of C `nfs_mount_reply`. -/
def mountReplyAccesses (len : Nat) : List Access :=
  c.parse r len [8, 12, 20, 24] [] (memcpy .reply 28 .handle 0 fhsize)

/-- The accesses of C `nfs_umountall_reply`. -/
def umountallReplyAccesses (len : Nat) : List Access :=
  c.parse r len [8, 12, 20] [] [⟨.handle, 0, fhsize⟩]

/-- The accesses of C `nfs_lookup_reply`. -/
def lookupReplyAccesses (len : Nat) : List Access :=
  c.parse r len [8, 12, 20, 24] [] (memcpy .reply 28 .handle 0 fhsize)

/-- The accesses that put a link in the path buffer. -/
def linkAccesses (pathBuff : Nat) : List Access :=
  let rlen := replyData r 1
  let path : Int := c.path - pathBuff
  ⟨.reply, 28, 4⟩ :: ⟨.reply, 32, 1⟩ ::
    if r 32 ≠ 47 then
      let pathlen := (cstr c.mem c.path).length
      -- `strcat` finds the end of the path and writes the slash, `strlen` finds the new end
      [⟨.path, path, pathlen + 1⟩, ⟨.path, path + pathlen, 2⟩, ⟨.path, path, pathlen + 2⟩] ++
        memcpy .reply 32 .path (path + pathlen + 1) rlen ++
        [⟨.path, path + pathlen + 1 + toInt rlen, 1⟩]
    else memcpy .reply 32 .path path rlen ++ [⟨.path, path + toInt rlen, 1⟩]

/-- The accesses of C `nfs_readlink_reply`. -/
def readlinkReplyAccesses (pathBuff len : Nat) : List Access :=
  c.parse r len [8, 12, 20, 24] [] (c.linkAccesses r pathBuff)

/-- The accesses of C `nfs_read_reply`, which does not look at the length of the packet. -/
def readReplyAccesses : List Access :=
  c.parse r replySize [8, 12, 20, 24] (tests r [8, 20, 24])
    (⟨.reply, 96, 4⟩ :: memcpy .packet replySize .block 0 (replyData r 18))

end

section
variable (pathBuff : Nat) (c : Client) (stack pkt : Mem) (dest len : Nat)

/-- The accesses of the reply function that `nfs_handler` calls. -/
def accesses : List Access :=
  if dest ≠ c.ourPort then []
  else
    let r := rpcPkt stack pkt len
    match c.phase with
    | .lookupMount => c.rpcLookupReplyAccesses r len
    | .lookupNfs => c.rpcLookupReplyAccesses r len
    | .mount => c.mountReplyAccesses r len
    | .umount => c.umountallReplyAccesses r len
    | .lookup => c.lookupReplyAccesses r len
    | .readlink => c.readlinkReplyAccesses r pathBuff len
    | .read => c.readReplyAccesses (rpcPkt stack pkt replySize)

/-- A packet stays in the buffers, and a link leaves the path a string. -/
def Contained : Prop :=
  (∀ a ∈ c.accesses pathBuff stack pkt dest len, a.Inside len) ∧
    (dest = c.ourPort → c.phase = .readlink → (c.readlinkReply (rpcPkt stack pkt len)).2 = 0 →
      Terminated pathBuff (c.readlinkReply (rpcPkt stack pkt len)).1.mem)

/-- The reply is to the last call, and the call did not fail. -/
def Accepted (r : Mem) : Prop :=
  c.wrongId r = none ∧ ¬ (refused r ∨ replyData r 0 ≠ 0)

/-- The packet has room: it fits in its copy; a link fits there and, behind the path if it is a
relative one, in the path buffer; a block that is read is as long as the reply tells. -/
def Roomy : Prop :=
  dest = c.ourPort →
    match c.phase with
    | .readlink => len ≤ rpcSize ∧
        (c.Accepted (rpcPkt stack pkt len) →
          32 + replyData (rpcPkt stack pkt len) 1 ≤ rpcSize ∧
          (rpcPkt stack pkt len 32 ≠ 47 →
            (cstr c.mem c.path).length + 1 + replyData (rpcPkt stack pkt len) 1 < pathSize))
    | .read => replySize ≤ len ∧
        (c.Accepted (rpcPkt stack pkt replySize) →
          replySize + replyData (rpcPkt stack pkt replySize) 18 ≤ len)
    | _ => len ≤ rpcSize

end

variable {c : Client} {r stack pkt : Mem} {dest len n pathBuff : Nat} {words : List Nat}
  {no yes : List Access}

/-! ## One packet -/

/-- The words that are tested lie in the copy. -/
lemma tests_inside (low : ∀ a ∈ words, a + 4 ≤ rpcSize) : ∀ a ∈ tests r words, a.Inside len := by
  induction words with
  | nil => exact fun a h => absurd h List.not_mem_nil
  | cons w words ih =>
    intro a h
    rw [tests] at h
    have here := low w (.head _)
    obtain rfl | h := List.mem_cons.mp h
    · simp only [Access.Inside, Buffer.size]
      omega
    · split at h
      · exact ih (fun a h => low a (.tail _ h)) a h
      · exact absurd h List.not_mem_nil

/-- What a reply function does after its tests decides, if the copy is good. -/
lemma parse_inside (low : ∀ a ∈ words, a + 4 ≤ rpcSize) (failed : ∀ a ∈ no, a.Inside len) :
    (∀ a ∈ c.parse r n words no yes, a.Inside len) ↔ (n ≤ len ∧ n ≤ rpcSize) ∧
      (c.wrongId r = none → (∀ a ∈ words, ntohl r a = 0) → ∀ a ∈ yes, a.Inside len) := by
  have all : (words.all fun a => decide (ntohl r a = 0)) = true ↔ ∀ a ∈ words, ntohl r a = 0 := by
    simp only [List.all_eq_true, decide_eq_true_eq]
  have id : Access.Inside len ⟨.reply, 0, 4⟩ := by
    simp [Access.Inside, Buffer.size, rpcSize]
  have copied : (∀ a ∈ memcpy .packet 0 .reply 0 n, a.Inside len) ↔ n ≤ len ∧ n ≤ rpcSize := by
    simp only [memcpy, List.forall_mem_cons, Access.Inside, Buffer.size]
    constructor
    · rintro ⟨⟨-, l⟩, ⟨-, s⟩, -⟩
      omega
    · rintro ⟨l, s⟩
      exact ⟨⟨Int.le_refl 0, by omega⟩, ⟨Int.le_refl 0, by omega⟩,
        fun a h => absurd h List.not_mem_nil⟩
  rw [parse, List.forall_mem_append, List.forall_mem_cons, copied, and_iff_right id]
  apply and_congr_right
  intro _
  cases c.wrongId r with
  | some e =>
    exact iff_of_true (fun a h => absurd h List.not_mem_nil) (fun h => absurd h (by simp))
  | none =>
    simp only [List.forall_mem_append]
    rw [and_iff_right (tests_inside low), true_implies]
    by_cases ok : ∀ a ∈ words, ntohl r a = 0
    · rw [if_pos (all.mpr ok), imp_iff_right ok]
    · rw [if_neg (mt all.mp ok)]
      exact iff_of_true failed fun h => absurd h ok

/-- The four words that most functions test. -/
lemma accepted_iff : c.Accepted r ↔
    c.wrongId r = none ∧ ∀ a ∈ [8, 12, 20, 24], ntohl r a = 0 := by
  rw [Accepted]
  simp only [refused, replyData, Nat.mul_zero, Nat.add_zero, List.forall_mem_cons, not_or,
    ne_eq, not_not, decide_eq_true_eq]
  constructor
  · rintro ⟨id, ⟨a, b, d⟩, e⟩
    exact ⟨id, a, b, d, e, fun a h => absurd h List.not_mem_nil⟩
  · rintro ⟨id, a, b, d, e, -⟩
    exact ⟨id, ⟨a, b, d⟩, e⟩

/-- A link stays in the buffers when it fits in the copy, and behind the path. -/
lemma linkAccesses_inside (path : c.path = pathBuff) :
    (∀ a ∈ c.linkAccesses r pathBuff, a.Inside len) ↔ 32 + replyData r 1 ≤ rpcSize ∧
      (r 32 ≠ 47 → (cstr c.mem c.path).length + 1 + replyData r 1 < pathSize) := by
  have int : replyData r 1 ≤ rpcSize → toInt (replyData r 1) = replyData r 1 := by
    intro le
    rw [toInt, if_pos]
    exact Nat.lt_of_le_of_lt le (by decide)
  have zero : (c.path : Int) - pathBuff = 0 := by omega
  have none : ∀ a ∈ ([] : List Access), a.Inside len := fun a h => absurd h List.not_mem_nil
  simp only [linkAccesses, zero, memcpy, rpcSize, pathSize] at int ⊢
  by_cases slash : r 32 = 47
  · simp only [slash, ne_eq, not_true_eq_false, if_false, List.forall_mem_cons, List.cons_append,
      List.nil_append, Access.Inside, Buffer.size, rpcSize, pathSize, false_implies, and_true]
    constructor
    · rintro ⟨-, -, ⟨-, s⟩, -⟩
      omega
    · intro le
      have int := int (by omega)
      exact ⟨by omega, by omega, by omega, by omega, by omega, none⟩
  · simp only [slash, ne_eq, not_false_eq_true, if_true, List.forall_mem_cons, List.cons_append,
      List.nil_append, Access.Inside, Buffer.size, rpcSize, pathSize, true_implies]
    constructor
    · rintro ⟨-, -, -, -, -, ⟨-, s⟩, -, ⟨-, e⟩, -⟩
      have int := int (by omega)
      omega
    · rintro ⟨le, room⟩
      have int := int (by omega)
      exact ⟨by omega, by omega, by omega, by omega, by omega, by omega, by omega, by omega, none⟩

/-- A block that is read stays in the buffers when all of it has arrived. -/
lemma block_inside {rlen : Nat} (copied : replySize ≤ len) :
    (∀ a ∈ ⟨.reply, 96, 4⟩ :: memcpy .packet replySize .block 0 rlen, a.Inside len) ↔
      replySize + rlen ≤ len := by
  simp only [memcpy, List.forall_mem_cons, Access.Inside, Buffer.size, rpcSize]
  constructor
  · rintro ⟨-, ⟨-, s⟩, -⟩
    omega
  · intro le
    exact ⟨by omega, by omega, by omega, fun a h => absurd h List.not_mem_nil⟩

/-- What the functions without a length of their own do after their tests stays in the buffers. -/
lemma handle_inside : (∀ a ∈ memcpy .reply 28 .handle 0 fhsize, a.Inside len) := by
  simp only [memcpy, List.forall_mem_cons, Access.Inside, Buffer.size, rpcSize, fhsize]
  exact ⟨by omega, by omega, fun a h => absurd h List.not_mem_nil⟩

/-- A link is copied when it was accepted. -/
lemma readlinkReply_ok (ok : (c.readlinkReply r).2 = 0) : c.Accepted r ∧
    (c.readlinkReply r).1.mem =
      followLink c.mem c.path (r.read 32 (replyData r 1)) (r 32 = 47) := by
  have err : -rpcErr ≠ 0 := by decide
  have drop : -rpcDrop ≠ 0 := by decide
  rw [Accepted]
  rw [readlinkReply] at ok ⊢
  cases id : c.wrongId r with
  | some e =>
    rw [id] at ok
    simp only [wrongId] at id ok
    split at id
    · exact absurd ((Option.some.inj id).trans ok) err
    · split at id
      · exact absurd ((Option.some.inj id).trans ok) drop
      · cases id
  | none =>
    rw [id] at ok
    simp only at ok ⊢
    split at ok
    case isTrue => exact absurd ok (show (-1 : Int) ≠ 0 by decide)
    case isFalse accepted =>
      rw [if_neg accepted]
      exact ⟨⟨trivial, accepted⟩, rfl⟩

/-- A link that fits leaves the path a string: a 0 is put behind it. -/
lemma followLink_terminated {m : Mem} {link : List UInt8} {absolute : Bool}
    (fits : link.length < pathSize)
    (room : absolute = false → (cstr m pathBuff).length + 1 + link.length < pathSize) :
    Terminated pathBuff (followLink m pathBuff link absolute) := by
  rw [followLink]
  cases absolute with
  | true =>
    refine ⟨link.length, fits, ?_⟩
    rw [if_pos rfl, Mem.write_at (by simp)]
    simp
  | false =>
    refine ⟨(cstr m pathBuff).length + (link.length + 1), ?_, ?_⟩
    · have room := room rfl
      omega
    · rw [if_neg Bool.false_ne_true, ← Nat.add_assoc, Mem.write_at (by simp)]
      simp

/-- A packet stays in the buffers exactly when it has room. -/
lemma contained_iff_roomy (path : c.path = pathBuff) :
    c.Contained pathBuff stack pkt dest len ↔ c.Roomy stack pkt dest len := by
  have none : ∀ a ∈ ([] : List Access), a.Inside len := fun a h => absurd h List.not_mem_nil
  have low3 : ∀ a ∈ [8, 12, 20], a + 4 ≤ rpcSize := by decide
  have low4 : ∀ a ∈ [8, 12, 20, 24], a + 4 ≤ rpcSize := by decide
  -- a function that reads the copy only, or fills a file handle, asks for no more than the copy
  have plain {r words yes} (low : ∀ a ∈ words, a + 4 ≤ rpcSize) (ok : ∀ a ∈ yes, a.Inside len) :
      (∀ a ∈ c.parse r len words [] yes, a.Inside len) ↔ len ≤ rpcSize := by
    rw [parse_inside low none, and_iff_left fun _ _ => ok, and_iff_right (Nat.le_refl len)]
  have port' : ∀ a ∈ [Access.mk .reply 24 4], a.Inside len := by
    simp only [List.forall_mem_cons, Access.Inside, Buffer.size, rpcSize]
    exact ⟨by omega, none⟩
  have cleared : ∀ a ∈ [Access.mk .handle 0 fhsize], a.Inside len := by
    simp only [List.forall_mem_cons, Access.Inside, Buffer.size]
    exact ⟨by omega, none⟩
  rw [Contained, Roomy, accesses]
  by_cases port : dest = c.ourPort
  swap
  · rw [if_pos port]
    exact iff_of_true ⟨none, fun h => absurd h port⟩ fun h => absurd h port
  rw [if_neg (not_not.mpr port), imp_iff_right port, imp_iff_right port]
  cases ph : c.phase with
  | lookupMount => exact (and_iff_left fun h => by cases h).trans (plain low3 port')
  | lookupNfs => exact (and_iff_left fun h => by cases h).trans (plain low3 port')
  | mount => exact (and_iff_left fun h => by cases h).trans (plain low4 handle_inside)
  | umount => exact (and_iff_left fun h => by cases h).trans (plain low3 cleared)
  | lookup => exact (and_iff_left fun h => by cases h).trans (plain low4 handle_inside)
  | read =>
    refine (and_iff_left fun h => by cases h).trans ?_
    simp only [readReplyAccesses]
    rw [parse_inside low4 (tests_inside (by decide)), accepted_iff, and_imp,
      and_iff_left (show replySize ≤ rpcSize by decide)]
    apply and_congr_right
    intro copied
    rw [block_inside copied]
  | readlink =>
    simp only [true_implies]
    rw [readlinkReplyAccesses, parse_inside low4 none, linkAccesses_inside path,
      and_iff_right (Nat.le_refl len), and_assoc, accepted_iff, and_imp]
    apply and_congr_right
    intro _
    rw [and_iff_left_iff_imp]
    intro fits ok
    obtain ⟨accepted, mem⟩ := readlinkReply_ok ok
    obtain ⟨id, words⟩ := accepted_iff.mp accepted
    obtain ⟨small, room⟩ := fits id words
    rw [mem, path]
    apply followLink_terminated
    · rw [Mem.length_read]
      simp only [rpcSize, pathSize] at small ⊢
      omega
    · intro relative
      rw [Mem.length_read, ← path]
      exact room (of_decide_eq_false relative)

/-! ## Runs -/

/-- Sending leaves the path where it is. -/
lemma send_path : c.send.1.path = c.path := by
  rw [send]
  cases c.phase with
  | umount =>
    simp only [umountallReq]
    split
    · rfl
    · rfl
  | _ => rfl

lemma goto_path {phase : Phase} : (c.goto phase).1.path = c.path := send_path

/-- A reply function that looks at the id first leaves the path where it is, if what it does then
does. -/
lemma reply_path {res : Client × Int} (keeps : res.1.path = c.path) :
    (match c.wrongId r with
      | some ret => (c, ret)
      | none => res).1.path = c.path := by
  cases c.wrongId r with
  | some ret => rfl
  | none => exact keeps

lemma rpcLookupReply_path {prog : Nat} : (c.rpcLookupReply prog r).1.path = c.path := by
  apply reply_path
  split
  · rfl
  · split
    · rfl
    · split
      · rfl
      · rfl

lemma mountReply_path : (c.mountReply r).1.path = c.path := by
  apply reply_path
  split
  · rfl
  · rfl

lemma umountallReply_path : (c.umountallReply r).1.path = c.path := by
  apply reply_path
  split
  · rfl
  · rfl

lemma lookupReply_path : (c.lookupReply r).1.path = c.path := by
  apply reply_path
  split
  · rfl
  · rfl

lemma readlinkReply_path : (c.readlinkReply r).1.path = c.path := by
  apply reply_path
  split
  · rfl
  · rfl

lemma readReply_path : (c.readReply r pkt).1.path = c.path := by
  apply reply_path
  split
  · split
    · rfl
    · split
      · rfl
      · rfl
  · rfl

/-- What follows a reply leaves the path where it is. -/
lemma afterReply_path {reply : Int} {ok : Client → Client × List Sent}
    (keeps : (ok c).1.path = c.path) : (c.afterReply reply ok).1.path = c.path := by
  rw [afterReply]
  split
  · rfl
  · split
    · exact goto_path
    · exact keeps

/-- A packet leaves the path where it is. -/
lemma handler_path : (c.handler stack pkt dest len).1.path = c.path := by
  rw [handler]
  split
  · rfl
  cases c.phase with
  | lookupMount =>
    simp only
    split
    · exact rpcLookupReply_path
    · exact goto_path.trans rpcLookupReply_path
  | lookupNfs =>
    simp only
    split
    · exact rpcLookupReply_path
    · exact goto_path.trans rpcLookupReply_path
  | mount =>
    refine (afterReply_path ?_).trans (mountReply_path (r := rpcPkt stack pkt len))
    exact goto_path
  | umount =>
    simp only
    split
    · exact umountallReply_path
    · split
      · exact umountallReply_path
      · exact umountallReply_path
  | lookup =>
    refine (afterReply_path ?_).trans (lookupReply_path (r := rpcPkt stack pkt len))
    exact goto_path
  | readlink =>
    refine (afterReply_path ?_).trans (readlinkReply_path (r := rpcPkt stack pkt len))
    exact goto_path
  | read =>
    simp only [handleRead]
    split
    · exact send_path.trans readReply_path
    · split
      · exact goto_path.trans readReply_path
      · split
        · exact goto_path.trans readReply_path
        · exact goto_path.trans readReply_path

lemma timeout_path : c.timeout.1.path = c.path := by
  rw [timeout]
  simp only
  split
  · rfl
  · exact send_path

/-- A transfer begins with the path in its buffer. -/
lemma start_path {name defaultFilename : List UInt8} :
    (c.start pathBuff name defaultFilename).1.path = pathBuff := by
  rw [start]
  exact goto_path

end Client

variable {s : State} {e : Event} {es : List Event} {pathBuff : Nat}

lemma step_path : (step s e).1.path = s.1.path := by
  cases e with
  | packet stack pkt dest len => exact Client.handler_path
  | timeout => exact Client.timeout_path

/-- A packet stays in the buffers. -/
def Contained (pathBuff : Nat) (s : State) : Event → Prop
  | .packet stack pkt dest len => s.1.Contained pathBuff stack pkt dest len
  | .timeout => True

/-- A packet has room. -/
def Roomy (s : State) : Event → Prop
  | .packet stack pkt dest len => s.1.Roomy stack pkt dest len
  | .timeout => True

/-- In every run all packets stay in the buffers exactly when each of them has room in the state it
arrives in. -/
theorem contained_iff (path : s.1.path = pathBuff) :
    Along (Contained pathBuff) step s es ↔ Along Roomy step s es := by
  have here {s : State} {e : Event} (path : s.1.path = pathBuff) :
      Contained pathBuff s e ↔ Roomy s e := by
    cases e with
    | packet stack pkt dest len => exact Client.contained_iff_roomy path
    | timeout => exact Iff.rfl
  constructor
  · intro run
    refine run.guarantee (P := fun s => s.1.path = pathBuff) path ?_
    intro s e path ok
    exact ⟨(here path).mp ok, step_path.trans path⟩
  · intro run
    refine run.guarantee (P := fun s => s.1.path = pathBuff) path ?_
    intro s e path ok
    exact ⟨(here path).mpr ok, step_path.trans path⟩

/-- A read that is answered in full. -/
theorem contained_iff_read : Along (Contained 4096) step (Client.waiting .read, [])
      [.packet Mem.zero (Mem.zero.write 0 (htonl 7)) 1000 100] ↔
    Along Roomy step (Client.waiting .read, [])
      [.packet Mem.zero (Mem.zero.write 0 (htonl 7)) 1000 100] :=
  contained_iff rfl

/-- A reply of 100 bytes that tells of a block of 1024. -/
def boast : Mem := (Mem.zero.write 0 (htonl 7)).write 96 (htonl 1024)

/-- The block is stored, although none of it has arrived. -/
theorem not_contained_boast :
    ¬ Along (Contained 4096) step (Client.waiting .read, []) [.packet Mem.zero boast 1000 100] := by
  rintro ⟨⟨inside, -⟩, -⟩
  have stored : (⟨.block, 0, 1024⟩ : Access) ∈
      (Client.waiting .read).accesses 4096 Mem.zero boast 1000 100 := by decide
  exact absurd (inside _ stored).2 (by decide)

end Imx.Nfs
