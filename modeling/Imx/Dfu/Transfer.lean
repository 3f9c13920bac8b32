import Imx.Dfu.Defs

/-!
# What a transfer moves

On a medium that writes in full the blocks of `dfu_write` reach it one behind the other
(`Held.write`, `flush_deliver`), and on one that reads in full the calls of `dfu_read` hand out its
contents (`Reads.giveBlock`).
-/

namespace Imx.Dfu
open Imx.Base

variable {σ : Type} {m : Medium σ} {cfg : Config}

/-! ## Writing -/

/-- Every write succeeds and writes all it is given. -/
def FullWrites (m : Medium σ) : Prop :=
  ∀ dev offset data, (m.writeMedium dev offset data).2 = (0, data.length)

/-- The device after pieces were written to it, each behind the one before. -/
def deliver (m : Medium σ) : σ → Nat → List (List UInt8) → σ
  | dev, _, [] => dev
  | dev, offset, p :: ps => deliver m (m.writeMedium dev offset p).1 (offset + p.length) ps

/-- Calls of `dfu_write` for the given blocks, numbered on modulo 65536. -/
def writeCalls : Nat → List (List UInt8) → List Call
  | _, [] => []
  | n, b :: bs => .write b (n % 65536) :: writeCalls (n + 1) bs

lemma deliver_concat {dev : σ} {offset : Nat} {ps : List (List UInt8)} {p : List UInt8} :
    deliver m dev offset (ps ++ [p]) =
      (m.writeMedium (deliver m dev offset ps) (offset + ps.flatten.length) p).1 := by
  induction ps generalizing dev offset with
  | nil => rfl
  | cons q qs ih =>
    rw [List.cons_append, deliver, ih, deliver, List.flatten_cons, List.length_append,
      Nat.add_assoc]

/-- In the middle of a transfer to the device `dev` with the given data so far: some of it has been
delivered, the rest is in the buffer. -/
structure Held (m : Medium σ) (cfg : Config) (dev : σ) (s : Entity σ) (data : List UInt8) :
    Prop where
  inited : s.inited = true
  iBufEnd : s.iBufEnd = cfg.bufSize
  room : s.iBuf ≤ cfg.bufSize
  delivered : ∃ ps, s.dev = deliver m dev 0 ps ∧ s.offset = ps.flatten.length ∧
    data = ps.flatten ++ s.mem.read 0 s.iBuf

variable {dev : σ} {s : Entity σ} {data buf : List UInt8}

/-- Draining delivers what is in the buffer. -/
lemma Held.drain (full : FullWrites m) (h : Held m cfg dev s data) :
    (dfuWriteBufferDrain m cfg s).2 = 0 ∧ Held m cfg dev (dfuWriteBufferDrain m cfg s).1 data ∧
      (dfuWriteBufferDrain m cfg s).1.iBuf = 0 ∧
      (dfuWriteBufferDrain m cfg s).1.iBlkSeqNum = s.iBlkSeqNum := by
  rw [dfuWriteBufferDrain]
  by_cases empty : s.iBuf = 0
  · rw [if_pos empty]
    exact ⟨rfl, h, empty, rfl⟩
  · rw [if_neg empty]
    obtain ⟨ps, at_dev, offset, parts⟩ := h.delivered
    have wrote := full s.dev s.offset (s.mem.read 0 s.iBuf)
    refine ⟨by simp [wrote], ⟨h.inited, h.iBufEnd, Nat.zero_le _, ps ++ [s.mem.read 0 s.iBuf],
      ?_, ?_, ?_⟩, rfl, rfl⟩
    · rw [deliver_concat, ← at_dev, Nat.zero_add, ← offset]
    · change s.offset + (m.writeMedium s.dev s.offset (s.mem.read 0 s.iBuf)).2.2 = _
      rw [wrote, List.flatten_append, List.length_append, List.flatten_singleton, ← offset]
    · simp [parts]

lemma Held.drainIf (full : FullWrites m) (h : Held m cfg dev s data) (cond : Bool) :
    (drainIf m cfg cond s).2 = 0 ∧ Held m cfg dev (drainIf m cfg cond s).1 data ∧
      (cond = true → (Imx.Dfu.drainIf m cfg cond s).1.iBuf = 0) ∧
      (cond = false → (Imx.Dfu.drainIf m cfg cond s).1 = s) ∧
      (Imx.Dfu.drainIf m cfg cond s).1.iBlkSeqNum = s.iBlkSeqNum := by
  rw [Imx.Dfu.drainIf]
  cases cond with
  | false => exact ⟨rfl, h, nofun, fun _ => rfl, rfl⟩
  | true =>
    obtain ⟨ok, held, empty, number⟩ := h.drain full
    simp only [if_true, ok, ne_eq, not_true, if_false]
    exact ⟨trivial, held, fun _ => empty, nofun, number⟩

/-- A block stored behind what is in the buffer. -/
lemma read_store {mem : Mem} {n : Nat} :
    (mem.write n buf).read 0 (n + buf.length) = mem.read 0 n ++ buf := by
  rw [Mem.read_add, Mem.read_write_disjoint (.inl (Nat.zero_add n).le), Nat.zero_add,
    Mem.read_write_self rfl]

/-- A block that fits into the buffer is added to the data. -/
lemma Held.takeBlock (full : FullWrites m) (h : Held m cfg dev s data)
    (fits : buf.length ≤ cfg.bufSize) :
    (takeBlock m cfg s buf).2 = 0 ∧ Held m cfg dev (takeBlock m cfg s buf).1 (data ++ buf) ∧
      (takeBlock m cfg s buf).1.iBlkSeqNum = s.iBlkSeqNum := by
  rw [Imx.Dfu.takeBlock]
  obtain ⟨ok, held, empty, same, number⟩ :=
    h.drainIf full (decide (s.iBufEnd < s.iBuf + buf.length))
  generalize Imx.Dfu.drainIf m cfg (decide (s.iBufEnd < s.iBuf + buf.length)) s = r at *
  obtain ⟨t, ret⟩ := r
  simp only [] at ok held empty same number
  subst ok
  have room : ¬t.iBufEnd < t.iBuf + buf.length := by
    rw [held.iBufEnd]
    by_cases overflow : s.iBufEnd < s.iBuf + buf.length
    · have := empty (decide_eq_true overflow)
      omega
    · have := same (decide_eq_false overflow)
      rw [this, ← h.iBufEnd]
      exact overflow
  rw [if_neg (by simp), if_neg room]
  have taken : Held m cfg dev
      { t with mem := t.mem.write t.iBuf buf, iBuf := t.iBuf + buf.length } (data ++ buf) := by
    obtain ⟨ps, at_dev, offset, parts⟩ := held.delivered
    refine ⟨held.inited, held.iBufEnd, ?_, ps, at_dev, offset, ?_⟩
    · rw [held.iBufEnd] at room
      exact Nat.le_of_not_lt room
    · rw [read_store, parts, List.append_assoc]
  obtain ⟨ok, held', _, _, number'⟩ := taken.drainIf full
    (decide (buf.length = 0 ∨ t.iBufEnd < t.iBuf + buf.length + buf.length))
  exact ⟨ok, held', number'.trans number⟩

/-- The number the calls of a transfer go on with. -/
def Numbered (s : Entity σ) (n : Nat) : Prop := s.iBlkSeqNum = n % 65536

/-- A block with the right number and room in the buffer is accepted. -/
lemma Held.write {n : Nat} (full : FullWrites m) (h : Held m cfg dev s data) (num : Numbered s n)
    (fits : buf.length ≤ cfg.bufSize) :
    (dfuWrite m cfg s buf (n % 65536)).2 = 0 ∧
      Held m cfg dev (dfuWrite m cfg s buf (n % 65536)).1 (data ++ buf) ∧
      Numbered (dfuWrite m cfg s buf (n % 65536)).1 (n + 1) := by
  have started : initWrite cfg s = s := by
    rw [initWrite, h.inited]
    rfl
  rw [dfuWrite]
  simp only [started]
  rw [if_neg (fun wrong : s.iBlkSeqNum ≠ n % 65536 => wrong num)]
  have counted : Held m cfg dev { s with iBlkSeqNum := (s.iBlkSeqNum + 1) % 65536 } data :=
    ⟨h.inited, h.iBufEnd, h.room, h.delivered⟩
  obtain ⟨ok, held, number⟩ := counted.takeBlock full fits
  refine ⟨ok, held, number.trans ?_⟩
  change (s.iBlkSeqNum + 1) % 65536 = (n + 1) % 65536
  have number : s.iBlkSeqNum = n % 65536 := num
  omega

/-- The same for all blocks that are left. -/
lemma Held.writes {blocks : List (List UInt8)} {n : Nat} (full : FullWrites m)
    (h : Held m cfg dev s data) (num : Numbered s n) (fit : ∀ b ∈ blocks, b.length ≤ cfg.bufSize) :
    (∀ o ∈ outcomes m cfg s (writeCalls n blocks), ∃ d, o = some (0, [], d)) ∧
      Held m cfg dev ((writeCalls n blocks).foldl (after m cfg) s) (data ++ blocks.flatten) := by
  induction blocks generalizing s data n with
  | nil =>
    refine ⟨by simp [outcomes, writeCalls], ?_⟩
    rw [List.flatten_nil, List.append_nil]
    exact h
  | cons b bs ih =>
    obtain ⟨fits, fit⟩ := List.forall_mem_cons.mp fit
    obtain ⟨ok, held, number⟩ := h.write full num fits
    obtain ⟨oks, held⟩ := ih held number fit
    rw [List.flatten_cons, ← List.append_assoc]
    refine ⟨?_, held⟩
    rw [writeCalls, outcomes, call]
    simp only [ok, List.mem_cons, forall_eq_or_imp]
    exact ⟨⟨_, rfl⟩, oks⟩

/-- Flushing delivers what is left and flushes the medium. -/
lemma Held.flush (full : FullWrites m) (h : Held m cfg dev s data) :
    ∃ ps, ps.flatten = data ∧ ((dfuFlush m cfg s).1.dev, (dfuFlush m cfg s).2) =
      m.flush (deliver m dev 0 ps) := by
  obtain ⟨ok, held, empty, _⟩ := h.drain full
  obtain ⟨ps, at_dev, _, parts⟩ := held.delivered
  rw [empty, Mem.read_zero, List.append_nil] at parts
  refine ⟨ps, parts.symm, ?_⟩
  rw [dfuFlush, if_neg (not_not.mpr ok), ← at_dev]
  rfl

/-- Only the initialised state counts. -/
lemma dfuWrite_init {seq : Nat} :
    dfuWrite m cfg s buf seq = dfuWrite m cfg (initWrite cfg s) buf seq := by
  have again : initWrite cfg (initWrite cfg s) = initWrite cfg s := by
    cases started : s.inited <;> simp [initWrite, started]
  rw [dfuWrite, dfuWrite, again]

/-- Whatever an entity at rest is left with, a transfer starts out empty. -/
lemma held_init (rest : s.inited = false) :
    Held m cfg s.dev (initWrite cfg s) [] ∧ Numbered (initWrite cfg s) 0 := by
  rw [initWrite, if_neg (by simp [rest])]
  exact ⟨⟨rfl, rfl, Nat.zero_le _, [], rfl, rfl, rfl⟩, rfl⟩

/-! ## Reading -/

/-- The device holds the contents and reads them in full; its size is a `long`. -/
structure FullReads (m : Medium σ) (dev : σ) (contents : List UInt8) : Prop where
  size : m.getMediumSize dev = contents.length
  read : ∀ offset len, offset + len ≤ contents.length →
    m.readMedium dev offset len = (0, (contents.drop offset).take len)

/-- Calls of `dfu_read` for the given sizes, numbered on modulo 65536. -/
def readCalls : Nat → List Nat → List Call
  | _, [] => []
  | n, size :: sizes => .read size (n % 65536) :: readCalls (n + 1) sizes

/-- In the middle of reading: the bytes from `pos` on come from the buffer and then from what is
left on the medium. -/
structure Reads (m : Medium σ) (cfg : Config) (contents : List UInt8) (s : Entity σ) (pos : Nat) :
    Prop where
  inited : s.inited = true
  iBufEnd : s.iBufEnd = cfg.bufSize
  full : FullReads m s.dev contents
  ahead : s.offset = pos + s.bLeft
  left : s.offset + s.rLeft = contents.length
  buffer : s.mem.read s.iBuf s.bLeft = (contents.drop pos).take s.bLeft

variable {contents : List UInt8} {pos : Nat}

/-- Handing out bytes moves on in the contents. -/
lemma Reads.consume (h : Reads m cfg contents s pos) {chunk : Nat} (le : chunk ≤ s.bLeft) :
    Reads m cfg contents (consume cfg s chunk) (pos + chunk) ∧
      s.mem.read s.iBuf chunk = (contents.drop pos).take chunk := by
  have parts : s.bLeft = chunk + (s.bLeft - chunk) := by omega
  have buffer := h.buffer
  constructor
  · refine ⟨h.inited, h.iBufEnd, h.full, ?_, h.left, ?_⟩
    · have := h.ahead
      change s.offset = pos + chunk + (s.bLeft - chunk)
      omega
    · change s.mem.read (s.iBuf + chunk) (s.bLeft - chunk) = _
      have dropped := congrArg (List.drop chunk) buffer
      rw [Mem.read_drop, List.drop_take, List.drop_drop] at dropped
      exact dropped
  · have taken := congrArg (List.take chunk) buffer
    rw [Mem.read_take, List.take_take, Nat.min_eq_left le] at taken
    exact taken

/-- Refilling an empty buffer gets the next part of the contents. -/
lemma Reads.refill (h : Reads m cfg contents s pos) (empty : s.bLeft = 0) (more : s.rLeft ≠ 0) :
    (refill m s).2 = 0 ∧ Reads m cfg contents (refill m s).1 pos ∧ 0 < (refill m s).1.bLeft := by
  have at_pos := h.ahead
  have left := h.left
  rw [empty, Nat.add_zero] at at_pos
  have got := h.full.read s.offset (min s.iBufEnd s.rLeft) (by omega)
  have size : ((contents.drop s.offset).take (min s.iBufEnd s.rLeft)).length =
      min s.iBufEnd s.rLeft := by
    rw [List.length_take, List.length_drop]
    omega
  have pos := cfg.pos
  have ends := h.iBufEnd
  rw [Imx.Dfu.refill]
  simp only [got, ne_eq, not_true, if_false]
  refine ⟨trivial, ⟨h.inited, h.iBufEnd, h.full, ?_, ?_, ?_⟩, ?_⟩
  · simp only [at_pos]
  · simp only [size]
    omega
  · simp only [size]
    rw [Mem.read_write_self size, at_pos]
  · simp only [size]
    omega

/-- Refilling leaves the device and the number alone. -/
lemma refill_frame : (refill m s).1.dev = s.dev ∧ (refill m s).1.iBlkSeqNum = s.iBlkSeqNum := by
  simp only [Imx.Dfu.refill]
  split
  · exact ⟨rfl, rfl⟩
  · exact ⟨rfl, rfl⟩

/-- The loop hands out the next bytes, up to the end of the contents. -/
lemma Reads.fill {fuel size : Nat} {out : List UInt8} (h : Reads m cfg contents s pos)
    (enough : size < fuel ∨ size ≤ fuel ∧ 0 < fuel ∧ 0 < s.bLeft) :
    ∃ t, dfuReadBufferFill m cfg fuel s size out =
        some (t, ((out ++ (contents.drop pos).take size).length : Int),
          out ++ (contents.drop pos).take size) ∧
      Reads m cfg contents t (pos + ((contents.drop pos).take size).length) ∧
      t.dev = s.dev ∧ t.iBlkSeqNum = s.iBlkSeqNum := by
  induction fuel generalizing s size out pos with
  | zero => omega
  | succ fuel ih =>
    rw [dfuReadBufferFill]
    obtain ⟨moved, bytes⟩ := h.consume (Nat.min_le_right size s.bLeft)
    have ahead := h.ahead
    have left := h.left
    by_cases done : size - min size s.bLeft = 0 ∨ s.rLeft = 0
    · -- the loop ends here, with all of `size` or with the last byte of the contents
      have all : (contents.drop pos).take (min size s.bLeft) = (contents.drop pos).take size := by
        rcases done with zero | none
        · congr 1
          omega
        · rcases Nat.le_total size s.bLeft with le | le
          · rw [Nat.min_eq_left le]
          · have last : (contents.drop pos).length ≤ s.bLeft := by
              rw [List.length_drop]
              omega
            rw [Nat.min_eq_right le, List.take_of_length_le last,
              List.take_of_length_le (last.trans le)]
      have count : ((contents.drop pos).take size).length = min size s.bLeft := by
        rw [← all, ← bytes, Mem.length_read]
      simp only [if_pos (show _ ∨ (Imx.Dfu.consume cfg s _).rLeft = 0 from done), bytes, all]
      refine ⟨_, rfl, ?_, rfl, rfl⟩
      rw [count]
      exact moved
    · -- the buffer is empty, and there is more on the medium
      have chunk : min size s.bLeft = s.bLeft := by omega
      have empty : (Imx.Dfu.consume cfg s (min size s.bLeft)).bLeft = 0 := by
        change s.bLeft - min size s.bLeft = 0
        omega
      obtain ⟨ok, filled, some_left⟩ := moved.refill empty (fun none => done (.inr none))
      have parts : (contents.drop pos).take size = (contents.drop pos).take (min size s.bLeft) ++
          (contents.drop (pos + min size s.bLeft)).take (size - min size s.bLeft) := by
        rw [← List.drop_drop, ← List.take_add]
        congr 1
        omega
      have count : ((contents.drop pos).take (min size s.bLeft)).length = min size s.bLeft := by
        rw [← bytes, Mem.length_read]
      obtain ⟨t, run, reads, dev, number⟩ := @ih _ _ (size - min size s.bLeft)
        (out ++ s.mem.read s.iBuf (min size s.bLeft)) filled (by omega)
      obtain ⟨same_dev, same_number⟩ := refill_frame (m := m)
        (s := Imx.Dfu.consume cfg s (min size s.bLeft))
      refine ⟨t, ?_, ?_, dev.trans same_dev, number.trans same_number⟩
      · simp only [if_neg (show ¬(_ ∨ (Imx.Dfu.consume cfg s _).rLeft = 0) from done),
          if_neg (not_not.mpr ok)]
        rw [run, bytes, parts, List.append_assoc]
      · rw [parts, List.length_append, count, ← Nat.add_assoc]
        exact reads

/-- A call in the middle of a transfer. -/
lemma dfuRead_started {size seq : Nat} (started : s.inited = true) :
    dfuRead m cfg s size seq =
      if s.iBlkSeqNum ≠ seq then some (s, -1, [])
      else giveBlock m cfg { s with iBlkSeqNum := (s.iBlkSeqNum + 1) % 65536 } size := by
  have running : ¬(s.inited = false ∧ m.getMediumSize s.dev < 0) := by
    rw [started]
    exact fun h => nomatch h.1
  rw [dfuRead, if_neg running]
  simp only [if_pos started]

/-- A call at rest: only the initialised state counts. -/
lemma dfuRead_init {size seq : Nat} (rest : s.inited = false) (sized : 0 ≤ m.getMediumSize s.dev) :
    dfuRead m cfg s size seq = dfuRead m cfg (initRead m cfg s) size seq := by
  have no_error : ¬(s.inited = false ∧ m.getMediumSize s.dev < 0) := by omega
  have not_started : ¬s.inited = true := by simp [rest]
  rw [dfuRead_started (s := initRead m cfg s) rfl, dfuRead, if_neg no_error]
  simp only [if_neg not_started]

/-- A call with the right number hands out the next bytes; a short one ends the transfer. -/
lemma Reads.read {n size : Nat} (h : Reads m cfg contents s pos) (num : Numbered s n) :
    ∃ t, dfuRead m cfg s size (n % 65536) =
        some (t, (((contents.drop pos).take size).length : Int), (contents.drop pos).take size) ∧
      t.dev = s.dev ∧
      (((contents.drop pos).take size).length < size → t.inited = false) ∧
      (size ≤ ((contents.drop pos).take size).length →
        Reads m cfg contents t (pos + size) ∧ Numbered t (n + 1)) := by
  have number : s.iBlkSeqNum = n % 65536 := num
  have counted : Reads m cfg contents { s with iBlkSeqNum := (s.iBlkSeqNum + 1) % 65536 } pos :=
    ⟨h.inited, h.iBufEnd, h.full, h.ahead, h.left, h.buffer⟩
  obtain ⟨t, run, reads, dev, next⟩ := @Reads.fill _ _ _ _ _ _ (size + 1) size [] counted (by omega)
  rw [List.nil_append] at run
  rw [dfuRead_started h.inited, if_neg (not_not.mpr number), giveBlock, run]
  simp only []
  rw [if_neg (by omega)]
  by_cases short : ((contents.drop pos).take size).length < size
  · rw [if_pos (by omega)]
    refine ⟨_, rfl, dev, fun _ => rfl, fun le => ?_⟩
    omega
  · rw [if_neg (by omega)]
    refine ⟨_, rfl, dev, fun lt => absurd lt short, fun le => ?_⟩
    have exact_size : ((contents.drop pos).take size).length = size := by
      rw [List.length_take] at le ⊢
      omega
    rw [exact_size] at reads
    refine ⟨reads, next.trans ?_⟩
    change (s.iBlkSeqNum + 1) % 65536 = (n + 1) % 65536
    omega

/-- As long as the sizes stay within the contents, the calls hand them out one behind the other. -/
lemma Reads.reads {sizes : List Nat} {n : Nat} (h : Reads m cfg contents s pos)
    (num : Numbered s n) (within : pos + sizes.sum ≤ contents.length) :
    Reads m cfg contents ((readCalls n sizes).foldl (after m cfg) s) (pos + sizes.sum) ∧
      Numbered ((readCalls n sizes).foldl (after m cfg) s) (n + sizes.length) ∧
      ((readCalls n sizes).foldl (after m cfg) s).dev = s.dev := by
  induction sizes generalizing s pos n with
  | nil => exact ⟨h, num, rfl⟩
  | cons size sizes ih =>
    rw [List.sum_cons] at within
    obtain ⟨t, run, dev, _, go_on⟩ := @Reads.read _ _ _ _ _ _ n size h num
    have count : ((contents.drop pos).take size).length = size := by
      rw [List.length_take, List.length_drop]
      omega
    obtain ⟨reads, number⟩ := go_on count.ge
    have next : after m cfg s (.read size (n % 65536)) = t := by
      simp only [after, call, run, Option.map_some, Option.getD_some]
    obtain ⟨reads, number, same⟩ := ih reads number (by omega)
    rw [readCalls, List.foldl_cons, next, List.sum_cons, ← Nat.add_assoc, List.length_cons]
    refine ⟨reads, ?_, same.trans dev⟩
    rw [Nat.add_comm sizes.length, ← Nat.add_assoc]
    exact number

/-- Whatever an entity at rest is left with, reading starts at the beginning of the medium. -/
lemma reads_init (full : FullReads m s.dev contents) :
    Reads m cfg contents (initRead m cfg s) 0 ∧ Numbered (initRead m cfg s) 0 := by
  have size : (m.getMediumSize s.dev).toNat = contents.length := by
    rw [full.size, Int.toNat_natCast]
  refine ⟨⟨rfl, rfl, full, rfl, ?_, rfl⟩, rfl⟩
  change 0 + (m.getMediumSize s.dev).toNat = contents.length
  rw [size, Nat.zero_add]

end Imx.Dfu
