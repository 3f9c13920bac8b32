import Imx.Dfu.Transfer

/-!
# Errors

An entity whose transfer was given up by `dfu_write` is at rest again, one whose `dfu_flush` could
not write or whose `dfu_read` was refused is left in the middle of the transfer. `AtStart` is what
every transfer may begin from (`AtStart.behavesFresh`); `Ok` excludes the calls that miss it.
-/

namespace Imx.Dfu
open Imx.Base

variable {σ : Type} {m : Medium σ} {g : Config} {s t : Entity σ}

/-- The result of a call is an error. -/
def IsError : Call → Int → Prop
  | .read _ _, ret => ret < 0
  | _, ret => ret ≠ 0

/-- At rest, or in the initial state of `dfu_read`. -/
def AtStart (m : Medium σ) (g : Config) (s : Entity σ) : Prop :=
  s.inited = true → s.iBlkSeqNum = 0 ∧ s.crc = 0 ∧ s.offset = 0 ∧ s.iBuf = 0 ∧
    s.iBufEnd = g.bufSize ∧ s.bLeft = 0 ∧ 0 ≤ m.getMediumSize s.dev ∧
    s.rLeft = (m.getMediumSize s.dev).toNat

/-- A call is for writing. -/
def IsWrite : Call → Prop
  | .read _ _ => False
  | _ => True

/-- A call is for reading. -/
def IsRead : Call → Prop
  | .read _ _ => True
  | _ => False

/-- A transfer in one direction that starts at block 0. -/
def Transfer : List Call → Prop
  | .write _ 0 :: calls => ∀ c ∈ calls, IsWrite c
  | .read _ 0 :: calls => ∀ c ∈ calls, IsRead c
  | _ => False

/-- The next transfer goes as on a freshly initialised entity, whatever is in the buffer. -/
def BehavesFresh (m : Medium σ) (g : Config) (s : Entity σ) : Prop :=
  ∀ calls, Transfer calls → ∀ mem,
    outcomes m g s calls = outcomes m g (Entity.new s.dev mem) calls

/-! ## Writing -/

/-- Two entities that no call for writing tells apart. -/
structure WriteSame (s t : Entity σ) : Prop where
  dev : s.dev = t.dev
  inited : s.inited = t.inited
  iBuf : s.iBuf = t.iBuf
  held : s.mem.read 0 s.iBuf = t.mem.read 0 t.iBuf
  rest : s.inited = false → s.iBuf = 0
  state : s.inited = true → s.crc = t.crc ∧ s.offset = t.offset ∧
    s.iBlkSeqNum = t.iBlkSeqNum ∧ s.iBufEnd = t.iBufEnd

/-- The results of two steps agree, and so do the states behind them. -/
def WriteSame.Both (r u : Entity σ × Int) : Prop := WriteSame r.1 u.1 ∧ r.2 = u.2

lemma WriteSame.cleanup (h : s.dev = t.dev) :
    WriteSame (dfuWriteTransactionCleanup s) (dfuWriteTransactionCleanup t) :=
  ⟨h, rfl, rfl, rfl, fun _ => rfl, nofun⟩

lemma WriteSame.drain (h : WriteSame s t) :
    Both (dfuWriteBufferDrain m g s) (dfuWriteBufferDrain m g t) := by
  rw [dfuWriteBufferDrain, dfuWriteBufferDrain, ← h.iBuf]
  by_cases empty : s.iBuf = 0
  · rw [if_pos empty, if_pos empty]
    exact ⟨h, rfl⟩
  · rw [if_neg empty, if_neg empty]
    have started : s.inited = true := by
      by_contra rest
      exact empty (h.rest (Bool.eq_false_iff.mpr rest))
    obtain ⟨crc, offset, number, ends⟩ := h.state started
    have held := h.held
    rw [← h.iBuf] at held
    simp only [h.dev, crc, offset, held]
    refine ⟨⟨rfl, h.inited, rfl, rfl, fun _ => rfl, fun _ => ⟨rfl, rfl, number, ends⟩⟩, rfl⟩

lemma WriteSame.drainIf (h : WriteSame s t) (cond : Bool) :
    Both (drainIf m g cond s) (drainIf m g cond t) := by
  rw [Imx.Dfu.drainIf, Imx.Dfu.drainIf]
  cases cond with
  | false => exact ⟨h, rfl⟩
  | true =>
    obtain ⟨same, ret⟩ := h.drain (m := m) (g := g)
    simp only [if_true, ← ret]
    split
    · exact ⟨.cleanup same.dev, rfl⟩
    · exact ⟨same, rfl⟩

/-- Without an error the transfer goes on. -/
lemma drainIf_inited {c : Bool} (ok : (drainIf m g c s).2 = 0) :
    (drainIf m g c s).1.inited = s.inited := by
  have kept : (dfuWriteBufferDrain m g s).1.inited = s.inited := by
    rw [dfuWriteBufferDrain]
    split <;> rfl
  rw [drainIf] at ok ⊢
  cases c with
  | false => rfl
  | true =>
    simp only [if_true] at ok ⊢
    by_cases failed : (dfuWriteBufferDrain m g s).2 ≠ 0
    · rw [if_pos failed] at ok
      exact absurd ok failed
    · rw [if_neg failed]
      exact kept

lemma WriteSame.takeBlock (h : WriteSame s t) (started : s.inited = true) (buf : List UInt8) :
    Both (takeBlock m g s buf) (takeBlock m g t buf) := by
  obtain ⟨_, _, _, ends⟩ := h.state started
  have running := drainIf_inited (m := m) (g := g) (s := s)
    (c := decide (s.iBufEnd < s.iBuf + buf.length))
  rw [Imx.Dfu.takeBlock, Imx.Dfu.takeBlock, ← h.iBuf, ← ends]
  obtain ⟨same, ret⟩ := h.drainIf (m := m) (g := g) (decide (s.iBufEnd < s.iBuf + buf.length))
  generalize Imx.Dfu.drainIf m g (decide (s.iBufEnd < s.iBuf + buf.length)) s = r at *
  generalize Imx.Dfu.drainIf m g (decide (s.iBufEnd < s.iBuf + buf.length)) t = u at *
  simp only [← ret]
  by_cases failed : r.2 ≠ 0
  · rw [if_pos failed, if_pos failed]
    exact ⟨same, ret⟩
  · rw [if_neg failed, if_neg failed]
    have go_on : r.1.inited = true := (running (not_not.mp failed)).trans started
    obtain ⟨crc, offset, number, ends⟩ := same.state go_on
    rw [← same.iBuf, ← ends]
    by_cases large : r.1.iBufEnd < r.1.iBuf + buf.length
    · rw [if_pos large, if_pos large]
      exact ⟨.cleanup same.dev, rfl⟩
    · rw [if_neg large, if_neg large]
      have taken : WriteSame
          { r.1 with mem := r.1.mem.write r.1.iBuf buf, iBuf := r.1.iBuf + buf.length }
          { u.1 with
            mem := u.1.mem.write r.1.iBuf buf
            iBuf := r.1.iBuf + buf.length
            iBufEnd := r.1.iBufEnd } := by
        refine ⟨same.dev, same.inited, rfl, ?_, ?_, fun _ => ⟨crc, offset, number, rfl⟩⟩
        · have held := same.held
          rw [← same.iBuf] at held
          change Mem.read _ 0 (r.1.iBuf + buf.length) = Mem.read _ 0 (r.1.iBuf + buf.length)
          rw [read_store, read_store, held]
        · intro rest
          exact absurd (go_on.symm.trans rest) (by decide)
      exact taken.drainIf _

lemma WriteSame.init (h : WriteSame s t) :
    WriteSame (initWrite g s) (initWrite g t) ∧ (initWrite g s).inited = true := by
  rw [initWrite, initWrite, ← h.inited]
  cases started : s.inited with
  | true => exact ⟨h, started⟩
  | false => exact ⟨⟨h.dev, rfl, rfl, rfl, (by intro h; cases h), fun _ => ⟨rfl, rfl, rfl, rfl⟩⟩, rfl⟩

lemma WriteSame.write (h : WriteSame s t) (buf : List UInt8) (seq : Nat) :
    Both (dfuWrite m g s buf seq) (dfuWrite m g t buf seq) := by
  obtain ⟨same, started⟩ := h.init (g := g)
  obtain ⟨crc, offset, number, ends⟩ := same.state started
  rw [dfuWrite, dfuWrite]
  simp only [← number]
  split
  · exact ⟨.cleanup same.dev, rfl⟩
  · have counted : WriteSame
        { initWrite g s with iBlkSeqNum := ((initWrite g s).iBlkSeqNum + 1) % 65536 }
        { initWrite g t with iBlkSeqNum := ((initWrite g s).iBlkSeqNum + 1) % 65536 } :=
      ⟨same.dev, same.inited, same.iBuf, same.held, same.rest,
        fun _ => ⟨crc, offset, rfl, ends⟩⟩
    exact counted.takeBlock started buf

lemma WriteSame.flush (h : WriteSame s t) : Both (dfuFlush m g s) (dfuFlush m g t) := by
  obtain ⟨same, ret⟩ := h.drain (m := m) (g := g)
  rw [dfuFlush, dfuFlush, ← ret, ← same.dev]
  simp only []
  split
  · exact ⟨same, ret⟩
  · exact ⟨.cleanup rfl, rfl⟩

lemma WriteSame.call {c : Call} (h : WriteSame s t) (write : IsWrite c) :
    ∃ r u, call m g s c = some r ∧ call m g t c = some u ∧ WriteSame r.1 u.1 ∧ r.2 = u.2 := by
  cases c with
  | read => exact write.elim
  | write buf seq =>
    obtain ⟨same, ret⟩ := h.write (m := m) (g := g) buf seq
    refine ⟨_, _, rfl, rfl, same, ?_⟩
    rw [ret]
  | flush =>
    obtain ⟨same, ret⟩ := h.flush (m := m) (g := g)
    refine ⟨_, _, rfl, rfl, same, ?_⟩
    rw [ret]

/-- The same results, call by call, for a list of calls that a relation is kept by. -/
lemma outcomes_eq {R : Entity σ → Entity σ → Prop} {P : Call → Prop}
    (dev : ∀ {s t : Entity σ}, R s t → s.dev = t.dev)
    (step : ∀ {s t : Entity σ} {c : Call}, R s t → P c →
      (call m g s c = none ∧ call m g t c = none) ∨
      ∃ r u, call m g s c = some r ∧ call m g t c = some u ∧ R r.1 u.1 ∧ r.2 = u.2)
    {calls : List Call} (h : R s t) (all : ∀ c ∈ calls, P c) :
    outcomes m g s calls = outcomes m g t calls := by
  induction calls generalizing s t with
  | nil => rfl
  | cons c calls ih =>
    obtain ⟨hc, all⟩ := List.forall_mem_cons.mp all
    rw [outcomes, outcomes]
    rcases step h hc with ⟨hs, ht⟩ | ⟨r, u, hs, ht, next, ret⟩
    · rw [hs, ht]
    · obtain ⟨s', ret', out⟩ := r
      obtain ⟨t', ret'', out'⟩ := u
      cases ret
      rw [hs, ht]
      simp only [show s'.dev = t'.dev from dev next, ih next all]

/-! ## Reading -/

/-- Two entities that no call for reading tells apart. -/
structure ReadSame (s t : Entity σ) : Prop where
  dev : s.dev = t.dev
  inited : s.inited = t.inited
  state : s.inited = true → s.crc = t.crc ∧ s.offset = t.offset ∧
    s.iBlkSeqNum = t.iBlkSeqNum ∧ s.iBuf = t.iBuf ∧ s.iBufEnd = t.iBufEnd ∧ s.rLeft = t.rLeft ∧
    s.bLeft = t.bLeft ∧ s.mem.read s.iBuf s.bLeft = t.mem.read t.iBuf t.bLeft

/-- The same of two entities in the middle of reading. -/
structure ReadOn (s t : Entity σ) : Prop extends ReadSame s t where
  started : s.inited = true

lemma ReadOn.consume (h : ReadOn s t) {chunk : Nat} (le : chunk ≤ s.bLeft) :
    ReadOn (consume g s chunk) (consume g t chunk) ∧
      s.mem.read s.iBuf chunk = t.mem.read t.iBuf chunk := by
  obtain ⟨crc, offset, number, iBuf, ends, rLeft, bLeft, bytes⟩ := h.state h.started
  have taken : s.mem.read s.iBuf chunk = t.mem.read t.iBuf chunk := by
    have eq := congrArg (List.take chunk) bytes
    rw [Mem.read_take, Mem.read_take, ← bLeft, Nat.min_eq_left le] at eq
    exact eq
  have dropped : s.mem.read (s.iBuf + chunk) (s.bLeft - chunk) =
      t.mem.read (t.iBuf + chunk) (t.bLeft - chunk) := by
    have eq := congrArg (List.drop chunk) bytes
    rw [Mem.read_drop, Mem.read_drop] at eq
    exact eq
  refine ⟨⟨⟨h.dev, h.inited, fun _ => ⟨?_, offset, number, ?_, ends, rLeft, ?_, dropped⟩⟩,
    h.started⟩, taken⟩
  · simp only [Imx.Dfu.consume, taken, crc]
  · simp only [Imx.Dfu.consume, iBuf]
  · simp only [Imx.Dfu.consume, bLeft]

lemma ReadOn.refill (h : ReadOn s t) :
    ReadOn (refill m s).1 (refill m t).1 ∧ (refill m s).2 = (refill m t).2 := by
  obtain ⟨crc, offset, number, iBuf, ends, rLeft, bLeft, bytes⟩ := h.state h.started
  rw [Imx.Dfu.refill, Imx.Dfu.refill, ← h.dev, ← offset, ← ends, ← rLeft]
  have bytes : (s.mem.write 0 (m.readMedium s.dev s.offset (min s.iBufEnd s.rLeft)).2).read 0
        (m.readMedium s.dev s.offset (min s.iBufEnd s.rLeft)).2.length =
      (t.mem.write 0 (m.readMedium s.dev s.offset (min s.iBufEnd s.rLeft)).2).read 0
        (m.readMedium s.dev s.offset (min s.iBufEnd s.rLeft)).2.length := by
    rw [Mem.read_write_self rfl, Mem.read_write_self rfl]
  simp only []
  split
  · exact ⟨⟨⟨rfl, h.inited, fun _ => ⟨crc, rfl, number, rfl, rfl, rfl, rfl, bytes⟩⟩,
      h.started⟩, rfl⟩
  · exact ⟨⟨⟨rfl, h.inited, fun _ => ⟨crc, rfl, number, rfl, rfl, rfl, rfl, bytes⟩⟩,
      h.started⟩, rfl⟩

lemma ReadOn.fill {fuel size : Nat} {out : List UInt8} (h : ReadOn s t) :
    (dfuReadBufferFill m g fuel s size out = none ∧
      dfuReadBufferFill m g fuel t size out = none) ∨
    ∃ s' t' r, dfuReadBufferFill m g fuel s size out = some (s', r) ∧
      dfuReadBufferFill m g fuel t size out = some (t', r) ∧ ReadOn s' t' := by
  induction fuel generalizing s t size out with
  | zero => exact .inl ⟨rfl, rfl⟩
  | succ fuel ih =>
    obtain ⟨_, _, _, _, _, rLeft, bLeft, _⟩ := h.state h.started
    obtain ⟨next, bytes⟩ := h.consume (g := g) (Nat.min_le_right size s.bLeft)
    obtain ⟨filled, ret⟩ := next.refill (m := m)
    rw [dfuReadBufferFill, dfuReadBufferFill, ← bLeft, ← bytes]
    simp only [← ret]
    have left : (Imx.Dfu.consume g s (min size s.bLeft)).rLeft =
        (Imx.Dfu.consume g t (min size s.bLeft)).rLeft := rLeft
    rw [← left]
    split
    · exact .inr ⟨_, _, _, rfl, rfl, next⟩
    · split
      · exact .inr ⟨_, _, _, rfl, rfl, filled⟩
      · exact ih filled

lemma ReadOn.giveBlock {size : Nat} (h : ReadOn s t) :
    (giveBlock m g s size = none ∧ giveBlock m g t size = none) ∨
    ∃ r u, giveBlock m g s size = some r ∧ giveBlock m g t size = some u ∧
      ReadSame r.1 u.1 ∧ r.2 = u.2 := by
  rw [Imx.Dfu.giveBlock, Imx.Dfu.giveBlock]
  rcases h.fill (m := m) (g := g) with ⟨hs, ht⟩ | ⟨s', t', ⟨ret, out⟩, hs, ht, next⟩
  · rw [hs, ht]
    exact .inl ⟨rfl, rfl⟩
  · rw [hs, ht]
    simp only []
    refine .inr ?_
    split
    · exact ⟨_, _, rfl, rfl, next.toReadSame, rfl⟩
    · split
      · exact ⟨_, _, rfl, rfl, ⟨next.dev, rfl, (by intro h; cases h)⟩, rfl⟩
      · exact ⟨_, _, rfl, rfl, next.toReadSame, rfl⟩

lemma ReadOn.read {size seq : Nat} (h : ReadOn s t) :
    (dfuRead m g s size seq = none ∧ dfuRead m g t size seq = none) ∨
    ∃ r u, dfuRead m g s size seq = some r ∧ dfuRead m g t size seq = some u ∧
      ReadSame r.1 u.1 ∧ r.2 = u.2 := by
  obtain ⟨crc, offset, number, iBuf, ends, rLeft, bLeft, bytes⟩ := h.state h.started
  rw [dfuRead_started h.started, dfuRead_started (h.inited ▸ h.started), ← number]
  split
  · exact .inr ⟨_, _, rfl, rfl, h.toReadSame, rfl⟩
  · have counted : ReadOn { s with iBlkSeqNum := (s.iBlkSeqNum + 1) % 65536 }
        { t with iBlkSeqNum := (s.iBlkSeqNum + 1) % 65536 } :=
      ⟨⟨h.dev, h.inited, fun _ => ⟨crc, offset, rfl, iBuf, ends, rLeft, bLeft, bytes⟩⟩,
        h.started⟩
    exact counted.giveBlock

/-- The initial states of `dfu_read` on one device are the same. -/
lemma ReadOn.init (dev : s.dev = t.dev) : ReadOn (initRead m g s) (initRead m g t) := by
  refine ⟨⟨dev, rfl, fun _ => ⟨rfl, rfl, rfl, rfl, rfl, ?_, rfl, rfl⟩⟩, rfl⟩
  change (m.getMediumSize s.dev).toNat = (m.getMediumSize t.dev).toNat
  rw [dev]

lemma ReadSame.call {c : Call} (h : ReadSame s t) (read : IsRead c) :
    (call m g s c = none ∧ call m g t c = none) ∨
    ∃ r u, call m g s c = some r ∧ call m g t c = some u ∧ ReadSame r.1 u.1 ∧ r.2 = u.2 := by
  cases c with
  | write => exact read.elim
  | flush => exact read.elim
  | read size seq =>
    change (dfuRead m g s size seq = none ∧ dfuRead m g t size seq = none) ∨
      ∃ r u, dfuRead m g s size seq = some r ∧ dfuRead m g t size seq = some u ∧ _
    by_cases started : s.inited = true
    · exact ReadOn.read ⟨h, started⟩
    · have rest : s.inited = false := Bool.eq_false_iff.mpr started
      have rest' : t.inited = false := h.inited ▸ rest
      by_cases sized : m.getMediumSize s.dev < 0
      · rw [dfuRead, dfuRead, if_pos ⟨rest, sized⟩, if_pos ⟨rest', h.dev ▸ sized⟩, ← h.dev]
        exact .inr ⟨_, _, rfl, rfl, h, rfl⟩
      · have sized := Int.not_lt.mp sized
        rw [dfuRead_init rest sized, dfuRead_init rest' (h.dev ▸ sized)]
        exact (ReadOn.init h.dev).read

/-! ## From the start -/

/-- The initial states of `dfu_write` are the same. -/
lemma AtStart.writeSame (h : AtStart m g s) (mem : Mem) :
    WriteSame (initWrite g s) (initWrite g (Entity.new s.dev mem)) := by
  rw [initWrite]
  cases started : s.inited with
  | false => exact ⟨rfl, rfl, rfl, rfl, (by intro h; cases h), fun _ => ⟨rfl, rfl, rfl, rfl⟩⟩
  | true =>
    obtain ⟨number, crc, offset, iBuf, ends, _⟩ := h started
    refine ⟨rfl, started, iBuf, ?_, ?_, fun _ => ⟨crc, offset, number, ends⟩⟩
    · simp only [if_true, iBuf]
      rfl
    · intro rest
      exact absurd (started.symm.trans rest) (by decide)

/-- Reading goes on as from the initial state of a new entity. -/
lemma AtStart.readOn (h : AtStart m g s) (started : s.inited = true) (mem : Mem) :
    ReadOn s (initRead m g (Entity.new s.dev mem)) := by
  obtain ⟨number, crc, offset, iBuf, ends, bLeft, _, rLeft⟩ := h started
  refine ⟨⟨rfl, started, fun _ => ⟨crc, offset, number, iBuf, ends, rLeft, bLeft, ?_⟩⟩, started⟩
  rw [iBuf, bLeft]
  rfl

/-- From the start every transfer goes as on a freshly initialised entity. -/
lemma AtStart.behavesFresh (h : AtStart m g s) : BehavesFresh m g s := by
  intro calls transfer mem
  cases calls with
  | nil => exact transfer.elim
  | cons c calls =>
    cases c with
    | flush => exact transfer.elim
    | write buf seq =>
      cases seq with
      | succ => exact transfer.elim
      | zero =>
        have begin (t : Entity σ) : outcomes m g t (.write buf 0 :: calls) =
            outcomes m g (initWrite g t) (.write buf 0 :: calls) := by
          simp only [outcomes, call]
          rw [dfuWrite_init]
        rw [begin s, begin (Entity.new s.dev mem)]
        refine outcomes_eq WriteSame.dev (fun same write => .inr (same.call write))
          (h.writeSame mem) (List.forall_mem_cons.mpr ⟨?_, transfer⟩)
        trivial
    | read size seq =>
      cases seq with
      | succ => exact transfer.elim
      | zero =>
        have all : ∀ c ∈ Call.read size 0 :: calls, IsRead c :=
          List.forall_mem_cons.mpr ⟨trivial, transfer⟩
        by_cases started : s.inited = true
        · obtain ⟨_, _, _, _, _, _, sized, _⟩ := h started
          have begin : outcomes m g (Entity.new s.dev mem) (.read size 0 :: calls) =
              outcomes m g (initRead m g (Entity.new s.dev mem)) (.read size 0 :: calls) := by
            simp only [outcomes, call]
            rw [dfuRead_init (s := Entity.new s.dev mem) rfl sized]
          rw [begin]
          exact outcomes_eq ReadSame.dev ReadSame.call (h.readOn started mem).toReadSame all
        · have rest : s.inited = false := Bool.eq_false_iff.mpr started
          have same : ReadSame s (Entity.new s.dev mem) :=
            ⟨rfl, rest, fun started => absurd started (by simp [rest])⟩
          exact outcomes_eq ReadSame.dev ReadSame.call same all

/-! ## Errors -/

lemma atStart_cleanup : AtStart m g (dfuWriteTransactionCleanup s) := nofun

/-- An error of `dfu_write` leaves the entity at rest. -/
lemma drainIf_error {c : Bool} (error : (drainIf m g c s).2 ≠ 0) :
    AtStart m g (drainIf m g c s).1 := by
  rw [drainIf] at error ⊢
  cases c with
  | false => exact absurd rfl error
  | true =>
    simp only [if_true] at error ⊢
    by_cases failed : (dfuWriteBufferDrain m g s).2 ≠ 0
    · rw [if_pos failed]
      exact atStart_cleanup
    · rw [if_neg failed] at error
      exact absurd rfl error

lemma takeBlock_error {buf : List UInt8} (error : (takeBlock m g s buf).2 ≠ 0) :
    AtStart m g (takeBlock m g s buf).1 := by
  simp only [takeBlock] at error ⊢
  split at error
  · rename_i failed
    rw [if_pos failed]
    exact drainIf_error failed
  · rename_i ok
    rw [if_neg ok]
    split at error
    · rename_i large
      rw [if_pos large]
      exact atStart_cleanup
    · rename_i fits
      rw [if_neg fits]
      exact drainIf_error error

lemma write_error {buf : List UInt8} {seq : Nat} (error : (dfuWrite m g s buf seq).2 ≠ 0) :
    AtStart m g (dfuWrite m g s buf seq).1 := by
  simp only [dfuWrite] at error ⊢
  split at error
  · rename_i wrong
    rw [if_pos wrong]
    exact atStart_cleanup
  · rename_i right
    rw [if_neg right]
    exact takeBlock_error error

/-- The medium can be read wherever a call for some bytes goes to it. -/
def Readable (m : Medium σ) (s : Entity σ) (size : Nat) : Prop :=
  ∀ offset, s.offset ≤ offset → offset < s.offset + (size - s.bLeft) →
    0 ≤ (m.readMedium s.dev offset (min s.iBufEnd (s.offset + s.rLeft - offset))).1

/-- The calls that leave the entity at the start when they fail: `dfu_write`; `dfu_flush` when the
medium takes what is in the buffer; `dfu_read` when it has the right number or is at the start, and
the medium can be read. -/
def Ok (m : Medium σ) (g : Config) (s : Entity σ) : Call → Prop
  | .write _ _ => True
  | .flush => s.iBuf = 0 ∨ (m.writeMedium s.dev s.offset (s.mem.read 0 s.iBuf)).2.1 = 0
  | .read size seq =>
    let s := if s.inited then s else initRead m g s
    (s.iBlkSeqNum = seq ∨ AtStart m g s) ∧ Readable m s size

lemma flush_ok (ok : Ok m g s .flush) : AtStart m g (dfuFlush m g s).1 := by
  have drained : (dfuWriteBufferDrain m g s).2 = 0 := by
    rw [dfuWriteBufferDrain]
    split
    · rfl
    · rename_i pending
      exact ok.resolve_left pending
  rw [dfuFlush, if_neg (not_not.mpr drained)]
  exact atStart_cleanup

/-- What a refill asks the medium for, and what it does with the answer. -/
lemma refill_ret :
    (refill m s).2 = (m.readMedium s.dev s.offset (min s.iBufEnd s.rLeft)).1 := by
  simp only [refill]
  split
  · rfl
  · rename_i ok
    exact (not_not.mp ok).symm

lemma refill_state (ok : (refill m s).2 = 0) :
    ∃ k ≤ min s.iBufEnd s.rLeft, (refill m s).1.offset = s.offset + k ∧
      (refill m s).1.rLeft = s.rLeft - k ∧ (refill m s).1.bLeft = k ∧
      (refill m s).1.iBufEnd = s.iBufEnd := by
  refine ⟨_, m.read_le s.dev s.offset (min s.iBufEnd s.rLeft), ?_⟩
  rw [refill_ret] at ok
  simp only [refill, if_neg (not_not.mpr ok), and_self]

/-- A medium that can be read lets the loop end without an error. -/
lemma Readable.fill {fuel size : Nat} {out : List UInt8} {r : Entity σ × Int × List UInt8}
    (h : Readable m s size) (run : dfuReadBufferFill m g fuel s size out = some r) :
    0 ≤ r.2.1 := by
  induction fuel generalizing s size out with
  | zero => cases run
  | succ fuel ih =>
    simp only [dfuReadBufferFill] at run
    split at run
    · cases run
      exact Int.natCast_nonneg _
    · rename_i more
      have more : ¬(size - min size s.bLeft = 0 ∨ s.rLeft = 0) := more
      have chunk : size - min size s.bLeft = size - s.bLeft := by omega
      have here := h s.offset (Nat.le_refl _) (by omega)
      rw [Nat.add_sub_cancel_left] at here
      split at run
      · cases run
        change 0 ≤ (refill m (consume g s (min size s.bLeft))).2
        rw [refill_ret]
        exact here
      · rename_i ok
        refine ih ?_ run
        obtain ⟨k, le, offset, rLeft, bLeft, ends⟩ := refill_state (not_not.mp ok)
        obtain ⟨dev, _⟩ := refill_frame (m := m) (s := consume g s (min size s.bLeft))
        have le : k ≤ min s.iBufEnd s.rLeft := le
        have offset : _ = s.offset + k := offset
        have rLeft : _ = s.rLeft - k := rLeft
        have ends : _ = s.iBufEnd := ends
        intro off ge lt
        rw [offset] at ge lt
        rw [bLeft] at lt
        rw [offset, rLeft, ends, dev]
        have within : k ≤ s.rLeft := le.trans (Nat.min_le_right _ _)
        have same : s.offset + k + (s.rLeft - k) - off = s.offset + s.rLeft - off := by
          rw [Nat.add_assoc, Nat.add_sub_cancel' within]
        rw [same]
        refine h off (Nat.le_of_add_right_le ge) ?_
        rw [chunk] at lt
        clear * - ge lt
        omega

/-- With the right number, and a medium that can be read, `dfu_read` does not fail; with a wrong one
it fails at the start. -/
lemma read_error {size seq : Nat} {r : Entity σ × Int × List UInt8} (ok : Ok m g s (.read size seq))
    (run : dfuRead m g s size seq = some r) (error : r.2.1 < 0) : AtStart m g r.1 := by
  rw [dfuRead] at run
  split at run
  · rename_i unsized
    cases run
    intro started
    exact absurd (started.symm.trans unsized.1) (by decide)
  · obtain ⟨numbered, readable⟩ := ok
    simp only [] at run
    generalize (if s.inited = true then s else initRead m g s) = t at *
    split at run
    · rename_i wrong
      cases run
      exact numbered.resolve_left wrong
    · have counted : Readable m { t with iBlkSeqNum := (t.iBlkSeqNum + 1) % 65536 } size := readable
      rw [giveBlock] at run
      split at run
      · cases run
      · rename_i filled
        have positive := counted.fill filled
        rw [if_neg (Int.not_lt.mpr positive)] at run
        split at run
        · cases run
          exact absurd error (Int.not_lt.mpr positive)
        · cases run
          exact absurd error (Int.not_lt.mpr positive)

/-- A call that meets `Ok` and fails leaves the entity at the start. -/
lemma error_atStart {c : Call} {r : Entity σ × Int × List UInt8} (ok : Ok m g s c)
    (run : call m g s c = some r) (error : IsError c r.2.1) : AtStart m g r.1 := by
  cases c with
  | write buf seq =>
    cases run
    exact write_error error
  | flush =>
    cases run
    exact flush_ok ok
  | read size seq => exact read_error ok run error

/-! ## Transfers -/

variable {dev : σ} {mem : Mem}

/-- The blocks of a transfer reach a medium that writes in full, one behind the other from its
beginning, and then it is flushed. -/
lemma writes_delivered (full : FullWrites m) {blocks : List (List UInt8)}
    (fit : ∀ b ∈ blocks, b.length ≤ g.bufSize) :
    (∀ o ∈ outcomes m g (Entity.new dev mem) (writeCalls 0 blocks), ∃ d, o = some (0, [], d)) ∧
      ∃ ps, ps.flatten = blocks.flatten ∧
        (let s := (writeCalls 0 blocks).foldl (after m g) (Entity.new dev mem)
         ((dfuFlush m g s).1.dev, (dfuFlush m g s).2)) = m.flush (deliver m dev 0 ps) := by
  cases blocks with
  | nil => exact ⟨by simp [writeCalls, outcomes], [], rfl, rfl⟩
  | cons b bs =>
    obtain ⟨held, number⟩ := held_init (m := m) (s := Entity.new dev mem) rfl
    obtain ⟨oks, held⟩ := held.writes full number fit
    obtain ⟨ps, parts, flushed⟩ := held.flush full
    have same_call : call m g (Entity.new dev mem) (.write b 0) =
        call m g (initWrite g (Entity.new dev mem)) (.write b 0) := by
      simp only [call]
      rw [dfuWrite_init]
    rw [writeCalls, outcomes, ← same_call] at oks
    rw [writeCalls, List.foldl_cons, after, ← same_call] at flushed
    refine ⟨oks, ps, parts, ?_⟩
    simp only [writeCalls, List.foldl_cons]
    exact flushed

/-- The calls of `dfu_read` hand out the contents one behind the other, and a short one ends the
transfer. -/
lemma reads_contents {contents : List UInt8} (full : FullReads m dev contents) {sizes : List Nat}
    {size : Nat} (within : sizes.sum ≤ contents.length) :
    ∃ t, dfuRead m g ((readCalls 0 sizes).foldl (after m g) (Entity.new dev mem)) size
        (sizes.length % 65536) =
        some (t, (((contents.drop sizes.sum).take size).length : Int),
          (contents.drop sizes.sum).take size) ∧
      t.dev = dev ∧ (((contents.drop sizes.sum).take size).length < size → t.inited = false) := by
  obtain ⟨reads, number⟩ := reads_init (s := Entity.new dev mem) full
  have sized : 0 ≤ m.getMediumSize (Entity.new dev mem).dev := by
    rw [show (Entity.new dev mem).dev = dev from rfl, full.size]
    exact Int.natCast_nonneg _
  cases sizes with
  | nil =>
    obtain ⟨t, run, same, short, _⟩ := Reads.read (n := 0) reads number
    refine ⟨t, ?_, same, short⟩
    rw [readCalls, List.foldl_nil, dfuRead_init rfl sized]
    exact run
  | cons n ns =>
    have first : after m g (Entity.new dev mem) (.read n 0) =
        after m g (initRead m g (Entity.new dev mem)) (.read n 0) := by
      obtain ⟨t, run, _⟩ := Reads.read (n := 0) reads number
      simp only [after, call]
      rw [dfuRead_init rfl sized, run]
      rfl
    have whole : 0 + (n :: ns).sum ≤ contents.length := by omega
    obtain ⟨reads, number, same⟩ := reads.reads number whole
    rw [Nat.zero_add] at reads number
    obtain ⟨t, run, same', short, _⟩ := Reads.read reads number
    refine ⟨t, ?_, same'.trans same, short⟩
    rw [readCalls, List.foldl_cons, Nat.zero_mod, first]
    exact run

/-- Transfers move exactly the data, and behind every call that meets `Ok` and fails the next
transfer goes as on a freshly initialised entity. -/
theorem dfu_transfers (m : Medium σ) (g : Config) (dev : σ) (mem : Mem) :
    (FullWrites m → ∀ blocks : List (List UInt8), (∀ b ∈ blocks, b.length ≤ g.bufSize) →
      (∀ o ∈ outcomes m g (Entity.new dev mem) (writeCalls 0 blocks),
        ∃ d, o = some (0, [], d)) ∧
      ∃ ps, ps.flatten = blocks.flatten ∧
        (let s := (writeCalls 0 blocks).foldl (after m g) (Entity.new dev mem)
         ((dfuFlush m g s).1.dev, (dfuFlush m g s).2)) = m.flush (deliver m dev 0 ps)) ∧
    (∀ contents : List UInt8, FullReads m dev contents →
      ∀ (sizes : List Nat) (size : Nat), sizes.sum ≤ contents.length →
      ∃ t, dfuRead m g ((readCalls 0 sizes).foldl (after m g) (Entity.new dev mem)) size
          (sizes.length % 65536) =
          some (t, (((contents.drop sizes.sum).take size).length : Int),
            (contents.drop sizes.sum).take size) ∧
        t.dev = dev ∧ (((contents.drop sizes.sum).take size).length < size → t.inited = false)) ∧
    (∀ (calls : List Call) (c : Call) (r : Entity σ × Int × List UInt8),
      Along (Ok m g) (after m g) (Entity.new dev mem) (calls ++ [c]) →
      call m g (calls.foldl (after m g) (Entity.new dev mem)) c = some r →
      IsError c r.2.1 → BehavesFresh m g r.1) := by
  refine ⟨fun full blocks fit => writes_delivered full fit,
    fun contents full sizes size within => reads_contents full within, ?_⟩
  intro calls c r run returned error
  obtain ⟨_, ok, _⟩ := Along.append.mp run
  exact (error_atStart ok returned error).behavesFresh

/-! ## A medium that fails -/

/-- Memory as a medium. -/
def ram : Medium (List UInt8) where
  getMediumSize contents := contents.length
  readMedium contents offset len := (0, (contents.drop offset).take len)
  writeMedium contents offset data :=
    (contents.take offset ++ data ++ contents.drop (offset + data.length), 0, data.length)
  flushMedium := none
  read_le _ _ _ := List.length_take_le ..

/-- A medium that refuses every write. -/
def brokenRam : Medium (List UInt8) :=
  { ram with writeMedium := fun contents _ _ => (contents, -5, 0) }

/-- A buffer of four bytes. -/
def smallBuffer : Config where
  bufSize := 4
  hashUpdate := none
  pos := by decide

theorem dfu_transfers_ram :
    ∃ ps : List (List UInt8), ps.flatten = [1, 2, 3, 4, 5] ∧
      (let s := (writeCalls 0 [[1, 2, 3], [4, 5]]).foldl (after ram smallBuffer)
        (Entity.new [0, 0, 0, 0, 0, 9] Mem.zero)
       ((dfuFlush ram smallBuffer s).1.dev, (dfuFlush ram smallBuffer s).2)) =
        ram.flush (deliver ram [0, 0, 0, 0, 0, 9] 0 ps) :=
  ((dfu_transfers ram smallBuffer [0, 0, 0, 0, 0, 9] Mem.zero).1 (fun _ _ _ => rfl)
    [[1, 2, 3], [4, 5]] (by decide)).2

/-- After a flush that could not write, a transfer that starts at block 0 is refused. -/
theorem failed_flush_sticks :
    ¬∀ (m : Medium (List UInt8)) (g : Config) (dev : List UInt8) (mem : Mem) (calls : List Call)
      (c : Call) (r : Entity (List UInt8) × Int × List UInt8),
      call m g (calls.foldl (after m g) (Entity.new dev mem)) c = some r →
      IsError c r.2.1 → BehavesFresh m g r.1 := by
  intro recovers
  have fresh := recovers brokenRam smallBuffer [] Mem.zero [.write [1] 0] .flush _ rfl
    (by decide : (-5 : Int) ≠ 0) [.write [2] 0] (fun _ mem => nomatch mem) Mem.zero
  revert fresh
  decide

end Imx.Dfu
