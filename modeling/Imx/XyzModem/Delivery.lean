import Imx.XyzModem.Wait

/-!
# What is delivered

`At` says where in a session the receiver is. In time, the reads give what is left of the file, and
otherwise they fail or give more than there is.
-/

namespace Imx.XyzModem
open Imx.Base

variable {s s' : Xyz} {data before p buf : List UInt8} {n r size fuel : Nat} {x : Session}
  {tries last : List Try} {blocks : List (List Try × List UInt8)}

/-- Behind block `n`, with `p` in the buffer and `r` characters of the file received. -/
structure At (x : Session) (s : Xyz) (n : Nat) (before : List UInt8)
    (blocks : List (List Try × List UInt8)) (last : List Try) (p : List UInt8) (r : Nat) :
    Prop where
  line : s.line = stream x.closing last n before blocks
  nextBlk : s.nextBlk = UInt8.ofNat (n + 1)
  mode : s.mode = .ymodem
  crcMode : s.crcMode = true
  atEof : s.atEof = false
  fileLength : s.fileLength = x.file.length
  readLength : s.readLength = r
  holds : Holds s p
  block : IsBlock before
  isBlock : ∀ b ∈ blocks, IsBlock b.2
  needed : Needed x.file.length r blocks
  carries : (blocks.flatMap Prod.snd).take (x.file.length - r) = x.file.drop r

/-- The tries before the next block or the end of the file. -/
def firstTries (last : List Try) : List (List Try × List UInt8) → List Try
  | [] => last
  | b :: _ => b.1

/-- What is left comes in time. -/
structure Timely (x : Session) (blocks : List (List Try × List UInt8)) (last : List Try) :
    Prop where
  blocks : ∀ b ∈ blocks, b.1.length < maxRetries
  last : last.length < maxRetries
  closing : x.closing.stat = .ok

/-- The next block is accepted in time. -/
lemma At.accept (h : At x s n before ((tries, data) :: blocks) last [] r)
    (few : tries.length < maxRetries) :
    ∃ s', waitLoop maxRetries .cancel s = (.ok, s') ∧ s'.line.length < s.line.length ∧
      At x s' (n + 1) data blocks last (data.take (x.file.length - r)) (r + data.length) := by
  obtain ⟨block, isBlock⟩ := List.forall_mem_cons.mp h.isBlock
  obtain ⟨inside, needed⟩ := h.needed
  have carries := h.carries
  have line : s.line = tries.flatMap (Try.line (packet n before)) ++
      (packet (n + 1) data ++ stream x.closing last (n + 1) data blocks) := h.line
  obtain ⟨k, stat, s₁, same, line₁, steps⟩ :=
    waitLoop_tries maxRetries .cancel h.crcMode h.block h.nextBlk line few
  have length : s₁.readLength = r ∧ s₁.fileLength = x.file.length :=
    ⟨same.readLength.trans h.readLength, same.fileLength.trans h.fileLength⟩
  obtain ⟨ok, holds, same', line'⟩ := waitLoop_next k stat (same.crcMode.trans h.crcMode)
    (same.mode.trans h.mode) (by rw [length.1, length.2]; exact inside) block
    (same.nextBlk.trans h.nextBlk) line₁
  rw [length.1, length.2] at holds
  rw [List.flatMap_cons] at carries
  refine ⟨_, steps.trans (Prod.ext ok rfl), ?_, line', same'.nextBlk, ?_, ?_, ?_, ?_, ?_, holds,
    block, isBlock, needed, ?_⟩
  · have pos : 0 < (packet (n + 1) data).length := Nat.succ_pos _
    rw [line', line, List.length_append, List.length_append]
    omega
  · exact same'.mode.trans (same.mode.trans h.mode)
  · exact same'.crcMode.trans (same.crcMode.trans h.crcMode)
  · exact same'.atEof.trans (same.atEof.trans h.atEof)
  · exact same'.fileLength.trans length.2
  · exact same'.readLength.trans (congrArg (· + data.length) length.1)
  · have rest := congrArg (List.drop data.length) carries
    rw [List.drop_take, List.drop_left, List.drop_drop, Nat.sub_sub] at rest
    exact rest

/-- The end of the file is found in time, and what comes behind it decides. -/
lemma At.finish (h : At x s n before [] last [] r) (few : last.length < maxRetries) :
    (waitLoop maxRetries .cancel s).1 = x.closing.stat ∧
      (waitLoop maxRetries .cancel s).2.atEof = true := by
  obtain ⟨k, stat, s₁, same, line₁, steps⟩ :=
    waitLoop_tries maxRetries .cancel h.crcMode h.block h.nextBlk h.line few
  rw [steps]
  exact waitLoop_eot k stat (same.crcMode.trans h.crcMode) (same.mode.trans h.mode) line₁

/-- What comes too late makes the receiver take the block before for the next one, if it does not
fail. -/
lemma At.late (h : At x s n before blocks last [] r)
    (many : maxRetries ≤ (firstTries last blocks).length)
    (ok : (waitLoop maxRetries .cancel s).1 = .ok) :
    ∃ blocks' last', At x (waitLoop maxRetries .cancel s).2 n before blocks' last' before r := by
  have moved {rest : Line} {tries : List Try} {blocks' : List (List Try × List UInt8)}
      {last' : List Try} (line : s.line = tries.flatMap (Try.line (packet n before)) ++ rest)
      (many : maxRetries ≤ tries.length)
      (line' : (tries.drop maxRetries).flatMap (Try.line (packet n before)) ++ rest =
        stream x.closing last' n before blocks')
      (isBlock : ∀ b ∈ blocks', IsBlock b.2) (needed : Needed x.file.length r blocks')
      (carries : (blocks'.flatMap Prod.snd).take (x.file.length - r) = x.file.drop r) :
      At x (waitLoop maxRetries .cancel s).2 n before blocks' last' before r := by
    obtain ⟨same, holds, behind⟩ :=
      waitLoop_late 19 .cancel h.crcMode h.block h.nextBlk line many ok
    exact ⟨behind.trans line', same.nextBlk.trans h.nextBlk, same.mode.trans h.mode,
      same.crcMode.trans h.crcMode, same.atEof.trans h.atEof, same.fileLength.trans h.fileLength,
      same.readLength.trans h.readLength, holds, h.block, isBlock, needed, carries⟩
  cases blocks with
  | nil =>
    exact ⟨[], last.drop maxRetries, moved h.line many rfl h.isBlock h.needed h.carries⟩
  | cons b blocks =>
    refine ⟨(b.1.drop maxRetries, b.2) :: blocks, last,
      moved h.line many rfl ?_ h.needed h.carries⟩
    intro b' mem
    obtain rfl | mem := List.mem_cons.mp mem
    · exact h.isBlock b (List.mem_cons_self ..)
    · exact h.isBlock b' (List.mem_cons_of_mem _ mem)

/-- The next block begins with what is next of the file. -/
lemma At.next (h : At x s n before ((tries, data) :: blocks) last p r) :
    data.take (x.file.length - r) ++ x.file.drop (r + data.length) = x.file.drop r ∧
      data.take (x.file.length - r) ≠ [] := by
  have carries := h.carries
  rw [List.flatMap_cons] at carries
  constructor
  · have first := congrArg (List.take data.length) carries
    rw [List.take_take, Nat.min_comm, ← List.take_take, List.take_left] at first
    rw [first, ← List.drop_drop, List.take_append_drop]
  · apply List.ne_nil_of_length_pos
    have block := (List.forall_mem_cons.mp h.isBlock).1
    have inside : r < x.file.length := h.needed.1
    rw [List.length_take]
    obtain short | long := block
    · change data.length = 128 at short
      omega
    · change data.length = 1024 at long
      omega

/-! ## Reading -/

lemma readLoop_done (stop : s.atEof = true ∨ size = 0) :
    readLoop (fuel + 1) s size buf = some ⟨s, buf, none⟩ := if_pos stop

lemma readLoop_fail (going : ¬ (s.atEof = true ∨ size = 0)) (empty : s.len = 0)
    (failed : (waitLoop maxRetries .cancel s).1 ≠ .ok) :
    readLoop (fuel + 1) s size buf = some ⟨{ (waitLoop maxRetries .cancel s).2 with len := -1 },
      buf, some (waitLoop maxRetries .cancel s).1⟩ := by
  rw [readLoop, if_neg going, if_pos empty]
  exact if_pos failed

lemma readLoop_eof (going : ¬ (s.atEof = true ∨ size = 0)) (empty : s.len = 0)
    (ok : (waitLoop maxRetries .cancel s).1 = .ok)
    (eof : (waitLoop maxRetries .cancel s).2.atEof = true) :
    readLoop (fuel + 1) s size buf =
      readLoop fuel (waitLoop maxRetries .cancel s).2 size buf := by
  rw [readLoop, if_neg going, if_pos empty]
  dsimp only
  rw [if_neg (not_not.mpr ok), if_pos eof]

/-- A block that was waited for is read from. -/
lemma readLoop_wait (going : ¬ (s.atEof = true ∨ size = 0)) (empty : s.len = 0)
    (wait : waitLoop maxRetries .cancel s = (.ok, s')) (open_ : s'.atEof = false)
    (some : s'.len ≠ 0) :
    readLoop (fuel + 1) s size buf = readLoop (fuel + 1) s' size buf := by
  have going' : ¬ (s'.atEof = true ∨ size = 0) := by
    rintro (eof | zero)
    · rw [open_] at eof
      cases eof
    · exact going (.inr zero)
  rw [readLoop, readLoop, if_neg going, if_neg going', if_pos empty, if_neg some, wait]

/-- Characters are taken out of the buffer. -/
lemma Holds.take {c : Nat} (h : Holds s p) (le : c ≤ p.length) :
    (s.pkt.drop s.bufp).take c = p.take c ∧
      Holds { s with len := s.len - c, bufp := s.bufp + c } (p.drop c) := by
  have out := congrArg (List.take c) h.pkt
  have rest := congrArg (List.drop c) h.pkt
  rw [List.take_take, Nat.min_eq_left le] at out
  rw [List.drop_take, List.drop_drop] at rest
  refine ⟨out, ?_, ?_⟩
  · dsimp only
    rw [h.len, List.length_drop]
    omega
  · rw [List.length_drop]
    exact rest

variable (fuel buf) in
/-- Characters are copied out of the buffer. -/
lemma At.copy (h : At x s n before blocks last p r) (some : p ≠ []) (more : size ≠ 0) :
    ∃ s', At x s' n before blocks last (p.drop (min size p.length)) r ∧ s'.line = s.line ∧
      readLoop (fuel + 1) s size buf =
        readLoop fuel s' (size - min size p.length) (buf ++ p.take (min size p.length)) := by
  have pos := List.length_pos_of_ne_nil some
  have len := h.holds.len
  have nat : s.len.toNat = p.length := by omega
  have going : ¬ (s.atEof = true ∨ size = 0) := by
    rw [h.atEof]
    rintro (eof | zero)
    · cases eof
    · exact more zero
  obtain ⟨out, rest⟩ := h.holds.take (Nat.min_le_right size p.length)
  refine ⟨{ s with len := s.len - (min size p.length : Nat), bufp := s.bufp + min size p.length },
    ⟨h.line, h.nextBlk, h.mode, h.crcMode, h.atEof, h.fileLength, h.readLength, rest, h.block,
      h.isBlock, h.needed, h.carries⟩, rfl, ?_⟩
  have full : ¬ s.len = 0 := by omega
  rw [readLoop, if_neg going]
  simp only [if_neg full]
  rw [if_neg (not_not.mpr rfl), h.atEof, if_neg Bool.false_ne_true, if_neg (by omega), nat, out]

lemma At.going (h : At x s n before blocks last p r) (more : size ≠ 0) :
    ¬ (s.atEof = true ∨ size = 0) := by
  rw [h.atEof]
  rintro (eof | zero)
  · cases eof
  · exact more zero

/-- Where the receiver is after a read, with what is left. -/
def Left (x : Session) (s : Xyz) (rest : List UInt8) : Prop :=
  (s.atEof = true ∧ rest = []) ∨ ∃ n before blocks last p r, At x s n before blocks last p r ∧
    Timely x blocks last ∧ rest = p ++ x.file.drop r

/-- A part of the buffer and what is read behind it. -/
lemma take_part {c : Nat} {l : List UInt8} (le : c ≤ p.length) (le' : c ≤ size) :
    p.take c ++ (p.drop c ++ l).take (size - c) = (p ++ l).take size ∧
      (p.drop c ++ l).drop (size - c) = (p ++ l).drop size := by
  rw [← List.drop_append_of_le_length le, ← List.take_append_of_le_length le, List.drop_drop,
    ← List.take_add, Nat.add_sub_cancel' le']
  exact ⟨rfl, rfl⟩

variable (buf) in
/-- In time, a read gives what is left of the file. -/
lemma At.reads (h : At x s n before blocks last p r) (timely : Timely x blocks last)
    (enough : s.line.length + size < fuel) :
    ∃ s', readLoop fuel s size buf = some ⟨s', buf ++ (p ++ x.file.drop r).take size, none⟩ ∧
      Left x s' ((p ++ x.file.drop r).drop size) := by
  induction fuel generalizing s n before blocks last p r size buf with
  | zero => exact absurd enough (Nat.not_lt_zero _)
  | succ fuel ih =>
    by_cases zero : size = 0
    · rw [zero, List.take_zero, List.append_nil, List.drop_zero]
      exact ⟨s, readLoop_done (.inr rfl), .inr ⟨n, before, blocks, last, p, r, h, timely, rfl⟩⟩
    · have going := h.going zero
      -- with characters in the buffer some are copied, and the rest is read by the induction
      have full {s : Xyz} {n : Nat} {before : List UInt8} {blocks : List (List Try × List UInt8)}
          {p : List UInt8} {r : Nat} (h : At x s n before blocks last p r)
          (timely : Timely x blocks last) (enough : s.line.length + size < fuel + 1)
          (nonempty : p ≠ []) :
          ∃ s', readLoop (fuel + 1) s size buf =
              some ⟨s', buf ++ (p ++ x.file.drop r).take size, none⟩ ∧
            Left x s' ((p ++ x.file.drop r).drop size) := by
        obtain ⟨s₁, h₁, line, step⟩ := h.copy buf fuel nonempty zero
        have pos := List.length_pos_of_ne_nil nonempty
        have fewer : s₁.line.length + (size - min size p.length) < fuel := by
          rw [line]
          omega
        obtain ⟨s', read, left⟩ := ih (buf ++ p.take (min size p.length)) h₁ timely fewer
        obtain ⟨taken, dropped⟩ := take_part (l := x.file.drop r) (Nat.min_le_right size p.length)
          (Nat.min_le_left size p.length)
        rw [List.append_assoc, taken] at read
        rw [dropped] at left
        exact ⟨s', step.trans read, left⟩
      by_cases empty : p = []
      · rw [empty] at h ⊢
        have len : s.len = 0 := h.holds.len
        cases blocks with
        | nil =>
          obtain ⟨stat, eof⟩ := h.finish timely.last
          have ok := stat.trans timely.closing
          have all : x.file.drop r = [] := List.drop_eq_nil_of_le h.needed
          rw [readLoop_eof going len ok eof, all, List.append_nil, List.take_nil, List.append_nil,
            List.drop_nil]
          obtain ⟨k, rfl⟩ : ∃ k, fuel = k + 1 := ⟨fuel - 1, by omega⟩
          exact ⟨_, readLoop_done (.inl eof), .inl ⟨eof, rfl⟩⟩
        | cons b blocks =>
          obtain ⟨few, others⟩ := List.forall_mem_cons.mp timely.blocks
          obtain ⟨s₁, wait, shorter, h₁⟩ := h.accept few
          obtain ⟨next, nonempty⟩ := h.next
          have some : s₁.len ≠ 0 := by
            rw [h₁.holds.len]
            exact Int.natCast_ne_zero.mpr (Nat.ne_of_gt (List.length_pos_of_ne_nil nonempty))
          rw [readLoop_wait going len wait h₁.atEof some, List.nil_append, ← next]
          exact full h₁ ⟨others, timely.last, timely.closing⟩ (by omega) nonempty
      · exact full h timely enough empty

/-- What comes too late makes a read fail or give more than there is. -/
lemma At.exceeds {late : Nat} {ret : Ret} (h : At x s n before blocks last p r)
    (one : late ≤ 1) (untimely : late = 0 ∨ ¬ Timely x blocks last)
    (read : readLoop fuel s size buf = some ret) (ok : ret.err = none) :
    buf.length + min size (p.length + (x.file.length - r) + late) ≤ ret.buf.length := by
  induction fuel generalizing s n before blocks last p r size buf late with
  | zero => cases read
  | succ fuel ih =>
    by_cases zero : size = 0
    · rw [readLoop_done (.inr zero)] at read
      cases read
      dsimp only
      omega
    · have going := h.going zero
      -- with characters in the buffer some are copied, and the rest is read by the induction
      have full {late : Nat} {s : Xyz} {n : Nat} {before : List UInt8}
          {blocks : List (List Try × List UInt8)} {last : List Try} {p : List UInt8} {r : Nat}
          (h : At x s n before blocks last p r) (one : late ≤ 1)
          (untimely : late = 0 ∨ ¬ Timely x blocks last) (nonempty : p ≠ [])
          (read : readLoop (fuel + 1) s size buf = some ret) :
          buf.length + min size (p.length + (x.file.length - r) + late) ≤ ret.buf.length := by
        obtain ⟨s₁, h₁, _, step⟩ := h.copy buf fuel nonempty zero
        rw [step] at read
        have le := ih h₁ one untimely read
        rw [List.length_append, List.length_take, List.length_drop] at le
        omega
      by_cases empty : p = []
      · rw [empty] at h ⊢
        have len : s.len = 0 := h.holds.len
        by_cases wait : (waitLoop maxRetries .cancel s).1 = .ok
        · by_cases many : maxRetries ≤ (firstTries last blocks).length
          · obtain ⟨blocks', last', h'⟩ := h.late many wait
            have nonempty : 128 ≤ before.length := by
              obtain short | long := h.block
              · exact Nat.le_of_eq short.symm
              · rw [long]
                decide
            rw [readLoop_wait going len (Prod.ext wait rfl) h'.atEof
              (by rw [h'.holds.len]; omega)] at read
            have le := full h' (Nat.zero_le 1) (.inl rfl)
              (List.ne_nil_of_length_pos (by omega)) read
            rw [List.length_nil]
            omega
          · cases blocks with
            | nil =>
              have few : last.length < maxRetries := Nat.lt_of_not_le many
              obtain ⟨stat, eof⟩ := h.finish few
              have none : late = 0 := by
                obtain none | late := untimely
                · exact none
                · exact (late ⟨List.forall_mem_nil _, few, stat.symm.trans wait⟩).elim
              have all : x.file.length ≤ r := h.needed
              rw [readLoop_eof going len wait eof] at read
              cases fuel with
              | zero => cases read
              | succ k =>
                rw [readLoop_done (.inl eof)] at read
                cases read
                rw [List.length_nil]
                dsimp only
                omega
            | cons b blocks =>
              have few : b.1.length < maxRetries := Nat.lt_of_not_le many
              obtain ⟨s₁, accepted, _, h₁⟩ := h.accept few
              obtain ⟨_, nonempty⟩ := h.next
              have untimely₁ : late = 0 ∨ ¬ Timely x blocks last :=
                untimely.imp_right fun late timely =>
                  late ⟨List.forall_mem_cons.mpr ⟨few, timely.blocks⟩, timely.last, timely.closing⟩
              have some := List.length_pos_of_ne_nil nonempty
              rw [readLoop_wait going len accepted h₁.atEof (by rw [h₁.holds.len]; omega)] at read
              have le := full h₁ one untimely₁ nonempty read
              rw [List.length_take] at le
              rw [List.length_nil]
              omega
        · rw [readLoop_fail going len wait] at read
          cases read
          cases ok
      · exact full h one untimely empty read

/-! ## A session -/

variable (size) in
/-- A read gives what is left, and leaves what is behind it. -/
lemma Left.read {rest : List UInt8} (h : Left x s rest) :
    ∃ s', streamRead s size = some ⟨s', rest.take size, none⟩ ∧ Left x s' (rest.drop size) := by
  obtain ⟨eof, rfl⟩ | ⟨n, before, blocks, last, p, r, h, timely, rfl⟩ := h
  · refine ⟨s, ?_, .inl ⟨eof, List.drop_nil⟩⟩
    rw [streamRead, readLoop_done (.inl eof), List.take_nil]
  · have read := h.reads [] timely (Nat.lt_succ_self (s.line.length + size))
    rw [List.nil_append] at read
    exact read

lemma Left.readAll {rest : List UInt8} {sizes : List Nat} (h : Left x s rest) :
    readAll s sizes = some (rest.take sizes.sum) := by
  induction sizes generalizing s rest with
  | nil => rfl
  | cons size sizes ih =>
    obtain ⟨s', read, left⟩ := h.read size
    rw [Imx.XyzModem.readAll, read, Option.bind_some, if_pos rfl, ih left, Option.map_some,
      List.sum_cons, List.take_add]

lemma Opened.at (h : Opened x s) : At x s 0 x.header x.blocks x.last [] 0 where
  line := h.line
  nextBlk := h.nextBlk
  mode := h.mode
  crcMode := h.crcMode
  atEof := h.atEof
  fileLength := h.fileLength
  readLength := h.readLength
  holds := ⟨h.len, rfl⟩
  block := x.headerBlock
  isBlock := x.isBlock
  needed := x.needed
  carries := by
    rw [Nat.sub_zero, List.drop_zero]
    exact x.carries

/-- The state of a receiver that was never used. -/
def unused : Xyz := ⟨[], [], List.replicate 1024 0, 0, 0, 0, 0, .xmodem, false, false, false, 0, 0⟩

end Imx.XyzModem
