import Imx.XyzModem.Open

/-!
# Waiting for a block

The tries that come before a block are used up one by one. Where they are fewer than the receiver
has, it accepts the block; where they are not, it fails, or the block before is taken for the next.
-/

namespace Imx.XyzModem
open Imx.Base

variable {s s' : Xyz} {data before p : List UInt8} {rest : Line} {n k r : Nat} {x : Session}
  {tries last : List Try} {blocks : List (List Try × List UInt8)}

def Try.stat : Try → Stat
  | .lost x => x.stat
  | .again => .ok

def Closing.stat : Closing → Stat
  | .header .. => .ok
  | .lost x _ => x.stat
  | .again _ => .eof

/-- What is in the buffer and not yet read. -/
structure Holds (s : Xyz) (p : List UInt8) : Prop where
  len : s.len = p.length
  pkt : (s.pkt.drop s.bufp).take p.length = p

lemma Got.holds {s s' : Xyz} (got : Got s s' n data rest) : Holds s' data := by
  obtain ⟨more, pkt⟩ := got.pkt
  refine ⟨got.len, ?_⟩
  rw [got.bufp, pkt, List.drop_zero, List.take_left]

lemma ofNat_succ : UInt8.ofNat (n + 1) = UInt8.ofNat n + 1 := UInt8.ofNat_add ..

lemma loss_failed (loss : Loss) : loss.stat ≠ .ok ∧ loss.stat ≠ .cancel ∧ loss.stat ≠ .eof := by
  obtain silent | frame | cksum := loss.detected
  · rw [silent]
    decide
  · rw [frame]
    decide
  · rw [cksum]
    decide

/-- A try is used up. -/
lemma waitLoop_try (t : Try) (k : Nat) (stat : Stat) (crc : s.crcMode = true)
    (block : IsBlock before) (next : s.nextBlk = UInt8.ofNat (n + 1))
    (line : s.line = t.line (packet n before) ++ rest) :
    ∃ s', Same s s' ∧ s'.line = rest ∧ waitLoop (k + 1) stat s = waitLoop k t.stat s' ∧
      (t.stat = .ok → Holds s' before) := by
  rw [waitLoop]
  cases t with
  | lost loss =>
    obtain ⟨found, behind⟩ := loss.found s rest crc line
    obtain ⟨notOk, notCancel, notEof⟩ := loss_failed loss
    have same : Same s (getHdr s).2 := same_getHdr
    rw [found, if_neg notOk, if_neg notCancel, if_neg notEof]
    exact ⟨_, same.trans same_ask, behind, rfl, fun ok => (notOk ok).elim⟩
  | again =>
    obtain ⟨ok, got⟩ := getHdr_packet block crc line
    have blk : (getHdr s).2.blk = UInt8.ofNat n := got.blk
    have nextBlk : (getHdr s).2.nextBlk = UInt8.ofNat n + 1 :=
      got.same.nextBlk.trans (next.trans ofNat_succ)
    rw [ok, if_pos rfl, blk, nextBlk, if_neg, if_pos]
    · exact ⟨_, got.same.trans same_putc, got.line, rfl, fun _ => ⟨got.holds.len, got.holds.pkt⟩⟩
    · exact (UInt8.add_sub_cancel _ _).symm
    · generalize UInt8.ofNat n = b
      intro same
      have zero : (1 : UInt8) = 0 := UInt8.add_eq_left.mp same.symm
      exact absurd zero (by decide)

/-- Fewer tries than the receiver has leave it one for what comes next. -/
lemma waitLoop_tries (k : Nat) (stat : Stat) (crc : s.crcMode = true) (block : IsBlock before)
    (next : s.nextBlk = UInt8.ofNat (n + 1))
    (line : s.line = tries.flatMap (Try.line (packet n before)) ++ rest) (few : tries.length < k) :
    ∃ k' stat' s', Same s s' ∧ s'.line = rest ∧
      waitLoop k stat s = waitLoop (k' + 1) stat' s' := by
  induction tries generalizing s k stat with
  | nil =>
    obtain ⟨k, rfl⟩ : ∃ k', k = k' + 1 := ⟨k - 1, by omega⟩
    exact ⟨k, stat, s, .refl, line, rfl⟩
  | cons t tries ih =>
    cases k with
    | zero => exact absurd few (Nat.not_lt_zero _)
    | succ k =>
      rw [List.flatMap_cons, List.append_assoc] at line
      obtain ⟨s₁, same, behind, step, _⟩ := waitLoop_try t k stat crc block next line
      obtain ⟨k', stat', s', same', line', steps⟩ := ih k t.stat (same.crcMode.trans crc)
        (same.nextBlk.trans next) behind (Nat.lt_of_succ_lt_succ few)
      exact ⟨k', stat', s', same.trans same', line', step.trans steps⟩

/-- As many tries as the receiver has end its wait: the last of them decides how. -/
lemma waitLoop_late (k : Nat) (stat : Stat) (crc : s.crcMode = true) (block : IsBlock before)
    (next : s.nextBlk = UInt8.ofNat (n + 1))
    (line : s.line = tries.flatMap (Try.line (packet n before)) ++ rest)
    (late : k + 1 ≤ tries.length) (ok : (waitLoop (k + 1) stat s).1 = .ok) :
    Same s (waitLoop (k + 1) stat s).2 ∧ Holds (waitLoop (k + 1) stat s).2 before ∧
      (waitLoop (k + 1) stat s).2.line =
        (tries.drop (k + 1)).flatMap (Try.line (packet n before)) ++ rest := by
  induction tries generalizing s k stat with
  | nil => exact absurd late (Nat.not_succ_le_zero _)
  | cons t tries ih =>
    rw [List.flatMap_cons, List.append_assoc] at line
    obtain ⟨s₁, same, behind, step, again⟩ := waitLoop_try t k stat crc block next line
    rw [step] at ok ⊢
    rw [List.drop_succ_cons]
    cases k with
    | zero => exact ⟨same, again ok, behind⟩
    | succ k =>
      obtain ⟨same', holds, line'⟩ := ih k t.stat (same.crcMode.trans crc)
        (same.nextBlk.trans next) behind (Nat.le_of_succ_le_succ late) ok
      exact ⟨same.trans same', holds, line'⟩

/-- A block that is accepted is cut where the file ends. -/
lemma accept_spec (mode : s.mode = .ymodem) (inside : s.readLength < s.fileLength)
    (holds : Holds s data) :
    Holds (accept s) (data.take (s.fileLength - s.readLength)) ∧
      Same { s with nextBlk := s.nextBlk + 1, readLength := s.readLength + data.length }
        (accept s) ∧ (accept s).line = s.line := by
  have ymodem : ¬ (s.mode = .xmodem ∨ s.fileLength = 0) := by
    rw [mode]
    rintro (other | zero)
    · cases other
    · omega
  have len : s.len.toNat = data.length := by
    rw [holds.len]
    exact Int.toNat_natCast _
  have taken := holds.pkt
  rw [accept]
  dsimp only
  rw [if_neg ymodem, len]
  split
  · rename_i past
    have cut : (data.take (s.fileLength - s.readLength)).length = s.fileLength - s.readLength := by
      rw [List.length_take]
      omega
    refine ⟨⟨?_, ?_⟩, ⟨rfl, rfl, rfl, rfl, rfl, rfl⟩, rfl⟩
    · dsimp only
      rw [cut, holds.len]
      omega
    · rw [cut]
      conv_rhs => rw [← taken]
      rw [List.take_take, Nat.min_eq_left (by omega)]
  · rename_i inside
    have all : data.take (s.fileLength - s.readLength) = data :=
      List.take_of_length_le (by omega)
    rw [all]
    exact ⟨⟨holds.len, taken⟩, ⟨rfl, rfl, rfl, rfl, rfl, rfl⟩, rfl⟩

/-- The next block is accepted. -/
lemma waitLoop_next (k : Nat) (stat : Stat) (crc : s.crcMode = true) (mode : s.mode = .ymodem)
    (inside : s.readLength < s.fileLength) (block : IsBlock data)
    (next : s.nextBlk = UInt8.ofNat (n + 1)) (line : s.line = packet (n + 1) data ++ rest) :
    (waitLoop (k + 1) stat s).1 = .ok ∧
      Holds (waitLoop (k + 1) stat s).2 (data.take (s.fileLength - s.readLength)) ∧
      Same { s with
          nextBlk := UInt8.ofNat (n + 2), readLength := s.readLength + data.length }
        (waitLoop (k + 1) stat s).2 ∧ (waitLoop (k + 1) stat s).2.line = rest := by
  obtain ⟨ok, got⟩ := getHdr_packet block crc line
  have same := got.same
  have blk : (getHdr s).2.blk = (getHdr s).2.nextBlk := by
    rw [got.blk, same.nextBlk, next]
  obtain ⟨holds, accepted, behind⟩ := accept_spec (same.mode.trans mode)
    (by rw [same.readLength, same.fileLength]; exact inside) got.holds
  rw [same.fileLength, same.readLength] at holds
  rw [waitLoop, ok, if_pos rfl, if_pos blk]
  refine ⟨rfl, holds, ?_, behind.trans got.line⟩
  have number : (getHdr s).2.nextBlk + 1 = UInt8.ofNat (n + 2) := by
    rw [same.nextBlk, next]
    exact ofNat_succ.symm
  rw [number, same.readLength] at accepted
  exact ⟨accepted.nextBlk, accepted.mode.trans same.mode, accepted.crcMode.trans same.crcMode,
    accepted.atEof.trans same.atEof, accepted.fileLength.trans same.fileLength,
    accepted.readLength⟩

/-- The end of the file ends the wait, and what comes behind it decides how. -/
lemma waitLoop_eot (k : Nat) (stat : Stat) (crc : s.crcMode = true) (mode : s.mode = .ymodem)
    (line : s.line = some eot :: x.closing.line) :
    (waitLoop (k + 1) stat s).1 = x.closing.stat ∧ (waitLoop (k + 1) stat s).2.atEof = true := by
  obtain ⟨eof, same, behind⟩ := getHdr_eot line
  rw [waitLoop, eof, if_neg (by decide), if_neg (by decide), if_pos rfl, endOfFile]
  dsimp only
  rw [if_pos (show (putc (getHdr s).2 ack).mode = .ymodem from same.mode.trans mode)]
  refine ⟨?_, rfl⟩
  have crc' : (ask (putc (getHdr s).2 ack)).crcMode = true := same.crcMode.trans crc
  have line' : (ask (putc (getHdr s).2 ack)).line = x.closing.line := behind
  cases eq : x.closing with
  | header data block rest =>
    rw [eq] at line'
    exact (getHdr_packet block crc' line').1
  | lost loss rest =>
    rw [eq] at line'
    exact (loss.found _ rest crc' line').1
  | again rest =>
    rw [eq] at line'
    exact (getHdr_eot line').1

end Imx.XyzModem
