import Imx.XyzModem.Session

/-!
# One block

What `get_hdr` does with each of the things that are on the line of a session.
-/

namespace Imx.XyzModem
open Imx.Base

variable {s s' : Xyz} {cs data crc' : List UInt8} {rest line : Line} {n : Nat}

/-- What a header leaves as it is. -/
structure Same (s s' : Xyz) : Prop where
  nextBlk : s'.nextBlk = s.nextBlk
  mode : s'.mode = s.mode
  crcMode : s'.crcMode = s.crcMode
  atEof : s'.atEof = s.atEof
  fileLength : s'.fileLength = s.fileLength
  readLength : s'.readLength = s.readLength

lemma Same.refl : Same s s := ⟨rfl, rfl, rfl, rfl, rfl, rfl⟩

lemma Same.trans {s'' : Xyz} (h : Same s s') (h' : Same s' s'') : Same s s'' :=
  ⟨h'.nextBlk.trans h.nextBlk, h'.mode.trans h.mode, h'.crcMode.trans h.crcMode,
    h'.atEof.trans h.atEof, h'.fileLength.trans h.fileLength, h'.readLength.trans h.readLength⟩

lemma same_putc {c : UInt8} : Same s (putc s c) := ⟨rfl, rfl, rfl, rfl, rfl, rfl⟩

lemma same_ask : Same s (ask s) := same_putc

lemma same_sendAck : Same s (sendAck s) := by
  rw [sendAck]
  split
  · exact ⟨rfl, rfl, rfl, rfl, rfl, rfl⟩
  · exact .refl

lemma same_getBlock {c : UInt8} : Same s (getBlock s c).2 := by
  unfold getBlock
  dsimp only
  split
  · exact ⟨rfl, rfl, rfl, rfl, rfl, rfl⟩
  · split
    · exact ⟨rfl, rfl, rfl, rfl, rfl, rfl⟩
    · split
      · exact ⟨rfl, rfl, rfl, rfl, rfl, rfl⟩
      · split
        · exact ⟨rfl, rfl, rfl, rfl, rfl, rfl⟩
        · split
          · exact ⟨rfl, rfl, rfl, rfl, rfl, rfl⟩
          · exact ⟨rfl, rfl, rfl, rfl, rfl, rfl⟩

lemma same_getHdr : Same s (getHdr s).2 := by
  have ack : Same s (sendAck s) := same_sendAck
  rw [getHdr]
  split
  · refine Same.trans ?_ same_getBlock
    exact ack.trans ⟨rfl, rfl, rfl, rfl, rfl, rfl⟩
  · exact ack.trans ⟨rfl, rfl, rfl, rfl, rfl, rfl⟩
  · exact ack.trans ⟨rfl, rfl, rfl, rfl, rfl, rfl⟩

lemma line_sendAck : (sendAck s).line = s.line := by
  rw [sendAck]
  split
  · rfl
  · rfl

/-! ## What is on the line -/

lemma readChars_append : readChars cs.length (cs.map some ++ rest) = (cs, rest) := by
  induction cs with
  | nil => rfl
  | cons c cs ih => rw [List.length_cons, List.map_cons, List.cons_append, readChars, ih]

lemma xor_not (b : UInt8) : b ^^^ ~~~ b = 0xFF :=
  UInt8.xor_not.trans (congrArg (~~~ ·) UInt8.xor_self)

/-- What a block leaves. -/
structure Got (s s' : Xyz) (n : Nat) (data : List UInt8) (rest : Line) : Prop where
  same : Same s s'
  line : s'.line = rest
  blk : s'.blk = UInt8.ofNat n
  len : s'.len = data.length
  bufp : s'.bufp = 0
  pkt : ∃ more, s'.pkt = data ++ more

lemma verify_crc : verify true data (bytesBe 2 (cygCrc16 data).toNat) = true := by
  have lt := (cygCrc16 data).toNat_lt
  generalize crc : (cygCrc16 data).toNat = n at lt
  have bytes : bytesBe 2 n = [UInt8.ofNat (n / 256), UInt8.ofNat n] := rfl
  rw [verify, if_pos rfl, crc, bytes, decide_eq_true_iff]
  change n = 256 * (UInt8.ofNat (n / 256)).toNat + (UInt8.ofNat n).toNat
  rw [UInt8.toNat_ofNat', UInt8.toNat_ofNat']
  omega

/-- Some bytes on the line where those of a block of this number and size are expected. -/
def arrival (n size : Nat) (bytes : List UInt8) : Line :=
  ([if size = 128 then soh else stx, UInt8.ofNat n, ~~~ UInt8.ofNat n] ++ bytes).map some

/-- What follows the header is read, and the block is taken if its check is right. -/
lemma getBlock_arrival {c : UInt8} (size : data.length = blockLen c) (two : crc'.length = 2)
    (crc : s.crcMode = true) (line : s.line = [UInt8.ofNat n, ~~~ UInt8.ofNat n].map some ++
      (data.map some ++ (crc'.map some ++ rest))) :
    (getBlock s c).1 = (if verify true data crc' then .ok else .cksum) ∧
      Got s (getBlock s c).2 n data rest := by
  have num : readChars 2 s.line = ([UInt8.ofNat n, ~~~ UInt8.ofNat n],
      data.map some ++ (crc'.map some ++ rest)) := by
    rw [line]
    rfl
  have chars : readChars (blockLen c) (data.map some ++ (crc'.map some ++ rest)) =
      (data, crc'.map some ++ rest) := size ▸ readChars_append
  have check : readChars 2 (crc'.map some ++ rest) = (crc', rest) := two ▸ readChars_append
  have len : checkLen true = 2 := rfl
  unfold getBlock
  simp only [num, chars, crc, len, check]
  have both : ¬ [UInt8.ofNat n, ~~~ UInt8.ofNat n].length < 2 := Nat.lt_irrefl 2
  rw [if_neg both, if_neg (by omega), if_neg (by omega)]
  simp only [List.getD_cons_zero, List.getD_cons_succ]
  rw [if_neg (not_not.mpr (xor_not _))]
  cases verify true data crc' <;>
    exact ⟨rfl, ⟨rfl, rfl, crc.symm, rfl, rfl, rfl⟩, rfl, rfl, by rw [size]; rfl, rfl, _, rfl⟩

/-- As many bytes as a block has are received, whatever they are. -/
lemma getHdr_arrival (block : IsBlock data) (two : crc'.length = 2) (crc : s.crcMode = true)
    (line : s.line = arrival n data.length (data ++ crc') ++ rest) :
    (getHdr s).1 = (if verify true data crc' then .ok else .cksum) ∧
      Got s (getHdr s).2 n data rest := by
  have mode : (sendAck s).crcMode = true := same_sendAck.crcMode.trans crc
  obtain ⟨c, start, size, first⟩ : ∃ c, (c = soh ∨ c = stx) ∧ data.length = blockLen c ∧
      (if data.length = 128 then soh else stx) = c := by
    obtain short | long := block
    · exact ⟨soh, .inl rfl, short, if_pos short⟩
    · exact ⟨stx, .inr rfl, long, if_neg (by rw [long]; decide)⟩
  generalize number : ([UInt8.ofNat n, ~~~ UInt8.ofNat n].map some : Line) ++ (data.map some ++
    (crc'.map some ++ rest)) = behind
  have chars : arrival n data.length (data ++ crc') ++ rest = some c :: behind := by
    rw [← number, arrival, first, List.map_append, List.map_append, List.append_assoc,
      List.append_assoc]
    rfl
  have header : findHeader 0 0 (sendAck s).line = .header c behind := by
    rw [line_sendAck, line, chars, findHeader, if_pos start]
  have read : getHdr s = getBlock { sendAck s with line := behind } c := by
    rw [getHdr, header]
  obtain ⟨stat, got⟩ :=
    getBlock_arrival (s := { sendAck s with line := behind }) size two mode number.symm
  have same : Same s { sendAck s with line := behind } :=
    same_sendAck.trans ⟨rfl, rfl, rfl, rfl, rfl, rfl⟩
  rw [read]
  exact ⟨stat, ⟨same.trans got.same, got.line, got.blk, got.len, got.bufp, got.pkt⟩⟩

/-- A block is received. -/
lemma getHdr_packet (block : IsBlock data) (crc : s.crcMode = true)
    (line : s.line = packet n data ++ rest) :
    (getHdr s).1 = .ok ∧ Got s (getHdr s).2 n data rest := by
  obtain ⟨stat, got⟩ := getHdr_arrival block length_bytesBe crc line
  rw [if_pos verify_crc] at stat
  exact ⟨stat, got⟩

/-- The end of the file. -/
lemma getHdr_eot (line : s.line = some eot :: rest) :
    (getHdr s).1 = .eof ∧ Same s (getHdr s).2 ∧ (getHdr s).2.line = rest := by
  have stopped : findHeader 0 0 (sendAck s).line = .stopped .eof rest := by
    rw [line_sendAck, line, findHeader, if_neg (by decide), if_neg (by decide),
      if_pos ⟨rfl, rfl⟩]
  have same : Same s (getHdr s).2 := same_getHdr
  rw [getHdr, stopped] at same ⊢
  exact ⟨rfl, same, rfl⟩

end Imx.XyzModem
