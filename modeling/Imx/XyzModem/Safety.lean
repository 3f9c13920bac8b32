import Imx.XyzModem.Delivery
import Imx.XyzModem.Inside

/-!
# Reception stays inside of its buffers

`Inside` is kept by every step. Three things break out of the buffers, and `safe_iff` is that
nothing else does: a header block without the NUL of its name or the end of its length, a block that
is accepted when those before it have passed the announced length, and a read behind one that
failed.
-/

namespace Imx.XyzModem

variable {s s' t u : Xyz} {line : List (Option UInt8)} {n k : Nat}

/-! ## The header block -/

/-- A number that the buffer ends in: digits behind blanks, and nothing behind them. -/
def Unended (s : List UInt8) : Prop :=
  let ds := s.dropWhile (· = 0x20)
  (∀ c ∈ ds, Digit 10 c) ∨
    ∃ x hs, ds = 0x30 :: x :: hs ∧ (x = 0x78 ∨ x = 0x58) ∧ ∀ c ∈ hs, Digit 16 c

/-- The name in a header block ends, and so does the length behind it. -/
def HeaderEnds (pkt : List UInt8) : Prop :=
  0 ∈ pkt ∧ ¬Unended ((pkt.dropWhile (· ≠ 0)).drop 1)

lemma skipName_spec {pkt : List UInt8} :
    skipName pkt = if 0 ∈ pkt then some ((pkt.dropWhile (· ≠ 0)).drop 1) else none := by
  induction pkt with
  | nil => rfl
  | cons c pkt ih =>
    rw [skipName]
    by_cases zero : c = 0
    · subst zero
      simp
    · rw [if_neg zero, ih, List.dropWhile_cons_of_pos (by simpa using zero)]
      simp [Ne.symm zero]

lemma skipBlanks_spec {s : List UInt8} :
    skipBlanks s = if s.dropWhile (· = 0x20) = [] then none else some (s.dropWhile (· = 0x20)) := by
  induction s with
  | nil => rfl
  | cons c s ih =>
    rw [skipBlanks]
    by_cases blank : c = 0x20
    · rw [if_pos blank, ih, List.dropWhile_cons_of_pos (by simpa using blank)]
    · rw [if_neg blank, List.dropWhile_cons_of_neg (by simpa using blank), if_neg (by simp)]

lemma parseDigitsIn_eq_none {radix result : Nat} {s : List UInt8} :
    parseDigitsIn radix result s = none ↔ ∀ c ∈ s, Digit radix c := by
  have zero : ¬Digit radix 0 := by
    rintro ⟨hex, -⟩
    revert hex
    decide
  induction s generalizing result with
  | nil => simp [parseDigitsIn]
  | cons c s ih =>
    rw [parseDigitsIn, List.forall_mem_cons]
    split_ifs with nul digit blank
    · simp [nul, zero]
    · simp [ih, digit]
    · simp [digit]
    · simp [digit]

lemma parseNumIn_eq_none {s : List UInt8} : parseNumIn s = none ↔ Unended s := by
  have nul : ¬Digit 16 0 := by decide
  have letter : ∀ x, x = 0x78 ∨ x = 0x58 → ¬Digit 10 x := by
    rintro x (rfl | rfl) <;> decide
  rw [parseNumIn, skipBlanks_spec, Unended]
  generalize s.dropWhile (· = 0x20) = ds
  split_ifs with empty
  case pos => simp [empty]
  case neg =>
    simp only [Option.bind_eq_bind, Option.bind_some]
    split
    case h_2 other =>
      rw [parseDigitsIn_eq_none]
      refine ⟨.inl, fun either => ?_⟩
      obtain all | ⟨x, hs, eq, -, -⟩ := either
      · exact all
      · exact (other x hs eq).elim
    case h_1 x rest =>
      split_ifs with hex
      case neg =>
        rw [parseDigitsIn_eq_none]
        refine ⟨.inl, fun either => ?_⟩
        obtain all | ⟨x', hs, eq, hex', -⟩ := either
        · exact all
        · cases eq
          exact absurd hex' hex
      case pos =>
        have decimal : ¬∀ c ∈ 0x30 :: x :: rest, Digit 10 c := fun all =>
          letter x hex (all x (by simp))
        cases rest with
        | nil => simp [hex]
        | cons c rest =>
          dsimp only
          split_ifs with zero
          case pos =>
            subst zero
            constructor
            case mp => exact fun eq => nomatch eq
            case mpr =>
              rintro (all | ⟨x', hs, eq, -, all⟩)
              · exact absurd all decimal
              · cases eq
                exact absurd (all 0 List.mem_cons_self) nul
          case neg =>
            rw [parseDigitsIn_eq_none]
            constructor
            case mp => exact fun all => .inr ⟨x, c :: rest, rfl, hex, all⟩
            case mpr =>
              rintro (all | ⟨x', hs, eq, -, all⟩)
              · exact absurd all decimal
              · cases eq
                exact all

/-- The two scans of a header block stay inside when the name and the length end there. -/
lemma header_iff {pkt : List UInt8} :
    ((skipName pkt).bind parseNumIn).isSome ↔ HeaderEnds pkt := by
  rw [skipName_spec, HeaderEnds]
  split_ifs with named
  · rw [Option.bind_some, ← parseNumIn_eq_none, Option.isSome_iff_ne_none]
    simp [named]
  · simp [named]

/-! ## What is kept -/

/-- The parts of the state stay inside: what is left of a block lies in the packet buffer, and the
length that was read is at most a block larger than that of the file. -/
structure Inside (s : Xyz) : Prop where
  pkt : s.pkt.length = 1024
  block : 0 < s.len → s.bufp + s.len ≤ 1024
  lengths : s.readLength ≤ s.fileLength + 1024
  readLength : s.readLength < 2 ^ 32
  fileLength : s.fileLength < 2 ^ 32

/-- A block stands in the packet buffer. -/
structure Loaded (s : Xyz) : Prop where
  bufp : s.bufp = 0
  len : s.len = 128 ∨ s.len = 1024

lemma readChars_length (n : Nat) (line : List (Option UInt8)) :
    (readChars n line).1.length ≤ n ∧
      (readChars n line).1.length + (readChars n line).2.length ≤ line.length := by
  fun_induction readChars n line with
  | case1 line => simp
  | case2 n => simp
  | case3 n line => simp
  | case4 n c line ih =>
    simp only [List.length_cons]
    omega

lemma flush_length (line : List (Option UInt8)) : (flush line).length ≤ line.length := by
  fun_induction flush line with
  | case1 => simp
  | case2 line => simp
  | case3 c line ih =>
    rw [List.length_cons]
    omega

/-- What is found is a header with characters taken off the line, or there is none. -/
def Found.Behind (line : List (Option UInt8)) : Found → Prop
  | .header _ rest => rest.length < line.length
  | .stopped stat rest => stat ≠ .ok ∧ rest.length ≤ line.length

lemma Found.Behind.cons {found : Found} {c : Option UInt8} (h : found.Behind line) :
    found.Behind (c :: line) := by
  cases found with
  | header d rest => exact Nat.lt_succ_of_lt h
  | stopped stat rest => exact ⟨h.1, Nat.le_succ_of_le h.2⟩

lemma findHeader_behind {canTotal hdrChars : Nat} :
    (findHeader canTotal hdrChars line).Behind line := by
  fun_induction findHeader canTotal hdrChars line with
  | case1 => exact ⟨by decide, Nat.le_refl _⟩
  | case2 _ _ line => exact ⟨by decide, Nat.le_succ_of_le (flush_length line)⟩
  | case3 => exact Nat.lt_succ_self _
  | case4 => exact ⟨by decide, Nat.le_succ _⟩
  | case5 _ _ _ _ _ ih => exact ih.cons
  | case6 => exact ⟨by decide, Nat.le_succ _⟩
  | case7 _ _ _ _ _ _ _ ih => exact ih.cons

/-- What a header leaves: the parts are inside, and a block that is right takes characters. -/
structure Headed (s : Xyz) (r : Stat × Xyz) : Prop where
  inside : Inside r.2
  same : Same s r.2
  line : r.2.line.length ≤ s.line.length
  loaded : r.1 = .ok → Loaded r.2 ∧ r.2.line.length < s.line.length

lemma Inside.sendAck (inside : Inside s) : Inside (sendAck s) := by
  rw [XyzModem.sendAck]
  split
  · exact ⟨inside.pkt, inside.block, inside.lengths, inside.readLength, inside.fileLength⟩
  · exact inside

lemma Inside.putc (inside : Inside s) {c : UInt8} : Inside (putc s c) :=
  ⟨inside.pkt, inside.block, inside.lengths, inside.readLength, inside.fileLength⟩

lemma Inside.ask (inside : Inside s) : Inside (ask s) := inside.putc

lemma blockLen_le (c : UInt8) : blockLen c ≤ 1024 := by
  rw [blockLen]
  split <;> decide

/-- The block is written over the start of the buffer. -/
lemma Inside.write (inside : Inside s) {c : UInt8} {data : List UInt8}
    (line : List (Option UInt8)) (crc : Bool) (le : data.length ≤ blockLen c) (blk : UInt8) :
    let t := { s with
      line := line, blk := blk, len := blockLen c, bufp := 0, crcMode := crc
      pkt := data ++ s.pkt.drop data.length }
    Inside t ∧ Loaded t := by
  have small := blockLen_le c
  refine ⟨⟨?_, ?_, inside.lengths, inside.readLength, inside.fileLength⟩, rfl, ?_⟩
  · rw [List.length_append, List.length_drop, inside.pkt]
    omega
  · intro _
    dsimp only
    omega
  · dsimp only
    rw [blockLen]
    split
    · exact .inl rfl
    · exact .inr rfl

/-- What a block leaves. -/
lemma Inside.getBlock (inside : Inside s) {c : UInt8} :
    Inside (getBlock s c).2 ∧ (getBlock s c).2.line.length ≤ s.line.length ∧
      ((getBlock s c).1 = .ok → Loaded (getBlock s c).2) := by
  obtain ⟨-, lenNum⟩ := readChars_length 2 s.line
  obtain ⟨le, lenData⟩ := readChars_length (blockLen c) (readChars 2 s.line).2
  obtain ⟨-, lenCrc⟩ := readChars_length (checkLen s.crcMode)
    (readChars (blockLen c) (readChars 2 s.line).2).2
  have idle := flush_length
    (readChars (checkLen s.crcMode) (readChars (blockLen c) (readChars 2 s.line).2).2).2
  have wrote := fun line blk => inside.write line s.crcMode le blk
  unfold XyzModem.getBlock
  dsimp only
  split_ifs
  case pos =>
    refine ⟨⟨inside.pkt, inside.block, inside.lengths, inside.readLength, inside.fileLength⟩, ?_,
      (nomatch ·)⟩
    dsimp only
    omega
  all_goals
    refine ⟨(wrote _ _).1, ?_, fun _ => (wrote _ _).2⟩
    dsimp only
    omega

/-- A header is found inside. -/
lemma Inside.getHdr (inside : Inside s) :
    getHdrIn s = some (getHdr s) ∧ Headed s (getHdr s) := by
  have behind : (findHeader 0 0 s.line).Behind s.line := findHeader_behind
  have same : Same s (XyzModem.getHdr s).2 := same_getHdr
  have acked := inside.sendAck
  rw [getHdrIn]
  unfold XyzModem.getHdr at same ⊢
  dsimp only at same ⊢
  rw [line_sendAck] at same ⊢
  cases found : findHeader 0 0 s.line with
  | header c rest =>
    rw [found] at behind same
    have moved : Inside { XyzModem.sendAck s with line := rest } :=
      ⟨acked.pkt, acked.block, acked.lengths, acked.readLength, acked.fileLength⟩
    obtain ⟨inside', le, loaded⟩ := moved.getBlock (c := c)
    have lt : (XyzModem.getBlock { XyzModem.sendAck s with line := rest } c).2.line.length <
        s.line.length := Nat.lt_of_le_of_lt le behind
    refine ⟨if_pos ?_, inside', same, Nat.le_of_lt lt, fun ok => ⟨loaded ok, lt⟩⟩
    rw [inside.pkt]
    exact blockLen_le c
  | stopped stat rest =>
    rw [found] at behind same
    have moved : Inside { XyzModem.sendAck s with line := rest } :=
      ⟨acked.pkt, acked.block, acked.lengths, acked.readLength, acked.fileLength⟩
    obtain ⟨never, behind⟩ := behind
    cases stat with
    | ok => exact absurd rfl never
    | eof => exact ⟨rfl, moved.putc, same, behind, (nomatch ·)⟩
    | timeout => exact ⟨rfl, moved, same, behind, (nomatch ·)⟩
    | cancel => exact ⟨rfl, moved, same, behind, (nomatch ·)⟩
    | frame => exact ⟨rfl, moved, same, behind, (nomatch ·)⟩
    | cksum => exact ⟨rfl, moved, same, behind, (nomatch ·)⟩
    | sequence => exact ⟨rfl, moved, same, behind, (nomatch ·)⟩

/-! ## The block that was expected -/

lemma byteAt_inside (inside : Inside s) (loaded : Loaded s) {i : Int} (low : 0 ≤ i)
    (high : i < 1024) : ∃ c, byteAt s i = some c := by
  rw [byteAt, loaded.bufp, if_pos (by omega)]
  have lt : ((0 : Nat) + i : Int).toNat < s.pkt.length := by
    rw [inside.pkt]
    omega
  exact ⟨_, List.getElem?_eq_getElem lt⟩

lemma stripLoop_inside (inside : Inside s) (loaded : Loaded s) (le : n ≤ 1024) :
    ∃ m, m ≤ n ∧ stripLoop s n = some m := by
  induction n with
  | zero => exact ⟨0, Nat.le_refl 0, rfl⟩
  | succ n ih =>
    obtain ⟨c, eq⟩ := byteAt_inside inside loaded (i := n) (by omega) (by omega)
    rw [stripLoop, eq]
    simp only [Option.bind_eq_bind, Option.bind_some]
    split
    · obtain ⟨m, le, eq⟩ := ih (by omega)
      exact ⟨m, Nat.le_succ_of_le le, eq⟩
    · exact ⟨n + 1, Nat.le_refl _, rfl⟩

lemma allPad_inside (is : List Int) (inside : Inside s) (loaded : Loaded s)
    (within : ∀ i ∈ is, 0 ≤ i ∧ i < 1024) : ∃ b, allPad s is = some b := by
  induction is with
  | nil => exact ⟨true, rfl⟩
  | cons i is ih =>
    obtain ⟨⟨low, high⟩, within⟩ := List.forall_mem_cons.mp within
    obtain ⟨c, eq⟩ := byteAt_inside inside loaded low high
    rw [allPad, eq]
    simp only [Option.bind_eq_bind, Option.bind_some]
    split
    · exact ih within
    · exact ⟨false, rfl⟩

/-- The pad characters are looked for inside of the block. -/
lemma stripPadIn_inside (inside : Inside s) (loaded : Loaded s) :
    ∃ len, 0 ≤ len ∧ len ≤ s.len ∧ stripPadIn s = some len := by
  have sizes := loaded.len
  obtain ⟨b, eq⟩ := allPad_inside [s.len - 1, s.len - 2, s.len - 3] inside loaded (by
    simp only [List.forall_mem_cons, List.not_mem_nil, false_imp_iff, implies_true, and_true]
    omega)
  obtain ⟨m, le, eq'⟩ := stripLoop_inside inside loaded (n := s.len.toNat) (by omega)
  rw [stripPadIn, eq]
  simp only [Option.bind_eq_bind, Option.bind_some, eq']
  split
  · exact ⟨m, by omega, by omega, rfl⟩
  · exact ⟨s.len, by omega, Int.le_refl _, rfl⟩

/-- The blocks before this one have not passed the announced length, or the count of what was read
begins anew. -/
def Enough (s : Xyz) : Prop :=
  s.mode = .xmodem ∨ s.fileLength = 0 ∨ s.readLength ≤ s.fileLength ∨
    2 ^ 32 ≤ s.readLength + s.len.toNat

/-- A block that is accepted has a length that is not negative, or those before it were enough. -/
lemma acceptIn_spec (inside : Inside s) (loaded : Loaded s) :
    ∃ s', acceptIn s = some s' ∧ s'.line = s.line ∧ s'.atEof = s.atEof ∧
      (Enough s → Inside s' ∧ 0 ≤ s'.len) ∧ (¬Enough s → s'.len < 0) := by
  have sizes := loaded.len
  have start := loaded.bufp
  have lengths := inside.lengths
  have small := inside.readLength
  have small' := inside.fileLength
  rw [acceptIn]
  dsimp only
  split
  case isTrue whole =>
    obtain ⟨len, low, high, eq⟩ := stripPadIn_inside
      (s := { s with txAck := true, nextBlk := s.nextBlk + 1 })
      ⟨inside.pkt, inside.block, lengths, small, small'⟩ ⟨start, sizes⟩
    rw [eq]
    dsimp only at high
    refine ⟨_, rfl, rfl, rfl, fun _ => ⟨⟨inside.pkt, ?_, lengths, small, small'⟩, low⟩, ?_⟩
    · intro _
      dsimp only
      omega
    · intro short
      exact absurd (whole.elim .inl fun zero => .inr (.inl zero)) short
  case isFalse cut =>
    rw [not_or] at cut
    have rest : Enough s ↔ s.readLength ≤ s.fileLength ∨ 2 ^ 32 ≤ s.readLength + s.len.toNat := by
      rw [Enough]
      simp only [cut.1, cut.2, false_or]
    rw [rest]
    have lt : (s.readLength + s.len.toNat) % 2 ^ 32 < 2 ^ 32 := Nat.mod_lt _ (by decide)
    have enough_le : (s.readLength ≤ s.fileLength ∨ 2 ^ 32 ≤ s.readLength + s.len.toNat) →
        (s.readLength + s.len.toNat) % 2 ^ 32 ≤ s.fileLength + s.len.toNat := by omega
    have short_gt : ¬(s.readLength ≤ s.fileLength ∨ 2 ^ 32 ≤ s.readLength + s.len.toNat) →
        s.fileLength + s.len.toNat < (s.readLength + s.len.toNat) % 2 ^ 32 := by omega
    have le : (s.readLength + s.len.toNat) % 2 ^ 32 ≤ s.fileLength + 2048 := by omega
    generalize (s.readLength + s.len.toNat) % 2 ^ 32 = read at lt enough_le short_gt le
    split
    case isTrue past =>
      -- the conversion to `int` changes nothing
      have same : (s.len - (read - s.fileLength : Nat)).bmod (2 ^ 32) =
          s.len - (read - s.fileLength : Nat) :=
        Int.bmod_eq_of_le (by omega) (by omega)
      refine ⟨_, rfl, rfl, rfl, fun enough => ?_, fun short => ?_⟩
      · have le' := enough_le enough
        refine ⟨⟨inside.pkt, ?_, ?_, lt, small'⟩, ?_⟩
        all_goals dsimp only
        all_goals omega
      · have gt := short_gt short
        dsimp only
        omega
    case isFalse under =>
      refine ⟨_, rfl, rfl, rfl, fun enough => ?_, fun short => ?_⟩
      · refine ⟨⟨inside.pkt, ?_, ?_, lt, small'⟩, ?_⟩
        all_goals dsimp only
        all_goals omega
      · have gt := short_gt short
        dsimp only
        omega

/-! ## Waiting -/

/-- The state in which the block that is expected has come, if it does. -/
def arrives : Nat → Xyz → Option Xyz
  | 0, _ => none
  | retries + 1, s =>
    let r := getHdr s
    if r.1 = .ok then
      if r.2.blk = r.2.nextBlk then some r.2
      else if r.2.blk = r.2.nextBlk - 1 then arrives retries (putc r.2 ack)
      else arrives retries (ask r.2)
    else if r.1 = .cancel ∨ r.1 = .eof then none
    else arrives retries (ask r.2)

/-- What is waited for with a result: a block that is accepted, the end of the file, or an error. -/
def Awaited (s : Xyz) (arrived : Option Xyz) (r : Stat × Xyz) : Prop :=
  r.2.line.length ≤ s.line.length ∧
    match arrived with
    | some u => r.1 = .ok ∧ r.2.atEof = s.atEof ∧ r.2.line.length < s.line.length ∧
        (Enough u → Inside r.2 ∧ 0 ≤ r.2.len) ∧ (¬Enough u → r.2.len < 0)
    | none => Inside r.2 ∧ (r.1 = .ok → r.2.atEof = true ∨ Loaded r.2)

lemma Awaited.later {arrived : Option Xyz} {r : Stat × Xyz} (h : Awaited t arrived r)
    (le : t.line.length ≤ s.line.length) (eof : t.atEof = s.atEof) : Awaited s arrived r := by
  obtain ⟨le', rest⟩ := h
  refine ⟨Nat.le_trans le' le, ?_⟩
  cases arrived with
  | some u =>
    obtain ⟨ok, same, lt, accepted⟩ := rest
    exact ⟨ok, same.trans eof, Nat.lt_of_lt_of_le lt le, accepted⟩
  | none => exact rest

lemma endOfFileIn_spec (inside : Inside s) :
    ∃ r, endOfFileIn s = some r ∧ Awaited s none r := by
  rw [endOfFileIn]
  dsimp only
  split
  case isTrue =>
    obtain ⟨eq, headed⟩ := (inside.putc (c := ack)).ask.getHdr
    rw [eq]
    have kept := headed.inside.putc (c := ack)
    exact ⟨_, rfl, headed.line,
      ⟨kept.pkt, kept.block, kept.lengths, kept.readLength, kept.fileLength⟩, fun _ => .inl rfl⟩
  case isFalse =>
    exact ⟨_, rfl, Nat.le_refl _,
      ⟨inside.pkt, inside.block, inside.lengths, inside.readLength, inside.fileLength⟩,
      fun _ => .inl rfl⟩

/-- Waiting stays inside. -/
lemma waitLoopIn_spec (stat : Stat) (inside : Inside s) (loaded : stat = .ok → Loaded s) :
    ∃ r, waitLoopIn n stat s = some r ∧ Awaited s (arrives n s) r := by
  induction n generalizing s stat with
  | zero => exact ⟨_, rfl, Nat.le_refl _, inside, fun ok => .inr (loaded ok)⟩
  | succ n ih =>
    obtain ⟨eq, headed⟩ := inside.getHdr
    rw [waitLoopIn, eq, arrives]
    simp only [Option.bind_eq_bind, Option.bind_some]
    have eof := headed.same.atEof
    by_cases ok : (getHdr s).1 = .ok
    case pos =>
      obtain ⟨loaded, lt⟩ := headed.loaded ok
      rw [if_pos ok, if_pos ok]
      by_cases expected : (getHdr s).2.blk = (getHdr s).2.nextBlk
      case pos =>
        obtain ⟨s', eq', line, eof', accepted⟩ := acceptIn_spec headed.inside loaded
        rw [if_pos expected, if_pos expected, eq']
        exact ⟨_, rfl, line ▸ headed.line, rfl, eof'.trans eof, line ▸ lt, accepted⟩
      case neg =>
        rw [if_neg expected, if_neg expected]
        split
        case isTrue =>
          -- the block before once more: it is loaded, and the status says that all is right
          have kept : Loaded (putc (getHdr s).2 ack) := ⟨loaded.bufp, loaded.len⟩
          obtain ⟨r, eq', awaited⟩ := ih .ok headed.inside.putc fun _ => kept
          exact ⟨r, eq', awaited.later headed.line eof⟩
        case isFalse =>
          obtain ⟨r, eq', awaited⟩ := ih .sequence headed.inside.ask (nomatch ·)
          exact ⟨r, eq', awaited.later headed.line eof⟩
    case neg =>
      rw [if_neg ok, if_neg ok]
      by_cases cancelled : (getHdr s).1 = .cancel
      case pos =>
        rw [if_pos cancelled, if_pos (.inl cancelled)]
        exact ⟨_, rfl, headed.line, headed.inside, (nomatch ·)⟩
      case neg =>
        rw [if_neg cancelled]
        by_cases ended : (getHdr s).1 = .eof
        case pos =>
          rw [if_pos ended, if_pos (.inr ended)]
          obtain ⟨r, eq', awaited⟩ := endOfFileIn_spec headed.inside
          exact ⟨r, eq', awaited.later headed.line eof⟩
        case neg =>
          rw [if_neg ended, if_neg (not_or.mpr ⟨cancelled, ended⟩)]
          obtain ⟨r, eq', awaited⟩ := ih (getHdr s).1 headed.inside.ask
            fun same => absurd same ok
          exact ⟨r, eq', awaited.later headed.line eof⟩

/-! ## Reading -/

/-- A read goes on. -/
def Going (s : Xyz) (size : Nat) : Prop := s.atEof = false ∧ 0 < size

/-- The read before did not fail, and a block that is waited for comes in time for its length. -/
def TurnMeets (s : Xyz) : Prop :=
  0 ≤ s.len ∧ (s.len = 0 → ∀ u, arrives maxRetries s = some u → Enough u)

/-- Copying what is left of a block stays inside. -/
lemma copyIn_spec (len : Int) (inside : Inside s) (low : 0 ≤ len) (le : len ≤ s.len) :
    ∃ copied, copyIn s len = some copied ∧ copied.length = len.toNat ∧
      Inside { s with len := s.len - len, bufp := s.bufp + len.toNat } := by
  have block := inside.block
  have size := inside.pkt
  refine ⟨_, if_neg ?_, ?_, size, ?_, inside.lengths, inside.readLength, inside.fileLength⟩
  · rw [size]
    omega
  · rw [List.length_take, List.length_drop, size]
    omega
  · dsimp only
    omega

/-- What a turn does with a block that is there. -/
def copyTurn (s : Xyz) (size : Nat) : Option (Xyz × Except Stat (List UInt8)) :=
  if s.atEof then some (s, .ok [])
  else do
    let len := min (size : Int) s.len
    let copied ← copyIn s len
    some ({ s with len := s.len - len, bufp := s.bufp + len.toNat }, .ok copied)

lemma turn_eq {size : Nat} : turn s size = (do
    let (stat, s) ← if s.len = 0 then waitLoopIn maxRetries .cancel s else some (.ok, s)
    if stat ≠ .ok then some ({ s with len := -1 }, .error stat) else copyTurn s size) := rfl

lemma copyTurn_none {size : Nat} (going : Going s size) (neg : s.len < 0) :
    copyTurn s size = none := by
  have outside : copyIn s (min (size : Int) s.len) = none := if_pos (.inl (by omega))
  rw [copyTurn, if_neg (by simp [going.1])]
  dsimp only
  rw [outside]
  rfl

/-- The line and what is left of the size. -/
def Shrinks (s s' : Xyz) (size : Nat) (res : Except Stat (List UInt8)) : Prop :=
  ∀ copied, res = .ok copied → copied.length ≤ size ∧ (s'.atEof = true ∨
    s'.line.length + (size - copied.length) < s.line.length + size)

lemma copyTurn_spec {size : Nat} (inside : Inside t) (going : Going s size) (low : 0 ≤ t.len)
    (line : t.line.length ≤ s.line.length) (some_ : t.len = 0 → t.line.length < s.line.length) :
    ∃ s' res, copyTurn t size = some (s', res) ∧ Inside s' ∧ Shrinks s s' size res := by
  rw [copyTurn]
  split
  case isTrue eof =>
    refine ⟨t, .ok [], rfl, inside, fun copied eq => ?_⟩
    cases eq
    exact ⟨Nat.zero_le _, .inl eof⟩
  case isFalse =>
    have pos := going.2
    obtain ⟨copied, eq, len, inside'⟩ := copyIn_spec (min (size : Int) t.len) inside
      (by omega) (Int.min_le_right _ _)
    dsimp only
    rw [eq]
    refine ⟨_, .ok copied, rfl, inside', fun copied' eq => ?_⟩
    cases eq
    refine ⟨by omega, .inr ?_⟩
    dsimp only
    omega

/-- A turn takes something off the line or puts something into the buffer of the caller. -/
lemma turn_spec {size : Nat} (inside : Inside s) (going : Going s size) :
    (¬TurnMeets s → turn s size = none) ∧
    (TurnMeets s → ∃ s' res, turn s size = some (s', res) ∧ Inside s' ∧
      Shrinks s s' size res) := by
  rw [turn_eq]
  by_cases empty : s.len = 0
  case neg =>
    rw [if_neg empty, TurnMeets]
    simp only [Option.bind_eq_bind, Option.bind_some, ne_eq, not_true_eq_false, if_false, empty,
      false_imp_iff, and_true]
    refine ⟨fun neg => copyTurn_none going (by omega), fun low => ?_⟩
    exact copyTurn_spec inside going low (Nat.le_refl _) fun zero => absurd zero empty
  case pos =>
    obtain ⟨⟨stat, t⟩, eq, line, awaited⟩ :=
      waitLoopIn_spec (n := maxRetries) .cancel inside (nomatch ·)
    rw [if_pos empty, eq, TurnMeets]
    simp only [Option.bind_eq_bind, Option.bind_some, empty, Int.le_refl, true_and, true_imp_iff]
    dsimp only at line awaited
    cases arrived : arrives maxRetries s with
    | some u =>
      rw [arrived] at awaited
      obtain ⟨rfl, eof, lt, good, bad⟩ := awaited
      have all : (∀ v, some u = some v → Enough v) ↔ Enough u :=
        ⟨fun all => all u rfl, fun enough v eq => Option.some.inj eq ▸ enough⟩
      rw [all, if_neg (by simp)]
      refine ⟨fun short => copyTurn_none ⟨eof.trans going.1, going.2⟩ (bad short), fun enough => ?_⟩
      obtain ⟨inside', low⟩ := good enough
      exact copyTurn_spec inside' going low line fun _ => lt
    | none =>
      rw [arrived] at awaited
      obtain ⟨inside', rest⟩ := awaited
      refine ⟨fun short => absurd (fun u eq => nomatch eq) short, fun _ => ?_⟩
      split
      case isTrue failed =>
        refine ⟨_, _, rfl, ⟨inside'.pkt, fun pos => ?_, inside'.lengths, inside'.readLength,
          inside'.fileLength⟩, fun copied eq => nomatch eq⟩
        dsimp only at pos
        omega
      case isFalse ok =>
        obtain eof | loaded := rest (not_not.mp ok)
        · rw [copyTurn, if_pos eof]
          refine ⟨t, .ok [], rfl, inside', fun copied eq => ?_⟩
          cases eq
          exact ⟨Nat.zero_le _, .inl eof⟩
        · have sizes := loaded.len
          exact copyTurn_spec inside' going (by omega) line fun zero => by omega

/-- The turns of a read: a state and what is left of the size. -/
inductive Turns : Xyz → Nat → Xyz → Nat → Prop where
  | refl (s : Xyz) (n : Nat) : Turns s n s n
  | turn {s s' t : Xyz} {n k : Nat} {copied : List UInt8} : Going s n →
    XyzModem.turn s n = some (s', .ok copied) → Turns s' (n - copied.length) t k → Turns s n t k

/-- Every turn of a read goes well. -/
def ReadMeets (s : Xyz) (size : Nat) : Prop :=
  ∀ t n, Turns s size t n → Going t n → TurnMeets t

lemma readMeets_turn {size : Nat} {copied : List UInt8} (going : Going s size)
    (eq : turn s size = some (s', .ok copied)) :
    ReadMeets s size ↔ TurnMeets s ∧ ReadMeets s' (size - copied.length) := by
  constructor
  case mp =>
    intro meets
    exact ⟨meets s size (.refl s size) going, fun t n turns => meets t n (.turn going eq turns)⟩
  case mpr =>
    rintro ⟨here, behind⟩ t n turns
    cases turns with
    | refl => exact fun _ => here
    | turn going' eq' turns =>
      cases eq.symm.trans eq'
      exact behind t n turns

/-- A read stays inside exactly if its turns go well, and stores no more than its size. -/
lemma readLoopIn_spec {fuel size : Nat} (buf : List UInt8) (inside : Inside s)
    (enough : s.atEof = true ∧ 0 < fuel ∨ s.line.length + size < fuel) :
    (¬ReadMeets s size → readLoopIn fuel s size buf = none) ∧
    (ReadMeets s size → ∃ ret, readLoopIn fuel s size buf = some ret ∧ Inside ret.state ∧
      ret.buf.length ≤ buf.length + size) := by
  induction fuel generalizing s size buf with
  | zero => omega
  | succ fuel ih =>
    rw [readLoopIn]
    split
    case isTrue over_ =>
      have none : ∀ t n, Turns s size t n → ¬Going t n := by
        have stopped : ¬Going s size := fun going => by
          obtain eof | zero := over_
          · simp [going.1] at eof
          · exact absurd going.2 (by omega)
        intro t n turns
        cases turns with
        | refl => exact stopped
        | turn going _ _ => exact absurd going stopped
      refine ⟨fun short => absurd (fun t n turns going => absurd going (none t n turns)) short,
        fun _ => ⟨_, rfl, inside, Nat.le_add_right _ _⟩⟩
    case isFalse more =>
      have going : Going s size := by
        rw [not_or] at more
        exact ⟨by simpa using more.1, by omega⟩
      obtain ⟨bad, good⟩ := turn_spec inside going
      by_cases meets : TurnMeets s
      case neg =>
        rw [bad meets]
        exact ⟨fun _ => rfl, fun all => absurd (all s size (.refl s size) going) meets⟩
      case pos =>
        obtain ⟨s', res, eq, inside', shrinks⟩ := good meets
        rw [eq]
        simp only [Option.bind_eq_bind, Option.bind_some]
        cases res with
        | error stat =>
          refine ⟨fun short => absurd (fun t n turns => ?_) short,
            fun _ => ⟨_, rfl, inside', Nat.le_add_right _ _⟩⟩
          cases turns with
          | refl => exact fun _ => meets
          | turn _ eq' _ => cases eq.symm.trans eq'
        | ok copied =>
          obtain ⟨le, less⟩ := shrinks copied rfl
          have enough' : s'.atEof = true ∧ 0 < fuel ∨
              s'.line.length + (size - copied.length) < fuel := by
            have pos := going.2
            obtain ⟨eof, -⟩ | enough := enough
            · simp [going.1] at eof
            · obtain eof | less := less
              · exact .inl ⟨eof, by omega⟩
              · exact .inr (by omega)
          obtain ⟨bad', good'⟩ := ih (buf ++ copied) inside' enough'
          rw [readMeets_turn going eq]
          refine ⟨fun short => bad' fun rest => short ⟨meets, rest⟩, fun both => ?_⟩
          obtain ⟨ret, eq', inside'', stored⟩ := good' both.2
          rw [List.length_append] at stored
          exact ⟨ret, eq', inside'', by omega⟩

/-- The turns of all reads go well. -/
def ReadsMeet : Xyz → List Nat → Prop
  | _, [] => True
  | s, size :: sizes =>
    ReadMeets s size ∧ ∀ ret, streamReadIn s size = some ret → ReadsMeet ret.state sizes

/-- Reads that all come to an end inside, with no more than its size stored by each. -/
def ReadsSafe (s : Xyz) (sizes : List Nat) : Prop :=
  ∃ rets, readsIn s sizes = some rets ∧
    List.Forall₂ (fun ret size => ret.buf.length ≤ size) rets sizes

lemma readsSafe_iff {sizes : List Nat} (inside : Inside s) :
    ReadsSafe s sizes ↔ ReadsMeet s sizes := by
  induction sizes generalizing s with
  | nil => exact ⟨fun _ => trivial, fun _ => ⟨[], rfl, .nil⟩⟩
  | cons size sizes ih =>
    obtain ⟨bad, good⟩ := readLoopIn_spec [] inside
      (.inr (Nat.lt_succ_self (s.line.length + size)))
    rw [ReadsSafe, ReadsMeet, readsIn]
    by_cases meets : ReadMeets s size
    case neg =>
      have outside : streamReadIn s size = none := bad meets
      rw [outside]
      exact ⟨fun ⟨_, eq, _⟩ => (nomatch eq), fun both => absurd both.1 meets⟩
    case pos =>
      obtain ⟨ret, eq, inside', stored⟩ := good meets
      have eq : streamReadIn s size = some ret := eq
      rw [List.length_nil, Nat.zero_add] at stored
      have next := ih inside'
      rw [eq]
      simp only [Option.bind_eq_bind, Option.bind_some, meets, true_and, Option.some.injEq,
        forall_eq']
      rw [← next]
      constructor
      case mp =>
        rintro ⟨rets, eq', fit⟩
        obtain ⟨rets', eq'', same⟩ := Option.bind_eq_some_iff.mp eq'
        cases same
        exact ⟨rets', eq'', (List.forall₂_cons.mp fit).2⟩
      case mpr =>
        rintro ⟨rets, eq', fit⟩
        exact ⟨ret :: rets, by rw [eq']; rfl, .cons stored fit⟩

/-! ## Opening -/

/-- The state in which the first block that is right has come, if it does. -/
def opens : Nat → Int → Xyz → Option Xyz
  | 0, _, _ => none
  | retries + 1, crcRetries, s =>
    let r := getHdr s
    if r.1 = .ok then some r.2
    else if r.1 = .timeout then
      opens retries (crcRetries - 1)
        (ask (if crcRetries - 1 ≤ 0 then { r.2 with crcMode := false } else r.2))
    else if r.1 = .cancel then none
    else opens retries crcRetries r.2

/-- A header block is one whose name and length end in the packet buffer. -/
def OpenMeets (s : Xyz) (mode : Mode) : Prop :=
  mode = .ymodem → ∀ u, opens maxRetries maxRetriesWithCrc (start s mode) = some u → u.blk = 0 →
    HeaderEnds u.pkt

/-- A number has 32 bits. -/
lemma parseDigitsIn_lt {radix result v : Nat} {s : List UInt8} (lt : result < 2 ^ 32)
    (eq : parseDigitsIn radix result s = some (some v)) : v < 2 ^ 32 := by
  induction s generalizing result with
  | nil => cases eq
  | cons c s ih =>
    rw [parseDigitsIn] at eq
    split_ifs at eq
    · cases eq
      exact lt
    · exact ih (Nat.mod_lt _ (by decide)) eq
    · cases eq
      exact lt
    · cases eq

lemma parseNumIn_lt {v : Nat} {s : List UInt8} (eq : parseNumIn s = some (some v)) :
    v < 2 ^ 32 := by
  obtain ⟨ds, -, eq⟩ := Option.bind_eq_some_iff.mp eq
  split at eq
  case h_2 => exact parseDigitsIn_lt (by decide) eq
  case h_1 =>
    split_ifs at eq
    · split at eq
      · cases eq
      · split_ifs at eq
        · cases eq
        · exact parseDigitsIn_lt (by decide) eq
    · exact parseDigitsIn_lt (by decide) eq

lemma openLoopIn_spec {crcRetries : Int} (stat : Stat) (inside : Inside s)
    (unread : s.readLength = 0) :
    let meets := ∀ u, opens n crcRetries s = some u → u.blk = 0 → HeaderEnds u.pkt
    (¬meets → openLoopIn n crcRetries stat s = none) ∧
      (meets → ∃ r, openLoopIn n crcRetries stat s = some r ∧ Inside r.2) := by
  intro meets
  induction n generalizing s stat crcRetries with
  | zero => exact ⟨fun short => absurd (fun u eq => nomatch eq) short, fun _ => ⟨_, rfl, inside⟩⟩
  | succ n ih =>
    obtain ⟨eq, headed⟩ := inside.getHdr
    have unread' : (getHdr s).2.readLength = 0 := headed.same.readLength.trans unread
    have kept := headed.inside
    have lengths := kept.lengths
    subst meets
    rw [openLoopIn, eq, opens]
    simp only [Option.bind_eq_bind, Option.bind_some]
    by_cases ok : (getHdr s).1 = .ok
    case pos =>
      rw [if_pos ok, if_pos ok]
      by_cases header : (getHdr s).2.blk = 0
      case pos =>
        have all : (∀ u, some (getHdr s).2 = some u → u.blk = 0 → HeaderEnds u.pkt) ↔
            HeaderEnds (getHdr s).2.pkt :=
          ⟨fun all => all _ rfl header, fun ends u eq _ => Option.some.inj eq ▸ ends⟩
        rw [all, ← header_iff, if_pos header]
        cases named : skipName (getHdr s).2.pkt with
        | none => exact ⟨fun _ => rfl, fun some_ => nomatch some_⟩
        | some rest =>
          simp only [Option.bind_some]
          cases number : parseNumIn rest with
          | none => exact ⟨fun _ => rfl, fun some_ => nomatch some_⟩
          | some length =>
            refine ⟨fun short => absurd rfl short, fun _ => ⟨_, rfl, kept.pkt, ?_, ?_, ?_, ?_⟩⟩
            · exact fun pos => absurd pos (Int.lt_irrefl 0)
            · dsimp only
              omega
            · exact kept.readLength
            · cases length with
              | none => exact kept.fileLength
              | some v => exact parseNumIn_lt number
      case neg =>
        rw [if_neg header]
        refine ⟨fun short => absurd (fun u eq zero => ?_) short, fun _ => ⟨_, rfl, kept.pkt, ?_,
          lengths, kept.readLength, kept.fileLength⟩⟩
        · cases eq
          exact absurd zero header
        · exact fun pos => absurd pos (Int.lt_irrefl 0)
    case neg =>
      rw [if_neg ok, if_neg ok]
      by_cases silent : (getHdr s).1 = .timeout
      case pos =>
        rw [if_pos silent, if_pos silent]
        refine ih _ (Inside.ask ?_) ?_
        · split
          · exact ⟨kept.pkt, kept.block, lengths, kept.readLength, kept.fileLength⟩
          · exact kept
        · split
          · exact unread'
          · exact unread'
      case neg =>
        rw [if_neg silent, if_neg silent]
        by_cases cancelled : (getHdr s).1 = .cancel
        case pos =>
          rw [if_pos cancelled, if_pos cancelled]
          exact ⟨fun short => absurd (fun u eq => nomatch eq) short, fun _ => ⟨_, rfl, kept⟩⟩
        case neg =>
          rw [if_neg cancelled, if_neg cancelled]
          exact ih _ kept unread'

/-- The stream is opened inside exactly if the header block has its ends. -/
lemma streamOpenIn_spec {mode : Mode} (size : s.pkt.length = 1024) :
    (¬OpenMeets s mode → streamOpenIn s mode = none) ∧
      (OpenMeets s mode → ∃ r, streamOpenIn s mode = some r ∧ Inside r.2) := by
  have inside : Inside (start s mode) :=
    ⟨size, fun pos => absurd pos (Int.lt_irrefl 0), Nat.zero_le _, (by decide : 0 < 2 ^ 32),
      (by decide : 0 < 2 ^ 32)⟩
  rw [streamOpenIn, OpenMeets]
  cases mode with
  | xmodem =>
    refine ⟨fun short => absurd (fun eq => nomatch eq) short, fun _ => ⟨_, rfl, ?_⟩⟩
    exact ⟨inside.pkt, inside.block, inside.lengths, inside.readLength, inside.fileLength⟩
  | ymodem =>
    simp only [true_imp_iff]
    exact openLoopIn_spec .ok inside rfl

/-- A stream is opened and read in some sizes, and stays inside. -/
def Safe (s : Xyz) (mode : Mode) (sizes : List Nat) : Prop :=
  ∃ r, streamOpenIn s mode = some r ∧ ReadsSafe r.2 sizes

/-- Reception is safe exactly if the name and the length end in a header block, no block is accepted
when those before it have passed the announced length, and nothing is read after a read that
failed. -/
theorem safe_iff (mode : Mode) (sizes : List Nat) (size : s.pkt.length = 1024) :
    Safe s mode sizes ↔ OpenMeets s mode ∧
      ∀ r, streamOpenIn s mode = some r → ReadsMeet r.2 sizes := by
  obtain ⟨bad, good⟩ := @streamOpenIn_spec s mode size
  rw [Safe]
  by_cases meets : OpenMeets s mode
  case neg =>
    rw [bad meets]
    exact ⟨fun ⟨_, eq, _⟩ => (nomatch eq), fun both => absurd both.1 meets⟩
  case pos =>
    obtain ⟨r, eq, inside⟩ := good meets
    rw [eq]
    simp only [Option.some.injEq, exists_eq_left', forall_eq', meets, true_and]
    exact readsSafe_iff inside

/-- A block that is received with XMODEM and read in part. -/
theorem safe_block :
    Safe { unused with line := packet 1 (List.replicate 128 0x41) } .xmodem [1] := by
  refine (safe_iff .xmodem [1] (by decide +kernel)).mpr ⟨(nomatch ·), fun r eq => ?_⟩
  cases eq
  refine ⟨fun t n turns => ?_, fun _ _ => trivial⟩
  have one : (turn { start { unused with line := packet 1 (List.replicate 128 0x41) } .xmodem with
      nextBlk := 1 } 1).all (fun r => r.2.toOption.all (·.length = 1)) = true := by decide +kernel
  have mode : (arrives maxRetries { start { unused with
      line := packet 1 (List.replicate 128 0x41) } .xmodem with nextBlk := 1 }).all
      (·.mode = .xmodem) = true := by decide +kernel
  cases turns with
  | refl =>
    refine fun _ => ⟨Int.le_refl 0, fun _ u eq => .inl ?_⟩
    rw [eq] at mode
    simpa using mode
  | @turn _ s' _ _ _ copied _ eq rest =>
    rw [eq] at one
    have len : copied.length = 1 := by simpa [Except.toOption] using one
    rw [len] at rest
    cases rest with
    | refl => exact fun going => absurd going.2 (Nat.lt_irrefl 0)
    | turn going _ _ => exact absurd going.2 (Nat.lt_irrefl 0)

/-- Two blocks behind the announced length of 1. -/
theorem not_safe_overlong :
    ¬Safe { unused with
        line := packet 0 ([0, 0x31] ++ List.replicate 126 0) ++
          (packet 1 (List.replicate 128 0) ++ packet 2 (List.replicate 128 0)) }
      .ymodem [1024] := by
  rintro ⟨r, eq, rets, eq', -⟩
  have outside : (streamOpenIn { unused with
      line := packet 0 ([0, 0x31] ++ List.replicate 126 0) ++
        (packet 1 (List.replicate 128 0) ++ packet 2 (List.replicate 128 0)) } .ymodem).bind
      (fun r => readsIn r.2 [1024]) = none := by decide +kernel
  rw [eq, Option.bind_some, eq'] at outside
  cases outside

end Imx.XyzModem
