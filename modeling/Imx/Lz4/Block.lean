import Imx.Base.Access
import Imx.Base.Mem

/-!
# Decoding an LZ4 block

Model of `LZ4_decompress_generic` (`lib/lz4.c`) with the arguments `ulz4fn` gives it: the end of
the input is the end of the block, all of the block is decoded, and there is no dictionary. `ip`,
`op` and `match` are offsets from `source` and `dest`, and what is read and written is kept. A
length is at most 255 times the size of the input, so where a `size_t` has 64 bits, no sum with one
wraps.

The decoder copies eight bytes at a time, more than it has to, and its tests of the ends make up for
that (`decompress_inside_iff`), but for blocks of one byte.
-/

namespace Imx.Lz4
open Imx.Base

/-! ## The decoder -/

/-- The arguments of a call, and the memory from `source` on. -/
structure Call where
  src : Mem
  inputSize : Nat
  outputSize : Int

/-- The memory from `dest` on, and what was touched so far. -/
structure Out where
  dst : Mem
  touched : List Access

/-- Where bytes are copied from. -/
inductive Side where
  | input
  | output

/-- How a turn of the main loop ends: with an error and the input read up to `ip`, behind the last
literals, or in front of the next token. -/
inductive Outcome where
  | error (ip : Nat)
  | done (op : Nat)
  | next (ip op : Nat)

/-- The loop over the bytes of a literal length. -/
def literalLength (src : Mem) (iend ip length : Nat) : Nat × Nat :=
  if ip + 1 + 15 < iend ∧ src ip = 255 then literalLength src iend (ip + 1) (length + 255)
  else (ip + 1, length + (src ip).toNat)
termination_by iend - ip

/-- The loop over the bytes of a match length, or where it stops for being too near to the end. -/
def matchLength (src : Mem) (iend ip length : Nat) : Except Nat (Nat × Nat) :=
  if iend < ip + 5 then .error ip
  else if src ip = 255 then matchLength src iend (ip + 1) (length + 255)
  else .ok (ip + 1, length + (src ip).toNat)
termination_by iend - ip

/-- C `dec32table`. -/
def dec32table : List Nat := [4, 1, 2, 1, 4, 4, 4, 4]

/-- C `dec64table`, where `(size_t)-1` is subtracted. -/
def dec64table : List Int := [0, 0, 0, -1, 0, 1, 2, 3]

namespace Call
variable (c : Call)

/-- The room on a side. -/
def room : Side → Nat
  | .input => c.inputSize
  | .output => c.outputSize.toNat

/-- Read `n` bytes of the input. -/
def look (a n : Nat) (o : Out) : Out :=
  { o with touched := o.touched ++ [⟨c.inputSize, a, n⟩] }

/-- Read `n` bytes from `s`, then write them to `d` of the output. -/
def copy (side : Side) (d s n : Nat) (o : Out) : Out :=
  let bytes := match side with
    | .input => c.src.read s n
    | .output => o.dst.read s n
  ⟨o.dst.write d bytes, o.touched ++ [⟨c.room side, s, n⟩, ⟨c.room .output, d, n⟩]⟩

/-- C `LZ4_wildCopy`: eight bytes at a time, until `e` is reached. -/
def wildCopy (side : Side) (e d s : Nat) (o : Out) : Out :=
  let o := c.copy side d s 8 o
  if d + 8 < e then wildCopy side e (d + 8) (s + 8) o else o
termination_by e - d

/-- The loop that copies one byte at a time. -/
def byteCopy (e d s : Nat) (o : Out) : Out :=
  if d < e then byteCopy e (d + 1) (s + 1) (c.copy .output d s 1 o) else o
termination_by e - d

/-- The copy of the first eight bytes of a match, and from where it is to go on. Where the offset is
less than eight, what follows is copied from farther behind. -/
def copyFirst (op offset : Nat) (o : Out) : Nat × Out :=
  let match_ := op - offset
  if offset < 8 then
    let o := c.byteCopy (op + 4) op match_ o
    let match_ := match_ + dec32table.getD offset 0
    (((match_ : Int) - dec64table.getD offset 0).toNat, c.copy .output (op + 4) match_ 4 o)
  else (match_ + 8, c.copy .output op match_ 8 o)

/-- The copy of a match of `length` bytes. It fails if it ends too near to the end of the output. -/
def copyMatch (op offset length : Nat) (o : Out) : Bool × Out :=
  let cpy := op + length
  let first := c.copyFirst op offset o
  let op := op + 8
  if c.outputSize - 12 < cpy then
    if c.outputSize - 5 < cpy then (false, first.2)
    else if op < c.outputSize - 8 then
      let oend8 := (c.outputSize - 8).toNat
      let o := c.wildCopy .output oend8 op first.1 first.2
      (true, c.byteCopy cpy oend8 (first.1 + (oend8 - op)) o)
    else (true, c.byteCopy cpy op first.1 first.2)
  else (true, c.wildCopy .output cpy op first.1 first.2)

/-- The length of the literals behind a token, and where they begin. -/
def literals (ip : Nat) : Nat × Nat :=
  let token := (c.src ip).toNat
  if token / 16 = 15 then literalLength c.src c.inputSize (ip + 1) 15 else (ip + 1, token / 16)

/-- The length of the match, up to `MINMATCH`, and where the next token is. -/
def matched (token ip : Nat) : Except Nat (Nat × Nat) :=
  if token % 16 = 15 then matchLength c.src c.inputSize ip 15 else .ok (ip, token % 16)

/-- The part of a turn behind the literals: the match, at `op` of the output. -/
def turnMatch (token ip op : Nat) (o : Out) : Outcome × Out :=
  let offset := c.src.get16 ip
  let o := c.look ip 2 o
  if op < offset then (.error (ip + 2), o)
  else match c.matched token (ip + 2) with
    | .error stop => (.error stop, c.look (ip + 2) (stop - (ip + 2)) o)
    | .ok l =>
      let r := c.copyMatch op offset (l.2 + 4) (c.look (ip + 2) (l.1 - (ip + 2)) o)
      (if r.1 then .next l.1 (op + (l.2 + 4)) else .error l.1, r.2)

/-- A turn of the main loop. -/
def turn (ip op : Nat) (o : Out) : Outcome × Out :=
  let l := c.literals ip
  let o := c.look (ip + 1) (l.1 - (ip + 1)) (c.look ip 1 o)
  let cpy := op + l.2
  if c.outputSize - 12 < cpy ∨ c.inputSize < l.1 + l.2 + 8 then
    -- the input must be consumed
    if l.1 + l.2 ≠ c.inputSize ∨ c.outputSize < cpy then (.error l.1, o)
    else (.done cpy, c.copy .input op l.1 l.2 o)
  else c.turnMatch (c.src ip).toNat (l.1 + l.2) cpy (c.wildCopy .input cpy op l.1 o)

variable {c : Call} {side : Side} {src : Mem} {iend ip ip' op op' offset length n d e s stop : Nat}
variable {token : Nat} {o o' : Out} {l : Nat × Nat} {dst : Mem}

/-! ## Lengths -/

/-- A literal length is read up to a byte that is not 255, or up to where the input is short. -/
lemma literalLength_spec : ∃ k b, literalLength src iend ip n = (ip + k + 1, n + 255 * k + b) ∧
    src.read ip (k + 1) = List.replicate k 255 ++ [UInt8.ofNat b] ∧ b < 256 ∧
    (k = 0 ∨ ip + k + 1 + 15 ≤ iend) ∧ (b ≠ 255 ∨ iend ≤ ip + k + 1 + 15) := by
  fun_induction literalLength src iend ip n with
  | case1 ip n more ih =>
    obtain ⟨k, b, eq, bytes, lt, far, last⟩ := ih
    refine ⟨k + 1, b, ?_, ?_, lt, .inr ?_, ?_⟩
    · rw [eq, Prod.mk.injEq]
      omega
    · rw [Mem.read_succ, bytes, more.2]
      rfl
    · omega
    · omega
  | case2 ip n last =>
    have lt := (src ip).toNat_lt
    refine ⟨0, (src ip).toNat, rfl, ?_, lt, .inl rfl, ?_⟩
    · rw [Mem.read_succ, UInt8.ofNat_toNat]
      rfl
    · by_contra both
      refine last ⟨by omega, UInt8.toNat_inj.1 ?_⟩
      have : (src ip).toNat = 255 := by omega
      exact this

/-- A match length is read up to a byte that is not 255. -/
lemma matchLength_ok (read : matchLength src iend ip n = .ok l) :
    ∃ k b, l = (ip + k + 1, n + 255 * k + b) ∧
      src.read ip (k + 1) = List.replicate k 255 ++ [UInt8.ofNat b] ∧ b < 255 ∧
      ip + k + 5 ≤ iend := by
  fun_induction matchLength src iend ip n with
  | case1 => cases read
  | case2 ip n near more ih =>
    obtain ⟨k, b, eq, bytes, lt, far⟩ := ih read
    refine ⟨k + 1, b, ?_, ?_, lt, ?_⟩
    · rw [eq, Prod.mk.injEq]
      omega
    · rw [Mem.read_succ, bytes, more]
      rfl
    · omega
  | case3 ip n near last =>
    cases read
    have lt := (src ip).toNat_lt
    have ne : (src ip).toNat ≠ 255 := fun eq => last (UInt8.toNat_inj.1 eq)
    refine ⟨0, (src ip).toNat, rfl, ?_, by omega, by omega⟩
    rw [Mem.read_succ, UInt8.ofNat_toNat]
    rfl

lemma matchLength_error (read : matchLength src iend ip n = .error stop) :
    ip ≤ stop ∧ (stop = ip ∨ stop + 4 ≤ iend) := by
  fun_induction matchLength src iend ip n with
  | case1 =>
    cases read
    exact ⟨Nat.le_refl _, .inl rfl⟩
  | case2 ip n near more ih =>
    have := ih read
    omega
  | case3 => cases read

lemma literals_lt : ip < (c.literals ip).1 := by
  rw [literals]
  split_ifs
  · obtain ⟨k, b, eq, -⟩ := @literalLength_spec c.src c.inputSize (ip + 1) 15
    rw [eq]
    dsimp only
    omega
  · exact Nat.lt_succ_self ip

/-- Where the length of a match was read, there is more of the input. -/
lemma matched_ok (read : c.matched token ip = .ok l) (inside : ip + 4 ≤ c.inputSize) :
    ip ≤ l.1 ∧ l.1 + 4 ≤ c.inputSize := by
  rw [matched] at read
  split_ifs at read
  · obtain ⟨k, b, rfl, -, -, far⟩ := matchLength_ok read
    dsimp only
    omega
  · cases read
    exact ⟨Nat.le_refl _, inside⟩

/-- What a turn that leads to another one does. -/
lemma turn_next (turned : (c.turn ip op o).1 = .next ip' op') :
    ip < ip' ∧ ip' + 4 ≤ c.inputSize := by
  rw [turn] at turned
  split_ifs at turned with short
  rw [turnMatch] at turned
  split_ifs at turned
  split at turned
  · cases turned
  · rename_i l read
    have lt := @literals_lt c ip
    have range := matched_ok read (by omega)
    dsimp only at turned
    split_ifs at turned
    cases turned
    omega

/-! ## The main loop -/

/-- The main loop: what is returned, and the output. -/
def loop (c : Call) (ip op : Nat) (o : Out) : Int × Out :=
  match turned : c.turn ip op o with
  | (.error stop, o) => (-(stop : Int) - 1, o)
  | (.done op, o) => (op, o)
  | (.next ip' op', o) => c.loop ip' op' o
termination_by c.inputSize - ip
decreasing_by
  have := turn_next (congrArg Prod.fst turned)
  omega

lemma loop_error (turned : c.turn ip op o = (.error stop, o')) :
    c.loop ip op o = (-(stop : Int) - 1, o') := by
  rw [loop]
  split <;> simp_all

lemma loop_done (turned : c.turn ip op o = (.done op', o')) :
    c.loop ip op o = ((op' : Int), o') := by
  rw [loop]
  split <;> simp_all

lemma loop_next (turned : c.turn ip op o = (.next ip' op', o')) :
    c.loop ip op o = c.loop ip' op' o' := by
  rw [loop]
  split <;> simp_all

/-- C `LZ4_decompress_generic`. -/
def decompress (c : Call) (dst : Mem) : Int × Out :=
  if c.outputSize = 0 then
    if c.inputSize = 1 then (if c.src 0 = 0 then 0 else -1, c.look 0 1 ⟨dst, []⟩)
    else (-1, ⟨dst, []⟩)
  else c.loop 0 0 ⟨dst, []⟩

/-! ## What is touched -/

lemma look_inside :
    AllInside (c.look ip n o).touched ↔ AllInside o.touched ∧ ip + n ≤ c.inputSize := by
  simp only [look, allInside_append, allInside_cons, inside_mk, allInside_nil, and_true]

lemma copy_inside : AllInside (c.copy side d s n o).touched ↔
    AllInside o.touched ∧ s + n ≤ c.room side ∧ d + n ≤ c.room .output := by
  simp only [copy, allInside_append, allInside_cons, inside_mk, allInside_nil, and_true]

/-- The last group of eight begins before `e`. -/
lemma wildCopy_inside (safe : AllInside o.touched) (from_ : s + 8 ≤ c.room side)
    (fits : d + 8 ≤ c.room .output) (ends : s + e + 7 ≤ c.room side + d)
    (room : e + 7 ≤ c.room .output) : AllInside (c.wildCopy side e d s o).touched := by
  fun_induction wildCopy c side e d s o with
  | case1 d s o o' more ih =>
    exact ih (copy_inside.2 ⟨safe, from_, fits⟩) (by omega) (by omega) (by omega)
  | case2 d s o o' last => exact copy_inside.2 ⟨safe, from_, fits⟩

lemma byteCopy_inside (safe : AllInside o.touched) (le : s ≤ d) (room : e ≤ c.room .output) :
    AllInside (c.byteCopy e d s o).touched := by
  fun_induction byteCopy c e d s o with
  | case1 d s o more ih =>
    exact ih (copy_inside.2 ⟨safe, by omega, by omega⟩) (by omega)
  | case2 d s o last => exact safe

/-- Where the tables lead for an offset: to a place not behind the bytes that were copied. -/
lemma tables (small : offset < 8) : dec32table.getD offset 0 ≤ 4 ∧
    0 ≤ dec64table.getD offset 0 + 1 ∧
    dec64table.getD offset 0 ≤ dec32table.getD offset 0 ∧
    dec32table.getD offset 0 ≤ dec64table.getD offset 0 + offset + 4 := by
  revert offset
  decide

lemma copyFirst_inside (safe : AllInside o.touched) (le : offset ≤ op)
    (room : op + 8 ≤ c.room .output) :
    AllInside (c.copyFirst op offset o).2.touched ∧
      (c.copyFirst op offset o).1 ≤ op + 8 := by
  rw [copyFirst]
  split_ifs with small
  · obtain ⟨le32, ge64, le64, near⟩ := tables small
    refine ⟨copy_inside.2 ⟨byteCopy_inside safe (by omega) (by omega), by omega, by omega⟩, ?_⟩
    dsimp only
    omega
  · refine ⟨copy_inside.2 ⟨safe, by omega, by omega⟩, ?_⟩
    omega

/-- A match is copied with eight bytes at once only where these are room. -/
lemma copyMatch_inside (safe : AllInside o.touched) (le : offset ≤ op)
    (room : (op : Int) + 12 ≤ c.outputSize) (long : 4 ≤ n) :
    AllInside (c.copyMatch op offset n o).2.touched := by
  have out : (c.room .output : Int) = c.outputSize := Int.toNat_of_nonneg (by omega)
  obtain ⟨first, behind⟩ := copyFirst_inside (c := c) safe le (by omega)
  rw [copyMatch]
  split_ifs with near tooNear far
  · exact first
  · have size : ((c.outputSize - 8).toNat : Int) = c.outputSize - 8 :=
      Int.toNat_of_nonneg (by omega)
    refine byteCopy_inside (wildCopy_inside first ?_ ?_ ?_ ?_) ?_ ?_ <;> omega
  · exact byteCopy_inside first (by omega) (by omega)
  · refine wildCopy_inside first ?_ ?_ ?_ ?_ <;> omega

lemma literals_inside (inside : ip + 2 ≤ c.inputSize) : (c.literals ip).1 ≤ c.inputSize := by
  rw [literals]
  split_ifs
  · obtain ⟨k, b, eq, -, -, far, -⟩ := @literalLength_spec c.src c.inputSize (ip + 1) 15
    rw [eq]
    dsimp only
    omega
  · dsimp only
    omega

lemma turnMatch_inside (safe : AllInside o.touched) (inside : ip + 8 ≤ c.inputSize)
    (room : (op : Int) + 12 ≤ c.outputSize) :
    AllInside (c.turnMatch token ip op o).2.touched := by
  have looked := look_inside.2 ⟨safe, (by omega : ip + 2 ≤ c.inputSize)⟩
  rw [turnMatch]
  split_ifs with under
  · exact looked
  · split
    · rename_i stop read
      have range : ip + 2 ≤ stop ∧ (stop = ip + 2 ∨ stop + 4 ≤ c.inputSize) := by
        rw [matched] at read
        split_ifs at read
        exact matchLength_error read
      exact look_inside.2 ⟨looked, by omega⟩
    · rename_i l read
      have range := matched_ok read (by omega)
      exact copyMatch_inside (look_inside.2 ⟨looked, by omega⟩) (by omega) room (by omega)

lemma turn_inside (safe : AllInside o.touched) (inside : ip + 2 ≤ c.inputSize) :
    AllInside (c.turn ip op o).2.touched := by
  have lt := @literals_lt c ip
  have le := literals_inside inside
  have looked : AllInside
      (c.look (ip + 1) ((c.literals ip).1 - (ip + 1)) (c.look ip 1 o)).touched :=
    look_inside.2 ⟨look_inside.2 ⟨safe, by omega⟩, by omega⟩
  have out : c.room .output = c.outputSize.toNat := rfl
  have inp : c.room .input = c.inputSize := rfl
  rw [turn]
  split_ifs with short unread
  · exact looked
  · refine copy_inside.2 ⟨looked, ?_, ?_⟩ <;> omega
  · refine turnMatch_inside (wildCopy_inside looked ?_ ?_ ?_ ?_) ?_ ?_ <;> omega

lemma loop_inside (safe : AllInside o.touched) (inside : ip + 2 ≤ c.inputSize) :
    AllInside (c.loop ip op o).2.touched := by
  fun_induction loop c ip op o with
  | case1 ip op o stop o' turned => exact congrArg Prod.snd turned ▸ turn_inside safe inside
  | case2 ip op o op' o' turned => exact congrArg Prod.snd turned ▸ turn_inside safe inside
  | case3 ip op o ip' op' o' turned ih =>
    have next := turn_next (congrArg Prod.fst turned)
    have done : AllInside (c.turn ip op o).2.touched := turn_inside safe inside
    rw [turned] at done
    exact ih done (by omega)

/-- Of a block of a byte at most there is no more than the length of its literals to look at. -/
lemma loop_short (short : c.inputSize ≤ 1) : AllInside (c.loop 0 0 ⟨dst, []⟩).2.touched ↔
    c.inputSize = 1 ∧ (c.src 0).toNat < 240 := by
  have lt := (c.src 0).toNat_lt
  have lits : c.literals 0 = if (c.src 0).toNat / 16 = 15 then (2, 15 + (c.src 1).toNat)
      else (1, (c.src 0).toNat / 16) := by
    rw [literals, literalLength, if_neg (by omega : ¬(0 + 1 + 1 + 15 < c.inputSize ∧ _))]
  let head := c.look (0 + 1) ((c.literals 0).1 - (0 + 1)) (c.look 0 1 ⟨dst, []⟩)
  have looked : AllInside head.touched ↔ c.inputSize = 1 ∧ (c.src 0).toNat < 240 := by
    simp only [head, look_inside, allInside_nil, true_and, lits]
    split_ifs <;> omega
  by_cases unread : (c.literals 0).1 + (c.literals 0).2 ≠ c.inputSize ∨
      c.outputSize < (0 + (c.literals 0).2 : Nat)
  case pos =>
    have turned : c.turn 0 0 ⟨dst, []⟩ = (.error (c.literals 0).1, head) := by
      rw [turn, if_pos (.inr (by omega)), if_pos unread]
    rw [loop_error turned]
    exact looked
  case neg =>
    have turned : c.turn 0 0 ⟨dst, []⟩ = (.done (0 + (c.literals 0).2),
        c.copy .input 0 (c.literals 0).1 (c.literals 0).2 head) := by
      rw [turn, if_pos (.inr (by omega)), if_neg unread]
    rw [loop_done turned, copy_inside, looked, and_iff_left_iff_imp]
    rintro ⟨one, plain⟩
    have inp : c.room .input = c.inputSize := rfl
    have out : c.room .output = c.outputSize.toNat := rfl
    omega

/-- Nothing outside of the buffers is touched, but for a block that is empty, and one that ends in
front of a literal length. -/
theorem decompress_inside_iff : AllInside (c.decompress dst).2.touched ↔
    c.outputSize = 0 ∨ 2 ≤ c.inputSize ∨ c.inputSize = 1 ∧ (c.src 0).toNat < 240 := by
  rw [decompress]
  split_ifs with empty one zero
  · exact iff_of_true (look_inside.2 ⟨allInside_nil, by omega⟩) (.inl empty)
  · exact iff_of_true (look_inside.2 ⟨allInside_nil, by omega⟩) (.inl empty)
  · exact iff_of_true allInside_nil (.inl empty)
  · rw [or_iff_right empty]
    by_cases short : c.inputSize ≤ 1
    · rw [loop_short short, or_iff_right (by omega)]
    · exact iff_of_true (loop_inside allInside_nil (by omega)) (.inl (by omega))

end Call

end Imx.Lz4
