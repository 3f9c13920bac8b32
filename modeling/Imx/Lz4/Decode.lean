import Mathlib.Algebra.Order.BigOperators.Group.List
import Mathlib.Algebra.Order.Ring.Nat
import Imx.Base.Bytes
import Imx.Lz4.Block

/-!
# What an LZ4 block stands for

A block is a row of sequences, each some literals and a match, which is copied byte by byte from
`offset` before where it goes to, and the last literals. `origin` says which byte a match puts at a
place, so that a copy of several bytes from an exact multiple of the offset behind is as good
as one after another (`Repeats.copy`), and the tables of the decoder lead to such places.
-/

namespace Imx.Lz4
open Imx.Base

/-! ## Blocks -/

/-- Copy a match byte by byte. -/
def copyBack (offset : Nat) : Nat → List UInt8 → List UInt8
  | 0, out => out
  | n + 1, out => copyBack offset n (out ++ [out.getD (out.length - offset) 0])

/-- Literals, and a match behind them. -/
structure Sequence where
  literals : List UInt8
  offset : Nat
  length : Nat

/-- The row of sequences, the last literals, and the half of the last token that says nothing. -/
structure Block where
  sequences : List Sequence
  last : List UInt8
  unused : Nat

/-- What a sequence makes of the output before it. -/
def Sequence.apply (out : List UInt8) (s : Sequence) : List UInt8 :=
  copyBack s.offset s.length (out ++ s.literals)

/-- What a block stands for. -/
def Block.contents (b : Block) : List UInt8 := b.sequences.foldl Sequence.apply [] ++ b.last

/-- The bytes of a length behind the token. -/
def extra (n : Nat) : List UInt8 :=
  if n < 15 then [] else List.replicate ((n - 15) / 255) 255 ++ [UInt8.ofNat ((n - 15) % 255)]

/-- The literals and what comes in front of them, with the other half of the token. -/
def literalBytes (literals : List UInt8) (low : Nat) : List UInt8 :=
  UInt8.ofNat (16 * min literals.length 15 + low) :: (extra literals.length ++ literals)

/-- The bytes of a sequence. -/
def Sequence.bytes (s : Sequence) : List UInt8 :=
  literalBytes s.literals (min (s.length - 4) 15) ++ (bytesLe 2 s.offset ++ extra (s.length - 4))

/-- The bytes of a block. -/
def Block.bytes (b : Block) : List UInt8 :=
  b.sequences.flatMap Sequence.bytes ++ literalBytes b.last b.unused

/-! ## Copying a match -/

section Match

variable {offset a i j k n d e s : Nat} {m0 m : Mem} {c : Call} {o : Out}

/-- The place before `a` of the byte that a match with this offset, copied to `a`, puts at `i`. -/
def origin (offset a i : Nat) : Nat := if i < a then i else a - offset + (i - a) % offset

/-- The memory is `m0` with a match copied to `a`, up to `e`. -/
def Repeats (offset a : Nat) (m0 m : Mem) (e : Nat) : Prop :=
  ∀ i, i < e → m i = m0 (origin offset a i)

lemma origin_eq (le : offset ≤ a) (from_ : a ≤ i + offset) :
    origin offset a i = a - offset + (i + offset - a) % offset := by
  rw [origin]
  split_ifs with below
  · rw [Nat.mod_eq_of_lt (by omega)]
    omega
  · rw [show i + offset - a = i - a + offset from by omega, Nat.add_mod_right]

/-- Whole offsets away is the same byte. -/
lemma origin_add (le : offset ≤ a) (from_ : a ≤ i + offset)
    (whole : offset ∣ k) : origin offset a (i + k) = origin offset a i := by
  obtain ⟨q, rfl⟩ := whole
  rw [origin_eq le from_, origin_eq le (by omega),
    show i + offset * q + offset - a = i + offset - a + offset * q from by omega,
    Nat.add_mul_mod_self_left]

lemma Repeats.start : Repeats offset a m0 m0 a := fun i lt => by rw [origin, if_pos lt]

lemma Repeats.mono (rep : Repeats offset a m0 m e) (le : d ≤ e) : Repeats offset a m0 m d :=
  fun i lt => rep i (Nat.lt_of_lt_of_le lt le)

/-- Bytes may be copied from whole offsets behind, as long as they are all there. -/
lemma Repeats.copy (rep : Repeats offset a m0 m d) (le : offset ≤ a)
    (from_ : a ≤ s + offset) (whole : offset ∣ d - s) (far : s + n ≤ d) :
    Repeats offset a m0 (m.write d (m.read s n)) (d + n) := by
  intro i lt
  by_cases old : i < d
  · rw [Mem.write_below old]
    exact rep i old
  · obtain ⟨j, rfl⟩ := Nat.exists_eq_add_of_le (Nat.le_of_not_lt old)
    have there : m.write d (m.read s n) (d + j) = m (s + j) := by
      rw [Mem.write_at (by simp only [Mem.length_read]; omega)]
      simp [Mem.read]
    rw [there, rep _ (by omega), show d + j = s + j + (d - s) from by omega,
      origin_add le (by omega) whole]

lemma Repeats.wildCopy (rep : Repeats offset a m0 o.dst d) (le : offset ≤ a)
    (from_ : a ≤ s + offset) (whole : offset ∣ d - s) (far : s + 8 ≤ d) :
    Repeats offset a m0 (c.wildCopy .output e d s o).dst e := by
  fun_induction Call.wildCopy c .output e d s o with
  | case1 d s o o' more ih =>
    exact ih (rep.copy le from_ whole far) (by omega)
      (by rwa [Nat.add_sub_add_right]) (by omega)
  | case2 d s o o' last => exact (rep.copy le from_ whole far).mono (by omega)

lemma Repeats.byteCopy (rep : Repeats offset a m0 o.dst d) (le : offset ≤ a)
    (from_ : a ≤ s + offset) (whole : offset ∣ d - s) (far : s < d) :
    Repeats offset a m0 (c.byteCopy e d s o).dst e := by
  fun_induction Call.byteCopy c e d s o with
  | case1 d s o lt ih =>
    exact ih (rep.copy le from_ whole far) (by omega)
      (by rwa [Nat.add_sub_add_right]) (by omega)
  | case2 d s o last => exact rep.mono (by omega)

/-- The tables lead to whole offsets behind, which are enough for four and for eight bytes. -/
lemma tables_whole (small : offset < 8) : 0 < offset →
    dec32table.getD offset 0 ≤ offset ∧
    offset ∣ offset - dec32table.getD offset 0 + 4 ∧
    0 ≤ (offset : Int) - dec32table.getD offset 0 + dec64table.getD offset 0 ∧
    offset ∣ ((offset : Int) - dec32table.getD offset 0 + dec64table.getD offset 0).toNat + 8 := by
  revert offset
  decide

lemma Repeats.copyFirst (pos : 0 < offset) (le : offset ≤ a) :
    Repeats offset a o.dst (c.copyFirst a offset o).2.dst (a + 8) ∧
      a ≤ (c.copyFirst a offset o).1 + offset ∧ (c.copyFirst a offset o).1 ≤ a ∧
      offset ∣ a + 8 - (c.copyFirst a offset o).1 := by
  rw [Call.copyFirst]
  split_ifs with small
  · obtain ⟨le32, whole, nonneg, whole'⟩ := tables_whole small pos
    obtain ⟨-, -, le64, -⟩ := Call.tables small
    obtain ⟨k, eq⟩ := Int.eq_ofNat_of_zero_le nonneg
    rw [eq, Int.toNat_natCast] at whole'
    have first : Repeats offset a o.dst (c.byteCopy (a + 4) a (a - offset) o).dst (a + 4) := by
      refine Repeats.start.byteCopy le (by omega) ?_ (by omega)
      rw [Nat.sub_sub_self le]
    refine ⟨first.copy le (by omega) ?_ (by omega), ?_⟩
    · rwa [show a + 4 - (a - offset + dec32table.getD offset 0) =
        offset - dec32table.getD offset 0 + 4 from by omega]
    · dsimp only
      have there : ((a - offset + dec32table.getD offset 0 : Nat) : Int) -
          dec64table.getD offset 0 = ((a - k : Nat) : Int) := by omega
      rw [there, Int.toNat_natCast]
      refine ⟨by omega, by omega, ?_⟩
      rwa [show a + 8 - (a - k) = k + 8 from by omega]
  · refine ⟨Repeats.start.copy le (by omega) ?_ (by omega), ?_⟩
    · rw [Nat.sub_sub_self le]
    · dsimp only
      refine ⟨by omega, by omega, ?_⟩
      rw [show a + 8 - (a - offset + 8) = offset from by omega]

lemma Repeats.copyMatch (pos : 0 < offset) (le : offset ≤ a)
    (done : (c.copyMatch a offset n o).1 = true) :
    Repeats offset a o.dst (c.copyMatch a offset n o).2.dst (a + n) := by
  obtain ⟨first, from_, behind, whole⟩ := Repeats.copyFirst (c := c) (o := o) pos le
  rw [Call.copyMatch] at done ⊢
  split_ifs at done ⊢ with near tooNear far
  · refine (first.wildCopy le from_ whole (by omega)).byteCopy le (by omega) ?_ ?_
    · rwa [show (c.outputSize - 8).toNat - ((c.copyFirst a offset o).1 +
        ((c.outputSize - 8).toNat - (a + 8))) = a + 8 - (c.copyFirst a offset o).1 from by omega]
    · omega
  · exact first.byteCopy le from_ whole (by omega)
  · exact first.wildCopy le from_ whole (by omega)

/-- The bytes are those of a copy byte by byte. -/
lemma Repeats.read (rep : Repeats offset a m0 m e) (pos : 0 < offset) (le : offset ≤ a)
    (more : a + k + n ≤ e) :
    copyBack offset n (m.read 0 (a + k)) = m.read 0 (a + k + n) := by
  induction n generalizing k with
  | zero => rfl
  | succ n ih =>
    have next : (m.read 0 (a + k)).getD (a + k - offset) 0 = m (a + k) := by
      have there : (m.read 0 (a + k)).getD (a + k - offset) 0 = m (a + k - offset) := by
        rw [List.getD_eq_getElem?_getD, Mem.getElem?_read, if_pos (by omega), Nat.zero_add]
        rfl
      rw [there, rep _ (by omega), rep (a + k) (by omega),
        show origin offset a (a + k) = origin offset a (a + k - offset + offset) from by
          rw [Nat.sub_add_cancel (by omega)],
        origin_add le (by omega) (Nat.dvd_refl _)]
    have snoc : m.read 0 (a + k) ++ [m (a + k)] = m.read 0 (a + (k + 1)) := by
      rw [← Nat.add_assoc, Mem.read_add (a := 0) (n := a + k), Nat.zero_add]
      rfl
    rw [copyBack, Mem.length_read, next, snoc, ih (by omega)]
    congr 1
    omega

lemma Repeats.whole (rep : Repeats offset a m0 m (a + n)) (pos : 0 < offset) (le : offset ≤ a) :
    m.read 0 (a + n) = copyBack offset n (m0.read 0 a) := by
  have before : m.read 0 a = m0.read 0 a :=
    Mem.read_congr fun i lt => by rw [rep _ (by omega), origin, if_pos (by omega)]
  rw [← before]
  exact (rep.read (k := 0) pos le (Nat.le_refl _)).symm

end Match

/-! ## Lengths -/

section Length

variable {src m m' : Mem} {iend ip a b d k n p s token low : Nat} {bs cs : List UInt8}
variable {c : Call} {o : Out} {side : Side} {e : Nat}

/-- The bytes lie at an address. -/
def Has (src : Mem) (a : Nat) (bs : List UInt8) : Prop := src.read a bs.length = bs

lemma has_append : Has src a (bs ++ cs) ↔ Has src a bs ∧ Has src (a + bs.length) cs := by
  rw [Has, List.length_append, Mem.read_add]
  constructor
  · intro eq
    exact List.append_inj eq Mem.length_read
  · rintro ⟨eq1, eq2⟩
    rw [eq1, eq2]

lemma has_singleton {x : UInt8} : Has src a [x] ↔ src a = x := by
  rw [Has, List.length_singleton, Mem.read_succ, Mem.read_zero, List.cons.injEq,
    and_iff_left rfl]

lemma has_read : Has src a (src.read a n) := by rw [Has, Mem.length_read]

lemma extra_eq (lt : b < 255) :
    extra (15 + 255 * k + b) = List.replicate k 255 ++ [UInt8.ofNat b] := by
  rw [extra, if_neg (by omega), show (15 + 255 * k + b - 15) / 255 = k from by omega,
    show (15 + 255 * k + b - 15) % 255 = b from by omega]

lemma exists_length (long : 15 ≤ n) : ∃ k b, b < 255 ∧ n = 15 + 255 * k + b :=
  ⟨(n - 15) / 255, (n - 15) % 255, Nat.mod_lt _ (by decide), by omega⟩

lemma has_run (has : Has src ip (List.replicate (k + 1) 255 ++ bs)) :
    src ip = 255 ∧ Has src (ip + 1) (List.replicate k 255 ++ bs) := by
  have split : Has src ip [255] ∧ Has src (ip + 1) (List.replicate k 255 ++ bs) := has_append.1 has
  exact ⟨has_singleton.1 split.1, split.2⟩

lemma has_last (has : Has src ip [UInt8.ofNat b]) (lt : b < 255) :
    (src ip).toNat = b ∧ src ip ≠ 255 := by
  have byte : (src ip).toNat = b := by
    rw [has_singleton.1 has, UInt8.toNat_ofNat', Nat.mod_eq_of_lt (by omega)]
  refine ⟨byte, fun eq => ?_⟩
  rw [eq] at byte
  exact absurd lt (byte ▸ by decide)

/-- The length that is spelled out is read, where there is room for what it is the length of. -/
lemma literalLength_has (has : Has src ip (List.replicate k 255 ++ [UInt8.ofNat b]))
    (lt : b < 255) (fits : ip + 255 * k + 15 ≤ iend) :
    literalLength src iend ip n = (ip + k + 1, n + 255 * k + b) := by
  induction k generalizing ip n with
  | zero =>
    obtain ⟨byte, last⟩ := has_last has lt
    rw [literalLength, if_neg fun more => last more.2, byte]
    rfl
  | succ k ih =>
    obtain ⟨here, rest⟩ := has_run has
    rw [literalLength, if_pos ⟨by omega, here⟩, ih rest (by omega), Prod.mk.injEq]
    omega

lemma matchLength_has (has : Has src ip (List.replicate k 255 ++ [UInt8.ofNat b]))
    (lt : b < 255) (fits : ip + k + 5 ≤ iend) :
    matchLength src iend ip n = .ok (ip + k + 1, n + 255 * k + b) := by
  induction k generalizing ip n with
  | zero =>
    obtain ⟨byte, last⟩ := has_last has lt
    rw [matchLength, if_neg (by omega), if_neg last, byte]
    rfl
  | succ k ih =>
    obtain ⟨here, rest⟩ := has_run has
    rw [matchLength, if_neg (by omega), if_pos here, ih rest (by omega), Except.ok.injEq,
      Prod.mk.injEq]
    omega

lemma length_extra (lt : b < 255) : (extra (15 + 255 * k + b)).length = k + 1 := by
  rw [extra_eq lt, List.length_append, List.length_replicate, List.length_singleton]

/-- A length that fits into its half of the token has no bytes behind it. -/
lemma short_iff {half : Nat} (short : half < 15) : ip = p ∧ half = n ↔
    half = min n 15 ∧ p = ip + (extra n).length ∧ Has src ip (extra n) := by
  constructor
  · rintro ⟨rfl, rfl⟩
    rw [extra, if_pos short]
    exact ⟨by omega, rfl, rfl⟩
  · rintro ⟨eq, rfl, -⟩
    rw [extra, if_pos (by omega)]
    exact ⟨rfl, by omega⟩

/-- Literals that are in the input have the length that is spelled out. -/
lemma literals_iff (fits : p + n ≤ c.inputSize) : c.literals ip = (p, n) ↔
    (c.src ip).toNat / 16 = min n 15 ∧ p = ip + 1 + (extra n).length ∧
      Has c.src (ip + 1) (extra n) := by
  have lt := (c.src ip).toNat_lt
  rw [Call.literals]
  split_ifs with long
  · constructor
    · intro eq
      obtain ⟨k, b, eq', bytes, lt, -, last⟩ :=
        @Call.literalLength_spec c.src c.inputSize (ip + 1) 15
      rw [eq', Prod.mk.injEq] at eq
      obtain ⟨rfl, rfl⟩ := eq
      have lt : b < 255 := by omega
      refine ⟨by omega, by rw [length_extra lt]; omega, ?_⟩
      rw [Has, length_extra lt, bytes, extra_eq lt]
    · rintro ⟨token, rfl, has⟩
      obtain ⟨k, b, lt, rfl⟩ := exists_length (n := n) (by omega)
      rw [length_extra lt] at fits ⊢
      rw [extra_eq lt] at has
      exact literalLength_has has lt (by omega)
  · rw [Prod.mk.injEq]
    exact short_iff (by omega)

lemma matched_iff (fits : p + 4 ≤ c.inputSize) : c.matched token ip = .ok (p, n) ↔
    token % 16 = min n 15 ∧ p = ip + (extra n).length ∧ Has c.src ip (extra n) := by
  rw [Call.matched]
  split_ifs with long
  · constructor
    · intro eq
      obtain ⟨k, b, eq', bytes, lt, -⟩ := Call.matchLength_ok eq
      obtain ⟨rfl, rfl⟩ := Prod.mk.inj eq'
      refine ⟨by omega, by rw [length_extra lt]; omega, ?_⟩
      rw [Has, length_extra lt, bytes, extra_eq lt]
    · rintro ⟨token, rfl, has⟩
      obtain ⟨k, b, lt, rfl⟩ := exists_length (n := n) (by omega)
      rw [length_extra lt] at fits ⊢
      rw [extra_eq lt] at has
      exact matchLength_has has lt (by omega)
  · rw [Except.ok.injEq, Prod.mk.injEq]
    exact short_iff (by omega)

/-- A token has two halves. -/
lemma token_iff {t : UInt8} (high : a ≤ 15) (low_lt : low < 16) :
    t = UInt8.ofNat (16 * a + low) ↔ t.toNat / 16 = a ∧ t.toNat % 16 = low := by
  constructor
  · rintro rfl
    rw [UInt8.toNat_ofNat']
    omega
  · rintro ⟨rfl, rfl⟩
    rw [Nat.div_add_mod, UInt8.ofNat_toNat]

/-- Literals lie at an address with the length in front of them. -/
lemma has_literalBytes (low_lt : low < 16) : Has src ip (literalBytes bs low) ↔
    (src ip).toNat % 16 = low ∧
    ((src ip).toNat / 16 = min bs.length 15 ∧ Has src (ip + 1) (extra bs.length)) ∧
    Has src (ip + 1 + (extra bs.length).length) bs := by
  rw [literalBytes, ← List.singleton_append, has_append, has_append, has_singleton,
    token_iff (by omega) low_lt, List.length_singleton]
  tauto

end Length

/-! ## Turns -/

section Turn

variable {m m' src : Mem} {ip op d e n s k : Nat} {c : Call} {o o' : Out} {r : Outcome}

/-- What a copy from the input to `d` leaves up to `d + n`. -/
def Copied (m m' src : Mem) (d s e : Nat) : Prop :=
  ∀ i, i < e → m' i = if i < d then m i else src (s + (i - d))

lemma Copied.read (copied : Copied m m' src d s (d + n)) :
    m'.read 0 (d + n) = m.read 0 d ++ src.read s n := by
  rw [Mem.read_add]
  congr 1
  · exact Mem.read_congr fun i lt => by rw [copied _ (by omega), if_pos (by omega)]
  · refine Mem.read_congr fun i lt => ?_
    rw [copied _ (by omega), if_neg (by omega)]
    congr 2
    omega

lemma copied_copy : Copied o.dst (c.copy .input d s n o).dst c.src d s (d + n) := by
  intro i lt
  rw [Call.copy]
  split_ifs with below
  · exact Mem.write_below below
  · obtain ⟨j, rfl⟩ := Nat.exists_eq_add_of_le (Nat.le_of_not_lt below)
    dsimp only
    rw [Mem.write_at (by simp only [Mem.length_read]; omega), Nat.add_sub_cancel_left]
    simp [Mem.read]

lemma copied_wildCopy : Copied o.dst (c.wildCopy .input e d s o).dst c.src d s e := by
  fun_induction Call.wildCopy c .input e d s o with
  | case1 d s o o' more ih =>
    intro i lt
    rw [ih i lt]
    by_cases near : i < d + 8
    · rw [if_pos near]
      exact copied_copy i near
    · rw [if_neg near, if_neg (by omega)]
      congr 1
      omega
  | case2 d s o o' last => exact fun i lt => copied_copy i (by omega)

/-- A turn goes on behind a sequence. -/
structure Goes (c : Call) (ip op : Nat) (s : Sequence) : Prop where
  has : Has c.src ip s.bytes
  offset_lt : s.offset < 65536
  offset_le : s.offset ≤ op + s.literals.length
  long : 4 ≤ s.length
  input : ip + s.bytes.length + 4 ≤ c.inputSize
  input_literals : ip + (literalBytes s.literals 0).length + 8 ≤ c.inputSize
  output : (op + s.literals.length + s.length : Int) + 5 ≤ c.outputSize
  output_literals : (op + s.literals.length : Int) + 12 ≤ c.outputSize

lemma get16_lt : src.get16 ip < 65536 := by
  have lo := (src ip).toNat_lt
  have hi := (src (ip + 1)).toNat_lt
  rw [Mem.get16]
  omega

lemma get16_has (lt : n < 65536) : Has src ip (bytesLe 2 n) ↔ src.get16 ip = n := by
  have lo := (src ip).toNat_lt
  have hi := (src (ip + 1)).toNat_lt
  rw [Has, length_bytesLe, Mem.read_succ, Mem.read_succ, Mem.read_zero, bytesLe, bytesLe, bytesLe,
    Mem.get16]
  simp only [List.cons.injEq, and_true]
  constructor
  · rintro ⟨eq1, eq2⟩
    rw [eq1, eq2, UInt8.toNat_ofNat', UInt8.toNat_ofNat']
    omega
  · rintro rfl
    constructor
    · rw [← UInt8.toNat_inj, UInt8.toNat_ofNat']
      omega
    · rw [← UInt8.toNat_inj, UInt8.toNat_ofNat']
      omega

lemma length_literalBytes {bs : List UInt8} {low : Nat} :
    (literalBytes bs low).length = 1 + (extra bs.length).length + bs.length := by
  simp only [literalBytes, List.length_cons, List.length_append]
  omega

lemma length_bytes (t : Sequence) : t.bytes.length =
    1 + (extra t.literals.length).length + t.literals.length + 2 +
      (extra (t.length - 4)).length := by
  rw [Sequence.bytes, List.length_append, length_literalBytes, List.length_append, length_bytesLe]
  omega

/-- The parts of a sequence that lies at an address. -/
lemma has_bytes {t : Sequence} (lt : t.offset < 65536) :
    let p := ip + 1 + (extra t.literals.length).length
    let q := p + t.literals.length
    Has src ip t.bytes ↔
      (src ip).toNat % 16 = min (t.length - 4) 15 ∧
      ((src ip).toNat / 16 = min t.literals.length 15 ∧
        Has src (ip + 1) (extra t.literals.length)) ∧
      Has src p t.literals ∧ src.get16 q = t.offset ∧ Has src (q + 2) (extra (t.length - 4)) := by
  intro p q
  have here : ip + (literalBytes t.literals (min (t.length - 4) 15)).length = q := by
    rw [length_literalBytes]
    omega
  rw [Sequence.bytes, has_append, has_append, has_literalBytes (by omega), here, length_bytesLe,
    get16_has lt]
  tauto

lemma Goes.turn {t : Sequence} (goes : Goes c ip op t) : ∃ o', c.turn ip op o =
    (.next (ip + t.bytes.length) (op + t.literals.length + t.length), o') ∧
      (0 < t.offset → o'.dst.read 0 (op + t.literals.length + t.length) =
        t.apply (o.dst.read 0 op)) := by
  obtain ⟨has, lt, le, long, input, inputL, output, outputL⟩ := goes
  obtain ⟨half, ⟨token, spelled⟩, lits, off, spelled'⟩ := (has_bytes lt).1 has
  have size := length_bytes t
  generalize lenL : (extra t.literals.length).length = x at *
  rw [length_literalBytes, lenL] at inputL
  have first : c.literals ip = (ip + 1 + x, t.literals.length) :=
    (literals_iff (by omega)).2 ⟨token, by rw [lenL], spelled⟩
  have second : c.matched (c.src ip).toNat (ip + 1 + x + t.literals.length + 2) =
      .ok (ip + t.bytes.length, t.length - 4) :=
    (matched_iff (by omega)).2 ⟨half, by omega, spelled'⟩
  rw [Call.turn, first]
  dsimp only
  rw [if_neg (by omega), Call.turnMatch, off, if_neg (by omega), second]
  dsimp only
  rw [Nat.sub_add_cancel long]
  generalize before : c.look (ip + 1 + x + t.literals.length + 2) _ _ = o1
  have copied : Copied o.dst o1.dst c.src op (ip + 1 + x) (op + t.literals.length) := by
    subst before
    exact copied_wildCopy
  have ok : (c.copyMatch (op + t.literals.length) t.offset t.length o1).1 = true := by
    rw [Call.copyMatch]
    split_ifs
    · omega
    · rfl
    · rfl
    · rfl
  refine ⟨_, by rw [if_pos ok], fun pos => ?_⟩
  rw [(Repeats.copyMatch pos le ok).whole pos le, copied.read,
    show c.src.read (ip + 1 + x) t.literals.length = t.literals from lits]
  rfl

lemma copyMatch_room (ok : (c.copyMatch op d n o).1 = true) :
    ((op + n : Nat) : Int) + 5 ≤ c.outputSize := by
  rw [Call.copyMatch] at ok
  split_ifs at ok with near tooNear far <;> omega

/-- A turn ends the block behind its last literals. -/
structure Ends (c : Call) (ip op : Nat) (last : List UInt8) (low : Nat) : Prop where
  has : Has c.src ip (literalBytes last low)
  low_lt : low < 16
  input : ip + (literalBytes last low).length = c.inputSize
  output : (op + last.length : Int) ≤ c.outputSize

variable {last : List UInt8} {low : Nat}

lemma Ends.turn (ends : Ends c ip op last low) : ∃ o', c.turn ip op o =
    (.done (op + last.length), o') ∧
      o'.dst.read 0 (op + last.length) = o.dst.read 0 op ++ last := by
  obtain ⟨has, lt, input, output⟩ := ends
  obtain ⟨half, ⟨token, spelled⟩, lits⟩ := (has_literalBytes lt).1 has
  rw [length_literalBytes] at input
  have first : c.literals ip = (ip + 1 + (extra last.length).length, last.length) :=
    (literals_iff (by omega)).2 ⟨token, rfl, spelled⟩
  rw [Call.turn, first]
  dsimp only
  rw [if_pos (by omega), if_neg (by omega)]
  refine ⟨_, rfl, ?_⟩
  rw [copied_copy.read, show c.src.read (ip + 1 + (extra last.length).length) last.length = last
    from lits]
  rfl

/-- A turn has gone over a sequence or over the last literals. -/
lemma turn_cases (turned : c.turn ip op o = (r, o')) :
    match r with
    | .error _ => True
    | .done op' => ∃ last low, Ends c ip op last low ∧ op' = op + last.length
    | .next ip' op' => ∃ t, Goes c ip op t ∧ ip' = ip + t.bytes.length ∧
        op' = op + t.literals.length + t.length := by
  rcases lits : c.literals ip with ⟨p, n⟩
  rw [Call.turn, lits] at turned
  dsimp only at turned
  split_ifs at turned with short unread
  · obtain ⟨rfl, -⟩ := Prod.mk.inj turned
    trivial
  · obtain ⟨rfl, -⟩ := Prod.mk.inj turned
    obtain ⟨token, rfl, spelled⟩ := (literals_iff (by omega)).1 lits
    let last := c.src.read (ip + 1 + (extra n).length) n
    have len : last.length = n := Mem.length_read
    have has : Has c.src ip (literalBytes last ((c.src ip).toNat % 16)) := by
      rw [has_literalBytes (Nat.mod_lt _ (by decide)), len]
      exact ⟨rfl, ⟨token, spelled⟩, has_read⟩
    have size := @length_literalBytes last ((c.src ip).toNat % 16)
    rw [len] at size
    refine ⟨last, _, ⟨has, Nat.mod_lt _ (by decide), ?_, ?_⟩, ?_⟩ <;> omega
  · rw [Call.turnMatch] at turned
    split_ifs at turned with under
    · obtain ⟨rfl, -⟩ := Prod.mk.inj turned
      trivial
    · split at turned
      · obtain ⟨rfl, -⟩ := Prod.mk.inj turned
        trivial
      · rename_i l read
        obtain ⟨q, k⟩ := l
        dsimp only at turned
        split_ifs at turned with ok
        · obtain ⟨rfl, -⟩ := Prod.mk.inj turned
          have range := Call.matched_ok read (by omega)
          have room := copyMatch_room ok
          obtain ⟨token, rfl, spelled⟩ := (literals_iff (by omega)).1 lits
          obtain ⟨half, rfl, spelled'⟩ := (matched_iff (by omega)).1 read
          let t : Sequence := ⟨c.src.read (ip + 1 + (extra n).length) n,
            c.src.get16 (ip + 1 + (extra n).length + n), k + 4⟩
          have len : t.literals.length = n := Mem.length_read
          have has : Has c.src ip t.bytes := (has_bytes get16_lt).2 (by
            rw [len]
            exact ⟨half, ⟨token, spelled⟩, has_read, rfl, spelled'⟩)
          have size := length_bytes t
          have sizeL := @length_literalBytes t.literals 0
          rw [len] at size sizeL
          have lenM : t.length = k + 4 := rfl
          have off : t.offset = c.src.get16 (ip + 1 + (extra n).length + n) := rfl
          rw [lenM, Nat.add_sub_cancel] at size
          refine ⟨t, ⟨has, get16_lt, ?_, ?_, ?_, ?_, ?_, ?_⟩, ?_, ?_⟩ <;> omega
        · obtain ⟨rfl, -⟩ := Prod.mk.inj turned
          trivial

end Turn

/-! ## Runs -/

/-- What a sequence adds to the output. -/
def Sequence.size (t : Sequence) : Nat := t.literals.length + t.length

/-- How long what a block stands for is. -/
def Block.size (b : Block) : Nat := (b.sequences.map Sequence.size).sum + b.last.length

/-- The matches are of four bytes at least and begin in the output, of which `n` bytes are there. -/
def ValidFrom : Nat → List Sequence → Prop
  | _, [] => True
  | n, t :: ts => t.offset < 65536 ∧ t.offset ≤ n + t.literals.length ∧ 4 ≤ t.length ∧
    ValidFrom (n + t.size) ts

/-- A block that can be written down. -/
def Block.Valid (b : Block) : Prop := ValidFrom 0 b.sequences ∧ b.unused < 16

/-- The end of a block as the format wants it: the last five bytes are literals, and no match begins
in the last twelve. -/
def Block.Closed (b : Block) : Prop :=
  (∀ t ∈ b.sequences.getLast?, 5 ≤ b.last.length ∧ 12 ≤ t.length + b.last.length) ∧ b.unused = 0

section Run

variable {ip op n : Nat} {c : Call} {o : Out} {ts : List Sequence} {t : Sequence}
variable {last : List UInt8} {low : Nat} {b : Block} {dst : Mem} {out : List UInt8}

lemma length_copyBack {offset : Nat} : (copyBack offset n out).length = out.length + n := by
  induction n generalizing out with
  | zero => rfl
  | succ n ih =>
    rw [copyBack, ih, List.length_append, List.length_singleton]
    omega

lemma length_apply : (t.apply out).length = out.length + t.size := by
  rw [Sequence.apply, length_copyBack, List.length_append, Sequence.size, Nat.add_assoc]

lemma length_foldl : (ts.foldl Sequence.apply out).length =
    out.length + (ts.map Sequence.size).sum := by
  induction ts generalizing out with
  | nil => rfl
  | cons t ts ih =>
    rw [List.foldl_cons, ih, length_apply, List.map_cons, List.sum_cons, Nat.add_assoc]

lemma length_contents : b.contents.length = b.size := by
  rw [Block.contents, List.length_append, length_foldl, List.length_nil, Nat.zero_add, Block.size]

/-- The turns from one place on go over these sequences and literals. -/
inductive Decodes (c : Call) : Nat → Nat → List Sequence → List UInt8 → Nat → Prop where
  | last {ip op : Nat} {last : List UInt8} {low : Nat} :
    Ends c ip op last low →
    Decodes c ip op [] last low
  | next {ip op : Nat} {t : Sequence} {ts : List Sequence} {last : List UInt8} {low : Nat} :
    Goes c ip op t →
    Decodes c (ip + t.bytes.length) (op + t.size) ts last low →
    Decodes c ip op (t :: ts) last low

lemma Decodes.loop (run : Decodes c ip op ts last low) (o : Out) : ∃ o',
    c.loop ip op o = (((op + (ts.map Sequence.size).sum + last.length : Nat) : Int), o') ∧
      ((∀ t ∈ ts, 0 < t.offset) →
        o'.dst.read 0 (op + (ts.map Sequence.size).sum + last.length) =
          ts.foldl Sequence.apply (o.dst.read 0 op) ++ last) := by
  induction run generalizing o with
  | last ends =>
    obtain ⟨o', turned, out⟩ := ends.turn (o := o)
    exact ⟨o', Call.loop_done turned, fun _ => out⟩
  | @next ip op t ts last low goes rest ih =>
    obtain ⟨o1, turned, out1⟩ := goes.turn (o := o)
    obtain ⟨o2, looped, out2⟩ := ih o1
    rw [Nat.add_assoc op] at turned out1
    refine ⟨o2, ?_, fun pos => ?_⟩
    · rw [Call.loop_next turned, show t.literals.length + t.length = t.size from rfl, looped,
        List.map_cons, List.sum_cons, Nat.add_assoc op]
    · rw [List.map_cons, List.sum_cons, ← Nat.add_assoc op,
        out2 fun t' mem => pos t' (List.mem_cons_of_mem _ mem), List.foldl_cons,
        show op + t.size = op + (t.literals.length + t.length) from rfl,
        out1 (pos t List.mem_cons_self)]

lemma decodes_of_loop (nonneg : 0 ≤ (c.loop ip op o).1) :
    ∃ ts last low, Decodes c ip op ts last low := by
  fun_induction Call.loop c ip op o with
  | case1 ip op o stop o' turned =>
    dsimp only at nonneg
    omega
  | case2 ip op o op' o' turned =>
    obtain ⟨last, low, ends, -⟩ := turn_cases turned
    exact ⟨[], last, low, .last ends⟩
  | case3 ip op o ip' op' o' turned ih =>
    obtain ⟨t, goes, rfl, rfl⟩ := turn_cases turned
    obtain ⟨ts, last, low, rest⟩ := ih nonneg
    rw [Nat.add_assoc] at rest
    exact ⟨t :: ts, last, low, .next goes rest⟩

lemma bytes_cons :
    Block.bytes ⟨t :: ts, last, low⟩ = t.bytes ++ Block.bytes ⟨ts, last, low⟩ := by
  rw [Block.bytes, Block.bytes, List.flatMap_cons, List.append_assoc]

lemma size_cons : Block.size ⟨t :: ts, last, low⟩ = t.size + Block.size ⟨ts, last, low⟩ := by
  rw [Block.size, Block.size, List.map_cons, List.sum_cons, Nat.add_assoc]

/-- What is decoded lies in the input from the place on to its end, and is valid. -/
lemma Decodes.block (run : Decodes c ip op ts last low) :
    Has c.src ip (Block.bytes ⟨ts, last, low⟩) ∧ ValidFrom op ts ∧ low < 16 ∧
      ip + (Block.bytes ⟨ts, last, low⟩).length = c.inputSize ∧
      (op + Block.size ⟨ts, last, low⟩ : Int) ≤ c.outputSize := by
  induction run with
  | last ends =>
    refine ⟨ends.has, trivial, ends.low_lt, ends.input, ?_⟩
    have room := ends.output
    simpa [Block.size] using room
  | @next ip op t ts last low goes rest ih =>
    obtain ⟨has, valid, lt, input, output⟩ := ih
    rw [bytes_cons, has_append, List.length_append, size_cons]
    refine ⟨⟨goes.has, has⟩, ⟨goes.offset_lt, goes.offset_le, goes.long, valid⟩, lt, ?_, ?_⟩ <;> omega

/-- In front of the last match there is more to come. -/
lemma closed_room (closed : ∀ t ∈ ts.getLast?, 5 ≤ last.length ∧ 12 ≤ t.length + last.length)
    (some : ts ≠ []) : 5 ≤ last.length ∧ 12 ≤ (ts.map Sequence.size).sum + last.length := by
  obtain ⟨five, twelve⟩ := closed _ (List.getLast?_eq_getLast_of_ne_nil some)
  have mem := List.mem_map_of_mem (f := Sequence.size) (List.getLast_mem some)
  have le := List.le_sum_of_mem mem
  rw [Sequence.size] at le
  omega

lemma decodes_of_block (has : Has c.src ip (Block.bytes ⟨ts, last, 0⟩)) (valid : ValidFrom op ts)
    (closed : ∀ t ∈ ts.getLast?, 5 ≤ last.length ∧ 12 ≤ t.length + last.length)
    (input : ip + (Block.bytes ⟨ts, last, 0⟩).length = c.inputSize)
    (output : (op + Block.size ⟨ts, last, 0⟩ : Int) ≤ c.outputSize) :
    Decodes c ip op ts last 0 := by
  induction ts generalizing ip op with
  | nil =>
    refine .last ⟨has, by decide, input, ?_⟩
    simpa [Block.size] using output
  | cons t ts ih =>
    obtain ⟨lt, le, long, valid⟩ := valid
    have room := closed_room closed (List.cons_ne_nil t ts)
    have rest : ∀ t ∈ ts.getLast?, 5 ≤ last.length ∧ 12 ≤ t.length + last.length := by
      intro t' mem
      refine closed t' ?_
      cases ts with
      | nil => cases mem
      | cons _ _ => exact mem
    rw [bytes_cons, has_append] at has
    rw [bytes_cons, List.length_append] at input
    rw [size_cons] at output
    have behind : 12 ≤ t.length + Block.size ⟨ts, last, 0⟩ := by
      show 12 ≤ t.length + ((ts.map Sequence.size).sum + last.length)
      cases ts with
      | nil => simpa using (closed t rfl).2
      | cons t' ts =>
        have := closed_room rest (List.cons_ne_nil t' ts)
        omega
    have tail : 6 ≤ (Block.bytes ⟨ts, last, 0⟩).length := by
      rw [Block.bytes, List.length_append, length_literalBytes]
      dsimp only
      omega
    have lenT := length_bytes t
    have lenL := @length_literalBytes t.literals 0
    have five : last.length ≤ Block.size ⟨ts, last, 0⟩ := Nat.le_add_left _ _
    have add : t.size = t.literals.length + t.length := rfl
    refine .next ⟨has.1, lt, le, long, ?_, ?_, ?_, ?_⟩ (ih has.2 valid rest ?_ ?_) <;> omega

/-- What a block stands for is decoded from its bytes, wherever there is room for it. -/
lemma decompress_block (valid : b.Valid) (closed : b.Closed)
    (pos : ∀ t ∈ b.sequences, 0 < t.offset) (bytes : c.src.read 0 c.inputSize = b.bytes)
    (room : (b.size : Int) ≤ c.outputSize) : (c.decompress dst).1 = b.size ∧
      (c.decompress dst).2.dst.read 0 b.size = b.contents := by
  obtain ⟨ts, last, low⟩ := b
  obtain ⟨closed, rfl⟩ := closed
  have len : c.inputSize = (Block.bytes ⟨ts, last, 0⟩).length := by
    rw [← bytes, Mem.length_read]
  have has : Has c.src 0 (Block.bytes ⟨ts, last, 0⟩) := by rw [Has, ← len, bytes]
  have run : Decodes c 0 0 ts last 0 := decodes_of_block has valid.1 closed (by omega) (by omega)
  rw [Call.decompress]
  by_cases empty : c.outputSize = 0
  case pos =>
    -- nothing is asked for, and the block is a token of nothing
    cases run with
    | last ends =>
      have none := ends.output
      obtain rfl : last = [] := List.eq_nil_of_length_eq_zero (by omega)
      have one : c.inputSize = 1 := len
      rw [one, Mem.read_succ] at bytes
      have zero : c.src 0 = 0 := (List.cons.inj bytes).1
      rw [if_pos empty, if_pos one, if_pos zero]
      exact ⟨rfl, rfl⟩
    | next goes _ =>
      have none := goes.output
      omega
  case neg =>
    obtain ⟨o', looped, out⟩ := run.loop ⟨dst, []⟩
    have read := out pos
    rw [Nat.zero_add] at looped read
    rw [if_neg empty, looped]
    exact ⟨rfl, read⟩

/-- A block that is accepted has the form of one, and is decoded to what it stands for. A match with
the offset 0 is accepted, too, and leaves what is there. -/
theorem decompress_contents (nonneg : 0 ≤ (c.decompress dst).1) : ∃ b : Block, b.Valid ∧
    b.bytes = c.src.read 0 c.inputSize ∧ (c.decompress dst).1 = b.size ∧
      ((∀ t ∈ b.sequences, 0 < t.offset) →
        (c.decompress dst).2.dst.read 0 b.size = b.contents) := by
  rw [Call.decompress] at nonneg ⊢
  split_ifs at nonneg ⊢ with empty one zero
  · refine ⟨⟨[], [], 0⟩, ⟨trivial, by decide⟩, ?_, rfl, fun _ => rfl⟩
    rw [one, Mem.read_succ, zero]
    rfl
  · exact absurd nonneg (show ¬(0 : Int) ≤ -1 by decide)
  · exact absurd nonneg (show ¬(0 : Int) ≤ -1 by decide)
  · obtain ⟨ts, last, low, run⟩ := decodes_of_loop nonneg
    obtain ⟨has, valid, lt, input, -⟩ := run.block
    obtain ⟨o', looped, out⟩ := run.loop ⟨dst, []⟩
    rw [Nat.zero_add] at input
    rw [looped]
    refine ⟨⟨ts, last, low⟩, ⟨valid, lt⟩, ?_, ?_, fun pos => ?_⟩
    · rw [← input]
      exact has.symm
    · rw [Nat.zero_add]
      rfl
    · have read := out pos
      rw [Nat.zero_add] at read
      exact read

/-- A literal, a match that repeats it, and five literals, for a buffer of 14 bytes. -/
def sample : Call where
  src i := [0x14, 97, 1, 0, 0x50, 98, 98, 98, 98, 98].getD i 0
  inputSize := 10
  outputSize := 14

theorem decompress_contents_run : ∃ b : Block, b.Valid ∧
    b.bytes = [0x14, 97, 1, 0, 0x50, 98, 98, 98, 98, 98] ∧
    (sample.decompress Mem.zero).1 = b.size ∧ ((∀ t ∈ b.sequences, 0 < t.offset) →
      (sample.decompress Mem.zero).2.dst.read 0 b.size = b.contents) := by
  have done := @decompress_block sample ⟨[⟨[97], 1, 8⟩], [98, 98, 98, 98, 98], 0⟩ Mem.zero
    ⟨by simp [ValidFrom], by decide⟩ ⟨by simp, rfl⟩ (by simp) (by decide) (by decide)
  exact decompress_contents (by rw [done.1]; exact Int.natCast_nonneg _)

end Run

end Imx.Lz4
