import Imx.Base.Access
import Imx.Base.Mem

/-!
# Unpacking an LZ4 frame

`ulz4fn` (`lib/lz4_wrapper.c`) with the accesses it makes to its input and its output. The input is
the memory from `src` on, of which `srcn` bytes are the frame, and `LZ4_decompress_generic` is a
decoder of one block that keeps to the bounds it is given. An input is an object in memory, so the
sum of an offset behind it and a 31-bit size does not wrap.

Only the data of a block is covered by the test of its size. Its header is read before that, so the
frame must not end before or inside a header that is reached.
-/

namespace Imx.Lz4
open Imx.Base

/-! ## The frame -/

/-- What is returned instead of 0. -/
inductive Errno where
  | einval
  | eprotonosupport
  | enobufs
  | eproto
deriving DecidableEq, Repr

/-- `LZ4_decompress_generic` on one block: from its bytes and the size of the output, the value it
returns and the bytes it leaves from `dest` on. It writes inside that size, and a length it returns
is not more than it has written. -/
structure Decoder where
  run : List UInt8 → Int → Int × List UInt8
  inside : ∀ source outputSize, (run source outputSize).2.length ≤ outputSize.toNat
  length_le : ∀ source outputSize, (run source outputSize).1 ≤ (run source outputSize).2.length

variable (m : Mem) (srcn cap : Nat) (dec : Decoder)

/-- A bit of the byte at an offset. -/
def bit (a i : Nat) : Bool := (m a).toNat.testBit i

/-- The checks of `struct lz4_frame_header`, in their order. -/
def checkHeader : Option Errno :=
  if srcn < 6 + 8 + 1 then some .einval
  else if m.get32 0 ≠ 0x184D2204 ∨ (m 4).toNat / 64 ≠ 1 then some .eprotonosupport
  else if (m 4).toNat % 4 ≠ 0 ∨ (m 5).toNat % 16 ≠ 0 ∨ bit m 5 7 then some .einval
  else if ¬ bit m 4 5 then some .eprotonosupport
  else none

/-- Where the blocks begin: behind the content size, if there is one, and the header checksum. -/
def firstBlock : Nat := 6 + (if bit m 4 3 then 8 else 0) + 1

/-- The size of the block whose header is at `inp`. -/
def blockSize (inp : Nat) : Nat := m.get32 inp % 2 ^ 31

/-- The block holds its data as it is. -/
def notCompressed (inp : Nat) : Prop := 2 ^ 31 ≤ m.get32 inp

instance (inp : Nat) : Decidable (notCompressed m inp) := inferInstanceAs (Decidable (_ ≤ _))

/-- Where the next header is: behind the data and the checksum of the block, if there is one. -/
def nextBlock (inp : Nat) : Nat := inp + 4 + blockSize m inp + if bit m 4 4 then 4 else 0

/-! ## Unpacking -/

/-- A number of bytes as the `int` argument for it. -/
def intArg (n : Nat) : Int := (BitVec.ofNat 32 n).toInt

/-- What is done with one block: how many of its bytes are looked at, what is written from `out` on,
by how much `out` moves, and the error. -/
structure Step where
  looked : Nat
  written : List UInt8
  moved : Nat
  error : Option Errno

/-- Copy or decode the block whose header is at `inp`. -/
def step (inp out : Nat) : Step :=
  if notCompressed m inp then
    let size := min (blockSize m inp) (cap - out)
    ⟨size, m.read (inp + 4) size, size, if size < blockSize m inp then some .enobufs else none⟩
  else
    let r := dec.run (m.read (inp + 4) (blockSize m inp)) (intArg (cap - out))
    ⟨blockSize m inp, r.2, r.1.toNat, if r.1 < 0 then some .eproto else none⟩

/-- What unpacking leaves: the value returned, `*dstn`, the output, and the accesses to the input of
`srcn` bytes and the output of `cap` bytes. -/
structure Unpacked where
  error : Option Errno
  dstn : Nat
  dst : Mem
  accesses : List Access

/-- The loop over the blocks. -/
def blockLoop (inp out : Nat) (dst : Mem) : Unpacked :=
  if srcn < inp + 4 + blockSize m inp then ⟨some .einval, out, dst, [⟨srcn, inp, 4⟩]⟩
  else if blockSize m inp = 0 then ⟨none, out, dst, [⟨srcn, inp, 4⟩]⟩
  else
    let s := step m cap dec inp out
    let dst' := dst.write out s.written
    let touched := [⟨srcn, inp, 4⟩, ⟨srcn, inp + 4, s.looked⟩, ⟨cap, out, s.written.length⟩]
    if s.error.isSome then ⟨s.error, out + s.moved, dst', touched⟩
    else
      let rest := blockLoop (nextBlock m inp) (out + s.moved) dst'
      { rest with accesses := touched ++ rest.accesses }
termination_by srcn - inp
decreasing_by
  simp only [nextBlock]
  omega

/-- Unpack a frame (C `ulz4fn`) into an output of `cap` bytes. -/
def ulz4fn (dst : Mem) : Unpacked :=
  let touched := if srcn < 6 + 8 + 1 then [] else [⟨srcn, 0, 6⟩]
  match checkHeader m srcn with
  | some e => ⟨some e, 0, dst, touched⟩
  | none =>
    let rest := blockLoop m srcn cap dec (firstBlock m) 0 dst
    { rest with accesses := touched ++ rest.accesses }

/-! ## What a frame stands for -/

/-- The data of the block whose header is at `inp`, decoded with the room behind `out`. -/
inductive Data (inp out : Nat) : List UInt8 → Prop where
  | stored :
    notCompressed m inp →
    blockSize m inp ≤ cap - out →
    Data inp out (m.read (inp + 4) (blockSize m inp))
  | compressed {n : Nat} {bs : List UInt8} :
    ¬ notCompressed m inp →
    dec.run (m.read (inp + 4) (blockSize m inp)) (intArg (cap - out)) = ((n : Int), bs) →
    Data inp out (bs.take n)

/-- The blocks from `inp` up to the end mark, a header of size 0, and their data. -/
inductive Blocks : Nat → Nat → List (List UInt8) → Prop where
  | endMark {inp out : Nat} :
    inp + 4 ≤ srcn →
    blockSize m inp = 0 →
    Blocks inp out []
  | block {inp out : Nat} {bs : List UInt8} {rest : List (List UInt8)} :
    blockSize m inp ≠ 0 →
    inp + 4 + blockSize m inp ≤ srcn →
    Data m cap dec inp out bs →
    Blocks (nextBlock m inp) (out + bs.length) rest →
    Blocks inp out (bs :: rest)

/-- When 0 is returned, the end mark was met, and the output holds the blocks one after another. -/
def Complete (dst : Mem) : Prop :=
  let u := ulz4fn m srcn cap dec dst
  u.error = none → ∃ blocks, Blocks m srcn cap dec (firstBlock m) 0 blocks ∧
    u.dstn = blocks.flatten.length ∧ u.dst.read 0 u.dstn = blocks.flatten

/-- Unpacking stays inside the input and the output and is complete. -/
def Sound (dst : Mem) : Prop :=
  AllInside (ulz4fn m srcn cap dec dst).accesses ∧ Complete m srcn cap dec dst

/-! ## Frames that end in a header -/

/-- The input ends before or inside a header that the blocks from `inp` lead to. -/
inductive Cut : Nat → Nat → Prop where
  | here {inp out : Nat} :
    srcn < inp + 4 →
    Cut inp out
  | block {inp out : Nat} {bs : List UInt8} :
    blockSize m inp ≠ 0 →
    inp + 4 + blockSize m inp ≤ srcn →
    Data m cap dec inp out bs →
    Cut (nextBlock m inp) (out + bs.length) →
    Cut inp out

/-! ## One block -/

section Step

variable {m srcn cap dec} {inp out : Nat} {dst : Mem} {bs : List UInt8}

/-- An `int` is not more than the number it was made of. -/
lemma intArg_toNat_le {n : Nat} : (intArg n).toNat ≤ n := by
  rw [intArg, BitVec.toInt_eq_toNat_cond, BitVec.toNat_ofNat]
  have le : n % 2 ^ 32 ≤ n := Nat.mod_le _ _
  split_ifs <;> omega

lemma step_stored (plain : notCompressed m inp) : step m cap dec inp out =
    ⟨min (blockSize m inp) (cap - out), m.read (inp + 4) (min (blockSize m inp) (cap - out)),
      min (blockSize m inp) (cap - out),
      if min (blockSize m inp) (cap - out) < blockSize m inp then some .enobufs else none⟩ :=
  if_pos plain

lemma step_compressed (packed : ¬ notCompressed m inp) {r : Int × List UInt8}
    (run : dec.run (m.read (inp + 4) (blockSize m inp)) (intArg (cap - out)) = r) :
    step m cap dec inp out =
      ⟨blockSize m inp, r.2, r.1.toNat, if r.1 < 0 then some .eproto else none⟩ := by
  subst run
  exact if_neg packed

/-- Only the block is looked at. -/
lemma step_looked : (step m cap dec inp out).looked ≤ blockSize m inp := by
  rw [step]
  split_ifs
  · exact Nat.min_le_left _ _
  · exact Nat.le_refl _

/-- What is written fits. -/
lemma step_written : (step m cap dec inp out).written.length ≤ cap - out := by
  rw [step]
  split_ifs
  · simp only [Mem.length_read]
    exact Nat.min_le_right _ _
  · exact Nat.le_trans (dec.inside _ _) intArg_toNat_le

/-- `out` moves over bytes that were written. -/
lemma step_moved : (step m cap dec inp out).moved ≤ (step m cap dec inp out).written.length := by
  rw [step]
  split_ifs
  · simp only [Mem.length_read, le_refl]
  · have le := dec.length_le (m.read (inp + 4) (blockSize m inp)) (intArg (cap - out))
    simp only
    omega

/-- A block goes through exactly when it has data, which are then what `out` moves over. -/
lemma data_iff : Data m cap dec inp out bs ↔ (step m cap dec inp out).error = none ∧
    bs = (step m cap dec inp out).written.take (step m cap dec inp out).moved := by
  by_cases plain : notCompressed m inp
  · rw [step_stored plain]
    constructor
    · intro data
      cases data with
      | stored _ fits =>
        simp only [Nat.min_eq_left fits, if_neg (Nat.lt_irrefl _)]
        exact ⟨trivial, (List.take_of_length_le (Nat.le_of_eq Mem.length_read)).symm⟩
      | compressed no _ => exact absurd plain no
    · rintro ⟨done, rfl⟩
      have fits : blockSize m inp ≤ cap - out := by
        by_contra more
        simp only [Nat.min_eq_right (Nat.le_of_not_le more), if_pos (Nat.lt_of_not_le more)] at done
        cases done
      simp only [Nat.min_eq_left fits, List.take_of_length_le (Nat.le_of_eq Mem.length_read)]
      exact .stored plain fits
  · constructor
    · intro data
      cases data with
      | stored yes _ => exact absurd yes plain
      | @compressed n bs _ run =>
        rw [step_compressed plain run]
        refine ⟨?_, rfl⟩
        simp only [if_neg (Int.not_lt.2 (Int.natCast_nonneg n))]
    · rw [step_compressed plain rfl]
      rintro ⟨done, rfl⟩
      have nonneg : 0 ≤ (dec.run (m.read (inp + 4) (blockSize m inp)) (intArg (cap - out))).1 := by
        by_contra neg
        simp only [if_pos (Int.not_le.1 neg)] at done
        cases done
      refine .compressed plain (Prod.ext ?_ rfl)
      exact (Int.toNat_of_nonneg nonneg).symm

/-- The data of a block that goes through. -/
lemma data_of_step (done : (step m cap dec inp out).error = none) :
    Data m cap dec inp out
      ((step m cap dec inp out).written.take (step m cap dec inp out).moved) :=
  data_iff.2 ⟨done, rfl⟩

/-- They are as many bytes as `out` moves by. -/
lemma length_take_moved : ((step m cap dec inp out).written.take
    (step m cap dec inp out).moved).length = (step m cap dec inp out).moved := by
  rw [List.length_take, Nat.min_eq_left step_moved]

end Step

/-! ## The loop -/

section Loop

variable {m srcn cap dec} {inp out : Nat} {dst : Mem}

/-- A header that leads no further is cut off when it is not inside. -/
lemma cut_iff_of_stops (stops : ∀ bs, blockSize m inp ≠ 0 → inp + 4 + blockSize m inp ≤ srcn →
      ¬ Data m cap dec inp out bs) :
    Cut m srcn cap dec inp out ↔ srcn < inp + 4 := by
  constructor
  · intro cut
    cases cut with
    | here short => exact short
    | block more fits data _ => exact absurd data (stops _ more fits)
  · intro short
    exact .here short

/-- The loop stays inside exactly when no header it comes to is cut off. -/
lemma blockLoop_inside (le : out ≤ cap) :
    AllInside (blockLoop m srcn cap dec inp out dst).accesses ↔ ¬ Cut m srcn cap dec inp out := by
  fun_induction blockLoop with
  | case1 inp out dst more =>
    rw [cut_iff_of_stops fun bs _ fits => absurd fits (Nat.not_le.2 more)]
    simp only [allInside_cons, inside_mk, allInside_nil, and_true, Nat.not_lt]
  | case2 inp out dst more last =>
    rw [cut_iff_of_stops fun bs some => absurd last some]
    simp only [allInside_cons, inside_mk, allInside_nil, and_true, Nat.not_lt]
  | case3 inp out dst fits some s dst' touched error =>
    rw [cut_iff_of_stops fun bs _ _ data => by
      rw [(data_iff.1 data).1] at error
      cases error]
    have looked : s.looked ≤ blockSize m inp := step_looked
    have written : s.written.length ≤ cap - out := step_written
    simp only [touched, allInside_cons, inside_mk, allInside_nil, and_true]
    omega
  | case4 inp out dst fits some s dst' touched done rest ih =>
    have looked : s.looked ≤ blockSize m inp := step_looked
    have written : s.written.length ≤ cap - out := step_written
    have moved : s.moved ≤ s.written.length := step_moved
    have data := data_of_step (Option.not_isSome_iff_eq_none.1 done)
    have here : AllInside touched := by
      simp only [touched, allInside_cons, inside_mk, allInside_nil, and_true]
      omega
    rw [allInside_append, ih (by omega), and_iff_right here, not_iff_not]
    constructor
    · intro cut
      refine .block some (Nat.le_of_not_lt fits) data ?_
      rwa [length_take_moved]
    · intro cut
      cases cut with
      | here short => omega
      | block _ _ data' cut =>
        rw [(data_iff.1 data').2, length_take_moved] at cut
        exact cut

/-- A loop that ends well met the end mark, and it has left the data of the blocks behind what was
there. -/
lemma blockLoop_blocks (done : (blockLoop m srcn cap dec inp out dst).error = none) :
    ∃ blocks, Blocks m srcn cap dec inp out blocks ∧
      (blockLoop m srcn cap dec inp out dst).dstn = out + blocks.flatten.length ∧
      (blockLoop m srcn cap dec inp out dst).dst.read 0 (out + blocks.flatten.length) =
        dst.read 0 out ++ blocks.flatten := by
  fun_induction blockLoop with
  | case1 => cases done
  | case2 inp out dst fits last =>
    refine ⟨[], .endMark ?_ last, rfl, (List.append_nil _).symm⟩
    omega
  | case3 inp out dst fits some s dst' touched error =>
    rw [show s.error = none from done] at error
    cases error
  | case4 inp out dst fits some s dst' touched fine rest ih =>
    obtain ⟨blocks, tail, count, kept⟩ := ih done
    have moved : s.moved ≤ s.written.length := step_moved
    have data := data_of_step (Option.not_isSome_iff_eq_none.1 fine)
    have len : (s.written.take s.moved).length = s.moved := length_take_moved
    have total : (s.written.take s.moved :: blocks).flatten.length =
        s.moved + blocks.flatten.length := by
      rw [List.flatten_cons, List.length_append, len]
    refine ⟨_ :: blocks, .block some (Nat.le_of_not_lt fits) data ?_, ?_, ?_⟩
    · rwa [len]
    · rw [total, ← Nat.add_assoc]
      exact count
    · rw [total, ← Nat.add_assoc]
      refine kept.trans ?_
      -- what was there is kept, and behind it is what was written
      have old : dst'.read 0 out = dst.read 0 out :=
        Mem.read_write_disjoint (.inl (by omega))
      have new : dst'.read out s.moved = s.written.take s.moved := by
        have whole : dst'.read out s.written.length = s.written := Mem.read_write_self rfl
        rw [← Nat.min_eq_left moved, ← Mem.read_take, whole, Nat.min_eq_left moved]
      rw [Mem.read_add, old, Nat.zero_add, new, List.flatten_cons, List.append_assoc]

end Loop

/-! ## The frame -/

section Frame

variable {dst : Mem}

/-- Unpacking is complete. -/
lemma complete : Complete m srcn cap dec dst := by
  simp only [Complete, ulz4fn]
  cases checkHeader m srcn with
  | some e => exact nofun
  | none =>
    intro done
    obtain ⟨blocks, chain, count, kept⟩ := blockLoop_blocks done
    rw [Nat.zero_add] at count kept
    refine ⟨blocks, chain, count, ?_⟩
    rw [count]
    exact kept

/-- The accesses stay inside exactly when no header of an accepted frame is cut off. -/
lemma inside_iff : AllInside (ulz4fn m srcn cap dec dst).accesses ↔
    (checkHeader m srcn = none → ¬ Cut m srcn cap dec (firstBlock m) 0) := by
  rw [ulz4fn]
  have head : AllInside (if srcn < 6 + 8 + 1 then [] else [⟨srcn, 0, 6⟩]) := by
    rw [allInside_ite_not]
    intro enough
    simp only [allInside_cons, inside_mk, allInside_nil, and_true]
    omega
  cases checkHeader m srcn with
  | some e => exact iff_of_true head fun no => absurd no (Option.some_ne_none e)
  | none =>
    simp only [allInside_append, blockLoop_inside (Nat.zero_le cap)]
    exact ⟨fun sound _ => sound.2, fun whole => ⟨head, whole trivial⟩⟩

/-- Unpacking stays inside its buffers and is complete exactly when an accepted frame does not end
before or inside a header its blocks lead to. -/
theorem sound_iff : Sound m srcn cap dec dst ↔
    (checkHeader m srcn = none → ¬ Cut m srcn cap dec (firstBlock m) 0) := by
  rw [Sound, and_iff_left (complete m srcn cap dec)]
  exact inside_iff m srcn cap dec

/-- A frame of one stored block of four bytes, without its end mark. -/
def unended : Mem := fun i =>
  [0x04, 0x22, 0x4D, 0x18, 0x60, 0x70, 0x73, 0x04, 0x00, 0x00, 0x80,
    0x64, 0x61, 0x74, 0x61].getD i 0

/-- A decoder that takes no block. -/
def refuses : Decoder where
  run _ _ := (-1, [])
  inside _ _ := Nat.zero_le _
  length_le _ _ := by decide

/-- Behind the block of that frame a header is read that is not there. -/
theorem not_sound : ¬ Sound unended 15 64 refuses Mem.zero := by
  rintro ⟨inside, -⟩
  have data : Data unended 64 refuses 7 0 (unended.read 11 4) := .stored (by decide) (by decide)
  exact (inside_iff _ _ _ _).1 inside (by decide)
    (.block (by decide) (by decide) data (.here (by decide)))

end Frame

end Imx.Lz4
