import Imx.Membuff.Defs

/-!
# What a memory buffer holds

The abstraction of a buffer of `lib/membuff.c` to the list of bytes it holds, and one lemma for
each operation that says what the operation does to that list. `Membuff.Ok` is the invariant of
the control block; `Membuff.held` reads the bytes from `tail` to `head`, around the end if need be.
The raw operations work on one contiguous piece: `piece` is the longest piece that `getraw` can
hand out and `room` the longest that `putraw` can, and `get`/`put` combine two of them.
-/

namespace Imx.Membuff
open Imx.Base

/-- The control block is in order: there is a buffer and both positions lie in it. -/
structure Ok (mb : Membuff) : Prop where
  null : mb.null = false
  head : mb.head < mb.size
  tail : mb.tail < mb.size

/-- The bytes held, first in first. -/
def held (mb : Membuff) : List UInt8 :=
  if mb.tail ≤ mb.head then
    mb.mem.read mb.tail (mb.head - mb.tail)
  else
    mb.mem.read mb.tail (mb.size - mb.tail) ++ mb.mem.read 0 mb.head

/-- The longest piece that can be read at once. -/
def piece (mb : Membuff) : Nat :=
  if mb.tail ≤ mb.head then mb.head - mb.tail else mb.size - mb.tail

/-- The longest piece that can be written at once. -/
def room (mb : Membuff) : Nat :=
  if mb.tail ≤ mb.head then
    if mb.tail = 0 then mb.size - mb.head - 1 else mb.size - mb.head
  else
    mb.tail - mb.head - 1

variable {mb : Membuff}

/-- The number of bytes held, from the positions. -/
lemma length_held :
    mb.held.length =
      if mb.tail ≤ mb.head then mb.head - mb.tail else mb.size - mb.tail + mb.head := by
  unfold held
  split <;> simp

lemma clamp_le (len : Nat) (maxlen : Int) : clamp len maxlen ≤ len := by
  unfold clamp
  split <;> omega

lemma clamp_natCast {len n : Nat} : clamp len (n : Int) = min n len := by
  unfold clamp
  split <;> omega

/-- Two reads limited one after the other take what one limited read of both takes. -/
lemma clamp_add {p q : Nat} {maxlen : Int} (h : p ≤ q) :
    clamp p maxlen + clamp (if clamp p maxlen < p then p - clamp p maxlen else q - p)
      (maxlen - clamp p maxlen) = clamp q maxlen := by
  unfold clamp
  split <;> split <;> split <;> split <;> omega

/-- The length that `getraw` answers. -/
lemma getraw_length (mb : Membuff) (maxlen : Int) (update : Bool) :
    (mb.getraw maxlen update).2.1 = clamp mb.piece maxlen := by
  unfold getraw piece
  split
  · rw [if_pos (by omega)]
  · split
    · rw [if_neg (by omega)]
    · rw [if_pos (by omega), show mb.head - mb.tail = 0 from by omega]
      exact (Nat.le_zero.mp (clamp_le 0 maxlen)).symm

/-- A piece that is read comes off the front of what is held (C `membuff_getraw`). -/
lemma getraw_spec {maxlen : Int} (ok : mb.Ok) {off len : Nat} {mb' : Membuff}
    (h : mb.getraw maxlen true = (off, len, mb')) :
    mb'.Ok ∧ mb'.size = mb.size ∧ mb.held = mb.mem.read off len ++ mb'.held ∧
      mb'.mem = mb.mem ∧
      mb'.piece = if len < mb.piece then mb.piece - len else mb.held.length - mb.piece := by
  obtain ⟨hn, hh, ht⟩ := ok
  unfold getraw at h
  split at h
  · -- the bytes from tail to head
    rename_i lt
    obtain ⟨rfl, rfl, rfl⟩ := h
    have le := clamp_le (mb.head - mb.tail) maxlen
    refine ⟨⟨hn, hh, by simp; omega⟩, rfl, ?_, rfl, ?_⟩
    · simp only [held, if_pos (show mb.tail ≤ mb.head from by omega), if_true]
      rw [if_pos (by omega), ← Mem.read_add]
      congr 1
      omega
    · simp only [piece, length_held, if_true, if_pos (show mb.tail ≤ mb.head from by omega)]
      split <;> split <;> omega
  · split at h
    · -- the bytes from tail to the end; the rest starts over at the bottom
      rename_i _ lt
      obtain ⟨rfl, rfl, rfl⟩ := h
      have le := clamp_le (mb.size - mb.tail) maxlen
      by_cases e : mb.tail + clamp (mb.size - mb.tail) maxlen = mb.size
      · simp only [if_true, if_pos e]
        refine ⟨⟨hn, hh, by simp; omega⟩, trivial, ?_, trivial, ?_⟩
        · simp only [held, if_neg (show ¬ mb.tail ≤ mb.head from by omega), Nat.zero_le, if_true,
            Nat.sub_zero]
          rw [show clamp (mb.size - mb.tail) maxlen = mb.size - mb.tail from by omega]
        · simp only [piece, length_held, Nat.zero_le, if_true]
          split <;> split <;> omega
      · simp only [if_true, if_neg e]
        refine ⟨⟨hn, hh, by simp; omega⟩, trivial, ?_, trivial, ?_⟩
        · simp only [held, if_neg (show ¬ mb.tail ≤ mb.head from by omega)]
          rw [if_neg (by omega), ← List.append_assoc, ← Mem.read_add]
          congr 2
          omega
        · simp only [piece, length_held]
          split <;> split <;> split <;> omega
    · -- nothing held
      obtain ⟨rfl, rfl, rfl⟩ := h
      refine ⟨⟨hn, hh, ht⟩, rfl, by simp, rfl, ?_⟩
      simp only [piece, length_held]
      split <;> split <;> omega

/-- A piece is part of what is held. -/
lemma piece_le (mb : Membuff) : mb.piece ≤ mb.held.length := by
  rw [length_held]
  unfold piece
  split <;> omega

/-- There is no piece only when nothing is held. -/
lemma Ok.held_eq_nil (ok : mb.Ok) (h : mb.piece = 0) : mb.held = [] := by
  have := ok.tail
  apply List.eq_nil_of_length_eq_zero
  rw [length_held]
  unfold piece at h
  split at h <;> split <;> omega

/-- `get` takes up to `maxlen` bytes off the front (C `membuff_get`). -/
lemma get_spec (ok : mb.Ok) (maxlen : Int) :
    (mb.get maxlen).2.Ok ∧ (mb.get maxlen).2.size = mb.size ∧
      (mb.get maxlen).1 = mb.held.take (clamp mb.held.length maxlen) ∧
      (mb.get maxlen).2.held = mb.held.drop (clamp mb.held.length maxlen) := by
  obtain ⟨off1, n1, mb1, e1⟩ : ∃ off n mb1, mb.getraw maxlen true = (off, n, mb1) :=
    ⟨_, _, _, rfl⟩
  obtain ⟨ok1, sz1, h1, m1, p1⟩ := getraw_spec ok e1
  have l1 : n1 = clamp mb.piece maxlen := by
    rw [← getraw_length mb maxlen true, e1]
  obtain ⟨off2, n2, mb2, e2⟩ : ∃ off n mb2, mb1.getraw (maxlen - n1) true = (off, n, mb2) :=
    ⟨_, _, _, rfl⟩
  obtain ⟨ok2, sz2, h2, m2, p2⟩ := getraw_spec ok1 e2
  have l2 : n2 = clamp mb1.piece (maxlen - n1) := by
    rw [← getraw_length mb1 _ true, e2]
  have total : n1 + n2 = clamp mb.held.length maxlen := by
    rw [l2, p1, l1]
    exact clamp_add (piece_le mb)
  by_cases z : n1 = 0
  · -- an empty first piece: either nothing is held or nothing is wanted
    have e : mb.get maxlen = (mb.mem.read off1 n1, mb1) := by
      simp only [get, getLoop, e1, if_pos z]
    have z2 : n2 = 0 := by
      have hz : mb.piece = 0 ∨ maxlen = 0 := by
        unfold clamp at l1
        split at l1 <;> omega
      obtain hz | hz := hz
      · rw [ok.held_eq_nil hz, hz] at p1
        have le := clamp_le mb1.piece (maxlen - n1)
        simp at p1
        omega
      · rw [l2, hz, z]
        simp only [clamp]
        split <;> omega
    rw [e, ← total, z, z2]
    rw [z] at h1
    exact ⟨ok1, sz1, rfl, by simpa using h1.symm⟩
  · have e : mb.get maxlen = (mb.mem.read off1 n1 ++ mb.mem.read off2 n2, mb2) := by
      simp only [get, getLoop, e1, if_neg z, e2, m1]
      split <;> simp
    rw [e, ← total, h1, h2, m1]
    refine ⟨ok2, sz2.trans sz1, ?_, ?_⟩
    · rw [← List.append_assoc, List.take_left' (by simp)]
    · rw [← List.append_assoc, List.drop_left' (by simp)]

/-- `getbyte` takes the first byte (C `membuff_getbyte`). -/
lemma getbyte_spec (ok : mb.Ok) :
    mb.getbyte.2.Ok ∧ mb.getbyte.2.size = mb.size ∧
      ((mb.held = [] ∧ mb.getbyte.1 = -1 ∧ mb.getbyte.2.held = []) ∨
        ∃ c, mb.held = c :: mb.getbyte.2.held ∧ mb.getbyte.1 = c.toNat) := by
  obtain ⟨off, n, mb1, e⟩ : ∃ off n mb1, mb.getraw 1 true = (off, n, mb1) := ⟨_, _, _, rfl⟩
  obtain ⟨ok1, sz, h, -, p⟩ := getraw_spec ok e
  have l : n = min 1 mb.piece := by
    rw [← clamp_natCast, show ((1 : Nat) : Int) = 1 from rfl, ← getraw_length mb 1 true, e]
  have eg : mb.getbyte = (if n ≠ 1 then (-1 : Int) else (mb.mem off).toNat, mb1) := by
    simp only [getbyte, e]
  rw [eg]
  refine ⟨ok1, sz, ?_⟩
  obtain rfl | rfl : n = 0 ∨ n = 1 := by omega
  · have z : mb.piece = 0 := by omega
    have e0 : mb.held = [] := ok.held_eq_nil z
    refine .inl ⟨e0, by simp, ?_⟩
    rw [e0] at h
    simpa using h.symm
  · exact .inr ⟨mb.mem off, by simpa [Mem.read_succ] using h, by simp⟩

/-- `peekbyte` looks at the first byte (C `membuff_peekbyte`). -/
lemma peekbyte_eq : mb.peekbyte = mb.getbyte.1 := by
  simp only [peekbyte, getbyte, getraw]
  split
  · rfl
  · split <;> rfl

/-- The length that `putraw` answers when asked for `n` bytes. -/
lemma putraw_length (ok : mb.Ok) (n : Nat) (update : Bool) :
    (mb.putraw n update).2.1 = min n mb.room := by
  obtain ⟨hn, hh, ht⟩ := ok
  unfold putraw room
  simp only [hn, clamp_natCast, Bool.false_eq_true, if_false]
  split
  · split
    · rename_i h
      rw [if_neg h.2]
      have := h.1
      simp only
      omega
    · rename_i h
      simp only
      by_cases z : mb.tail = 0
      · rw [if_pos z]
      · rw [if_neg z]
        simp only [z, ne_eq, not_false_eq_true, and_true] at h
        omega
  · rfl

/-- A piece that is written goes to the end of what is held (C `membuff_putrawflex`). -/
lemma putraw_spec (ok : mb.Ok) (buff : List UInt8) {off len : Nat} {mb' : Membuff}
    (h : mb.putraw buff.length true = (off, len, mb')) :
    let mb1 := { mb' with mem := mb'.mem.write off (buff.take len) }
    mb1.Ok ∧ mb1.size = mb.size ∧ mb1.held = mb.held ++ buff.take len ∧
      (buff.length ≤ len ∨ mb1.room = mb.size - 1 - mb.held.length - mb.room) := by
  have hl : len = min buff.length mb.room := by
    rw [← putraw_length ok buff.length true, h]
  have ln : (buff.take len).length = len := by
    rw [List.length_take]
    omega
  obtain ⟨hn, hh, ht⟩ := ok
  unfold putraw at h
  rw [if_neg (by simp [hn])] at h
  simp only [clamp_natCast, if_true] at h
  split at h
  · rename_i le
    split at h
    · -- the last slot is used too and the head wraps around
      rename_i hw
      simp only [Prod.mk.injEq] at h
      obtain ⟨rfl, -, rfl⟩ := h
      have e : len = mb.size - mb.head := by
        simp only [room, if_pos le, if_neg hw.2] at hl
        have := hw.1
        omega
      refine ⟨⟨hn, by simp; omega, ht⟩, rfl, ?_, .inr ?_⟩
      · simp only [held, if_pos le, if_neg (show ¬ mb.tail ≤ 0 from by omega), Mem.read_zero,
          List.append_nil]
        rw [show mb.size - mb.tail = (mb.head - mb.tail) + (buff.take len).length from by omega,
          Mem.read_add, Mem.read_write_disjoint (by omega),
          show mb.tail + (mb.head - mb.tail) = mb.head from by omega, Mem.read_write_self rfl]
      · simp only [room, length_held, if_pos le, if_neg (show ¬ mb.tail ≤ 0 from by omega)]
        split <;> omega
    · -- the head stays below the end
      rename_i hw
      simp only [Prod.mk.injEq] at h
      obtain ⟨rfl, e, rfl⟩ := h
      rw [e]
      refine ⟨⟨hn, by simp; omega, ht⟩, rfl, ?_, ?_⟩
      · simp only [held, if_pos le, if_pos (show mb.tail ≤ mb.head + len from by omega)]
        rw [show mb.head + len - mb.tail = (mb.head - mb.tail) + (buff.take len).length from by omega,
          Mem.read_add, Mem.read_write_disjoint (by omega),
          show mb.tail + (mb.head - mb.tail) = mb.head from by omega, Mem.read_write_self rfl]
      · simp only [room, length_held, if_pos le, if_pos (show mb.tail ≤ mb.head + len from by omega)]
        simp only [room, if_pos le] at hl
        split at hl <;> split <;> omega
  · -- the head stays below the tail
    rename_i lt
    simp only [Prod.mk.injEq] at h
    obtain ⟨rfl, e, rfl⟩ := h
    rw [e]
    simp only [room, if_neg lt] at hl
    refine ⟨⟨hn, by simp; omega, ht⟩, rfl, ?_, ?_⟩
    · simp only [held, if_neg lt, if_neg (show ¬ mb.tail ≤ mb.head + len from by omega)]
      rw [Mem.read_write_disjoint (by omega), List.append_assoc]
      rw [Mem.read_add, Mem.read_write_disjoint (by omega), Nat.zero_add, Mem.read_write_self ln]
    · simp only [room, length_held, if_neg lt,
        if_neg (show ¬ mb.tail ≤ mb.head + len from by omega)]
      omega

/-- The first piece fits into the free space. -/
lemma Ok.room_le (ok : mb.Ok) : mb.room ≤ mb.size - 1 - mb.held.length := by
  obtain ⟨-, hh, ht⟩ := ok
  rw [length_held]
  unfold room
  split
  · split <;> omega
  · omega

/-- `put` appends as many bytes as are free (C `membuff_put`). -/
lemma put_spec (ok : mb.Ok) (buff : List UInt8) :
    (mb.put buff).2.Ok ∧ (mb.put buff).2.size = mb.size ∧
      (mb.put buff).1 = min buff.length (mb.size - 1 - mb.held.length) ∧
      (mb.put buff).2.held = mb.held ++ buff.take (mb.put buff).1 := by
  obtain ⟨off1, n1, mb1, e1⟩ : ∃ off n mb1, mb.putraw buff.length true = (off, n, mb1) :=
    ⟨_, _, _, rfl⟩
  obtain ⟨ok1, sz1, h1, r1⟩ := putraw_spec ok buff e1
  have l1 : n1 = min buff.length mb.room := by
    rw [← putraw_length ok buff.length true, e1]
  generalize em : ({ mb1 with mem := mb1.mem.write off1 (buff.take n1) } : Membuff) = m1
    at ok1 sz1 h1 r1
  obtain ⟨off2, n2, mb2, e2⟩ :
      ∃ off n mb2, m1.putraw (buff.drop n1).length true = (off, n, mb2) := ⟨_, _, _, rfl⟩
  obtain ⟨ok2, sz2, h2, -⟩ := putraw_spec ok1 (buff.drop n1) e2
  have l2 : n2 = min (buff.length - n1) m1.room := by
    rw [← List.length_drop, ← putraw_length ok1 (buff.drop n1).length true, e2]
  have e : mb.put buff = (n1 + n2,
      { mb2 with mem := mb2.mem.write off2 ((buff.drop n1).take n2) }) := by
    simp only [put, putLoop, e1, em, e2, Nat.zero_add]
  have total : n1 + n2 = min buff.length (mb.size - 1 - mb.held.length) := by
    have := ok.room_le
    omega
  rw [e]
  refine ⟨ok2, sz2.trans sz1, total, ?_⟩
  rw [h2, h1, List.append_assoc, ← List.take_add]

/-- `putbyte` appends its byte when one is free (C `membuff_putbyte`). -/
lemma putbyte_spec (ok : mb.Ok) (ch : Int) :
    (mb.putbyte ch).2.Ok ∧ (mb.putbyte ch).2.size = mb.size ∧
      (mb.putbyte ch).1 = decide (mb.held.length < mb.size - 1) ∧
      (mb.putbyte ch).2.held =
        mb.held ++ if mb.held.length < mb.size - 1 then [UInt8.ofInt ch] else [] := by
  obtain ⟨off, n, mb1, e⟩ : ∃ off n mb1, mb.putraw 1 true = (off, n, mb1) := ⟨_, _, _, rfl⟩
  have spec := putraw_spec ok [UInt8.ofInt ch] e
  have l : n = min 1 mb.room := by
    rw [← putraw_length ok 1 true]
    exact congrArg (·.2.1) e.symm
  have eb : mb.putbyte ch = if n ≠ 1 then (false, mb1) else
      (true, { mb1 with mem := mb1.mem.write off [UInt8.ofInt ch] }) := by
    simp only [putbyte, e]
  have pos : mb.room = 0 ↔ ¬ mb.held.length < mb.size - 1 := by
    obtain ⟨-, hh, ht⟩ := ok
    rw [length_held]
    unfold room
    split
    · split <;> omega
    · omega
  rw [eb]
  obtain rfl | rfl : n = 0 ∨ n = 1 := by omega
  · have full : ¬ mb.held.length < mb.size - 1 := pos.mp (by omega)
    simp only [List.take_zero, Mem.write_nil] at spec
    rw [if_pos (by omega), if_neg full]
    exact ⟨spec.1, spec.2.1, (decide_eq_false full).symm, spec.2.2.1⟩
  · have free : mb.held.length < mb.size - 1 := by
      by_contra hf
      have := pos.mpr hf
      omega
    rw [if_neg (by omega), if_pos free]
    exact ⟨spec.1, spec.2.1, (decide_eq_true free).symm, spec.2.2.1⟩

/-- `makecontig` keeps what is held, whether it answers true or false (C `membuff_makecontig`). -/
lemma makecontig_spec (ok : mb.Ok) :
    mb.makecontig.2.Ok ∧ mb.makecontig.2.size = mb.size ∧ mb.makecontig.2.held = mb.held := by
  obtain ⟨hn, hh, ht⟩ := ok
  by_cases lt : mb.head < mb.tail
  · by_cases full : mb.tail ≤ mb.head + (mb.size - mb.tail)
    · have e : mb.makecontig = (false, mb) := by
        simp only [makecontig, if_pos lt, if_pos full]
      rw [e]
      exact ⟨⟨hn, hh, ht⟩, rfl, rfl⟩
    · -- first the bottom part moves up, then the top part moves in front of it
      simp only [makecontig, if_pos lt, if_neg full]
      refine ⟨⟨hn, by simp; omega, by simp; omega⟩, trivial, ?_⟩
      simp only [held, Nat.zero_le, if_true, Nat.sub_zero,
        if_neg (show ¬ mb.tail ≤ mb.head from by omega)]
      rw [Mem.memcpy_eq_memmove (Nat.zero_le _), Mem.read_add, Mem.read_memmove_self,
        Mem.read_memmove_disjoint (by omega), Mem.read_memmove_disjoint (by omega), Nat.zero_add,
        Mem.read_memmove_self]
  · simp only [makecontig, if_neg lt]
    refine ⟨⟨hn, by simp; omega, by simp; omega⟩, trivial, ?_⟩
    simp only [held, Nat.zero_le, if_true, Nat.sub_zero, if_pos (show mb.tail ≤ mb.head from by omega)]
    rw [Mem.memcpy_eq_memmove (Nat.zero_le _), Mem.read_memmove_self]

/-- A larger allocation holds the same bytes. -/
lemma enlarge_spec (ok : mb.Ok) {size : Nat} (junk : Mem) (h : mb.size < size) :
    (mb.enlarge size junk).Ok ∧ (mb.enlarge size junk).size = size ∧
      (mb.enlarge size junk).held = mb.held := by
  obtain ⟨hn, hh, ht⟩ := ok
  unfold enlarge
  by_cases lt : mb.head < mb.tail
  · simp only [if_pos lt]
    refine ⟨⟨hn, by simp; omega, by simp; omega⟩, trivial, ?_⟩
    simp only [held, if_neg (show ¬ mb.tail ≤ mb.head from by omega),
      if_neg (show ¬ mb.tail + (size - mb.size) ≤ mb.head from by omega)]
    rw [show size - (mb.tail + (size - mb.size)) = mb.size - mb.tail from by omega,
      Mem.read_memmove_self, Mem.read_memmove_disjoint (by omega),
      Mem.read_realloc (by omega), Mem.read_realloc (by omega)]
  · simp only [if_neg lt]
    refine ⟨⟨hn, by simp; omega, by simp; omega⟩, trivial, ?_⟩
    simp only [held, if_pos (show mb.tail ≤ mb.head from by omega)]
    exact Mem.read_realloc (by omega)

/-- `extendBy` keeps what is held and never shrinks the buffer; only a call that answers `ok`
changes it at all (C `membuff_extend_by`). -/
lemma extendBy_spec (ok : mb.Ok) {grow : Nat} {max : Int} {realloc : Option Mem} {r : ExtendRes}
    {mb' : Membuff} (h : mb.extendBy grow max realloc = some (r, mb')) :
    mb'.Ok ∧ mb.size ≤ mb'.size ∧ mb'.held = mb.held ∧ (r ≠ .ok → mb' = mb) := by
  obtain ⟨grown, -, e⟩ := Option.map_eq_some_iff.mp h
  generalize (if max ≠ -1 then min (grown : Int) max else grown) = size at e
  by_cases big : size - mb.size ≤ 0
  · simp only [if_pos big, Prod.mk.injEq] at e
    obtain ⟨rfl, rfl⟩ := e
    exact ⟨ok, Nat.le_refl _, rfl, fun _ => rfl⟩
  · cases realloc with
    | none =>
      simp only [if_neg big, Prod.mk.injEq] at e
      obtain ⟨rfl, rfl⟩ := e
      exact ⟨ok, Nat.le_refl _, rfl, fun _ => rfl⟩
    | some junk =>
      simp only [if_neg big, Prod.mk.injEq] at e
      obtain ⟨rfl, rfl⟩ := e
      have lt : mb.size < size.toNat := by omega
      obtain ⟨ok', sz, hd⟩ := enlarge_spec ok junk lt
      exact ⟨ok', by omega, hd, fun ne => absurd rfl ne⟩

end Imx.Membuff
