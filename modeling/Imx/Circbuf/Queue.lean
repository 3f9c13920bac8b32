import Imx.Base.Mem
import Imx.Base.Ring

/-!
# Circular buffers

Model of `lib/circbuf.c`. A pointer is its offset from `data`, and `end` is `totalsize`. `held` reads
what a buffer holds from `top` on, and the operations on the buffer are the ones of a queue that
forgets its oldest bytes.
-/

namespace Imx
open Imx.Base

structure Circbuf where
  /-- Current number of bytes held. -/
  size : Nat
  /-- Number of bytes allocated. -/
  totalsize : Nat
  /-- Current buffer start. -/
  top : Nat
  /-- Space for the next element. -/
  tail : Nat
  data : Mem

namespace Circbuf

/-- `data` is what `malloc` gave. -/
def bufInit (data : Mem) (size : Nat) : Circbuf where
  size := 0
  totalsize := size
  top := 0
  tail := 0
  data := data

/-- `p++`, with the bounds check. -/
def advance (buf : Circbuf) (p : Nat) : Nat := if p + 1 = buf.totalsize then 0 else p + 1

/-- The loop of `buf_pop`: the bytes that are copied, and where it ends. -/
def popLoop (buf : Circbuf) : Nat → Nat → List UInt8 × Nat
  | 0, p => ([], p)
  | n + 1, p =>
    let (dest, p') := popLoop buf n (advance buf p)
    (buf.data p :: dest, p')

def bufPop (buf : Circbuf) (len : Nat) : List UInt8 × Circbuf :=
  -- Cap to number of bytes in buffer
  let len := if buf.size < len then buf.size else len
  let (dest, p) := popLoop buf len buf.top
  (dest, { buf with top := p, size := buf.size - len })

/-- One turn of the loop of `buf_push`, with the `p` of the loop. -/
def pushByte (s : Circbuf × Nat) (c : UInt8) : Circbuf × Nat :=
  let (buf, p) := s
  let buf := { buf with data := buf.data.write p [c] }
  let p := advance buf p
  -- Make sure pushing too much data just replaces old data
  if buf.size < buf.totalsize then
    ({ buf with size := buf.size + 1 }, p)
  else
    ({ buf with top := advance buf buf.top }, p)

def bufPush (buf : Circbuf) (src : List UInt8) : Circbuf :=
  let (buf, p) := src.foldl pushByte (buf, buf.tail)
  { buf with tail := p }

/-! ## What is held -/

/-- The bytes of a ring of `n` slots from one on. -/
def slots (data : Mem) (n top size : Nat) : List UInt8 :=
  (List.range size).map fun i => data ((top + i) % n)

/-- The bytes held, the oldest first. -/
def held (buf : Circbuf) : List UInt8 := slots buf.data buf.totalsize buf.top buf.size

/-- The control block is in order, where the next byte goes to `p`. -/
structure Ok (buf : Circbuf) (p : Nat) : Prop where
  size : buf.size ≤ buf.totalsize
  top : buf.top < buf.totalsize
  tail : p = (buf.top + buf.size) % buf.totalsize

variable {buf : Circbuf} {data data' : Mem} {n p top size len : Nat} {c : UInt8}
  {src l : List UInt8}

lemma advance_eq (lt : p < buf.totalsize) : advance buf p = (p + 1) % buf.totalsize := by
  rw [advance]
  split
  case isTrue last => rw [last, Nat.mod_self]
  case isFalse => rw [Nat.mod_eq_of_lt (by omega)]

@[simp]
lemma length_slots : (slots data n top size).length = size := by
  rw [slots, List.length_map, List.length_range]

/-- The first slot is the one the bytes start in. -/
lemma slots_cons :
    slots data n top (size + 1) = data (top % n) :: slots data n ((top + 1) % n) size := by
  rw [slots, List.range_succ_eq_map, List.map_cons, List.map_map]
  refine congrArg _ (List.map_congr_left fun i _ => ?_)
  rw [Function.comp_apply, Nat.mod_add_mod, Nat.succ_eq_add_one, Nat.add_assoc, Nat.add_comm 1 i]

lemma slots_concat :
    slots data n top (size + 1) = slots data n top size ++ [data ((top + size) % n)] := by
  rw [slots, List.range_succ, List.map_append]
  rfl

/-- A write to another slot does not matter. -/
lemma slots_write (apart : ∀ i < size, (top + i) % n ≠ p) :
    slots (data.write p [c]) n top size = slots data n top size := by
  refine List.map_congr_left fun i mem => ?_
  have ne := apart i (List.mem_range.1 mem)
  obtain lt | gt := Nat.lt_or_gt_of_ne ne
  · exact Mem.write_below lt
  · exact Mem.write_above gt

lemma write_self : (data.write p [c]) p = c := by
  have here : (data.write p [c]) (p + 0) = [c][0] := Mem.write_at Nat.one_pos
  exact here

/-! ## Taking bytes -/

lemma popLoop_eq (lt : p < buf.totalsize) :
    popLoop buf len p = (slots buf.data buf.totalsize p len, (p + len) % buf.totalsize) := by
  induction len generalizing p with
  | zero =>
    rw [Nat.add_zero, Nat.mod_eq_of_lt lt]
    rfl
  | succ len ih =>
    have next : advance buf p < buf.totalsize := by
      rw [advance_eq lt]
      exact Nat.mod_lt _ (Nat.zero_lt_of_lt lt)
    rw [popLoop, ih next, advance_eq lt, slots_cons, Nat.mod_eq_of_lt lt, Nat.mod_add_mod,
      Nat.add_assoc, Nat.add_comm 1 len]

/-- What is behind some of the bytes. -/
lemma slots_add {k : Nat} : slots data n top (k + size) =
    slots data n top k ++ slots data n ((top + k) % n) size := by
  induction k generalizing top with
  | zero =>
    rw [Nat.zero_add, Nat.add_zero]
    refine List.map_congr_left fun i _ => ?_
    rw [Nat.mod_add_mod]
  | succ k ih =>
    rw [Nat.succ_add, slots_cons, ih, slots_cons, List.cons_append, Nat.mod_add_mod, Nat.add_assoc,
      Nat.add_comm 1 k]

/-- The oldest bytes are taken. -/
lemma bufPop_spec (len : Nat) (ok : Ok buf buf.tail) :
    (bufPop buf len).1 = (held buf).take len ∧
      held (bufPop buf len).2 = (held buf).drop len ∧
      Ok (bufPop buf len).2 (bufPop buf len).2.tail ∧
      (bufPop buf len).2.totalsize = buf.totalsize := by
  obtain ⟨cap, capped⟩ : ∃ cap, (if buf.size < len then buf.size else len) = cap := ⟨_, rfl⟩
  obtain ⟨rest, split⟩ : ∃ rest, buf.size = cap + rest := by
    refine Nat.exists_eq_add_of_le ?_
    rw [← capped]
    split <;> omega
  have popped : bufPop buf len = (slots buf.data buf.totalsize buf.top cap,
      { buf with top := (buf.top + cap) % buf.totalsize, size := rest }) := by
    rw [bufPop, capped]
    simp only [popLoop_eq ok.top, split, Nat.add_sub_cancel_left]
  have parts : held buf = slots buf.data buf.totalsize buf.top cap ++
      slots buf.data buf.totalsize ((buf.top + cap) % buf.totalsize) rest := by
    rw [held, split, slots_add]
  have size := ok.size
  rw [popped]
  refine ⟨?_, ?_, ⟨?_, ?_, ?_⟩, rfl⟩
  · by_cases more : buf.size < len
    case pos =>
      rw [if_pos more] at capped
      rw [List.take_of_length_le (by rw [held, length_slots]; omega), held, capped]
    case neg =>
      rw [if_neg more] at capped
      rw [parts, List.take_left' (by rw [length_slots, capped])]
  · by_cases more : buf.size < len
    case pos =>
      rw [if_pos more] at capped
      rw [List.drop_eq_nil_of_le (by rw [held, length_slots]; omega)]
      rw [← List.length_eq_zero_iff, held, length_slots]
      show rest = 0
      omega
    case neg =>
      rw [if_neg more] at capped
      rw [parts, List.drop_left' (by rw [length_slots, capped])]
      rfl
  · show rest ≤ buf.totalsize
    omega
  · exact Nat.mod_lt _ (Nat.zero_lt_of_lt ok.top)
  · show buf.tail = ((buf.top + cap) % buf.totalsize + rest) % buf.totalsize
    rw [ok.tail, split, Nat.mod_add_mod, Nat.add_assoc]

/-! ## Adding bytes -/

/-- The last `n` bytes. -/
def newest (n : Nat) (l : List UInt8) : List UInt8 := l.drop (l.length - n)

lemma newest_of_le (le : l.length ≤ n) : newest n l = l := by
  rw [newest, Nat.sub_eq_zero_of_le le, List.drop_zero]

/-- What was forgotten before does not matter. -/
lemma newest_newest : newest n (newest n l ++ src) = newest n (l ++ src) := by
  rw [newest, newest, newest, List.length_append, List.length_drop, List.length_append,
    List.drop_append, List.drop_drop, List.drop_append]
  congr 2
  · omega
  · rw [List.length_drop]
    omega

/-- A byte is added, and the oldest one forgotten where there is no room. -/
lemma pushByte_spec (ok : Ok buf p) :
    held (pushByte (buf, p) c).1 = newest buf.totalsize (held buf ++ [c]) ∧
      Ok (pushByte (buf, p) c).1 (pushByte (buf, p) c).2 ∧
      (pushByte (buf, p) c).1.totalsize = buf.totalsize := by
  have pos : 0 < buf.totalsize := Nat.zero_lt_of_lt ok.top
  have lt : p < buf.totalsize := by
    rw [ok.tail]
    exact Nat.mod_lt _ pos
  have apart {k : Nat} (low : buf.top ≤ k) (high : k < buf.top + buf.size)
      (room : buf.size < buf.totalsize) : k % buf.totalsize ≠ p := by
    rw [ok.tail]
    exact Queue.slot_ne low high (Nat.add_lt_add_left room _)
  rw [pushByte]
  by_cases room : buf.size < buf.totalsize
  case pos =>
    rw [if_pos room]
    refine ⟨?_, ⟨room, ok.top, ?_⟩, rfl⟩
    · show slots (buf.data.write p [c]) buf.totalsize buf.top (buf.size + 1) = _
      rw [slots_concat, ← ok.tail, write_self, slots_write fun i less =>
        apart (Nat.le_add_right _ _) (Nat.add_lt_add_left less _) room, newest_of_le]
      · rfl
      · rw [List.length_append, held, length_slots]
        exact room
    · show advance buf p = (buf.top + (buf.size + 1)) % buf.totalsize
      rw [advance_eq lt, ok.tail, Nat.mod_add_mod, Nat.add_assoc]
  case neg =>
    have full : buf.size = buf.totalsize := Nat.le_antisymm ok.size (Nat.le_of_not_lt room)
    have here : p = buf.top := by
      rw [ok.tail, full, Nat.add_mod_right, Nat.mod_eq_of_lt ok.top]
    obtain ⟨k, eq⟩ := Nat.exists_eq_add_of_le' pos
    rw [if_neg room]
    refine ⟨?_, ⟨ok.size, ?_, ?_⟩, rfl⟩
    · show slots (buf.data.write p [c]) buf.totalsize (advance buf buf.top) buf.size = _
      have last : ((buf.top + 1) % buf.totalsize + k) % buf.totalsize = p := by
        rw [Nat.mod_add_mod, Nat.add_assoc, Nat.add_comm 1 k, ← eq, Nat.add_mod_right, here,
          Nat.mod_eq_of_lt ok.top]
      have old : held buf =
          buf.data (buf.top % buf.totalsize) ::
            slots buf.data buf.totalsize ((buf.top + 1) % buf.totalsize) k := by
        rw [held, full.trans eq, slots_cons]
      rw [advance_eq ok.top, full.trans eq, slots_concat, last, write_self, slots_write, old, newest]
      · simp only [List.cons_append, List.length_cons, List.length_append, length_slots,
          List.length_nil, eq, Nat.zero_add, Nat.add_sub_cancel_left, List.drop_succ_cons,
          List.drop_zero]
      · intro i less same
        rw [Nat.mod_add_mod, ← last, Nat.mod_add_mod] at same
        exact Queue.slot_ne (a := buf.top + 1) (Nat.le_add_right _ _)
          (Nat.add_lt_add_left less _) (by omega) same
    · show advance buf buf.top < buf.totalsize
      rw [advance_eq ok.top]
      exact Nat.mod_lt _ pos
    · show advance buf p = (advance buf buf.top + buf.size) % buf.totalsize
      rw [here, advance_eq ok.top, full, Nat.add_mod_right, Nat.mod_mod]

lemma pushBytes_spec (src : List UInt8) (ok : Ok buf p) :
    held (src.foldl pushByte (buf, p)).1 = newest buf.totalsize (held buf ++ src) ∧
      Ok (src.foldl pushByte (buf, p)).1 (src.foldl pushByte (buf, p)).2 ∧
      (src.foldl pushByte (buf, p)).1.totalsize = buf.totalsize := by
  induction src generalizing buf p with
  | nil =>
    refine ⟨?_, ok, rfl⟩
    rw [List.append_nil, newest_of_le (by rw [held, length_slots]; exact ok.size)]
    rfl
  | cons c src ih =>
    obtain ⟨one, ok', same⟩ := pushByte_spec (c := c) ok
    obtain ⟨rest, ok'', same'⟩ := ih ok'
    refine ⟨?_, ok'', same'.trans same⟩
    rw [List.foldl_cons, rest, one, same, newest_newest, List.append_assoc]
    rfl

lemma bufPush_spec (src : List UInt8) (ok : Ok buf buf.tail) :
    held (bufPush buf src) = newest buf.totalsize (held buf ++ src) ∧
      Ok (bufPush buf src) (bufPush buf src).tail ∧
      (bufPush buf src).totalsize = buf.totalsize := by
  obtain ⟨all, ok', same⟩ := pushBytes_spec src ok
  exact ⟨all, ⟨ok'.size, ok'.top, ok'.tail⟩, same⟩

/-! ## Runs -/

inductive Call where
  | push (src : List UInt8)
  | pop (len : Nat)

/-- A call, with the bytes it hands out. -/
def Call.run (buf : Circbuf) : Call → List UInt8 × Circbuf
  | push src => ([], bufPush buf src)
  | pop len => bufPop buf len

/-- What the calls of a run hand out, and the buffer at its end. -/
def run (buf : Circbuf) : List Call → List (List UInt8) × Circbuf
  | [] => ([], buf)
  | call :: calls =>
    let (out, buf) := call.run buf
    let (outs, buf) := run buf calls
    (out :: outs, buf)

/-- The call on a queue that holds no more than `n` bytes. -/
def Call.queue (n : Nat) (l : List UInt8) : Call → List UInt8 × List UInt8
  | push src => ([], newest n (l ++ src))
  | pop len => (l.take len, l.drop len)

def queue (n : Nat) (l : List UInt8) : List Call → List (List UInt8) × List UInt8
  | [] => ([], l)
  | call :: calls =>
    let (out, l) := call.queue n l
    let (outs, l) := queue n l calls
    (out :: outs, l)

/-- The buffer is the queue. -/
structure Is (n : Nat) (buf : Circbuf) (l : List UInt8) : Prop where
  ok : Ok buf buf.tail
  totalsize : buf.totalsize = n
  held : held buf = l

lemma Is.call (is : Is n buf l) (call : Call) :
    (call.run buf).1 = (call.queue n l).1 ∧ Is n (call.run buf).2 (call.queue n l).2 := by
  obtain ⟨ok, rfl, rfl⟩ := is
  cases call with
  | push src =>
    obtain ⟨all, ok', same⟩ := bufPush_spec src ok
    exact ⟨rfl, ok', same, all⟩
  | pop len =>
    obtain ⟨out, rest, ok', same⟩ := bufPop_spec len ok
    exact ⟨out, ok', same, rest⟩

lemma Is.run (is : Is n buf l) (calls : List Call) :
    (run buf calls).1 = (queue n l calls).1 ∧ Is n (run buf calls).2 (queue n l calls).2 := by
  induction calls generalizing buf l with
  | nil => exact ⟨rfl, is⟩
  | cons call calls ih =>
    obtain ⟨out, next⟩ := is.call call
    obtain ⟨outs, last⟩ := ih next
    refine ⟨?_, last⟩
    rw [Circbuf.run, queue]
    simp only [out, outs]

/-- A buffer hands out what the queue does, and `size` is the number of bytes in it. -/
theorem circbuf_queue (data : Mem) {totalsize : Nat} (pos : 0 < totalsize) (calls : List Call) :
    (run (bufInit data totalsize) calls).1 = (queue totalsize [] calls).1 ∧
      (run (bufInit data totalsize) calls).2.size = (queue totalsize [] calls).2.length ∧
      (queue totalsize [] calls).2.length ≤ totalsize := by
  have start : Is totalsize (bufInit data totalsize) [] :=
    ⟨⟨Nat.zero_le _, pos, (Nat.zero_mod _).symm⟩, rfl, rfl⟩
  obtain ⟨outs, ok, same, bytes⟩ := start.run calls
  rw [← bytes, held, length_slots]
  exact ⟨outs, rfl, Nat.le_trans ok.size (Nat.le_of_eq same)⟩

/-- A buffer of three bytes that is written around. -/
theorem circbuf_queue_around :
    (run (bufInit Mem.zero 3) [.push [1, 2], .pop 1, .push [3, 4, 5], .pop 9]).1 =
      [[], [1], [], [3, 4, 5]] ∧
    (run (bufInit Mem.zero 3) [.push [1, 2], .pop 1, .push [3, 4, 5], .pop 9]).2.size = 0 := by
  obtain ⟨outs, size, -⟩ := @circbuf_queue Mem.zero 3 (by decide)
    [.push [1, 2], .pop 1, .push [3, 4, 5], .pop 9]
  exact ⟨outs, size⟩

end Circbuf

end Imx
