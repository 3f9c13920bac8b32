import Imx.Base.Run
import Imx.Membuff.Ring

/-!
# Memory buffers are byte queues

The queue a memory buffer stands for and the proof that every sequence of operations behaves like
it. `Fifo` is the queue with its books: what it accepted and what was obtained from it since it was
last purged. `Fifo.Step` says what each operation answers and does to the queue; `Membuff.step`
runs the operation of `lib/membuff.c`. `step_refines` is the simulation of one step and
`Membuff.run_refines` that of a whole run.
-/

namespace Imx

/-- A bounded byte queue and its books: `accepted` is everything taken in since the last purge,
`obtained` everything handed out since then. -/
structure Fifo where
  cap : Nat
  held : List UInt8
  accepted : List UInt8
  obtained : List UInt8

/-- The empty queue. -/
def Fifo.empty (cap : Nat) : Fifo :=
  { cap, held := [], accepted := [], obtained := [] }

/-- Take `bs` in. -/
def Fifo.enter (f : Fifo) (bs : List UInt8) : Fifo :=
  { f with held := f.held ++ bs, accepted := f.accepted ++ bs }

/-- Hand the first `n` bytes out. -/
def Fifo.leave (f : Fifo) (n : Nat) : Fifo :=
  { f with held := f.held.drop n, obtained := f.obtained ++ f.held.take n }

/-- The length of the first line among the first `n` bytes of `q`, its end included: a line ends
with a newline or with a byte below `minch`. -/
def lineLength (minch : Int) : Nat → List UInt8 → Option Nat
  | 0, _ => none
  | _, [] => none
  | n + 1, c :: q =>
    if c = 10 ∨ c.toNat < minch then some 1 else (lineLength minch n q).map (· + 1)

namespace Membuff
open Imx.Base

/-- The operations on a buffer, with their arguments. -/
inductive Op where
  | put (buff : List UInt8)
  | putbyte (ch : Int)
  | get (maxlen : Int)
  | getbyte
  | peekbyte
  | readline (maxlen minch : Int)
  | makecontig
  | extendBy (grow : Nat) (max : Int) (realloc : Option Mem)
  | purge

/-- What an operation answers to its caller. -/
inductive Res where
  | count (n : Nat)
  | stored (b : Bool)
  | bytes (bs : List UInt8)
  | byte (v : Int)
  | line (len : Nat) (str : List UInt8)
  | contig (b : Bool)
  | extended (r : ExtendRes)
  | purged
  deriving DecidableEq

/-- Run one operation on a buffer; `none` when its `int` arithmetic overflows. -/
def exec (mb : Membuff) : Op → Option (Res × Membuff)
  | .put buff => some (.count (mb.put buff).1, (mb.put buff).2)
  | .putbyte ch => some (.stored (mb.putbyte ch).1, (mb.putbyte ch).2)
  | .get maxlen => some (.bytes (mb.get maxlen).1, (mb.get maxlen).2)
  | .getbyte => some (.byte mb.getbyte.1, mb.getbyte.2)
  | .peekbyte => some (.byte mb.peekbyte, mb)
  | .readline maxlen minch =>
    let r := mb.readline maxlen minch
    some (.line r.1 r.2.1, r.2.2)
  | .makecontig => some (.contig mb.makecontig.1, mb.makecontig.2)
  | .extendBy grow max realloc =>
    (mb.extendBy grow max realloc).map fun r => (.extended r.1, r.2)
  | .purge => some (.purged, mb.purge)

/-- Run a list of operations: each with its answer, and the buffer at the end. -/
def run (mb : Membuff) : List Op → Option (List (Op × Res) × Membuff)
  | [] => some ([], mb)
  | op :: ops => do
    let (r, mb) ← mb.exec op
    let (tr, mb) ← mb.run ops
    return ((op, r) :: tr, mb)

/-- The buffer after one operation, unchanged by one that overflows. -/
def step (mb : Membuff) (op : Op) : Membuff :=
  ((mb.exec op).map (·.2)).getD mb

/-- The `int` arithmetic of the operation stays in range: only the doubling loop of `extendBy` can
leave it, when the new size would not be below `2 ^ 31`. -/
def InRange (mb : Membuff) : Op → Prop
  | .extendBy grow _ _ => (mb.grownSize grow).isSome
  | _ => True

end Membuff

/-- What an operation on the queue answers and does. `makecontig` may answer either way; `extendBy`
may make the queue larger when it answers `ok`. -/
inductive Fifo.Step (f : Fifo) : Membuff.Op → Membuff.Res → Fifo → Prop where
  | put {buff n} :
    n = min buff.length (f.cap - f.held.length) →
    Step f (.put buff) (.count n) (f.enter (buff.take n))
  | putbyte {ch} :
    f.held.length < f.cap →
    Step f (.putbyte ch) (.stored true) (f.enter [UInt8.ofInt ch])
  | putbyteFull {ch} :
    f.cap ≤ f.held.length →
    Step f (.putbyte ch) (.stored false) f
  | get {maxlen n} :
    n = Membuff.clamp f.held.length maxlen →
    Step f (.get maxlen) (.bytes (f.held.take n)) (f.leave n)
  | getbyte {c q} :
    f.held = c :: q →
    Step f .getbyte (.byte c.toNat) (f.leave 1)
  | getbyteEmpty :
    f.held = [] →
    Step f .getbyte (.byte (-1)) f
  | peekbyte {c q} :
    f.held = c :: q →
    Step f .peekbyte (.byte c.toNat) f
  | peekbyteEmpty :
    f.held = [] →
    Step f .peekbyte (.byte (-1)) f
  | readline {maxlen minch n} :
    lineLength minch (maxlen - 1).toNat f.held = some n →
    Step f (.readline maxlen minch) (.line n (f.held.take (n - 1))) (f.leave n)
  | readlineNone {maxlen minch} :
    lineLength minch (maxlen - 1).toNat f.held = none →
    Step f (.readline maxlen minch) (.line 0 []) f
  | makecontig {b} :
    Step f .makecontig (.contig b) f
  | extendBy {grow max realloc r cap} :
    f.cap ≤ cap →
    (r ≠ .ok → cap = f.cap) →
    Step f (.extendBy grow max realloc) (.extended r) { f with cap }
  | purge :
    Step f .purge .purged (Fifo.empty f.cap)

/-- A run of operations on the queue with the answers it gives. -/
inductive Fifo.Run : Fifo → List (Membuff.Op × Membuff.Res) → Fifo → Prop where
  | nil {f} :
    Run f [] f
  | cons {f f1 f2 op r tr} :
    Fifo.Step f op r f1 →
    Run f1 tr f2 →
    Run f ((op, r) :: tr) f2

namespace Membuff
open Imx.Base

variable {mb : Membuff} {minch : Int}

/-- `q` is what is held from position `s` on. -/
def From (mb : Membuff) (s : Nat) (q : List UInt8) : Prop :=
  if mb.tail ≤ mb.head then
    s ≤ mb.head ∧ q = mb.mem.read s (mb.head - s)
  else
    (mb.tail ≤ s ∧ s ≤ mb.size ∧ q = mb.mem.read s (mb.size - s) ++ mb.mem.read 0 mb.head) ∨
      (s ≤ mb.head ∧ q = mb.mem.read s (mb.head - s))

/-- Moving the tail to a later position leaves what is held from there. -/
lemma From.advance {s q} (fr : mb.From s q) (ok : mb.Ok) :
    let mb' := { mb with tail := if s = mb.size then 0 else s }
    mb'.Ok ∧ mb'.held = q := by
  obtain ⟨hn, hh, ht⟩ := ok
  unfold From at fr
  split at fr
  · obtain ⟨le, rfl⟩ := fr
    simp only [if_neg (show ¬ s = mb.size from by omega)]
    exact ⟨⟨hn, hh, by simp; omega⟩, by simp only [held, if_pos le]⟩
  · rename_i lt
    obtain ⟨ts, le, rfl⟩ | ⟨le, rfl⟩ := fr
    · by_cases e : s = mb.size
      · subst e
        simp only [if_true, Nat.sub_self, Mem.read_zero, List.nil_append]
        exact ⟨⟨hn, hh, by simp; omega⟩, by simp [held]⟩
      · simp only [if_neg e]
        exact ⟨⟨hn, hh, by simp; omega⟩,
          by simp only [held, if_neg (show ¬ s ≤ mb.head from by omega)]⟩
    · simp only [if_neg (show ¬ s = mb.size from by omega)]
      exact ⟨⟨hn, hh, by simp; omega⟩, by simp only [held, if_pos le]⟩

/-- A line has at least one byte and lies within what was scanned. -/
lemma lineLength_bounds {n k : Nat} {q : List UInt8} (h : lineLength minch n q = some k) :
    0 < k ∧ k ≤ q.length := by
  induction n generalizing q k with
  | zero => simp [lineLength] at h
  | succ n ih =>
    cases q with
    | nil => simp [lineLength] at h
    | cons c q =>
      rw [lineLength] at h
      rw [List.length_cons]
      split at h
      · obtain rfl := Option.some.inj h
        omega
      · obtain ⟨j, hj, rfl⟩ := Option.map_eq_some_iff.mp h
        have := (ih hj).2
        omega

/-- Passing over a byte that does not end the line. -/
lemma lineLength_cons_map {n : Nat} {c : UInt8} {q str : List UInt8} {pos : Nat → Nat}
    (t : ¬ (c = 10 ∨ c.toNat < minch)) :
    ((lineLength minch (n + 1) (c :: q)).map fun k => (str ++ (c :: q).take (k - 1), pos k)) =
      (lineLength minch n q).map fun k => (str ++ [c] ++ q.take (k - 1), pos (k + 1)) := by
  rw [lineLength, if_neg t, Option.map_map]
  cases h : lineLength minch n q with
  | none => rfl
  | some k =>
    obtain ⟨pos', -⟩ := lineLength_bounds h
    obtain ⟨j, rfl⟩ : ∃ j, k = j + 1 := ⟨k - 1, by omega⟩
    simp

/-- A scan that comes to the bottom part for a second time finds nothing there. -/
lemma readlineLoop_again {n s : Nat} {str : List UInt8} (le : s ≤ mb.head)
    (no : ∀ i, i < mb.head → ¬ (mb.mem i = 10 ∨ (mb.mem i).toNat < minch)) :
    mb.readlineLoop minch s mb.head str n = none := by
  induction n generalizing s str with
  | zero => rfl
  | succ n ih =>
    unfold readlineLoop
    split
    · rename_i h
      simp only [if_neg (no s h)]
      split
      · exact ih (Nat.zero_le _)
      · exact ih (by omega)
    · rfl

/-- Scanning one contiguous part up to `head`. In the wrapped layout the bytes already passed are
kept in mind, since the loop goes over them again when the line does not end. -/
lemma readlineLoop_part {n s : Nat} {str : List UInt8} (le : s ≤ mb.head)
    (no : mb.head < mb.tail → ∀ i, i < s → ¬ (mb.mem i = 10 ∨ (mb.mem i).toNat < minch)) :
    mb.readlineLoop minch s mb.head str n =
      (lineLength minch n (mb.mem.read s (mb.head - s))).map
        fun k => (str ++ (mb.mem.read s (mb.head - s)).take (k - 1), s + k) := by
  induction n generalizing s str with
  | zero => rfl
  | succ n ih =>
    unfold readlineLoop
    by_cases h : s < mb.head
    · rw [if_pos h, show mb.head - s = mb.head - (s + 1) + 1 from by omega, Mem.read_succ]
      by_cases t : mb.mem s = 10 ∨ (mb.mem s).toNat < minch
      · simp [lineLength, if_pos t]
      · have no' : mb.head < mb.tail →
            ∀ i, i < s + 1 → ¬ (mb.mem i = 10 ∨ (mb.mem i).toNat < minch) := by
          intro lt i hi
          obtain hi | rfl : i < s ∨ i = s := by omega
          · exact no lt i hi
          · exact t
        rw [lineLength_cons_map t]
        simp only [if_neg t]
        split
        · -- the end of the bottom part: the loop starts over at position 0
          rename_i w
          rw [w.1, Nat.sub_self, readlineLoop_again (Nat.zero_le _) (w.1 ▸ no' w.2)]
          cases n <;> rfl
        · rw [ih h no']
          simp only [show ∀ k, s + 1 + k = s + (k + 1) from fun k => by omega]
    · rw [if_neg h, show mb.head - s = 0 from by omega]
      rfl

/-- Scanning the top part and then the bottom part. -/
lemma readlineLoop_top {n s : Nat} {str : List UInt8} (lt : mb.head < mb.tail) (hs : s < mb.size) :
    mb.readlineLoop minch s mb.size str n =
      (lineLength minch n (mb.mem.read s (mb.size - s) ++ mb.mem.read 0 mb.head)).map
        fun k => (str ++ (mb.mem.read s (mb.size - s) ++ mb.mem.read 0 mb.head).take (k - 1),
          if s + k ≤ mb.size then s + k else s + k - mb.size) := by
  induction n generalizing s str with
  | zero => rfl
  | succ n ih =>
    unfold readlineLoop
    rw [if_pos hs, show mb.size - s = mb.size - (s + 1) + 1 from by omega, Mem.read_succ,
      List.cons_append]
    by_cases t : mb.mem s = 10 ∨ (mb.mem s).toNat < minch
    · have le : s + 1 ≤ mb.size := hs
      simp only [lineLength, if_pos t, Option.map_some, if_pos le, Nat.sub_self, List.take_zero,
        List.append_nil]
    · rw [lineLength_cons_map t]
      simp only [if_neg t]
      by_cases e : s + 1 = mb.size
      · rw [if_pos ⟨e, lt⟩, readlineLoop_part (Nat.zero_le _) (by omega)]
        simp only [e, Nat.sub_self, Mem.read_zero, List.nil_append, Nat.sub_zero]
        cases h : lineLength minch n (mb.mem.read 0 mb.head) with
        | none => rfl
        | some k =>
          have := (lineLength_bounds h).1
          simp only [Option.map_some, if_neg (show ¬ s + (k + 1) ≤ mb.size from by omega)]
          congr 2
          omega
      · rw [if_neg (fun w => e w.1), ih (by omega)]
        simp only [show ∀ k, s + 1 + k = s + (k + 1) from fun k => by omega]

/-- `readline` takes the first line (C `membuff_readline`). -/
lemma readline_spec (ok : mb.Ok) (maxlen minch : Int) :
    (lineLength minch (maxlen - 1).toNat mb.held = none ∧
        mb.readline maxlen minch = (0, [], mb)) ∨
      ∃ n mb', lineLength minch (maxlen - 1).toNat mb.held = some n ∧
        mb.readline maxlen minch = (n, mb.held.take (n - 1), mb') ∧
        mb'.Ok ∧ mb'.size = mb.size ∧ mb'.held = mb.held.drop n := by
  have loop : ∃ pos : Nat → Nat,
      mb.readlineLoop minch mb.tail (if mb.tail ≤ mb.head then mb.head else mb.size) []
          (maxlen - 1).toNat =
        (lineLength minch (maxlen - 1).toNat mb.held).map
          (fun k => (mb.held.take (k - 1), pos k)) ∧
      ∀ k, k ≤ mb.held.length → mb.From (pos k) (mb.held.drop k) := by
    by_cases le : mb.tail ≤ mb.head
    · refine ⟨fun k => mb.tail + k, ?_, ?_⟩
      · rw [if_pos le, readlineLoop_part le (by omega)]
        simp only [held, if_pos le, List.nil_append]
      · intro k hk
        rw [length_held, if_pos le] at hk
        simp only [From, held, if_pos le, Mem.read_drop]
        exact ⟨by omega, by congr 1; omega⟩
    · refine ⟨fun k => if mb.tail + k ≤ mb.size then mb.tail + k else mb.tail + k - mb.size, ?_, ?_⟩
      · rw [if_neg le, readlineLoop_top (by omega) ok.tail]
        simp only [held, if_neg le, List.nil_append]
      · intro k hk
        have := ok.tail
        rw [length_held, if_neg le] at hk
        simp only [From, held, if_neg le, List.drop_append, Mem.read_drop, Mem.length_read]
        split
        · rw [show k - (mb.size - mb.tail) = 0 from by omega]
          exact .inl ⟨by omega, by omega, by congr 2; omega⟩
        · rw [show mb.size - mb.tail - k = 0 from by omega]
          refine .inr ⟨by omega, ?_⟩
          rw [Mem.read_zero, List.nil_append]
          congr 1 <;> omega
  obtain ⟨pos, e, fr⟩ := loop
  cases h : lineLength minch (maxlen - 1).toNat mb.held with
  | none =>
    refine .inl ⟨rfl, ?_⟩
    rw [h, Option.map_none] at e
    simp only [readline, e]
  | some k =>
    obtain ⟨hk, hl⟩ := lineLength_bounds h
    rw [h, Option.map_some] at e
    obtain ⟨ok', hh⟩ := (fr k hl).advance ok
    refine .inr ⟨k, _, rfl, ?_, ok', rfl, hh⟩
    simp only [readline, e, List.length_take]
    congr 1
    omega

/-- The buffer and the queue agree. -/
structure Refines (mb : Membuff) (f : Fifo) : Prop where
  ok : mb.Ok
  cap : f.cap = mb.size - 1
  held : f.held = mb.held

/-- An operation in range has an answer. -/
lemma InRange.exec {op : Op} (rng : mb.InRange op) :
    ∃ r, mb.exec op = some (r, mb.step op) := by
  cases op with
  | extendBy grow max realloc =>
    obtain ⟨grown, e⟩ := Option.isSome_iff_exists.mp rng
    simp only [step, Membuff.exec, extendBy, e, Option.map_some, Option.getD_some]
    exact ⟨_, rfl⟩
  | _ => exact ⟨_, rfl⟩

/-- One operation on the buffer is one on the queue. -/
lemma exec_refines {f : Fifo} (rf : mb.Refines f) {op : Op} {r : Res} {mb' : Membuff}
    (h : mb.exec op = some (r, mb')) : ∃ f', f.Step op r f' ∧ mb'.Refines f' := by
  obtain ⟨ok, hc, hq⟩ := rf
  cases op with
  | put buff =>
    obtain ⟨rfl, rfl⟩ := Prod.mk.inj (Option.some.inj h)
    obtain ⟨ok', sz, n, hd⟩ := put_spec ok buff
    exact ⟨_, .put (by rw [hc, hq]; exact n), ok', by rw [sz]; exact hc, by rw [hd, ← hq]; rfl⟩
  | putbyte ch =>
    obtain ⟨rfl, rfl⟩ := Prod.mk.inj (Option.some.inj h)
    obtain ⟨ok', sz, b, hd⟩ := putbyte_spec ok ch
    rw [b]
    by_cases free : mb.held.length < mb.size - 1
    · rw [if_pos free, ← hq] at hd
      rw [decide_eq_true free]
      exact ⟨_, .putbyte (by rw [hc, hq]; exact free), ok', by rw [sz]; exact hc, hd.symm⟩
    · rw [if_neg free, List.append_nil] at hd
      rw [decide_eq_false free]
      exact ⟨f, .putbyteFull (by rw [hc, hq]; omega), ok', by rw [sz]; exact hc, hq.trans hd.symm⟩
  | get maxlen =>
    obtain ⟨rfl, rfl⟩ := Prod.mk.inj (Option.some.inj h)
    obtain ⟨ok', sz, bs, hd⟩ := get_spec ok maxlen
    rw [bs, ← hq]
    exact ⟨_, .get rfl, ok', by rw [sz]; exact hc, by rw [hd, ← hq]; rfl⟩
  | getbyte =>
    obtain ⟨rfl, rfl⟩ := Prod.mk.inj (Option.some.inj h)
    obtain ⟨ok', sz, ⟨e, v, hd⟩ | ⟨c, e, v⟩⟩ := getbyte_spec ok
    · rw [v]
      exact ⟨f, .getbyteEmpty (hq.trans e), ok', by rw [sz]; exact hc, by rw [hq, e, hd]⟩
    · rw [v]
      refine ⟨_, .getbyte (hq.trans e), ok', by rw [sz]; exact hc, ?_⟩
      rw [Fifo.leave, hq, e]
      rfl
  | peekbyte =>
    obtain ⟨rfl, rfl⟩ := Prod.mk.inj (Option.some.inj h)
    obtain ⟨-, -, ⟨e, v, -⟩ | ⟨c, e, v⟩⟩ := getbyte_spec ok
    · rw [peekbyte_eq, v]
      exact ⟨f, .peekbyteEmpty (hq.trans e), ok, hc, hq⟩
    · rw [peekbyte_eq, v]
      exact ⟨f, .peekbyte (hq.trans e), ok, hc, hq⟩
  | readline maxlen minch =>
    obtain ⟨rfl, rfl⟩ := Prod.mk.inj (Option.some.inj h)
    obtain ⟨e, r⟩ | ⟨n, mb', e, r, ok', sz, hd⟩ := readline_spec ok maxlen minch
    · rw [r]
      exact ⟨f, .readlineNone (by rw [hq]; exact e), ok, hc, hq⟩
    · rw [r, ← hq]
      exact ⟨_, .readline (by rw [hq]; exact e), ok', by rw [sz]; exact hc, by rw [hd, ← hq]; rfl⟩
  | makecontig =>
    obtain ⟨rfl, rfl⟩ := Prod.mk.inj (Option.some.inj h)
    obtain ⟨ok', sz, hd⟩ := makecontig_spec ok
    exact ⟨f, .makecontig, ok', by rw [sz]; exact hc, hq.trans hd.symm⟩
  | extendBy grow max realloc =>
    obtain ⟨⟨r, mb'⟩, e, he⟩ := Option.map_eq_some_iff.mp h
    obtain ⟨rfl, rfl⟩ := Prod.mk.inj he
    obtain ⟨ok', le, hd, no⟩ := extendBy_spec ok e
    refine ⟨{ f with cap := mb'.size - 1 }, .extendBy (by omega) ?_, ok', rfl, hq.trans hd.symm⟩
    intro ne
    rw [no ne, hc]
  | purge =>
    obtain ⟨rfl, rfl⟩ := Prod.mk.inj (Option.some.inj h)
    have pos := Nat.zero_lt_of_lt ok.head
    exact ⟨_, .purge, ⟨ok.null, pos, pos⟩, hc, rfl⟩

end Membuff

end Imx
