import Imx.Defrag.Holes

/-!
# Datagrams and what is missing of them

A datagram cut into fragments, the fragments as the code receives them, and the abstract meaning of
a list of holes: `Cover dg got xs` says that the holes `xs` are what is missing when the fragments
`got` have arrived. `Cover.take` is the step: the fragment that arrives is taken out of the hole it
lies in.
-/

namespace Imx.Defrag
open Imx.Base

/-- A payload cut into fragments, all of a datagram with one `ip_id`. -/
structure Datagram where
  id : UInt8 × UInt8
  frags : List (List UInt8)
  aligned : ∀ f ∈ frags.dropLast, 8 ∣ f.length
  fits : frags.flatten.length ≤ ipMaxudp

namespace Datagram

/-- The bytes that were sent. -/
def payload (dg : Datagram) : List UInt8 := dg.frags.flatten

/-- The number of fragments. -/
def count (dg : Datagram) : Nat := dg.frags.length

/-- Where a fragment begins. -/
def off (dg : Datagram) (k : Nat) : Nat := (dg.frags.take k).flatten.length

/-- Every fragment carries a byte. -/
def Filled (dg : Datagram) : Prop := ∀ f ∈ dg.frags, f ≠ []

instance {dg : Datagram} : Decidable dg.Filled :=
  inferInstanceAs (Decidable (∀ f ∈ dg.frags, f ≠ []))

variable {dg : Datagram} {j k a : Nat}

@[simp]
lemma off_zero : dg.off 0 = 0 := by
  simp [off]

lemma off_succ (lt : k < dg.count) : dg.off (k + 1) = dg.off k + dg.frags[k].length := by
  rw [off, off, List.take_succ_eq_append_getElem lt, List.flatten_append, List.length_append]
  simp

lemma off_count : dg.off dg.count = dg.payload.length := by
  rw [off, count, List.take_length, payload]

lemma off_mono (le : j ≤ k) : dg.off j ≤ dg.off k := by
  have split : dg.frags.take k = dg.frags.take j ++ (dg.frags.take k).drop j := by
    have := List.take_append_drop j (dg.frags.take k)
    rw [List.take_take, Nat.min_eq_left le] at this
    exact this.symm
  rw [off, off, split, List.flatten_append, List.length_append]
  exact Nat.le_add_right ..

lemma off_le (dg : Datagram) : dg.off k ≤ dg.payload.length := by
  have split : dg.frags.flatten = (dg.frags.take k).flatten ++ (dg.frags.drop k).flatten := by
    rw [← List.flatten_append, List.take_append_drop]
  rw [off, payload, split, List.length_append]
  exact Nat.le_add_right ..

lemma off_lt_succ (filled : dg.Filled) (lt : k < dg.count) : dg.off k < dg.off (k + 1) := by
  have pos := List.length_pos_iff.2 (filled _ (List.getElem_mem lt))
  rw [off_succ lt]
  omega

lemma off_lt (filled : dg.Filled) (lt : j < k) (lj : j < dg.count) : dg.off j < dg.off k :=
  Nat.lt_of_lt_of_le (off_lt_succ filled lj) (off_mono lt)

/-- Every fragment begins at a multiple of 8. -/
lemma dvd_off (lt : k < dg.count) : 8 ∣ dg.off k := by
  induction k with
  | zero => simp
  | succ k ih =>
    have klt : k < dg.frags.dropLast.length := by
      rw [List.length_dropLast]
      exact Nat.lt_sub_of_add_lt lt
    have al := dg.aligned _ (List.getElem_mem klt)
    rw [List.getElem_dropLast] at al
    rw [off_succ (Nat.lt_of_succ_lt lt)]
    exact Nat.dvd_add (ih (Nat.lt_of_succ_lt lt)) al

/-- A byte of a fragment in the payload. -/
lemma getElem?_payload (lt : k < dg.count) (ja : j < dg.frags[k].length) :
    dg.payload[dg.off k + j]? = dg.frags[k][j]? := by
  have split : dg.payload = (dg.frags.take k).flatten ++ (dg.frags.drop k).flatten := by
    rw [payload, ← List.flatten_append, List.take_append_drop]
  rw [split, off, List.getElem?_append_right (by omega), Nat.add_sub_cancel_left,
    List.drop_eq_getElem_cons lt, List.flatten_cons, List.getElem?_append_left ja]

/-- Every byte of the payload belongs to a fragment. -/
lemma exists_frag (lt : a < dg.payload.length) :
    ∃ k, k < dg.count ∧ dg.off k ≤ a ∧ a < dg.off (k + 1) := by
  by_contra none
  have all : ∀ k, k ≤ dg.count → dg.off k ≤ a := by
    intro k
    induction k with
    | zero => simp
    | succ k ih =>
      intro le
      by_contra gt
      exact none ⟨k, le, ih (Nat.le_of_succ_le le), Nat.not_le.1 gt⟩
  have := all dg.count (Nat.le_refl _)
  rw [off_count] at this
  omega

end Datagram

/-- The packet `ip` is fragment `k` of the datagram; the rest of its header is arbitrary. -/
structure IsFrag (dg : Datagram) (k : Nat) (ip : Mem) : Prop where
  data : dg.frags[k]? = some (ip.read ipHdrSize (ipLen ip - ipHdrSize))
  len : ipHdrSize ≤ ipLen ip
  off : 8 * offset8 ip = dg.off k
  more : moreFrags ip = decide (k + 1 < dg.count)
  id : (ip 4, ip 5) = dg.id

instance {dg : Datagram} {k : Nat} {ip : Mem} : Decidable (IsFrag dg k ip) :=
  decidable_of_iff (dg.frags[k]? = some (ip.read ipHdrSize (ipLen ip - ipHdrSize)) ∧
      ipHdrSize ≤ ipLen ip ∧ 8 * offset8 ip = dg.off k ∧
      moreFrags ip = decide (k + 1 < dg.count) ∧ (ip 4, ip 5) = dg.id)
    ⟨fun ⟨a, b, c, d, e⟩ => ⟨a, b, c, d, e⟩, fun ⟨a, b, c, d, e⟩ => ⟨a, b, c, d, e⟩⟩

variable {dg : Datagram} {j k a i e o l : Nat} {ip : Mem} {got : List Nat}
variable {pre post xs : List (Nat × Nat)}

lemma IsFrag.lt (frag : IsFrag dg k ip) : k < dg.count := by
  by_contra ge
  have := frag.data
  rw [List.getElem?_eq_none (Nat.not_lt.1 ge)] at this
  simp at this

/-- The length field fits the place of the fragment. -/
lemma IsFrag.length (frag : IsFrag dg k ip) : dg.off k + (ipLen ip - ipHdrSize) = dg.off (k + 1) := by
  have lt := frag.lt
  have eq := frag.data
  rw [List.getElem?_eq_getElem lt, Option.some_inj] at eq
  rw [Datagram.off_succ lt, eq, Mem.length_read]

/-- A byte of the payload as the fragment carries it. -/
lemma IsFrag.byte (frag : IsFrag dg k ip) (ge : dg.off k ≤ a) (lt : a < dg.off (k + 1)) :
    dg.payload[a]? = some (ip (ipHdrSize + (a - dg.off k))) := by
  have klt := frag.lt
  have len := frag.length
  have eq := frag.data
  rw [List.getElem?_eq_getElem klt, Option.some_inj] at eq
  have byte := @Datagram.getElem?_payload dg (a - dg.off k) k klt (by rw [eq, Mem.length_read]; omega)
  rw [show dg.off k + (a - dg.off k) = a from by omega] at byte
  rw [byte, eq, Mem.getElem?_read, if_pos (by omega)]

/-! ## What is missing -/

/-- The holes are what is missing when the fragments `got` have arrived. -/
structure Cover (dg : Datagram) (got : List Nat) (xs : List (Nat × Nat)) : Prop where
  apart : xs.Pairwise fun x y => x.2 < 8 * y.1
  shape : ∀ x ∈ xs, 8 * x.1 < x.2 ∧ (8 ∣ x.2 ∨ x.2 = 65535)
  starts : ∀ x ∈ xs, ∃ k, k < dg.count ∧ k ∉ got ∧ dg.off k = 8 * x.1
  outside : ∀ k ∈ got, ∀ x ∈ xs, dg.off (k + 1) ≤ 8 * x.1 ∨ x.2 ≤ dg.off k
  inside : ∀ k, k < dg.count → k ∉ got → ∃ x ∈ xs, 8 * x.1 ≤ dg.off k ∧ dg.off (k + 1) ≤ x.2

/-- All fragments have arrived. -/
def Complete (dg : Datagram) (got : List Nat) : Prop := ∀ k, k < dg.count → k ∈ got

instance : Decidable (Complete dg got) := inferInstanceAs (Decidable (∀ k, k < dg.count → k ∈ got))

/-- Nothing is missing exactly when all fragments have arrived. -/
lemma Cover.nil_iff (cov : Cover dg got xs) : xs = [] ↔ Complete dg got := by
  constructor
  · rintro rfl k lt
    by_contra no
    obtain ⟨x, mem, _⟩ := cov.inside k lt no
    exact absurd mem (by simp)
  · intro all
    rw [List.eq_nil_iff_forall_not_mem]
    intro x mem
    obtain ⟨k, lt, no, _⟩ := cov.starts x mem
    exact no (all k lt)

/-- At the start, one hole takes everything. -/
lemma Cover.start (pos : 0 < dg.count) : Cover dg [] [(0, 65535)] where
  apart := by simp
  shape := by simp
  starts := by simpa using ⟨0, pos, by simp⟩
  outside := by simp
  inside := by
    intro k _ _
    have le := @Datagram.off_le (k + 1) dg
    have fits := dg.fits
    rw [← Datagram.payload, show ipMaxudp = 16464 from rfl] at fits
    exact ⟨(0, 65535), by simp, by simp, by simp; omega⟩

/-- What is left of a hole. -/
lemma mem_pieces {x : Nat × Nat} : x ∈ pieces i e o l ↔
    (x = (i, 8 * o) ∧ i < o) ∨ (x = (o + l / 8, e) ∧ 8 * o + l < e) := by
  rw [pieces, List.mem_append]
  constructor
  · rintro (mem | mem)
    · split at mem <;> simp_all
    · split at mem <;> simp_all
  · rintro (⟨rfl, lt⟩ | ⟨rfl, lt⟩)
    · simp [lt]
    · simp [lt]

/-- A fragment in a hole that may have been truncated to its end. -/
structure InHole (dg : Datagram) (k i e e' o l : Nat) : Prop where
  lt : k < dg.count
  begins : 8 * o = dg.off k
  ends : dg.off k + l = dg.off (k + 1)
  low : 8 * i ≤ dg.off k
  high : dg.off (k + 1) ≤ e
  cut : (k + 1 < dg.count ∧ e' = e) ∨ (k + 1 = dg.count ∧ e' = dg.off (k + 1))

variable {e' : Nat}

lemma InHole.le (hole : InHole dg k i e e' o l) : e' ≤ e := by
  have := hole.high
  rcases hole.cut with ⟨_, eq⟩ | ⟨_, eq⟩ <;> omega

/-- If something is left behind the fragment, then it is not the last one. -/
lemma InHole.rest (hole : InHole dg k i e e' o l) (lt : 8 * o + l < e') :
    k + 1 < dg.count ∧ e' = e ∧ 8 * (o + l / 8) = dg.off (k + 1) := by
  have b := hole.begins
  have c := hole.ends
  rcases hole.cut with ⟨more, eq⟩ | ⟨_, eq⟩
  · have d1 := Datagram.dvd_off hole.lt
    have d2 := Datagram.dvd_off more
    exact ⟨more, eq, by omega⟩
  · omega

section Take
variable (cov : Cover dg got (pre ++ (i, e) :: post)) (hole : InHole dg k i e e' o l)
include cov

lemma Cover.before {x : Nat × Nat} (mem : x ∈ pre) : 8 * x.1 < x.2 ∧ x.2 < 8 * i := by
  have apart := (List.pairwise_append.1 cov.apart).2.2
  exact ⟨(cov.shape x (by simp [mem])).1, apart x mem (i, e) (by simp)⟩

lemma Cover.behind {x : Nat × Nat} (mem : x ∈ post) : e < 8 * x.1 := by
  have apart := (List.pairwise_append.1 cov.apart).2.1
  exact (List.pairwise_cons.1 apart).1 x mem

include hole

lemma Cover.take_apart (filled : dg.Filled) :
    (pre ++ pieces i e' o l ++ post).Pairwise fun x y => x.2 < 8 * y.1 := by
  have b := hole.begins
  have c := hole.ends
  have low := hole.low
  have high := hole.high
  have le := hole.le
  have lt := Datagram.off_lt_succ filled hole.lt
  obtain ⟨p1, p2, p3⟩ := List.pairwise_append.1 cov.apart
  rw [List.pairwise_append, List.pairwise_append]
  refine ⟨⟨p1, ?_, ?_⟩, (List.pairwise_cons.1 p2).2, ?_⟩
  · rw [pieces]
    split
    · split
      · rename_i gt
        have := (hole.rest gt).2.2
        simp only [List.singleton_append, List.pairwise_cons, List.mem_singleton, forall_eq]
        exact ⟨by omega, by simp⟩
      · simp
    · split <;> simp
  · intro x mem y memy
    have := cov.before mem
    rcases mem_pieces.1 memy with ⟨rfl, _⟩ | ⟨rfl, _⟩
    · exact this.2
    · show x.2 < 8 * (o + l / 8)
      omega
  · intro x mem y memy
    have behind := cov.behind memy
    rcases List.mem_append.1 mem with mem | mem
    · have := cov.before mem
      omega
    · rcases mem_pieces.1 mem with ⟨rfl, _⟩ | ⟨rfl, _⟩
      · show 8 * o < _
        omega
      · show e' < _
        omega

lemma Cover.take_shape :
    ∀ x ∈ pre ++ pieces i e' o l ++ post, 8 * x.1 < x.2 ∧ (8 ∣ x.2 ∨ x.2 = 65535) := by
  intro x mem
  rw [List.mem_append, List.mem_append] at mem
  rcases mem with (mem | mem) | mem
  · exact cov.shape x (by simp [mem])
  · rcases mem_pieces.1 mem with ⟨rfl, lt⟩ | ⟨rfl, gt⟩
    · exact ⟨by show 8 * i < 8 * o; omega, .inl ⟨o, rfl⟩⟩
    · obtain ⟨_, rfl, eq⟩ := hole.rest gt
      have b := hole.begins
      have c := hole.ends
      exact ⟨by show 8 * (o + l / 8) < _; omega, (cov.shape (i, e') (by simp)).2⟩
  · exact cov.shape x (by simp [mem])

lemma Cover.take_starts (filled : dg.Filled) : ∀ x ∈ pre ++ pieces i e' o l ++ post,
    ∃ j, j < dg.count ∧ j ∉ k :: got ∧ dg.off j = 8 * x.1 := by
  have b := hole.begins
  have low := hole.low
  have high := hole.high
  have lt := Datagram.off_lt_succ filled hole.lt
  -- a hole that begins elsewhere begins with another fragment
  have keep : ∀ x ∈ pre ++ (i, e) :: post, 8 * x.1 ≠ dg.off k →
      ∃ j, j < dg.count ∧ j ∉ k :: got ∧ dg.off j = 8 * x.1 := by
    intro x mem ne
    obtain ⟨j, jlt, no, eq⟩ := cov.starts x mem
    refine ⟨j, jlt, ?_, eq⟩
    rw [List.mem_cons, not_or]
    refine ⟨?_, no⟩
    rintro rfl
    exact ne eq.symm
  intro x mem
  rw [List.mem_append, List.mem_append] at mem
  rcases mem with (mem | mem) | mem
  · have := cov.before mem
    exact keep x (by simp [mem]) (by omega)
  · rcases mem_pieces.1 mem with ⟨rfl, io⟩ | ⟨rfl, gt⟩
    · exact keep (i, e) (by simp) (by show 8 * i ≠ _; omega)
    · obtain ⟨more, rfl, eq⟩ := hole.rest gt
      refine ⟨k + 1, more, ?_, eq.symm⟩
      rw [List.mem_cons, not_or]
      refine ⟨by omega, fun mem => ?_⟩
      have := Datagram.off_lt_succ filled more
      have c := hole.ends
      rcases cov.outside (k + 1) mem (i, e') (by simp) with h | h
      · exact absurd h (by show ¬ _ ≤ 8 * i; omega)
      · exact absurd h (by show ¬ e' ≤ _; omega)
  · have := cov.behind mem
    exact keep x (by simp [mem]) (by omega)

lemma Cover.take_outside (filled : dg.Filled) : ∀ j ∈ k :: got,
    ∀ x ∈ pre ++ pieces i e' o l ++ post, dg.off (j + 1) ≤ 8 * x.1 ∨ x.2 ≤ dg.off j := by
  have b := hole.begins
  have low := hole.low
  have high := hole.high
  have le := hole.le
  have lt := Datagram.off_lt_succ filled hole.lt
  intro j memj x mem
  rw [List.mem_append, List.mem_append] at mem
  rcases List.mem_cons.1 memj with rfl | memj
  · rcases mem with (mem | mem) | mem
    · have := cov.before mem
      omega
    · rcases mem_pieces.1 mem with ⟨rfl, io⟩ | ⟨rfl, gt⟩
      · exact .inr (Nat.le_of_eq b)
      · exact .inl (Nat.le_of_eq (hole.rest gt).2.2.symm)
    · have := cov.behind mem
      omega
  · rcases mem with (mem | mem) | mem
    · exact cov.outside j memj x (by simp [mem])
    · have old := cov.outside j memj (i, e) (by simp)
      have c := hole.ends
      rcases mem_pieces.1 mem with ⟨rfl, io⟩ | ⟨rfl, gt⟩
      · show _ ≤ 8 * i ∨ 8 * o ≤ _
        omega
      · have := (hole.rest gt).2.2
        show _ ≤ 8 * (o + l / 8) ∨ e' ≤ _
        omega
    · exact cov.outside j memj x (by simp [mem])

lemma Cover.take_inside (filled : dg.Filled) : ∀ j, j < dg.count → j ∉ k :: got →
    ∃ x ∈ pre ++ pieces i e' o l ++ post, 8 * x.1 ≤ dg.off j ∧ dg.off (j + 1) ≤ x.2 := by
  have b := hole.begins
  have c := hole.ends
  intro j jlt no
  rw [List.mem_cons, not_or] at no
  have pos := Datagram.off_lt_succ filled jlt
  obtain ⟨x, mem, h1, h2⟩ := cov.inside j jlt no.2
  rcases List.mem_append.1 mem with mem | mem
  · exact ⟨x, by simp [mem], h1, h2⟩
  rcases List.mem_cons.1 mem with rfl | mem
  · -- another fragment of the same hole lies before or behind this one
    rcases Nat.lt_or_gt_of_ne no.1 with lt | gt
    · have := @Datagram.off_mono dg (j + 1) k lt
      refine ⟨(i, 8 * o), ?_, h1, by show _ ≤ 8 * o; omega⟩
      have : (i, 8 * o) ∈ pieces i e' o l := mem_pieces.2 (.inl ⟨rfl, by simp at h1; omega⟩)
      simp [this]
    · have := @Datagram.off_mono dg (k + 1) j gt
      obtain ⟨more, rfl⟩ : k + 1 < dg.count ∧ e' = e := by
        rcases hole.cut with cut | ⟨last, _⟩
        · exact cut
        · omega
      have gt' : 8 * o + l < e' := by
        simp at h2
        omega
      refine ⟨(o + l / 8, e'), ?_, ?_, h2⟩
      · have : (o + l / 8, e') ∈ pieces i e' o l := mem_pieces.2 (.inr ⟨rfl, gt'⟩)
        simp [this]
      · have := (hole.rest gt').2.2
        show 8 * (o + l / 8) ≤ _
        omega
  · exact ⟨x, by simp [mem], h1, h2⟩

/-- The fragment that arrives is taken out of the hole it lies in. -/
lemma Cover.take (filled : dg.Filled) : Cover dg (k :: got) (pre ++ pieces i e' o l ++ post) where
  apart := cov.take_apart hole filled
  shape := cov.take_shape hole
  starts := cov.take_starts hole filled
  outside := cov.take_outside hole filled
  inside := cov.take_inside hole filled

end Take

end Imx.Defrag
