import Mathlib.Data.List.Perm.Subperm
import Imx.Defrag.Defs

/-!
# The list of holes

What the walk over the holes finds and what taking a fragment out of a hole leaves. The list is
given by the pairs of a hole's index and its end, in increasing order, and the descriptors in the
buffer are its nodes (`holeAt`). `fixHoles_spec` is the one place where the four updates of the list
are looked at: together they exchange the hole by what is left of it (`pieces`).

A link of value 0 stands for no hole, but 0 is also the index of the hole at the start of the
payload. `fixHoles_spec` therefore asks that the hole in front of a removed or moved one is not
that hole.
-/

namespace Imx.Defrag
open Imx.Base

variable {m m' m'' : Mem} {i j h v n o e start fuel a : Nat} {f : Field}
variable {pre post : List (Nat × Nat)}

/-! ## Descriptors in the buffer -/

/-- The hole described at an index. -/
def holeAt (m : Mem) (i : Nat) : Node Nat where
  val := m.get16 (Field.lastByte.addr i)
  next := m.get16 (Field.nextHole.addr i)
  prev := m.get16 (Field.prevHole.addr i)

lemma maxHoles_eq : maxHoles = 2058 := rfl

lemma peek_lastByte (lt : i < maxHoles) : peek m i .lastByte = .ok (holeAt m i).val := by
  rw [peek, if_pos lt, holeAt]

lemma peek_nextHole (lt : i < maxHoles) : peek m i .nextHole = .ok (holeAt m i).next := by
  rw [peek, if_pos lt, holeAt]

lemma peek_prevHole (lt : i < maxHoles) : peek m i .prevHole = .ok (holeAt m i).prev := by
  rw [peek, if_pos lt, holeAt]

lemma poke_eq (lt : i < maxHoles) : poke m i f v = .ok (m.set16 (f.addr i) v) := by
  rw [poke, if_pos lt]

lemma addr_bounds : ipHdrSize + 8 * i ≤ f.addr i ∧ f.addr i + 2 ≤ ipHdrSize + 8 * i + 8 := by
  cases f <;> simp only [Field.addr] <;> omega

/-- Fields of different holes, and different fields, do not meet. -/
lemma addr_disjoint {f' : Field} (ne : j ≠ i ∨ f' ≠ f) :
    f'.addr j + 2 ≤ f.addr i ∨ f.addr i + 2 ≤ f'.addr j := by
  cases f <;> cases f' <;> simp only [Field.addr] <;> simp at ne <;> omega

lemma holeAt_set_of_ne (ne : j ≠ i) : holeAt (m.set16 (f.addr i) v) j = holeAt m j := by
  simp only [holeAt]
  rw [Mem.get16_set16_of_disjoint (addr_disjoint (.inl ne)),
    Mem.get16_set16_of_disjoint (addr_disjoint (.inl ne)),
    Mem.get16_set16_of_disjoint (addr_disjoint (.inl ne))]

/-- Writing a field of a hole changes this hole only. -/
lemma holeAt_set {x : Node Nat} (here : holeAt (m.set16 (f.addr i) v) i = x) :
    holeAt (m.set16 (f.addr i) v) = Function.update (holeAt m) i x := by
  funext j
  by_cases ji : j = i
  · rw [ji, Function.update_self, here]
  · rw [Function.update_of_ne ji, holeAt_set_of_ne ji]

/-- Another field of the hole is kept. -/
lemma get16_other {f' : Field} (ne : f' ≠ f) :
    (m.set16 (f.addr i) v).get16 (f'.addr i) = m.get16 (f'.addr i) :=
  Mem.get16_set16_of_disjoint (addr_disjoint (.inr ne))

/-- Writing `last_byte`. -/
lemma holeAt_setLast (lt : v < 65536) : holeAt (m.set16 (Field.lastByte.addr i) v) =
    Function.update (holeAt m) i { holeAt m i with val := v } := by
  apply holeAt_set
  rw [holeAt, Mem.get16_set16 lt, get16_other (by simp), get16_other (by simp)]
  rfl

/-- Writing `next_hole`. -/
lemma holeAt_setNext (lt : v < 65536) :
    holeAt (m.set16 (Field.nextHole.addr i) v) = setNext (holeAt m) i v := by
  apply holeAt_set
  rw [holeAt, Mem.get16_set16 lt, get16_other (by simp), get16_other (by simp)]
  rfl

/-- Writing `prev_hole`. -/
lemma holeAt_setPrev (lt : v < 65536) :
    holeAt (m.set16 (Field.prevHole.addr i) v) = setPrev (holeAt m) i v := by
  apply holeAt_set
  rw [holeAt, Mem.get16_set16 lt, get16_other (by simp), get16_other (by simp)]
  rfl

/-- Copying a hole. -/
lemma holeAt_copy : holeAt (m.memmove (ipHdrSize + 8 * n) (ipHdrSize + 8 * h) 8) =
    Function.update (holeAt m) n (holeAt m h) := by
  have inside : ∀ k, k < 8 → m.memmove (ipHdrSize + 8 * n) (ipHdrSize + 8 * h) 8
      (ipHdrSize + 8 * n + k) = m (ipHdrSize + 8 * h + k) := by
    intro k lt
    rw [Mem.memmove, Mem.write_at (by simpa using lt)]
    simp [Mem.read]
  have inside16 : ∀ k, k + 1 < 8 → (m.memmove (ipHdrSize + 8 * n) (ipHdrSize + 8 * h) 8).get16
      (ipHdrSize + 8 * n + k) = m.get16 (ipHdrSize + 8 * h + k) :=
    fun k lt => Mem.get16_congr (inside k (by omega)) (inside (k + 1) lt)
  have outside : ∀ k, k < ipHdrSize + 8 * n ∨ ipHdrSize + 8 * n + 8 ≤ k →
      m.memmove (ipHdrSize + 8 * n) (ipHdrSize + 8 * h) 8 k = m k := by
    rintro k (lt | ge)
    · exact Mem.write_below lt
    · exact Mem.write_above (by simpa using ge)
  funext j
  by_cases jn : j = n
  · subst jn
    rw [Function.update_self]
    simp only [holeAt, Field.addr]
    rw [inside16 0 (by omega), inside16 2 (by omega), inside16 4 (by omega)]
  · rw [Function.update_of_ne jn]
    simp only [holeAt, Field.addr]
    congr 1 <;> exact Mem.get16_congr (outside _ (by omega)) (outside _ (by omega))

/-! ## What is left alone -/

/-- Only descriptors at the given indices were written. -/
def Within (is : List Nat) (m m' : Mem) : Prop :=
  ∀ a, (∀ i ∈ is, a < ipHdrSize + 8 * i ∨ ipHdrSize + 8 * i + 8 ≤ a) → m' a = m a

variable {is : List Nat}

lemma Within.refl : Within is m m := fun _ _ => rfl

lemma Within.trans (h1 : Within is m m') (h2 : Within is m' m'') : Within is m m'' :=
  fun a out => (h2 a out).trans (h1 a out)

lemma Within.set16 (mem : i ∈ is) : Within is m (m.set16 (f.addr i) v) := by
  intro a out
  have := out i mem
  have := @addr_bounds i f
  exact Mem.set16_of_ne (by omega) (by omega)

lemma Within.copy (mem : n ∈ is) :
    Within is m (m.memmove (ipHdrSize + 8 * n) (ipHdrSize + 8 * h) 8) := by
  intro a out
  obtain lt | ge := out n mem
  · exact Mem.write_below lt
  · exact Mem.write_above (by simpa using ge)

/-! ## The walk -/

/-- The holes are recorded in the buffer, in increasing order. -/
structure Recorded (m : Mem) (xs : List (Nat × Nat)) : Prop where
  seg : Seg (holeAt m) 0 0 xs
  sorted : (xs.map Prod.fst).Pairwise (· < ·)
  bound : ∀ i ∈ xs.map Prod.fst, i < maxHoles

/-- A list whose nodes all lie behind another node has no node 0. -/
lemma headIdx_eq_zero {xs : List (Nat × Nat)} (pos : ∀ j ∈ xs.map Prod.fst, 0 < j) :
    headIdx 0 xs = 0 ↔ xs = [] := by
  constructor
  · intro eq
    by_contra ne
    have := pos _ (@headIdx_mem _ 0 _ ne)
    omega
  · rintro rfl
    rfl

/-- The walk stops at the first hole that does not end before `start`. -/
lemma walk_spec {xs : List (Nat × Nat)} {p : Nat} (seg : Seg (holeAt m) p 0 xs)
    (sorted : (xs.map Prod.fst).Pairwise (· < ·)) (bound : ∀ i ∈ xs.map Prod.fst, i < maxHoles)
    (ne : xs ≠ []) (enough : xs.length ≤ fuel) :
    walk m start fuel (headIdx 0 xs) = .ok ((xs.find? fun x => start ≤ x.2).map Prod.fst) := by
  induction xs generalizing p fuel with
  | nil => exact absurd rfl ne
  | cons x xs ih =>
    obtain ⟨node, seg⟩ := seg
    rw [List.map_cons, List.pairwise_cons] at sorted
    rw [List.map_cons, List.forall_mem_cons] at bound
    cases fuel with
    | zero => exact absurd enough (by simp)
    | succ fuel =>
      have pos : headIdx 0 xs = 0 ↔ xs = [] :=
        headIdx_eq_zero fun j mem => Nat.lt_of_le_of_lt (Nat.zero_le _) (sorted.1 j mem)
      rw [show headIdx 0 (x :: xs) = x.1 from rfl]
      simp only [walk, peek_lastByte bound.1, peek_nextHole bound.1, node, List.find?_cons]
      by_cases lt : x.2 < start
      · simp only [bind, Except.bind, if_pos lt, Nat.not_le.2 lt, decide_false]
        by_cases last : xs = []
        · subst last
          rfl
        · rw [if_neg (mt pos.1 last)]
          exact ih seg sorted.2 bound.2 last (by simpa using enough)
      · simp only [bind, Except.bind, if_neg lt, Nat.not_lt.1 lt, decide_true]
        rfl

/-- There are never more holes than fit. -/
lemma Recorded.length_le {xs : List (Nat × Nat)} (rec : Recorded m xs) : xs.length ≤ maxHoles := by
  have nd : (xs.map Prod.fst).Nodup := rec.sorted.imp fun lt => Nat.ne_of_lt lt
  have sub : xs.map Prod.fst ⊆ List.range maxHoles :=
    fun i mem => List.mem_range.2 (rec.bound i mem)
  simpa using (nd.subperm sub).length_le

/-- Only the descriptors of the holes matter. -/
lemma Recorded.congr {xs : List (Nat × Nat)} (rec : Recorded m xs)
    (same : ∀ i ∈ xs.map Prod.fst, ∀ b, b < 8 →
      m' (ipHdrSize + 8 * i + b) = m (ipHdrSize + 8 * i + b)) : Recorded m' xs := by
  refine ⟨rec.seg.congr fun i mem => ?_, rec.sorted, rec.bound⟩
  have same16 : ∀ b, b + 1 < 8 →
      m'.get16 (ipHdrSize + 8 * i + b) = m.get16 (ipHdrSize + 8 * i + b) :=
    fun b lt => Mem.get16_congr (same i mem b (by omega)) (same i mem (b + 1) lt)
  simp only [holeAt, Field.addr]
  rw [same16 0 (by omega), same16 2 (by omega), same16 4 (by omega)]

/-! ## Taking a fragment out of a hole -/

/-- What is left of the hole from index `i` to the byte `e` when `n` bytes at index `o` arrive. -/
def pieces (i e o n : Nat) : List (Nat × Nat) :=
  (if i < o then [(i, 8 * o)] else []) ++ if 8 * o + n < e then [(o + n / 8, e)] else []

/-- Let the first of the holes be preceded by `v`, in the buffer. -/
def pokePrev (m : Mem) (xs : List (Nat × Nat)) (v : Nat) : Mem :=
  if xs = [] then m else m.set16 (Field.prevHole.addr (headIdx 0 xs)) v

/-- Let the last of the holes be followed by `v`, in the buffer. -/
def pokeNext (m : Mem) (xs : List (Nat × Nat)) (v : Nat) : Mem :=
  if xs = [] then m else m.set16 (Field.nextHole.addr (lastIdx 0 xs)) v

lemma holeAt_pokePrev {xs : List (Nat × Nat)} (lt : v < 65536) :
    holeAt (pokePrev m xs v) = bindPrev (holeAt m) xs v := by
  rw [pokePrev, bindPrev]
  split
  · rfl
  · exact holeAt_setPrev lt

lemma holeAt_pokeNext {xs : List (Nat × Nat)} (lt : v < 65536) :
    holeAt (pokeNext m xs v) = bindNext (holeAt m) xs v := by
  rw [pokeNext, bindNext]
  split
  · rfl
  · exact holeAt_setNext lt

lemma Within.pokePrev {xs : List (Nat × Nat)} (sub : xs.map Prod.fst ⊆ is) :
    Within is m (pokePrev m xs v) := by
  rw [Defrag.pokePrev]
  split
  · exact .refl
  · rename_i ne
    exact .set16 (sub (headIdx_mem ne))

lemma Within.pokeNext {xs : List (Nat × Nat)} (sub : xs.map Prod.fst ⊆ is) :
    Within is m (pokeNext m xs v) := by
  rw [Defrag.pokeNext]
  split
  · exact .refl
  · rename_i ne
    exact .set16 (sub (lastIdx_mem ne))

/-- A hole of the list, seen with what stands before and behind it. -/
structure Spot (m : Mem) (pre : List (Nat × Nat)) (i e : Nat) (post : List (Nat × Nat)) : Prop where
  seg : Seg (holeAt m) 0 0 (pre ++ [(i, e)] ++ post)
  before : ∀ j ∈ pre.map Prod.fst, j < i
  behind : ∀ j ∈ post.map Prod.fst, i < j
  preSorted : (pre.map Prod.fst).Pairwise (· < ·)
  postSorted : (post.map Prod.fst).Pairwise (· < ·)
  bound : ∀ j ∈ (pre ++ [(i, e)] ++ post).map Prod.fst, j < maxHoles

lemma Recorded.spot (rec : Recorded m (pre ++ (i, e) :: post)) : Spot m pre i e post := by
  have eq : pre ++ (i, e) :: post = pre ++ [(i, e)] ++ post := by simp
  obtain ⟨seg, sorted, bound⟩ := rec
  rw [List.map_append, List.map_cons, List.pairwise_append, List.pairwise_cons] at sorted
  obtain ⟨s1, ⟨s2, s3⟩, s4⟩ := sorted
  exact ⟨eq ▸ seg, fun j mem => s4 j mem i List.mem_cons_self, s2, s1, s3, eq ▸ bound⟩

variable {mid : List (Nat × Nat)}

/-- The hole is exchanged for other ones in its place. -/
lemma Spot.exchange (spot : Spot m pre i e post) (sorted : (mid.map Prod.fst).Pairwise (· < ·))
    (low : ∀ j ∈ mid.map Prod.fst, i ≤ j ∧ j < maxHoles)
    (high : ∀ j ∈ mid.map Prod.fst, ∀ k ∈ post.map Prod.fst, j < k)
    (left : ∀ j ∈ pre.map Prod.fst,
      holeAt m' j = bindNext (holeAt m) pre (headIdx (headIdx 0 post) mid) j)
    (right : ∀ j ∈ post.map Prod.fst,
      holeAt m' j = bindPrev (holeAt m) post (lastIdx (lastIdx 0 pre) mid) j)
    (seg : Seg (holeAt m') (lastIdx 0 pre) (headIdx 0 post) mid) :
    Recorded m' (pre ++ mid ++ post) := by
  have ndPre : (pre.map Prod.fst).Nodup := spot.preSorted.imp fun lt => Nat.ne_of_lt lt
  have ndPost : (post.map Prod.fst).Nodup := spot.postSorted.imp fun lt => Nat.ne_of_lt lt
  refine ⟨spot.seg.replace ndPre ndPost left right seg, ?_, ?_⟩
  · rw [List.map_append, List.map_append, List.pairwise_append, List.pairwise_append]
    refine ⟨⟨spot.preSorted, sorted, fun j hj k hk => ?_⟩, spot.postSorted, fun j hj k hk => ?_⟩
    · exact Nat.lt_of_lt_of_le (spot.before j hj) (low k hk).1
    · rcases List.mem_append.1 hj with hj | hj
      · exact Nat.lt_trans (spot.before j hj) (spot.behind k hk)
      · exact high j hj k hk
  · intro j mem
    rw [List.map_append, List.map_append, List.mem_append, List.mem_append] at mem
    rcases mem with (mem | mem) | mem
    · exact spot.bound j (by simp only [List.map_append, List.mem_append]; exact .inl (.inl mem))
    · exact (low j mem).2
    · exact spot.bound j (by simp only [List.map_append, List.mem_append]; exact .inr mem)

lemma Spot.node (spot : Spot m pre i e post) :
    holeAt m i = ⟨e, headIdx 0 post, lastIdx 0 pre⟩ := by
  have seg := spot.seg
  rw [List.append_assoc] at seg
  exact seg.node

lemma Spot.lt (spot : Spot m pre i e post) : i < maxHoles :=
  spot.bound i (by simp)

/-- The link to the next hole is 0 at the last hole only. -/
lemma Spot.next_eq_zero (spot : Spot m pre i e post) : headIdx 0 post = 0 ↔ post = [] :=
  headIdx_eq_zero fun j mem => Nat.lt_of_le_of_lt (Nat.zero_le _) (spot.behind j mem)

lemma Spot.head_lt (spot : Spot m pre i e post) (ne : post ≠ []) : headIdx 0 post < maxHoles := by
  apply spot.bound
  rw [List.map_append, List.mem_append]
  exact .inr (headIdx_mem ne)

lemma Spot.last_lt (spot : Spot m pre i e post) (ne : pre ≠ []) : lastIdx 0 pre < maxHoles := by
  apply spot.bound
  rw [List.map_append, List.map_append, List.mem_append, List.mem_append]
  exact .inl (.inl (lastIdx_mem ne))

/-- The hole behind gets a new hole in front, if there is one. -/
lemma Spot.linkBack_eq (spot : Spot m pre i e post) :
    linkBack m' (headIdx 0 post) v = .ok (pokePrev m' post v) := by
  rw [linkBack, pokePrev]
  by_cases last : post = []
  · rw [if_pos last, if_neg (not_not.2 (spot.next_eq_zero.2 last))]
  · rw [if_neg last, if_pos (mt spot.next_eq_zero.1 last), poke_eq (spot.head_lt last)]

variable {first : Nat} {m0 : Mem}

lemma Spot.before_ne_behind (spot : Spot m pre i e post) (mem : j ∈ pre.map Prod.fst) :
    j ∉ post.map Prod.fst := by
  intro mem'
  have := spot.before j mem
  have := spot.behind j mem'
  omega

/-- Both neighbours of the hole are bound to something else, and nothing else happens to them. -/
lemma Spot.relink {b c : Nat} (spot : Spot m pre i e post) (hb : b < 65536) (hc : c < 65536)
    (samePre : ∀ j ∈ pre.map Prod.fst, holeAt m0 j = holeAt m j)
    (samePost : ∀ j ∈ post.map Prod.fst, holeAt m0 j = holeAt m j) :
    (∀ j ∈ pre.map Prod.fst,
      holeAt (pokeNext (pokePrev m0 post b) pre c) j = bindNext (holeAt m) pre c j) ∧
    ∀ j ∈ post.map Prod.fst,
      holeAt (pokeNext (pokePrev m0 post b) pre c) j = bindPrev (holeAt m) post b j := by
  rw [holeAt_pokeNext hc, holeAt_pokePrev hb]
  constructor
  · intro j mem
    apply bindNext_congr _ mem
    intro k mem
    rw [bindPrev_of_notMem (spot.before_ne_behind mem), samePre k mem]
  · intro j mem
    rw [bindNext_of_notMem fun mem' => spot.before_ne_behind mem' mem]
    exact bindPrev_congr samePost mem

/-- With another hole than the one at 0 in front, the link to it is 0 only if there is none. -/
lemma prev_eq_zero (front : pre ≠ [] → lastIdx 0 pre ≠ 0) : lastIdx 0 pre = 0 ↔ pre = [] := by
  constructor
  · intro zero
    by_contra ne
    exact front ne zero
  · rintro rfl
    rfl

/-- Complete overlap: the hole is removed. -/
lemma Spot.fix_remove (spot : Spot m pre i e post) (front : pre ≠ [] → lastIdx 0 pre ≠ 0)
    (oi : o ≤ i) (le : e ≤ 8 * o + n) : fixHoles m first i o n =
      .ok (pokeNext (pokePrev m post (lastIdx 0 pre)) pre (headIdx 0 post),
        if pre = [] ∧ post ≠ [] then headIdx 0 post else first, decide (pre ++ post = [])) := by
  have last := spot.lt
  simp only [fixHoles, peek_lastByte last, peek_prevHole last, peek_nextHole last, spot.node, bind,
    Except.bind, pure, Except.pure]
  rw [if_pos ⟨oi, by omega⟩]
  by_cases pe : pre = []
  · by_cases qe : post = []
    · simp [pe, qe, lastIdx, headIdx, pokeNext, pokePrev]
    · have qz := mt spot.next_eq_zero.1 qe
      simp [pe, qe, qz, lastIdx, poke_eq (spot.head_lt qe), pokeNext, pokePrev]
  · have pz := mt (prev_eq_zero front).1 pe
    by_cases qe : post = []
    · simp [pe, qe, pz, headIdx, poke_eq (spot.last_lt pe), pokeNext, pokePrev]
    · have qz := mt spot.next_eq_zero.1 qe
      simp [pe, qe, pz, qz, poke_eq (spot.head_lt qe), poke_eq (spot.last_lt pe), pokeNext, pokePrev]

/-- Overlap with the final part: the hole is shortened. -/
lemma Spot.fix_shorten (spot : Spot m pre i e post) (lt : i < o) (le : e ≤ 8 * o + n) :
    fixHoles m first i o n = .ok (m.set16 (Field.lastByte.addr i) (8 * o), first, false) := by
  have last := spot.lt
  simp only [fixHoles, peek_lastByte last, spot.node, bind, Except.bind, pure, Except.pure,
    poke_eq last]
  rw [if_neg (by omega), if_pos (by omega)]

/-- Where the rest of a hole begins. -/
lemma newh_eq : ((o : Int) + (n : Int).tdiv 8).toNat = o + n / 8 := by
  rw [Int.tdiv_eq_ediv_of_nonneg (by omega)]
  omega

/-- Overlap with the initial part: the hole is moved. -/
lemma Spot.fix_move (spot : Spot m pre i e post) (front : pre ≠ [] → lastIdx 0 pre ≠ 0)
    (oi : o ≤ i) (gt : 8 * o + n < e) (fits : o + n / 8 < maxHoles)
    (fresh : o + n / 8 ∉ (pre ++ [(i, e)] ++ post).map Prod.fst) : fixHoles m first i o n =
      .ok (pokeNext (pokePrev (m.memmove (ipHdrSize + 8 * (o + n / 8)) (ipHdrSize + 8 * i) 8) post
        (o + n / 8)) pre (o + n / 8), if pre = [] then o + n / 8 else first, false) := by
  have last := spot.lt
  have small : o + n / 8 < 65536 := Nat.lt_trans fits (by decide)
  rw [List.map_append, List.map_append, List.mem_append, List.mem_append, not_or, not_or] at fresh
  simp only [fixHoles, peek_lastByte last, spot.node, bind, Except.bind, pure, Except.pure, newh_eq]
  rw [if_neg (by omega), if_neg (by omega), if_pos oi, copyHole,
    if_pos ⟨fits, last⟩]
  simp only [peek_nextHole fits, peek_prevHole fits, holeAt_copy, Function.update_self, spot.node,
    spot.linkBack_eq, holeAt_pokePrev small, bindPrev_of_notMem fresh.2]
  by_cases pe : pre = []
  · simp [pe, lastIdx, pokeNext]
  · have pz := mt (prev_eq_zero front).1 pe
    simp [pe, pz, poke_eq (spot.last_lt pe), pokeNext]

/-- The descriptors of a split hole, before the hole behind is told. -/
def splitAt (m : Mem) (i o n : Nat) : Mem :=
  (((m.memmove (ipHdrSize + 8 * (o + n / 8)) (ipHdrSize + 8 * i) 8).set16
    (Field.lastByte.addr i) (8 * o)).set16 (Field.nextHole.addr i) (o + n / 8)).set16
      (Field.prevHole.addr (o + n / 8)) i

/-- What the descriptors of a split hole say. -/
lemma holeAt_splitAt (lo : 8 * o < 65536) (hi : o + n / 8 < 65536) (ilt : i < 65536)
    (ne : o + n / 8 ≠ i) : holeAt (splitAt m i o n) =
      Function.update (Function.update (holeAt m) i { holeAt m i with val := 8 * o, next := o + n / 8 })
        (o + n / 8) { holeAt m i with prev := i } := by
  rw [splitAt, holeAt_setPrev ilt, holeAt_setNext hi, holeAt_setLast lo, holeAt_copy]
  simp only [setPrev, setNext]
  funext j
  by_cases jn : j = o + n / 8
  · subst jn
    simp [Function.update_of_ne ne]
  · by_cases ji : j = i
    · subst ji
      simp [Function.update_of_ne jn]
    · simp [Function.update_of_ne jn, Function.update_of_ne ji]

/-- The fragment sits in the middle: the hole is split. -/
lemma Spot.fix_split (spot : Spot m pre i e post) (lt : i < o) (gt : 8 * o + n < e)
    (fits : o + n / 8 < maxHoles) : fixHoles m first i o n =
      .ok (pokePrev (splitAt m i o n) post (o + n / 8), first, false) := by
  have last := spot.lt
  have small : ∀ j, j < maxHoles → j < 65536 := fun j lt => Nat.lt_trans lt (by decide)
  have next : (holeAt (splitAt m i o n) (o + n / 8)).next = headIdx 0 post := by
    rw [holeAt_splitAt (by rw [maxHoles_eq] at fits; omega) (small _ fits) (small _ last) (by omega)]
    simp [spot.node]
  simp only [fixHoles, peek_lastByte last, spot.node, bind, Except.bind, pure, Except.pure, newh_eq]
  rw [if_neg (by omega), if_neg (by omega), if_neg (by omega), copyHole, if_pos ⟨fits, last⟩]
  simp only [poke_eq last, poke_eq fits]
  rw [← splitAt]
  simp only [peek_nextHole fits, next, spot.linkBack_eq]

/-- The bytes of the list of holes: before a fragment is taken out, and after. -/
abbrev touched (pre : List (Nat × Nat)) (i e o n : Nat) (post : List (Nat × Nat)) : List Nat :=
  (pre ++ [(i, e)] ++ post).map Prod.fst ++ (pieces i e o n).map Prod.fst

lemma pre_touched : pre.map Prod.fst ⊆ touched pre i e o n post := by
  intro j mem
  simp only [touched, List.map_append, List.mem_append]
  exact .inl (.inl (.inl mem))

lemma post_touched : post.map Prod.fst ⊆ touched pre i e o n post := by
  intro j mem
  simp only [touched, List.map_append, List.mem_append]
  exact .inl (.inr mem)

/-- What is done to the list when a fragment is taken out of a hole. -/
structure Fixed (m : Mem) (pre : List (Nat × Nat)) (i e o n : Nat) (post : List (Nat × Nat))
    (m' : Mem) (first' : Nat) : Prop where
  recorded : Recorded m' (pre ++ pieces i e o n ++ post)
  first : pre ++ pieces i e o n ++ post ≠ [] → first' = headIdx 0 (pre ++ pieces i e o n ++ post)
  within : Within (touched pre i e o n post) m m'

lemma Spot.removed (spot : Spot m pre i e post) (oi : o ≤ i) (le : e ≤ 8 * o + n)
    (hf : pre ≠ [] → first = headIdx 0 (pre ++ (i, e) :: post)) :
    Fixed m pre i e o n post (pokeNext (pokePrev m post (lastIdx 0 pre)) pre (headIdx 0 post))
      (if pre = [] ∧ post ≠ [] then headIdx 0 post else first) := by
  have none : pieces i e o n = [] := by simp [pieces, Nat.not_lt.2 oi, Nat.not_lt.2 le]
  have small : maxHoles < 65536 := by decide
  have lastLt : lastIdx 0 pre < 65536 := by
    by_cases pe : pre = []
    · simp [pe, lastIdx]
    · exact Nat.lt_trans (spot.last_lt pe) small
  have headLt : headIdx 0 post < 65536 := by
    by_cases qe : post = []
    · simp [qe, headIdx]
    · exact Nat.lt_trans (spot.head_lt qe) small
  obtain ⟨left, right⟩ := spot.relink lastLt headLt (fun _ _ => rfl) fun _ _ => rfl
  refine ⟨?_, ?_, ?_⟩
  · rw [none]
    exact spot.exchange .nil (by simp) (by simp) left right trivial
  · rw [none, List.append_nil]
    intro ne
    by_cases pe : pre = []
    · subst pe
      rw [if_pos ⟨rfl, ne⟩]
      rfl
    · rw [if_neg (fun h => pe h.1), hf pe, headIdx_append, headIdx_append, headIdx_of_ne_nil pe]
  · exact (Within.pokePrev post_touched).trans (.pokeNext pre_touched)

/-- The end of a hole is changed, and its place in the list is not. -/
lemma Spot.setLast (spot : Spot m pre i e post) (lt : v < 65536) :
    Recorded (m.set16 (Field.lastByte.addr i) v) (pre ++ [(i, v)] ++ post) := by
  have seg := spot.seg
  rw [Seg.append, Seg.append] at seg
  refine spot.exchange (by simp) (by simpa using spot.lt) (by simpa using spot.behind) ?_ ?_ ?_
  · intro j mem
    have := spot.before j mem
    rw [holeAt_set_of_ne (by omega)]
    exact (congrFun seg.1.1.bindNext_self j).symm
  · intro j mem
    have := spot.behind j mem
    rw [holeAt_set_of_ne (by omega)]
    rw [lastIdx_append] at seg
    exact (congrFun seg.2.bindPrev_self j).symm
  · refine ⟨?_, trivial⟩
    rw [holeAt_setLast lt, Function.update_self, spot.node]
    rfl

lemma Spot.shortened (spot : Spot m pre i e post) (lt : i < o) (le : e ≤ 8 * o + n)
    (room : 8 * o < 65536) (hf : first = headIdx 0 (pre ++ (i, e) :: post)) :
    Fixed m pre i e o n post (m.set16 (Field.lastByte.addr i) (8 * o)) first := by
  have one : pieces i e o n = [(i, 8 * o)] := by simp [pieces, lt, Nat.not_lt.2 le]
  refine ⟨one ▸ spot.setLast room, ?_, ?_⟩
  · intro _
    rw [hf, one, List.append_assoc, headIdx_append, headIdx_append]
    rfl
  · exact .set16 (by simp)

/-- The rest of a hole behind a fragment. -/
structure Rest (i o n : Nat) (post : List (Nat × Nat)) : Prop where
  fits : o + n / 8 < maxHoles
  behind : i < o + n / 8
  before : ∀ j ∈ post.map Prod.fst, o + n / 8 < j

lemma Spot.fresh (spot : Spot m pre i e post) (rest : Rest i o n post) :
    o + n / 8 ∉ (pre ++ [(i, e)] ++ post).map Prod.fst := by
  have := rest.behind
  simp only [List.map_append, List.mem_append]
  rintro ((mem | mem) | mem)
  · have := spot.before _ mem
    omega
  · simp at mem
    omega
  · exact Nat.lt_irrefl _ (rest.before _ mem)

lemma Spot.moved (spot : Spot m pre i e post) (oi : o ≤ i) (gt : 8 * o + n < e)
    (rest : Rest i o n post) (hf : pre ≠ [] → first = headIdx 0 (pre ++ (i, e) :: post)) :
    Fixed m pre i e o n post
      (pokeNext (pokePrev (m.memmove (ipHdrSize + 8 * (o + n / 8)) (ipHdrSize + 8 * i) 8) post
        (o + n / 8)) pre (o + n / 8)) (if pre = [] then o + n / 8 else first) := by
  have one : pieces i e o n = [(o + n / 8, e)] := by simp [pieces, Nat.not_lt.2 oi, gt]
  have small : o + n / 8 < 65536 := Nat.lt_trans rest.fits (by decide)
  have fresh := spot.fresh rest
  simp only [List.map_append, List.mem_append, not_or] at fresh
  have same : ∀ j, j ≠ o + n / 8 →
      holeAt (m.memmove (ipHdrSize + 8 * (o + n / 8)) (ipHdrSize + 8 * i) 8) j = holeAt m j := by
    intro j ne
    rw [holeAt_copy, Function.update_of_ne ne]
  obtain ⟨left, right⟩ := spot.relink small small
    (fun j mem => same j fun eq => fresh.1.1 (eq ▸ mem)) fun j mem => same j fun eq => fresh.2 (eq ▸ mem)
  refine ⟨?_, ?_, ?_⟩
  · rw [one]
    refine spot.exchange (by simp) ?_ (by simpa using rest.before) left right ?_
    · simpa using ⟨Nat.le_of_lt rest.behind, rest.fits⟩
    · refine ⟨?_, trivial⟩
      rw [holeAt_pokeNext small, holeAt_pokePrev small, bindNext_of_notMem fresh.1.1,
        bindPrev_of_notMem fresh.2, holeAt_copy, Function.update_self, spot.node]
      rfl
  · intro _
    rw [one, List.append_assoc, headIdx_append]
    by_cases pe : pre = []
    · subst pe
      rfl
    · rw [if_neg pe, hf pe, headIdx_append, headIdx_of_ne_nil pe]
  · refine (Within.copy ?_).trans ((Within.pokePrev post_touched).trans (.pokeNext pre_touched))
    rw [touched, one]
    simp

lemma Spot.splitted (spot : Spot m pre i e post) (lt : i < o) (gt : 8 * o + n < e)
    (rest : Rest i o n post) (hf : first = headIdx 0 (pre ++ (i, e) :: post)) :
    Fixed m pre i e o n post (pokePrev (splitAt m i o n) post (o + n / 8)) first := by
  have two : pieces i e o n = [(i, 8 * o), (o + n / 8, e)] := by simp [pieces, lt, gt]
  have fits := rest.fits
  rw [maxHoles_eq] at fits
  have ilt := spot.lt
  rw [maxHoles_eq] at ilt
  have fresh := spot.fresh rest
  simp only [List.map_append, List.mem_append, not_or] at fresh
  have behind := rest.behind
  have nodes := @holeAt_splitAt m i n o (by omega) (by omega) (by omega) (by omega)
  have same : ∀ j, j ≠ i → j ≠ o + n / 8 → holeAt (splitAt m i o n) j = holeAt m j := by
    intro j ne1 ne2
    rw [nodes, Function.update_of_ne ne2, Function.update_of_ne ne1]
  have seg := spot.seg
  rw [Seg.append, Seg.append] at seg
  refine ⟨?_, ?_, ?_⟩
  · rw [two]
    refine spot.exchange (by simpa using behind) ?_ ?_ ?_ ?_ ?_
    · simpa using ⟨spot.lt, Nat.le_of_lt behind, rest.fits⟩
    · intro j mem k mem'
      simp only [List.map_cons, List.map_nil, List.mem_cons, List.not_mem_nil, or_false] at mem
      rcases mem with rfl | rfl
      · exact spot.behind k mem'
      · exact rest.before k mem'
    · intro j mem
      have := spot.before j mem
      rw [holeAt_pokePrev (by omega), bindPrev_of_notMem (spot.before_ne_behind mem),
        same j (by omega) (by omega)]
      exact (congrFun seg.1.1.bindNext_self j).symm
    · intro j mem
      rw [holeAt_pokePrev (by omega)]
      refine bindPrev_congr (fun k mem => same k ?_ ?_) mem
      · exact Nat.ne_of_gt (spot.behind k mem)
      · exact Nat.ne_of_gt (rest.before k mem)
    · have inot : i ∉ post.map Prod.fst := fun mem => Nat.lt_irrefl _ (spot.behind i mem)
      rw [holeAt_pokePrev (by omega)]
      refine ⟨?_, ?_, trivial⟩
      · rw [bindPrev_of_notMem inot, nodes, Function.update_of_ne (by simp; omega),
          Function.update_self, spot.node]
        rfl
      · rw [bindPrev_of_notMem fresh.2, nodes, Function.update_self, spot.node]
        rfl
  · intro _
    rw [hf, two, List.append_assoc, headIdx_append, headIdx_append]
    rfl
  · have mem1 : i ∈ touched pre i e o n post := by simp
    have mem2 : o + n / 8 ∈ touched pre i e o n post := by
      rw [touched, two]
      simp
    have steps : Within (touched pre i e o n post) m (splitAt m i o n) :=
      (((Within.copy mem2).trans (.set16 mem1)).trans (.set16 mem1)).trans (.set16 mem2)
    exact steps.trans (.pokePrev post_touched)

/-- A fragment that overlaps a hole is taken out of it, whichever of the four cases it is. The
first hole of the list matters only where it stays. -/
lemma fixHoles_spec (rec : Recorded m (pre ++ (i, e) :: post))
    (hf : pre ≠ [] ∨ i < o → first = headIdx 0 (pre ++ (i, e) :: post)) (room : 8 * o < 65536)
    (front : o ≤ i → pre ≠ [] → lastIdx 0 pre ≠ 0)
    (rest : 8 * o + n < e → Rest i o n post) :
    ∃ m' first', fixHoles m first i o n =
        .ok (m', first', decide (pre ++ pieces i e o n ++ post = [])) ∧
      Fixed m pre i e o n post m' first' := by
  have spot := rec.spot
  by_cases lt : i < o
  · have ne : decide (pre ++ pieces i e o n ++ post = []) = false := by simp [pieces, lt]
    have hf := hf (.inr lt)
    rw [ne]
    by_cases gt : 8 * o + n < e
    · exact ⟨_, _, spot.fix_split lt gt (rest gt).fits, spot.splitted lt gt (rest gt) hf⟩
    · exact ⟨_, _, spot.fix_shorten lt (Nat.not_lt.1 gt),
        spot.shortened lt (Nat.not_lt.1 gt) room hf⟩
  · have oi := Nat.not_lt.1 lt
    have hf := fun ne => hf (.inl ne)
    by_cases gt : 8 * o + n < e
    · have ne : decide (pre ++ pieces i e o n ++ post = []) = false := by simp [pieces, gt]
      rw [ne]
      exact ⟨_, _, spot.fix_move (front oi) oi gt (rest gt).fits (spot.fresh (rest gt)),
        spot.moved oi gt (rest gt) hf⟩
    · have none : pieces i e o n = [] := by simp [pieces, lt, gt]
      refine ⟨_, _, ?_, spot.removed oi (Nat.not_lt.1 gt) hf⟩
      rw [none, List.append_nil]
      exact spot.fix_remove (front oi) oi (Nat.not_lt.1 gt)

end Imx.Defrag
