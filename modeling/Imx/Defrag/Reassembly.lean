import Mathlib.Data.Nat.Find
import Imx.Base.Run
import Imx.Defrag.Datagram

/-!
# Reassembly

What the deliveries of the fragments of one datagram return. `Holding` ties the buffer to the holes
that are recorded in it and to the fragments that have arrived; every delivery that `Ok` admits
keeps it (`Run.Inv.step`), and with it the packet is returned exactly when the set is complete
(`run_reassembles`).

`Ok` leaves out what the list of holes cannot take. A link of value 0 means both the hole at the
start of the payload and no hole, so that the hole at the start is lost when the second hole is
removed or moved (`AtSecondHole`). And the function does not note that a packet was completed: from
then on the bytes of the payload are read as holes, by further copies of the fragments and by a
later datagram with the same `ip_id`.
-/

namespace Imx.Defrag
open Imx.Base

variable {dg : Datagram} {j k a i e e' o l : Nat} {ip m : Mem} {got : List Nat} {st st' : State}
variable {pre post xs : List (Nat × Nat)}

/-! ## Taking in one fragment -/

/-- What a fragment of `l` bytes at index `o` does to the static variables: the holes `xs` are
recorded, and apart from the header only the data and the descriptors at `is` are written. -/
structure Taken (ip : Mem) (o l : Nat) (st : State) (is : List Nat) (xs : List (Nat × Nat))
    (st' : State) : Prop where
  recorded : Recorded st'.pktBuff xs
  first : xs ≠ [] → st'.firstHole = headIdx 0 xs
  total : st'.totalLen = if moreFrags ip then st.totalLen else 8 * o + l
  data : ∀ a, a < l → st'.pktBuff (ipHdrSize + 8 * o + a) = ip (ipHdrSize + a)
  keep : ∀ a, a ≠ 2 → a ≠ 3 → (∀ i ∈ is, a < ipHdrSize + 8 * i ∨ ipHdrSize + 8 * i + 8 ≤ a) →
    (a < ipHdrSize + 8 * o ∨ ipHdrSize + 8 * o + l ≤ a) → st'.pktBuff a = st.pktBuff a

/-- The hole is truncated when the fragment is the last one. -/
lemma truncate_spec (rec : Recorded st.pktBuff (pre ++ (i, e) :: post)) (room : 8 * o + l < 65536)
    (cut : e' = if moreFrags ip then e else 8 * o + l) :
    ∃ m, truncate st i (8 * o) l (moreFrags ip) =
        .ok ⟨m, st.firstHole, if moreFrags ip then st.totalLen else 8 * o + l⟩ ∧
      Recorded m (pre ++ (i, e') :: post) ∧ Within [i] st.pktBuff m := by
  have spot := rec.spot
  cases more : moreFrags ip with
  | true =>
    rw [more, if_pos rfl] at cut
    subst cut
    exact ⟨st.pktBuff, by simp [truncate], rec, .refl⟩
  | false =>
    rw [more, if_neg (by simp)] at cut
    subst cut
    refine ⟨st.pktBuff.set16 (Field.lastByte.addr i) (8 * o + l), ?_, ?_, .set16 (by simp)⟩
    · have sum : (((8 * o : Nat) : Int) + (l : Int)).toNat = 8 * o + l := by omega
      simp only [truncate, Bool.false_eq_true, if_false, sum, poke_eq spot.lt, bind, Except.bind,
        Nat.mod_eq_of_lt room]
      rfl
    · have := spot.setLast room
      rwa [List.append_assoc, List.singleton_append] at this

/-- The walk of a call. -/
lemma Recorded.walk (rec : Recorded m xs) (ne : xs ≠ []) :
    walk m (8 * o) 65536 (headIdx 0 xs) = .ok ((xs.find? fun x => 8 * o ≤ x.2).map Prod.fst) := by
  have len := rec.length_le
  rw [maxHoles_eq] at len
  exact walk_spec rec.seg rec.sorted rec.bound ne (by omega)

/-- Taking in a fragment at the hole the walk has found. The holes in front of it may be fewer than
those the walk went over, as long as the first hole does not stay. -/
lemma take_at (prep : st.prepare ip = st) (hl : fragLen ip = l)
    (ho : offset8 ip = o) (room : 8 * o + l ≤ ipMaxudp) (near : i < o + (l + 7) / 8)
    (walked : Defrag.walk st.pktBuff (8 * o) 65536 st.firstHole = .ok (some i))
    (rec : Recorded st.pktBuff (pre ++ (i, e) :: post))
    (hf : pre ≠ [] ∨ i < o → st.firstHole = headIdx 0 (pre ++ (i, e) :: post))
    (cut : e' = if moreFrags ip then e else 8 * o + l)
    (front : o ≤ i → pre ≠ [] → lastIdx 0 pre ≠ 0) (rest : 8 * o + l < e' → Rest i o l post)
    (clear : ∀ x ∈ pre ++ pieces i e' o l ++ post, 8 * x.1 + 8 ≤ 8 * o ∨ 8 * o + l ≤ 8 * x.1) :
    ∃ st', defragment st ip = .ok (st', if pre ++ pieces i e' o l ++ post = [] then
        some (st'.totalLen + ipHdrSize) else none) ∧
      Taken ip o l st (touched pre i e' o l post) (pre ++ pieces i e' o l ++ post) st' := by
  rw [show ipMaxudp = 16464 from rfl] at room
  obtain ⟨m1, trunc, rec1, within1⟩ := truncate_spec rec (by omega) cut
  obtain ⟨m2, first', fixed, fix⟩ := @fixHoles_spec m1 i l o e' pre post st.firstHole rec1
    (fun h => by rw [hf h, headIdx_append, headIdx_append]; rfl) (by omega) front rest
  obtain ⟨m3, hm3⟩ : ∃ m3, m3 = m2.write (ipHdrSize + 8 * o) (ip.read ipHdrSize l) := ⟨_, rfl⟩
  have copied : copyData m2 ip (8 * o) l = .ok m3 := by
    rw [copyData, if_pos ⟨by omega, by simp [ipHdrSize, ipPktsize]; omega⟩, Int.toNat_natCast, hm3]
  have data : ∀ a, a < l → m3 (ipHdrSize + 8 * o + a) = ip (ipHdrSize + a) := by
    intro a lt
    rw [hm3, Mem.write_at (by simpa using lt)]
    simp [Mem.read]
  have apart : ∀ a, (a < ipHdrSize + 8 * o ∨ ipHdrSize + 8 * o + l ≤ a) → m3 a = m2 a := by
    rintro a (lt | ge)
    · exact hm3 ▸ Mem.write_below lt
    · exact hm3 ▸ Mem.write_above (by simpa using ge)
  have keep : ∀ a, (∀ j ∈ touched pre i e' o l post, a < ipHdrSize + 8 * j ∨
      ipHdrSize + 8 * j + 8 ≤ a) → (a < ipHdrSize + 8 * o ∨ ipHdrSize + 8 * o + l ≤ a) →
      m3 a = st.pktBuff a := by
    intro a out ge
    rw [apart a ge, fix.within a out, within1 a]
    exact fun j mem => out j (by simp at mem; simp [mem])
  have recorded : Recorded m3 (pre ++ pieces i e' o l ++ post) := by
    refine fix.recorded.congr fun j mem b lt => apart _ ?_
    obtain ⟨x, memx, rfl⟩ := List.mem_map.1 mem
    have := clear x memx
    omega
  have notFar : ¬ (((8 * o : Nat) : Int) + (l : Int)) % 2 ^ 32 > (ipMaxudp : Int) := by
    rw [show (ipMaxudp : Int) = 16464 from rfl]
    omega
  have notDup : ¬ (o : Int) + ((l : Int) + 7).tdiv 8 ≤ (i : Int) := by
    rw [Int.tdiv_eq_ediv_of_nonneg (by omega)]
    omega
  simp only [defragment, ho, hl, if_neg notFar, prep, walked, bind, Except.bind, pure, Except.pure,
    if_neg notDup, trunc, fixed, copied, decide_eq_true_eq]
  by_cases empty : pre ++ pieces i e' o l ++ post = []
  · simp only [if_pos empty]
    refine ⟨_, rfl, empty ▸ ⟨trivial, by simp, by simp⟩, fun ne => absurd empty ne, rfl, ?_, ?_⟩
    · intro a lt
      exact (Mem.write_above (by simp [ipHdrSize]; omega)).trans (data a lt)
    · intro a n2 n3 out ge
      refine Eq.trans ?_ (keep a out ge)
      obtain lt | gt := Nat.lt_or_gt_of_ne n2
      · exact Mem.write_below lt
      · exact Mem.write_above (by simp; omega)
  · simp only [if_neg empty]
    exact ⟨_, rfl, recorded, fix.first, rfl, data, fun a _ _ => keep a⟩

/-- Taking in a fragment that meets a hole. -/
lemma take_spec (prep : st.prepare ip = st) (hl : fragLen ip = l)
    (ho : offset8 ip = o) (room : 8 * o + l ≤ ipMaxudp) (pos : 0 < l)
    (rec : Recorded st.pktBuff (pre ++ (i, e) :: post))
    (hf : st.firstHole = headIdx 0 (pre ++ (i, e) :: post))
    (skip : ∀ x ∈ pre, x.2 < 8 * o) (stop : 8 * o ≤ e) (le : i ≤ o)
    (cut : e' = if moreFrags ip then e else 8 * o + l)
    (front : o = i → pre ≠ [] → lastIdx 0 pre ≠ 0) (rest : 8 * o + l < e' → Rest i o l post)
    (clear : ∀ x ∈ pre ++ pieces i e' o l ++ post, 8 * x.1 + 8 ≤ 8 * o ∨ 8 * o + l ≤ 8 * x.1) :
    ∃ st', defragment st ip = .ok (st', if pre ++ pieces i e' o l ++ post = [] then
        some (st'.totalLen + ipHdrSize) else none) ∧
      Taken ip o l st (touched pre i e' o l post) (pre ++ pieces i e' o l ++ post) st' := by
  have found : (pre ++ (i, e) :: post).find? (fun x => decide (8 * o ≤ x.2)) = some (i, e) := by
    rw [List.find?_append, List.find?_eq_none.2 (by simpa using skip)]
    simp [stop]
  have walked : Defrag.walk st.pktBuff (8 * o) 65536 st.firstHole = .ok (some i) := by
    rw [hf, rec.walk (by simp), found]
    rfl
  exact take_at prep hl ho room (by omega) walked rec (fun _ => hf) cut
    (fun oi => front (Nat.le_antisymm oi le)) rest clear

/-! ## Runs -/

/-- The static variables and the fragments that were delivered, the latest first. -/
structure Run where
  st : State
  got : List Nat

/-- Before the first fragment. -/
def Run.start (st : State) : Run := ⟨st, []⟩

/-- Deliver a packet that is the fragment of the given number. -/
def Run.step (r : Run) (x : Nat × Mem) : Run where
  st := match defragment r.st x.2 with
    | .ok (st, _) => st
    | .error _ => r.st
  got := x.1 :: r.got

/-- What a delivery has to return: the packet when everything is there, but for the first time, and
a packet only then. -/
def Answer (dg : Datagram) (got got' : List Nat) : Except Fault (State × Option Nat) → Prop
  | .error _ => False
  | .ok (_, none) => Complete dg got' → Complete dg got
  | .ok (st, some lenp) => Complete dg got' ∧ lenp = dg.payload.length + ipHdrSize ∧
      st.pktBuff.read ipHdrSize dg.payload.length = dg.payload

instance {got' : List Nat} : (res : Except Fault (State × Option Nat)) →
    Decidable (Answer dg got got' res)
  | .error _ => inferInstanceAs (Decidable False)
  | .ok (_, none) => inferInstanceAs (Decidable (Complete dg got' → Complete dg got))
  | .ok (st, some lenp) => inferInstanceAs (Decidable (Complete dg got' ∧
      lenp = dg.payload.length + ipHdrSize ∧
      st.pktBuff.read ipHdrSize dg.payload.length = dg.payload))

/-- A delivery returns what it has to. -/
def Correct (dg : Datagram) (r : Run) (x : Nat × Mem) : Prop :=
  Answer dg r.got (x.1 :: r.got) (defragment r.st x.2)

instance {r : Run} {x : Nat × Mem} : Decidable (Correct dg r x) :=
  inferInstanceAs (Decidable (Answer dg r.got (x.1 :: r.got) (defragment r.st x.2)))

/-- No fragment of this datagram has been seen by the static variables: they are as they were at
the start, or they belong to another datagram. -/
def Fresh (dg : Datagram) (st : State) : Prop :=
  st.totalLen = 0 ∨ (st.pktBuff 4, st.pktBuff 5) ≠ dg.id

/-- The fragment begins where the second hole does, and the first hole is at the start: what has
arrived of the fragments before it are exactly those from some `i > 0` on. -/
def AtSecondHole (got : List Nat) (k : Nat) : Prop :=
  k ∉ got ∧ ∃ i, i < k ∧ 0 < i ∧ ∀ j, j < k → (j ∈ got ↔ i ≤ j)

instance : Decidable (AtSecondHole got k) :=
  inferInstanceAs (Decidable (k ∉ got ∧ ∃ i, i < k ∧ 0 < i ∧ ∀ j, j < k → (j ∈ got ↔ i ≤ j)))

/-- A delivery that the list of holes can take. -/
def Ok (dg : Datagram) (r : Run) (x : Nat × Mem) : Prop :=
  IsFrag dg x.1 x.2 ∧ ¬ Complete dg r.got ∧ ¬ AtSecondHole r.got x.1

instance {r : Run} {x : Nat × Mem} : Decidable (Ok dg r x) :=
  inferInstanceAs (Decidable (IsFrag dg x.1 x.2 ∧ ¬ Complete dg r.got ∧ ¬ AtSecondHole r.got x.1))

/-- The invariant of a run: the holes `xs` are recorded, they are what is missing, and everything
else is in its place. -/
structure Holding (dg : Datagram) (st : State) (got : List Nat) (xs : List (Nat × Nat)) : Prop where
  cover : Cover dg got xs
  recorded : Recorded st.pktBuff xs
  first : xs ≠ [] → st.firstHole = headIdx 0 xs
  known : ∀ k ∈ got, k < dg.count
  data : ∀ k ∈ got, ∀ a, dg.off k ≤ a → a < dg.off (k + 1) →
    dg.payload[a]? = some (st.pktBuff (ipHdrSize + a))
  total : ∀ k ∈ got, k + 1 = dg.count → st.totalLen = dg.payload.length
  live : st.totalLen ≠ 0
  id : (st.pktBuff 4, st.pktBuff 5) = dg.id

/-- The descriptors of the holes lie outside of what has arrived. -/
lemma Cover.clear {x : Nat × Nat} (cov : Cover dg got xs) (mem : x ∈ xs) (memk : k ∈ got) :
    8 * x.1 + 8 ≤ dg.off k ∨ dg.off (k + 1) ≤ 8 * x.1 := by
  have shape := cov.shape x mem
  have le := @Datagram.off_le k dg
  have fits := dg.fits
  rw [← Datagram.payload, show ipMaxudp = 16464 from rfl] at fits
  rcases cov.outside k memk x mem with h | h
  · exact .inr h
  · exact .inl (by omega)

/-- A fragment that arrives again changes nothing about what is missing. -/
lemma Cover.again (cov : Cover dg got xs) (mem : k ∈ got) : Cover dg (k :: got) xs := by
  have same : ∀ j, j ∈ k :: got ↔ j ∈ got := by
    intro j
    rw [List.mem_cons]
    exact ⟨fun h => h.elim (fun eq => eq ▸ mem) id, .inr⟩
  obtain ⟨apart, shape, starts, outside, inside⟩ := cov
  refine ⟨apart, shape, ?_, ?_, ?_⟩
  · simpa only [same] using starts
  · simpa only [same] using outside
  · simpa only [same] using inside

/-- A fragment that was taken in. -/
lemma Holding.taken {xs' : List (Nat × Nat)} {is : List Nat} (old : Holding dg st got xs)
    (frag : IsFrag dg k ip) (ho : 8 * o = dg.off k) (hl : dg.off k + l = dg.off (k + 1))
    (pos : 0 < l) (cov : Cover dg (k :: got) xs') (taken : Taken ip o l st is xs' st')
    (sub : ∀ i ∈ is, i ∈ xs.map Prod.fst ∨ i ∈ xs'.map Prod.fst) :
    Holding dg st' (k :: got) xs' where
  cover := cov
  recorded := taken.recorded
  first := taken.first
  known := by
    intro j mem
    rcases List.mem_cons.1 mem with rfl | mem
    · exact frag.lt
    · exact old.known j mem
  data := by
    intro j mem a ge lt
    by_cases own : dg.off k ≤ a ∧ a < dg.off (k + 1)
    · have byte := taken.data (a - 8 * o) (by omega)
      rw [show ipHdrSize + 8 * o + (a - 8 * o) = ipHdrSize + a from by omega] at byte
      rw [frag.byte own.1 own.2, byte, ho]
    · have memj : j ∈ got := by
        rcases List.mem_cons.1 mem with rfl | memj
        · exact absurd ⟨ge, lt⟩ own
        · exact memj
      rw [old.data j memj a ge lt, taken.keep _ (by simp [ipHdrSize]; omega)
        (by simp [ipHdrSize]; omega) ?_ (by omega)]
      intro i memi
      rcases sub i memi with h | h
      · obtain ⟨x, memx, rfl⟩ := List.mem_map.1 h
        have := old.cover.clear memx memj
        omega
      · obtain ⟨x, memx, rfl⟩ := List.mem_map.1 h
        have := cov.clear memx mem
        omega
  total := by
    intro j mem last
    rw [taken.total, frag.more]
    by_cases more : k + 1 < dg.count
    · rcases List.mem_cons.1 mem with rfl | mem
      · omega
      · rw [decide_eq_true more, if_pos rfl]
        exact old.total j mem last
    · have := frag.lt
      rw [decide_eq_false more, if_neg (by simp), ho, hl, show k + 1 = dg.count from by omega,
        Datagram.off_count]
  live := by
    rw [taken.total]
    split
    · exact old.live
    · omega
  id := by
    have low : ∀ a, a ≠ 2 → a ≠ 3 → a < ipHdrSize → st'.pktBuff a = st.pktBuff a :=
      fun a n2 n3 lt => taken.keep a n2 n3 (fun i _ => .inl (by omega)) (.inl (by omega))
    rw [low 4 (by omega) (by omega) (by decide), low 5 (by omega) (by omega) (by decide), old.id]

/-- When nothing is missing, the payload is in the buffer. -/
lemma Holding.payload (hold : Holding dg st got []) :
    st.pktBuff.read ipHdrSize dg.payload.length = dg.payload := by
  have all := hold.cover.nil_iff.1 rfl
  apply List.ext_getElem?
  intro a
  rw [Mem.getElem?_read]
  split
  · rename_i lt
    obtain ⟨k, klt, ge, lt⟩ := Datagram.exists_frag lt
    exact (hold.data k (all k klt) a ge lt).symm
  · rename_i ge
    rw [List.getElem?_eq_none (Nat.not_lt.1 ge)]

/-- Returning the packet when nothing is missing is the right answer. -/
lemma Holding.answer (hold : Holding dg st (k :: got) xs) :
    Answer dg got (k :: got)
      (.ok (st, if xs = [] then some (st.totalLen + ipHdrSize) else none)) := by
  by_cases empty : xs = []
  · subst empty
    have all := hold.cover.nil_iff.1 rfl
    have klt := hold.known k (by simp)
    have total := hold.total (dg.count - 1) (all _ (by omega)) (by omega)
    rw [if_pos rfl]
    exact ⟨all, by rw [total], hold.payload⟩
  · rw [if_neg empty]
    exact fun all => absurd (hold.cover.nil_iff.2 all) empty

/-- The hole in front of the one that is removed or moved is not the hole at 0, unless the fragment
begins where the second hole does. -/
lemma Cover.atSecondHole (filled : dg.Filled) (cov : Cover dg got (pre ++ (i, e) :: post))
    (sorted : (pre.map Prod.fst).Pairwise (· < ·)) (klt : k < dg.count) (no : k ∉ got)
    (eq : dg.off k = 8 * i) (ne : pre ≠ []) (zero : lastIdx 0 pre = 0) : AtSecondHole got k := by
  obtain ⟨e0, rfl⟩ : ∃ e0, pre = [(0, e0)] := by
    cases pre with
    | nil => exact absurd rfl ne
    | cons x pre =>
      cases pre with
      | nil => exact ⟨x.2, by rw [← zero]; rfl⟩
      | cons y pre =>
        have mem : lastIdx 0 (x :: y :: pre) ∈ (y :: pre).map Prod.fst :=
          @lastIdx_mem _ x.1 (y :: pre) (by simp)
        have := (List.pairwise_cons.1 sorted).1 _ mem
        omega
  have head := cov.before (show (0, e0) ∈ [(0, e0)] from by simp)
  simp only at head
  -- what is missing before this fragment is missing in the hole at 0
  have missing : ∀ j, j < k → j ∉ got → dg.off (j + 1) ≤ e0 := by
    intro j jk nj
    obtain ⟨x, mem, h1, h2⟩ := cov.inside j (Nat.lt_trans jk klt) nj
    have lt := Datagram.off_lt filled jk (Nat.lt_trans jk klt)
    rw [List.singleton_append, List.mem_cons, List.mem_cons] at mem
    rcases mem with rfl | rfl | mem
    · exact h2
    · simp only at h1
      omega
    · have := cov.behind mem
      have := (cov.shape (i, e) (by simp)).1
      simp only at this
      omega
  have char : ∀ j, j < k → (j ∈ got ↔ e0 ≤ dg.off j) := by
    intro j jk
    have pos := Datagram.off_lt_succ filled (Nat.lt_trans jk klt)
    constructor
    · intro mem
      rcases cov.outside j mem (0, e0) (by simp) with h | h
      · simp only at h
        omega
      · exact h
    · intro le
      by_contra nj
      have := missing j jk nj
      omega
  have some : ∃ j, j < k ∧ e0 ≤ dg.off j := by
    have kpos : 0 < k := by
      rcases Nat.eq_zero_or_pos k with rfl | h
      · rw [Datagram.off_zero] at eq
        omega
      · exact h
    refine ⟨k - 1, by omega, (char _ (by omega)).1 ?_⟩
    by_contra nj
    have := missing (k - 1) (by omega) nj
    rw [show k - 1 + 1 = k from by omega] at this
    omega
  refine ⟨no, Nat.find some, (Nat.find_spec some).1, ?_, fun j jk => ?_⟩
  · rw [Nat.pos_iff_ne_zero]
    intro z
    have := (Nat.find_spec some).2
    rw [z, Datagram.off_zero] at this
    omega
  · rw [char j jk]
    constructor
    · exact fun le => Nat.find_min' some ⟨jk, le⟩
    · exact fun le => Nat.le_trans (Nat.find_spec some).2 (Datagram.off_mono le)

/-! ## One delivery -/

lemma IsFrag.fragLen (frag : IsFrag dg k ip) : fragLen ip = ((ipLen ip - ipHdrSize : Nat) : Int) := by
  have := frag.len
  rw [Defrag.fragLen]
  omega

/-- The state belongs to the datagram of the fragment, so that it is kept. -/
lemma Holding.prepare (hold : Holding dg st got xs) (frag : IsFrag dg k ip) :
    st.prepare ip = st := by
  have id := hold.id.trans frag.id.symm
  rw [Prod.mk.injEq] at id
  rw [State.prepare, if_neg]
  simp [sameId, hold.live, id.1, id.2]

/-- A fragment that has not arrived yet is taken out of its hole. -/
lemma Holding.deliver_new (filled : dg.Filled) (hold : Holding dg st got xs)
    (frag : IsFrag dg k ip) (no : k ∉ got) (ok : ¬ AtSecondHole got k) :
    ∃ st' xs', defragment st ip = .ok (st', if xs' = [] then some (st'.totalLen + ipHdrSize) else none) ∧
      Holding dg st' (k :: got) xs' := by
  obtain ⟨⟨i, e⟩, mem, low, high⟩ := hold.cover.inside k frag.lt no
  simp only at low high
  obtain ⟨pre, post, rfl⟩ := List.append_of_mem mem
  have begins := frag.off
  have ends := frag.length
  have pos := Datagram.off_lt_succ filled frag.lt
  have le := @Datagram.off_le (k + 1) dg
  have fits := dg.fits
  rw [← Datagram.payload] at fits
  obtain ⟨e', cut⟩ : ∃ e', e' = if moreFrags ip then e else 8 * offset8 ip + (ipLen ip - ipHdrSize) :=
    ⟨_, rfl⟩
  have hole : InHole dg k i e e' (offset8 ip) (ipLen ip - ipHdrSize) := by
    refine ⟨frag.lt, begins, ends, low, high, ?_⟩
    rw [cut, frag.more]
    by_cases more : k + 1 < dg.count
    · exact .inl ⟨more, by simp [more]⟩
    · have := frag.lt
      exact .inr ⟨by omega, by simp [more]; omega⟩
  have cov := hold.cover.take hole filled
  have rest : 8 * offset8 ip + (ipLen ip - ipHdrSize) < e' →
      Rest i (offset8 ip) (ipLen ip - ipHdrSize) post := by
    intro gt
    obtain ⟨more, _, eq⟩ := hole.rest gt
    have := Datagram.off_lt_succ filled more
    have := @Datagram.off_le (k + 1 + 1) dg
    rw [show ipMaxudp = 16464 from rfl] at fits
    refine ⟨by rw [maxHoles_eq]; omega, by omega, fun j memj => ?_⟩
    obtain ⟨x, memx, rfl⟩ := List.mem_map.1 memj
    have := hold.cover.behind memx
    omega
  have spot := hold.recorded.spot
  obtain ⟨st', eq, taken⟩ := @take_spec i e e' (offset8 ip) (ipLen ip - ipHdrSize) ip st pre post
    (hold.prepare frag) frag.fragLen rfl (by omega) (by omega) hold.recorded (hold.first (by simp))
    (fun x mem => by have := hold.cover.before mem; omega) (by omega) (by omega) cut
    (fun eq ne zero => ok (hold.cover.atSecondHole filled spot.preSorted frag.lt no (by omega) ne zero))
    rest (fun x mem => by have := cov.clear mem List.mem_cons_self; omega)
  refine ⟨st', _, eq, hold.taken frag begins ends (by omega) cov taken fun j mem => ?_⟩
  rcases List.mem_append.1 mem with mem | mem
  · exact .inl (by simpa using mem)
  · right
    rw [List.map_append, List.map_append, List.mem_append, List.mem_append]
    exact .inl (.inr mem)

/-- A fragment that arrives again is not looked at, or written over itself. -/
lemma Holding.deliver_again (filled : dg.Filled) (hold : Holding dg st got xs)
    (frag : IsFrag dg k ip) (mem : k ∈ got) (ne : xs ≠ []) :
    ∃ st', defragment st ip = .ok (st', none) ∧ Holding dg st' (k :: got) xs := by
  have begins := frag.off
  have ends := frag.length
  have pos := Datagram.off_lt_succ filled frag.lt
  have le := @Datagram.off_le (k + 1) dg
  have fits := dg.fits
  rw [← Datagram.payload] at fits
  have cov := hold.cover.again mem
  have same : Holding dg st (k :: got) xs := by
    obtain ⟨_, rec, first, known, data, total, live, id⟩ := hold
    have back : ∀ j ∈ k :: got, j ∈ got := by simpa using mem
    exact ⟨cov, rec, first, fun j h => known j (back j h), fun j h => data j (back j h),
      fun j h => total j (back j h), live, id⟩
  have notFar : ¬ (((8 * offset8 ip : Nat) : Int) + fragLen ip) % 2 ^ 32 > (ipMaxudp : Int) := by
    rw [frag.fragLen]
    rw [show ipMaxudp = 16464 from rfl] at fits ⊢
    omega
  cases found : xs.find? (fun x => decide (8 * offset8 ip ≤ x.2)) with
  | none =>
    refine ⟨st, ?_, same⟩
    simp only [defragment, if_neg notFar, hold.prepare frag, hold.first ne, hold.recorded.walk ne,
      found, bind, Except.bind, Option.map_none]
    rfl
  | some x =>
    obtain ⟨i, e⟩ := x
    obtain ⟨stop, pre, post, rfl, skip⟩ := List.find?_eq_some_iff_append.1 found
    simp only [decide_eq_true_eq] at stop
    rcases hold.cover.outside k mem (i, e) (by simp) with h | h
    · -- the hole begins behind the fragment
      refine ⟨st, ?_, same⟩
      have dup : (offset8 ip : Int) + (fragLen ip + 7).tdiv 8 ≤ (i : Int) := by
        rw [frag.fragLen, Int.tdiv_eq_ediv_of_nonneg (by omega)]
        simp only at h
        omega
      simp only [defragment, if_neg notFar, hold.prepare frag, hold.first ne, hold.recorded.walk ne,
        found, bind, Except.bind, Option.map_some, if_pos dup]
      rfl
    · -- the hole ends where the fragment begins
      obtain rfl : e = 8 * offset8 ip := by
        simp only at h
        omega
      have shape := (hold.cover.shape (i, 8 * offset8 ip) (by simp)).1
      simp only at shape
      obtain ⟨e', cut⟩ : ∃ e', e' = if moreFrags ip then 8 * offset8 ip else
          8 * offset8 ip + (ipLen ip - ipHdrSize) := ⟨_, rfl⟩
      have e'le : e' ≤ 8 * offset8 ip + (ipLen ip - ipHdrSize) := by
        rw [cut]
        split <;> omega
      have one : pieces i e' (offset8 ip) (ipLen ip - ipHdrSize) = [(i, 8 * offset8 ip)] := by
        simp [pieces, Nat.not_lt.2 e'le, show i < offset8 ip from by omega]
      have list : pre ++ pieces i e' (offset8 ip) (ipLen ip - ipHdrSize) ++ post =
          pre ++ (i, 8 * offset8 ip) :: post := by
        rw [one]
        simp
      obtain ⟨st', eq, taken⟩ := @take_spec i (8 * offset8 ip) e' (offset8 ip)
        (ipLen ip - ipHdrSize) ip st pre post (hold.prepare frag) frag.fragLen rfl (by omega)
        (by omega) hold.recorded (hold.first ne) (by simpa using skip) (Nat.le_refl _) (by omega) cut
        (fun eq => by omega) (fun gt => by omega)
        (fun x memx => by have := cov.clear (list ▸ memx) List.mem_cons_self; omega)
      rw [list, if_neg ne] at eq
      rw [list] at taken
      refine ⟨st', eq, hold.taken frag begins ends (by omega) cov taken fun j memj => ?_⟩
      rw [touched, one, List.mem_append] at memj
      left
      rcases memj with memj | memj
      · simpa using memj
      · simp only [List.map_cons, List.map_nil, List.mem_singleton] at memj
        simp [memj]

/-- A reset takes over the header. -/
lemma State.reset_header (lt : a < ipHdrSize) : (st.reset ip).pktBuff a = ip a := by
  have := @Mem.write_at (((st.pktBuff.set16 (Field.lastByte.addr 0) 0xffff).set16
    (Field.nextHole.addr 0) 0).set16 (Field.prevHole.addr 0) 0) 0 (ip.read 0 ipHdrSize) a
    (by simpa using lt)
  rw [Nat.zero_add] at this
  exact this.trans (by simp [Mem.read])

/-- After a reset there is one hole. -/
lemma State.reset_recorded : Recorded (st.reset ip).pktBuff [(0, 65535)] := by
  have above : ∀ a, ipHdrSize ≤ a → (st.reset ip).pktBuff a =
      (((st.pktBuff.set16 (Field.lastByte.addr 0) 0xffff).set16 (Field.nextHole.addr 0) 0).set16
        (Field.prevHole.addr 0) 0) a := by
    intro a ge
    simp only [State.reset]
    rw [Mem.write_above (by simpa using ge)]
  have node : holeAt (st.reset ip).pktBuff 0 = ⟨65535, 0, 0⟩ := by
    have keep : ∀ f : Field, (st.reset ip).pktBuff.get16 (f.addr 0) =
        (((st.pktBuff.set16 (Field.lastByte.addr 0) 0xffff).set16
          (Field.nextHole.addr 0) 0).set16 (Field.prevHole.addr 0) 0).get16 (f.addr 0) := by
      intro f
      have := @addr_bounds 0 f
      exact Mem.get16_congr (above _ (by omega)) (above _ (by omega))
    simp only [holeAt, keep]
    rw [Mem.get16_set16_of_disjoint (addr_disjoint (.inr (by simp))),
      Mem.get16_set16_of_disjoint (addr_disjoint (.inr (by simp))), Mem.get16_set16 (by omega),
      Mem.get16_set16_of_disjoint (addr_disjoint (.inr (by simp))), Mem.get16_set16 (by omega),
      Mem.get16_set16 (by omega)]
  exact ⟨⟨node, trivial⟩, by simp, by simp [maxHoles_eq]⟩

/-- The first fragment of a datagram finds one hole. -/
lemma Fresh.prepare (fresh : Fresh dg st) (frag : IsFrag dg k ip) :
    Holding dg (st.prepare ip) [] [(0, 65535)] := by
  have reset : st.prepare ip = st.reset ip := by
    rw [State.prepare, if_pos]
    rcases fresh with h | h
    · exact .inl h
    · right
      rw [← frag.id, Ne, Prod.mk.injEq] at h
      simpa [sameId] using h
  have pos : 0 < dg.count := Nat.lt_of_le_of_lt (Nat.zero_le _) frag.lt
  rw [reset]
  refine ⟨.start pos, State.reset_recorded, fun _ => rfl, by simp, by simp, by simp,
    by simp [State.reset], ?_⟩
  rw [State.reset_header (by decide), State.reset_header (by decide), frag.id]

/-- A fragment that lies in the payload is looked at in the prepared state. -/
lemma IsFrag.defragment_prepare (frag : IsFrag dg k ip)
    (prep : (st.prepare ip).prepare ip = st.prepare ip) :
    defragment st ip = defragment (st.prepare ip) ip := by
  have begins := frag.off
  have ends := frag.length
  have le := @Datagram.off_le (k + 1) dg
  have fits := dg.fits
  rw [← Datagram.payload] at fits
  have notFar : ¬ (((8 * offset8 ip : Nat) : Int) + Defrag.fragLen ip) % 2 ^ 32 > (ipMaxudp : Int) := by
    rw [frag.fragLen]
    rw [show ipMaxudp = 16464 from rfl] at fits ⊢
    omega
  simp only [defragment, if_neg notFar, prep]

/-- The invariant of a run. -/
def Run.Inv (dg : Datagram) (r : Run) : Prop :=
  (r.got = [] ∧ Fresh dg r.st) ∨ ∃ xs, Holding dg r.st r.got xs

variable {r : Run} {x : Nat × Mem}

/-- A delivery into a state that holds the datagram, or that is prepared to. -/
lemma Holding.step (filled : dg.Filled) (hold : Holding dg st r.got xs) (ok : Ok dg r x)
    (same : defragment r.st x.2 = defragment st x.2) :
    Correct dg r x ∧ ∃ xs', Holding dg (r.step x).st (r.step x).got xs' := by
  obtain ⟨frag, missing, front⟩ := ok
  rw [Correct, Run.step, same]
  by_cases mem : x.1 ∈ r.got
  · obtain ⟨st', eq, hold'⟩ := hold.deliver_again filled frag mem (mt hold.cover.nil_iff.1 missing)
    simp only [eq]
    refine ⟨fun all => ?_, xs, hold'⟩
    exact fun j lt => (List.mem_cons.1 (all j lt)).elim (fun e => e ▸ mem) fun h => h
  · obtain ⟨st', xs', eq, hold'⟩ := hold.deliver_new filled frag mem front
    simp only [eq]
    exact ⟨hold'.answer, xs', hold'⟩

/-- One delivery returns what it has to and keeps the invariant. -/
lemma Run.Inv.step (filled : dg.Filled) (inv : r.Inv dg) (ok : Ok dg r x) :
    Correct dg r x ∧ (r.step x).Inv dg := by
  rcases inv with ⟨got, fresh⟩ | ⟨xs, hold⟩
  · have hold := fresh.prepare ok.1
    have same := ok.1.defragment_prepare (hold.prepare ok.1)
    rw [← got] at hold
    obtain ⟨correct, hold'⟩ := hold.step filled ok same
    exact ⟨correct, .inr hold'⟩
  · obtain ⟨correct, hold'⟩ := hold.step filled ok rfl
    exact ⟨correct, .inr hold'⟩

/-- Fragments are put together in every order the list of holes can take: from any state that does
not belong to the datagram, every delivery of a run returns `NULL` as long as something is missing,
and the one that completes the set returns the payload with its length. -/
theorem run_reassembles {st : State} {xs : List (Nat × Mem)} (filled : dg.Filled)
    (fresh : Fresh dg st) (run : Along (Ok dg) Run.step (Run.start st) xs) :
    Along (Correct dg) Run.step (Run.start st) xs := by
  have inv : (Run.start st).Inv dg := .inl ⟨rfl, fresh⟩
  exact run.guarantee inv fun _ _ inv ok => inv.step filled ok

/-- Eight bytes, eight more and five: three fragments. -/
def threeParts : Datagram where
  id := (0, 7)
  frags := [List.replicate 8 0xa, List.replicate 8 0xb, List.replicate 5 0xc]
  aligned := by decide
  fits := by decide

/-- A packet with the fields of the header that matter. -/
def packet (off8 : UInt8) (more : Bool) (data : List UInt8) : Mem :=
  Mem.zero.write 0 ([0x45, 0, 0, 20 + UInt8.ofNat data.length, 0, 7, if more then 0x20 else 0, off8,
    64, 17, 0, 0, 10, 0, 0, 1, 10, 0, 0, 2] ++ data)

/-- The last fragment, the first one twice and the one in the middle. -/
theorem run_reassembles_lastFirst : Along (Correct threeParts) Run.step (Run.start .init)
    [(2, packet 2 false (List.replicate 5 0xc)), (0, packet 0 true (List.replicate 8 0xa)),
      (0, packet 0 true (List.replicate 8 0xa)), (1, packet 1 true (List.replicate 8 0xb))] :=
  run_reassembles (by decide) (.inl rfl) (by decide)

/-- The second fragment and then the third: the hole at the start of the payload is taken for no
hole, and a packet is returned though its first fragment never arrived. -/
theorem run_forgets_first_hole :
    (∀ x ∈ [(1, packet 1 true (List.replicate 8 0xb)), (2, packet 2 false (List.replicate 5 0xc))],
      IsFrag threeParts x.1 x.2) ∧
    ¬ Along (Correct threeParts) Run.step (Run.start .init)
      [(1, packet 1 true (List.replicate 8 0xb)), (2, packet 2 false (List.replicate 5 0xc))] := by
  decide

end Imx.Defrag
