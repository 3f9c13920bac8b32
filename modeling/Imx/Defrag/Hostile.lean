import Imx.Defrag.Reassembly

/-!
# Hostile fragments

What keeps the list of holes whole when the fragments are arbitrary. `Watched` carries the static
variables with what is known of their history: where a hole was recorded that no payload has been
written to since, and whether the packet was returned. `Safe` says that a call stays in the buffer,
that its walk ends and that it visits such holes only. The code leaves this to the sender: `Tame` is
what a fragment must be for the list to be whole afterwards, and `run_safe` says that a run of such
fragments is safe, whatever they hold.
-/

namespace Imx.Defrag
open Imx.Base

/-- The fragment extends too far: the sum is compared as an unsigned number. -/
def TooFar (ip : Mem) : Prop :=
  (((8 * offset8 ip : Nat) : Int) + fragLen ip) % 2 ^ 32 > ipMaxudp

instance {ip : Mem} : Decidable (TooFar ip) := inferInstanceAs (Decidable (_ > _))

/-- The fragment belongs to a new or a different packet. -/
def Resets (st : State) (ip : Mem) : Prop := st.totalLen = 0 ∨ ¬ sameId st.pktBuff ip

instance {st : State} {ip : Mem} : Decidable (Resets st ip) :=
  inferInstanceAs (Decidable (_ ∨ _))

/-- The holes that the walk visits. -/
def visits (m : Mem) (start : Nat) : Nat → Nat → List Nat
  | 0, _ => []
  | fuel + 1, h =>
    h :: if (holeAt m h).val < start ∧ (holeAt m h).next ≠ 0 then
        visits m start fuel (holeAt m h).next
      else
        []

/-- The hole that a fragment is taken out of: the one the walk finds, if the fragment reaches it. -/
def target (st : State) (ip : Mem) : Option Nat :=
  match walk st.pktBuff (8 * offset8 ip) 65536 st.firstHole with
  | .ok (some h) => if (offset8 ip : Int) + (fragLen ip + 7).tdiv 8 ≤ h then none else some h
  | _ => none

/-- A hole is recorded behind the fragment: it is moved or split. -/
def KeepsBehind (st : State) (ip : Mem) (h : Nat) : Prop :=
  moreFrags ip ∧ ((8 * offset8 ip : Nat) : Int) + fragLen ip < (holeAt st.pktBuff h).val

instance {st : State} {ip : Mem} {h : Nat} : Decidable (KeepsBehind st ip h) :=
  inferInstanceAs (Decidable (_ ∧ _))

/-- The payload is written to the place of a hole. -/
def Overwrites (ip : Mem) (j : Nat) : Prop :=
  8 * offset8 ip < 8 * j + 8 ∧ ((8 * j : Nat) : Int) < ((8 * offset8 ip : Nat) : Int) + fragLen ip

instance {ip : Mem} {j : Nat} : Decidable (Overwrites ip j) := inferInstanceAs (Decidable (_ ∧ _))

/-- The static variables; where a hole is recorded and no payload was written since; whether the
packet was returned. -/
structure Watched where
  st : State
  live : List Nat
  returned : Bool

namespace Watched

variable (t : Watched) (ip : Mem)

/-- What a fragment is looked at in. -/
def prepare : Watched :=
  if Resets t.st ip then ⟨t.st.reset ip, [0], false⟩ else t

/-- The holes that are recorded after a fragment was taken in. -/
def liveAfter : List Nat :=
  match target t.st ip with
  | none => t.live
  | some h =>
    ((if KeepsBehind t.st ip h then [((offset8 ip : Int) + (fragLen ip).tdiv 8).toNat] else []) ++
      t.live).filter fun j => ¬ Overwrites ip j

/-- Take in a fragment. -/
def step : Watched :=
  if TooFar ip then t
  else
    match defragment t.st ip with
    | .ok (st, out) => ⟨st, (t.prepare ip).liveAfter ip, (t.prepare ip).returned || out.isSome⟩
    | .error _ => t

/-- The call stays in the buffer and returns, and the holes it visits are recorded and were not
written over. -/
def Safe : Prop :=
  (∃ res, defragment t.st ip = .ok res) ∧
    (¬ TooFar ip → ∀ h ∈ visits (t.prepare ip).st.pktBuff (8 * offset8 ip) 65536
      (t.prepare ip).st.firstHole, h ∈ (t.prepare ip).live)

end Watched

/-- A fragment that the hole `h` can take: it has no negative length, keeps out of the next hole,
and when a part of the hole is kept behind it, the descriptor of that part has a place at its
end. -/
structure Fitting (st : State) (ip : Mem) (h : Nat) : Prop where
  len : 0 ≤ fragLen ip
  apart : (holeAt st.pktBuff h).next ≠ 0 →
    ((8 * offset8 ip : Nat) : Int) + fragLen ip ≤ ((8 * (holeAt st.pktBuff h).next : Nat) : Int)
  kept : KeepsBehind st ip h →
    8 ∣ fragLen ip ∧ (offset8 ip : Int) + fragLen ip / 8 < (maxHoles : Int)

/-- A fragment that the list of holes can take: none of a packet that was returned, and one that
fits the hole it is taken out of, if it is not ignored. -/
def Tame (t : Watched) (ip : Mem) : Prop :=
  ¬ TooFar ip → (t.returned = true → ¬ sameId t.st.pktBuff ip) ∧
    ∀ h, target (t.prepare ip).st ip = some h → Fitting (t.prepare ip).st ip h

instance {st : State} {ip : Mem} {h : Nat} : Decidable (Fitting st ip h) :=
  decidable_of_iff (_ ∧ _ ∧ _) ⟨fun ⟨a, b, c⟩ => ⟨a, b, c⟩, fun ⟨a, b, c⟩ => ⟨a, b, c⟩⟩

instance {t : Watched} {ip : Mem} : Decidable (Tame t ip) :=
  inferInstanceAs (Decidable (¬ TooFar ip → (t.returned = true → ¬ sameId t.st.pktBuff ip) ∧
    ∀ h ∈ target (t.prepare ip).st ip, Fitting (t.prepare ip).st ip h))

variable {t : Watched} {ip m : Mem} {st st' : State} {i e e' o l start fuel h p : Nat}
variable {pre post xs ys : List (Nat × Nat)}

/-! ## Preparing -/

lemma Watched.prepare_st : (t.prepare ip).st = t.st.prepare ip := by
  rw [Watched.prepare]
  by_cases new : Resets t.st ip
  · rw [if_pos new]
    exact (if_pos new).symm
  · rw [if_neg new]
    exact (if_neg new).symm

/-- A state is prepared once. -/
lemma State.prepare_prepare : (st.prepare ip).prepare ip = st.prepare ip := by
  by_cases new : Resets st ip
  · have reset : st.prepare ip = st.reset ip := if_pos new
    rw [reset, State.prepare, if_neg]
    rintro (zero | other)
    · exact absurd zero (show 65535 ≠ 0 by decide)
    · apply other
      rw [sameId, State.reset_header (by decide), State.reset_header (by decide)]
      simp
  · have same : st.prepare ip = st := if_neg new
    rw [same, same]

/-- A fragment is looked at in the prepared state. -/
lemma defragment_prepare (near : ¬ TooFar ip) :
    defragment st ip = defragment (st.prepare ip) ip := by
  rw [TooFar] at near
  simp only [defragment, if_neg near, State.prepare_prepare]

/-! ## The walk -/

/-- The walk visits holes of the list. -/
lemma visits_subset (seg : Seg (holeAt m) p 0 xs) (ne : xs ≠ []) :
    ∀ h ∈ visits m start fuel (headIdx 0 xs), h ∈ xs.map Prod.fst := by
  induction xs generalizing p fuel with
  | nil => exact absurd rfl ne
  | cons x xs ih =>
    obtain ⟨node, seg⟩ := seg
    intro h mem
    cases fuel with
    | zero => exact absurd mem List.not_mem_nil
    | succ fuel =>
      rw [show headIdx 0 (x :: xs) = x.1 from rfl, visits] at mem
      obtain rfl | mem := List.mem_cons.mp mem
      · exact List.mem_cons_self
      · split at mem
        case isTrue on =>
          rw [node] at on mem
          have more : xs ≠ [] := by
            rintro rfl
            exact on.2 rfl
          exact List.mem_cons_of_mem _ (ih seg more h mem)
        case isFalse => exact absurd mem List.not_mem_nil

/-- Without what is in front of it, behind a link of value 0, a list is still one. -/
lemma Recorded.suffix (rec : Recorded m (pre ++ xs)) (zero : lastIdx 0 pre = 0) :
    Recorded m xs := by
  obtain ⟨seg, sorted, bound⟩ := rec
  have behind := (Seg.append.mp seg).2
  rw [zero] at behind
  rw [List.map_append] at sorted bound
  exact ⟨behind, (List.pairwise_append.mp sorted).2.1,
    fun i mem => bound i (List.mem_append_right _ mem)⟩

/-! ## The invariant -/

/-- The holes `xs` are recorded, one after the other, and none was written over. -/
structure Whole (t : Watched) (xs : List (Nat × Nat)) : Prop where
  ne : xs ≠ []
  recorded : Recorded t.st.pktBuff xs
  first : t.st.firstHole = headIdx 0 xs
  filled : ∀ x ∈ xs, 8 * x.1 < x.2
  apart : xs.Pairwise fun x y => x.2 ≤ 8 * y.1
  live : ∀ x ∈ xs, x.1 ∈ t.live

/-- Nothing was received, or the packet was returned, or the list of holes is whole. -/
def Watched.Inv (t : Watched) : Prop :=
  t.st.totalLen = 0 ∨ t.returned = true ∨ ∃ xs, Whole t xs

/-- A fragment is looked at with the list of holes whole. -/
lemma Watched.Inv.prepare (inv : t.Inv) (tame : Tame t ip) (near : ¬ TooFar ip) :
    ∃ xs, Whole (t.prepare ip) xs := by
  rw [Watched.prepare]
  by_cases new : Resets t.st ip
  · rw [if_pos new]
    exact ⟨[(0, 65535)], by simp, State.reset_recorded, rfl, by simp, by simp, by simp⟩
  · rw [if_neg new]
    rw [Resets, not_or, not_not] at new
    obtain zero | returned | whole := inv
    · exact absurd zero new.1
    · exact absurd new.2 ((tame near).1 returned)
    · exact whole

/-- A fragment at index `o` with `l` bytes, and the hole it is taken out of, in its list. -/
structure Fits (pre : List (Nat × Nat)) (i e e' o l : Nat) (post : List (Nat × Nat)) : Prop where
  filled : ∀ x ∈ pre ++ (i, e) :: post, 8 * x.1 < x.2
  apart : (pre ++ (i, e) :: post).Pairwise fun x y => x.2 ≤ 8 * y.1
  skip : ∀ x ∈ pre, x.2 < 8 * o
  stop : 8 * o ≤ e
  next : ∀ x ∈ post, 8 * o + l ≤ 8 * x.1
  cut : 8 * o + l < e' → e' = e ∧ 8 ∣ l

namespace Fits

variable (fits : Fits pre i e e' o l post)
include fits

lemma behind {x : Nat × Nat} (mem : x ∈ post) : e ≤ 8 * x.1 :=
  (List.pairwise_cons.mp (List.pairwise_append.mp fits.apart).2.1).1 x mem

/-- The descriptors keep out of the payload. -/
lemma clear : ∀ x ∈ pre ++ pieces i e' o l ++ post,
    8 * x.1 + 8 ≤ 8 * o ∨ 8 * o + l ≤ 8 * x.1 := by
  intro x mem
  rw [List.mem_append, List.mem_append] at mem
  obtain (mem | mem) | mem := mem
  · have skip := fits.skip x mem
    have filled := fits.filled x (List.mem_append_left _ mem)
    omega
  · obtain ⟨rfl, lt⟩ | ⟨rfl, gt⟩ := mem_pieces.mp mem
    · exact .inl (by simp only; omega)
    · have dvd := (fits.cut gt).2
      exact .inr (by simp only; omega)
  · exact .inr (fits.next x mem)

/-- What is left are holes. -/
lemma filled' : ∀ x ∈ pre ++ pieces i e' o l ++ post, 8 * x.1 < x.2 := by
  intro x mem
  rw [List.mem_append, List.mem_append] at mem
  obtain (mem | mem) | mem := mem
  · exact fits.filled x (List.mem_append_left _ mem)
  · obtain ⟨rfl, lt⟩ | ⟨rfl, gt⟩ := mem_pieces.mp mem
    · simp only
      omega
    · simp only
      omega
  · exact fits.filled x (List.mem_append_right _ (.tail _ mem))

/-- They follow one another. -/
lemma apart' : (pre ++ pieces i e' o l ++ post).Pairwise fun x y => x.2 ≤ 8 * y.1 := by
  obtain ⟨pres, posts, across⟩ := List.pairwise_append.mp fits.apart
  rw [List.pairwise_append, List.pairwise_append]
  refine ⟨⟨pres, ?_, ?_⟩, (List.pairwise_cons.mp posts).2, ?_⟩
  · rw [pieces]
    split
    · split
      · simp only [List.singleton_append, List.pairwise_cons, List.mem_singleton, forall_eq,
          List.not_mem_nil, false_implies, implies_true, List.Pairwise.nil, and_true]
        omega
      · simp
    · split
      · simp
      · simp
  · intro x memx y memy
    have before := across x memx (i, e) List.mem_cons_self
    have skip := fits.skip x memx
    obtain ⟨rfl, lt⟩ | ⟨rfl, gt⟩ := mem_pieces.mp memy
    · exact before
    · simp only
      omega
  · intro x memx y memy
    rw [List.mem_append] at memx
    have behind := fits.behind memy
    obtain memx | memx := memx
    · exact across x memx y (.tail _ memy)
    · have stop := fits.stop
      obtain ⟨rfl, lt⟩ | ⟨rfl, gt⟩ := mem_pieces.mp memx
      · simp only
        omega
      · have cut := (fits.cut gt).1
        simp only
        omega

end Fits

/-! ## One fragment -/

/-- What is not too far lies in the payload. -/
lemma room_of_near (near : ¬ TooFar ip) (hl : fragLen ip = l) : 8 * offset8 ip + l ≤ ipMaxudp := by
  have off : offset8 ip ≤ 0x1fff := Nat.and_le_right
  have high := (ip 2).toNat_lt
  have low := (ip (2 + 1)).toNat_lt
  have len : fragLen ip < 65536 := by
    rw [fragLen, ipLen, Mem.be16]
    omega
  rw [TooFar, show (ipMaxudp : Int) = 16464 from rfl] at near
  rw [show ipMaxudp = 16464 from rfl]
  omega

/-- Without a hole to take it out of, the fragment is ignored. -/
lemma defragment_ignored (near : ¬ TooFar ip) (same : st.prepare ip = st) {r : Option Nat}
    (walked : walk st.pktBuff (8 * offset8 ip) 65536 st.firstHole = .ok r)
    (none : target st ip = none) : defragment st ip = .ok (st, Option.none) := by
  rw [TooFar] at near
  rw [target, walked] at none
  cases r with
  | none => simp only [defragment, if_neg near, same, walked, bind, Except.bind, pure, Except.pure]
  | some h =>
    simp only at none
    split at none
    case isTrue dup =>
      simp only [defragment, if_neg near, same, walked, bind, Except.bind, pure, Except.pure,
        if_pos dup]
    case isFalse => cases none

/-- The hole in front of a hole at 0 is lost when it is removed or moved; else the list in front
stays. -/
lemma Recorded.front (rec : Recorded m (pre ++ (i, e) :: post)) (o : Nat) :
    ∃ pre', pre'.Sublist pre ∧ Recorded m (pre' ++ (i, e) :: post) ∧
      (o ≤ i → pre' ≠ [] → lastIdx 0 pre' ≠ 0) ∧ (pre' ≠ [] ∨ i < o → pre' = pre) := by
  by_cases lost : o ≤ i ∧ lastIdx 0 pre = 0
  · refine ⟨[], List.nil_sublist pre, rec.suffix lost.2, fun _ ne => absurd rfl ne, ?_⟩
    rintro (ne | lt)
    · exact absurd rfl ne
    · omega
  · exact ⟨pre, List.Sublist.refl pre, rec, fun oi _ zero => lost ⟨oi, zero⟩, fun _ => rfl⟩

/-- The hole in front fits as well, if it is lost. -/
lemma Fits.sublist (fits : Fits pre i e e' o l post) {pre' : List (Nat × Nat)}
    (sub : pre'.Sublist pre) : Fits pre' i e e' o l post := by
  obtain ⟨filled, apart, skip, stop, next, cut⟩ := fits
  have all : (pre' ++ (i, e) :: post).Sublist (pre ++ (i, e) :: post) :=
    sub.append (List.Sublist.refl _)
  exact ⟨fun x mem => filled x (all.subset mem), apart.sublist all,
    fun x mem => skip x (sub.subset mem), stop, next, cut⟩

section
variable (whole : Whole t (pre ++ (i, e) :: post)) (hl : fragLen ip = l)
  (fitting : Fitting t.st ip i)
include whole hl fitting

/-- What the conditions say about the list. -/
lemma Fitting.fits (skip : ∀ x ∈ pre, x.2 < 8 * offset8 ip) (stop : 8 * offset8 ip ≤ e)
    (cut : e' = if moreFrags ip then e else 8 * offset8 ip + l) :
    Fits pre i e e' (offset8 ip) l post := by
  have spot := whole.recorded.spot
  refine ⟨whole.filled, whole.apart, skip, stop, ?_, ?_⟩
  · intro x mem
    have ne : post ≠ [] := List.ne_nil_of_mem mem
    have apart := fitting.apart
    rw [spot.node] at apart
    have room := apart (mt spot.next_eq_zero.mp ne)
    simp only at room
    rw [hl] at room
    -- the next hole is the first of those behind
    have least : headIdx 0 post ≤ x.1 := by
      cases post with
      | nil => exact absurd rfl ne
      | cons y post =>
        obtain rfl | mem := List.mem_cons.mp mem
        · exact Nat.le_refl _
        · exact Nat.le_of_lt ((List.pairwise_cons.mp spot.postSorted).1 x.1
            (List.mem_map_of_mem mem))
    omega
  · intro gt
    cases more : moreFrags ip with
    | false =>
      rw [cut, more, if_neg Bool.false_ne_true] at gt
      omega
    | true =>
      rw [more, if_pos rfl] at cut
      have kept : KeepsBehind t.st ip i := by
        refine ⟨more, ?_⟩
        rw [spot.node, hl]
        simp only
        omega
      have dvd := (fitting.kept kept).1
      rw [hl] at dvd
      exact ⟨cut, by omega⟩

/-- A part that is kept behind the fragment has its place. -/
lemma Fitting.rest (fits : Fits pre i e e' (offset8 ip) l post)
    (cut : e' = if moreFrags ip then e else 8 * offset8 ip + l)
    (reach : i < offset8 ip + (l + 7) / 8) (gt : 8 * offset8 ip + l < e') :
    KeepsBehind t.st ip i ∧ Rest i (offset8 ip) l post := by
  have spot := whole.recorded.spot
  obtain ⟨eq, dvd⟩ := fits.cut gt
  have more : moreFrags ip = true := by
    by_contra no
    rw [if_neg no] at cut
    omega
  have kept : KeepsBehind t.st ip i := by
    refine ⟨more, ?_⟩
    rw [spot.node, hl]
    simp only
    omega
  have place := (fitting.kept kept).2
  rw [hl] at place
  refine ⟨kept, by omega, by omega, ?_⟩
  intro j mem
  obtain ⟨x, memx, rfl⟩ := List.mem_map.mp mem
  have behind := fits.behind memx
  omega

/-- A fragment that fits is taken out of its hole, and the list of holes is whole afterwards unless
it is empty. -/
lemma Whole.takeHole (near : ¬ TooFar ip) (same : t.st.prepare ip = t.st)
    (walked : walk t.st.pktBuff (8 * offset8 ip) 65536 t.st.firstHole = .ok (some i))
    (tgt : target t.st ip = some i) (skip : ∀ x ∈ pre, x.2 < 8 * offset8 ip)
    (stop : 8 * offset8 ip ≤ e) (reach : i < offset8 ip + (l + 7) / 8) (b : Bool) :
    ∃ st' out, defragment t.st ip = .ok (st', out) ∧
      (out.isSome = true ∨ ∃ xs', Whole ⟨st', t.liveAfter ip, b⟩ xs') := by
  obtain ⟨e', cut⟩ : ∃ e', e' = if moreFrags ip then e else 8 * offset8 ip + l := ⟨_, rfl⟩
  have fits := fitting.fits whole hl skip stop cut
  have rest := fitting.rest whole hl fits cut reach
  obtain ⟨pre', sub, rec, front, hf⟩ := whole.recorded.front (offset8 ip)
  have fits' := fits.sublist sub
  obtain ⟨st', e1, taken⟩ := take_at same hl rfl (room_of_near near hl) reach walked rec
    (fun h => by rw [hf h]; exact whole.first) cut front (fun gt => (rest gt).2) fits'.clear
  refine ⟨st', _, e1, ?_⟩
  by_cases none : pre' ++ pieces i e' (offset8 ip) l ++ post = []
  · rw [if_pos none]
    exact .inl rfl
  · refine .inr ⟨_, none, taken.recorded, taken.first none, fits'.filled', fits'.apart', ?_⟩
    intro x mem
    have out : ¬ Overwrites ip x.1 := by
      rintro ⟨low, high⟩
      have clear := fits'.clear x mem
      rw [hl] at high
      omega
    rw [Watched.liveAfter, tgt]
    simp only [List.mem_filter, decide_eq_true_eq, List.mem_append]
    refine ⟨?_, out⟩
    rw [List.mem_append, List.mem_append] at mem
    obtain (mem | mem) | mem := mem
    · exact .inr (whole.live x (List.mem_append_left _ (sub.subset mem)))
    · obtain ⟨rfl, -⟩ | ⟨rfl, gt⟩ := mem_pieces.mp mem
      · exact .inr (whole.live (i, e) (List.mem_append_right _ List.mem_cons_self))
      · rw [if_pos (rest gt).1, hl, newh_eq]
        exact .inl List.mem_cons_self
    · exact .inr (whole.live x (List.mem_append_right _ (.tail _ mem)))

end

/-- A fragment that fits is taken in, and the list of holes is whole afterwards unless the packet is
returned. -/
lemma Whole.take (whole : Whole t xs) (same : t.st.prepare ip = t.st) (near : ¬ TooFar ip)
    (fit : ∀ h, target t.st ip = some h → Fitting t.st ip h) (b : Bool) :
    ∃ st' out, defragment t.st ip = .ok (st', out) ∧
      (out.isSome = true ∨ ∃ xs', Whole ⟨st', t.liveAfter ip, b⟩ xs') := by
  have walked := whole.recorded.walk whole.ne (o := offset8 ip)
  rw [← whole.first] at walked
  cases tgt : target t.st ip with
  | none =>
    refine ⟨t.st, none, defragment_ignored near same walked tgt, .inr ⟨xs, ?_⟩⟩
    obtain ⟨ne, recorded, first, filled, apart, live⟩ := whole
    refine ⟨ne, recorded, first, filled, apart, ?_⟩
    rwa [Watched.liveAfter, tgt]
  | some h =>
    obtain ⟨len, next, kept⟩ := fit h tgt
    obtain ⟨l, hl⟩ := Int.eq_ofNat_of_zero_le len
    rw [target, walked] at tgt
    cases found : xs.find? (fun x => decide (8 * offset8 ip ≤ x.2)) with
    | none =>
      rw [found] at tgt
      cases tgt
    | some x =>
      obtain ⟨i, e⟩ := x
      obtain ⟨stop, pre, post, rfl, skip⟩ := List.find?_eq_some_iff_append.1 found
      simp only [decide_eq_true_eq] at stop
      rw [found] at walked tgt
      simp only [Option.map_some] at walked tgt
      split at tgt
      case isTrue => cases tgt
      case isFalse reach =>
      obtain rfl := Option.some.inj tgt
      refine whole.takeHole hl ⟨len, next, kept⟩ near same walked ?_ (by simpa using skip) stop ?_ b
      · rw [target, walked]
        exact if_neg reach
      · rw [hl, Int.tdiv_eq_ediv_of_nonneg (by omega)] at reach
        omega

/-- A call with a fragment that fits is safe and leaves the list of holes whole, unless the packet
is returned. -/
lemma Watched.Inv.step (inv : t.Inv) (tame : Tame t ip) : t.Safe ip ∧ (t.step ip).Inv := by
  by_cases far : TooFar ip
  · refine ⟨⟨⟨(t.st, none), ?_⟩, fun near => absurd far near⟩, ?_⟩
    · rw [TooFar] at far
      simp only [defragment, if_pos far, pure, Except.pure]
    · rwa [Watched.step, if_pos far]
  · obtain ⟨xs, whole⟩ := inv.prepare tame far
    have same : (t.prepare ip).st.prepare ip = (t.prepare ip).st := by
      rw [Watched.prepare_st, State.prepare_prepare]
    obtain ⟨st', out, e, after⟩ := whole.take same far (tame far).2 (t.prepare ip).returned
    rw [Watched.prepare_st, ← defragment_prepare far] at e
    refine ⟨⟨⟨_, e⟩, ?_⟩, ?_⟩
    · intro _ h mem
      rw [whole.first] at mem
      obtain ⟨x, memx, rfl⟩ :=
        List.mem_map.mp (visits_subset whole.recorded.seg whole.ne h mem)
      exact whole.live x memx
    · rw [Watched.step, if_neg far, e]
      obtain returned | ⟨xs', ne, recorded, first, filled, apart, live⟩ := after
      · refine .inr (.inl ?_)
        simp only [returned, Bool.or_true]
      · exact .inr (.inr ⟨xs', ne, recorded, first, filled, apart, live⟩)

/-! ## Runs -/

/-- In every run of fragments that the list of holes can take, whatever they hold and in whatever
order they come, every call stays in the buffer and ends, and the holes it visits are those that
were recorded. -/
theorem run_safe {ips : List Mem} (zero : t.st.totalLen = 0)
    (run : Along Tame Watched.step t ips) : Along Watched.Safe Watched.step t ips := by
  have inv : t.Inv := .inl zero
  exact run.guarantee inv fun _ _ inv tame => inv.step tame

/-- The second fragment, one that overlaps it, the second one again and the last. -/
theorem run_safe_overlap : Along Watched.Safe Watched.step ⟨.init, [], false⟩
    [packet 1 true (List.replicate 8 0xb), packet 0 true (List.replicate 16 0xff),
      packet 1 true (List.replicate 8 0xb), packet 2 false (List.replicate 5 0xc)] :=
  run_safe rfl (by decide)

/-- Five bytes with more to come, and eight more. -/
def shortFrag : Mem := packet 0 true (List.replicate 5 0xa)
def nextFrag : Mem := packet 1 true (List.replicate 8 0xb)

/-- The hole behind the five bytes is recorded where they are written, and the next call takes them
for a hole. -/
theorem not_run_safe_short :
    ¬ Along Watched.Safe Watched.step ⟨.init, [], false⟩ [shortFrag, nextFrag] := by
  rintro ⟨-, ⟨-, visited⟩, -⟩
  have first : 0 ∈ visits
      ((Watched.step ⟨.init, [], false⟩ shortFrag).prepare nextFrag).st.pktBuff
      (8 * offset8 nextFrag) 65536
      ((Watched.step ⟨.init, [], false⟩ shortFrag).prepare nextFrag).st.firstHole := by
    rw [visits]
    exact List.mem_cons_self
  exact absurd (visited (by decide) 0 first) (by decide)

end Imx.Defrag
