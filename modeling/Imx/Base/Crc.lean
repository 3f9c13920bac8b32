import Mathlib.Data.List.Basic
import Mathlib.Tactic.Common

/-!
# Cyclic redundancy checks

The remainder of a row of bits by a polynomial of degree `w`, of which `g` holds the coefficients
below the leading one. A bit enters at the top. The remainder is linear (`crc_xor`), it is zero
behind the bits of the remainder itself (`crc_self`), and where the polynomial has an absolute term,
two rows of bits that differ in a window of `w` bits only never have the same one
(`Burst.crc_ne`).
-/

namespace Imx.Base

variable {w : Nat} {g r r' : BitVec w} {b b' : Bool} {n : Nat} {bs cs x y : List Bool}

/-- The remainder after one more bit. -/
def crcBit (g r : BitVec w) (b : Bool) : BitVec w :=
  if r.msb ^^ b then r <<< 1 ^^^ g else r <<< 1

/-- The remainder after some more bits. -/
def crc (g r : BitVec w) (bs : List Bool) : BitVec w := bs.foldl (crcBit g) r

/-- The bits of a word, the highest first. -/
def msbBits (r : BitVec w) : List Bool := (List.range w).map r.getMsbD

/-- Two rows of bits differ, but only in a window of `n` bits. -/
def Burst (n : Nat) (bs cs : List Bool) : Prop :=
  bs ≠ cs ∧ ∃ before x y behind, bs = before ++ (x ++ behind) ∧ cs = before ++ (y ++ behind) ∧
    x.length = y.length ∧ x.length ≤ n

lemma crc_nil : crc g r [] = r := rfl

lemma crc_cons : crc g r (b :: bs) = crc g (crcBit g r b) bs := rfl

lemma crc_append : crc g r (bs ++ cs) = crc g (crc g r bs) cs := List.foldl_append

lemma length_msbBits : (msbBits r).length = w := by
  rw [msbBits, List.length_map, List.length_range]

lemma msbBits_append {v : Nat} {r : BitVec w} {q : BitVec v} :
    msbBits (r ++ q) = msbBits r ++ msbBits q := by
  simp only [msbBits, List.range_add, List.map_append, List.map_map]
  congr 1
  · refine List.map_congr_left fun i mem => ?_
    rw [BitVec.getMsbD_append, if_neg (Nat.not_le.2 (List.mem_range.1 mem))]
  · refine List.map_congr_left fun i _ => ?_
    rw [Function.comp_apply, BitVec.getMsbD_append, if_pos (Nat.le_add_right _ _),
      Nat.add_sub_cancel_left]

lemma zipWith_msbBits : List.zipWith xor (msbBits r) (msbBits r') = msbBits (r ^^^ r') := by
  rw [msbBits, msbBits, msbBits, List.zipWith_map, List.zipWith_self]
  exact List.map_congr_left fun i _ => BitVec.getMsbD_xor.symm

lemma crcBit_xor : crcBit g (r ^^^ r') (b ^^ b') = crcBit g r b ^^^ crcBit g r' b' := by
  have shift : (r ^^^ r') <<< 1 = r <<< 1 ^^^ r' <<< 1 := BitVec.shiftLeft_xor_distrib r r' 1
  have twice (p q : BitVec w) : p ^^^ g ^^^ (q ^^^ g) = p ^^^ q := by
    rw [BitVec.xor_assoc, BitVec.xor_comm q g, ← BitVec.xor_assoc g g q, BitVec.xor_self,
      BitVec.zero_xor]
  have once (p q : BitVec w) : p ^^^ q ^^^ g = p ^^^ g ^^^ q := by
    rw [BitVec.xor_assoc, BitVec.xor_comm q g, BitVec.xor_assoc]
  simp only [crcBit, BitVec.msb_xor, shift]
  cases r.msb <;> cases r'.msb <;> cases b <;> cases b' <;>
    simp [twice, once, BitVec.xor_assoc, BitVec.xor_comm g]

/-- The remainder is linear. -/
lemma crc_xor (len : bs.length = cs.length) :
    crc g (r ^^^ r') (List.zipWith xor bs cs) = crc g r bs ^^^ crc g r' cs := by
  induction bs generalizing cs r r' with
  | nil =>
    obtain rfl := List.eq_nil_of_length_eq_zero len.symm
    rfl
  | cons b bs ih =>
    cases cs with
    | nil => cases len
    | cons b' cs =>
      rw [List.zipWith_cons_cons, crc_cons, crcBit_xor, ih (Nat.succ.inj len), crc_cons, crc_cons]

/-- Behind a remainder that is zero again after some bits, at most as many as it has, it was
these bits and nothing behind them. -/
lemma crc_eq_zero (odd : g.getLsbD 0 = true) (short : bs.length ≤ w) (zero : crc g r bs = 0#w) :
    r <<< bs.length = 0#w ∧ ∀ i, i < bs.length → bs[i]? = some (r.getMsbD i) := by
  induction bs generalizing r with
  | nil =>
    rw [crc_nil] at zero
    exact ⟨by rw [zero]; simp, fun i lt => absurd lt (Nat.not_lt_zero i)⟩
  | cons b bs ih =>
    rw [List.length_cons] at short
    obtain ⟨shifted, bits⟩ := ih (by omega) zero
    -- the bit the polynomial would have set is not there
    have same : (r.msb ^^ b) = false := by
      by_contra differ
      have set : (crcBit g r b).getLsbD 0 = true := by
        rw [crcBit, if_pos (Bool.not_eq_false _ ▸ differ)]
        simp [odd]
      have there : ((crcBit g r b) <<< bs.length).getLsbD bs.length = true := by
        rw [BitVec.getLsbD_shiftLeft, Nat.sub_self, set]
        simp only [Nat.lt_irrefl, decide_false, Bool.not_false, Bool.and_true, decide_eq_true_eq]
        omega
      rw [shifted] at there
      simp at there
    have step : crcBit g r b = r <<< 1 := by
      rw [crcBit, same]
      rfl
    rw [step] at shifted bits
    refine ⟨?_, fun i lt => ?_⟩
    · rw [List.length_cons, Nat.add_comm, BitVec.shiftLeft_add]
      exact shifted
    · cases i with
      | zero =>
        have eq : r.msb = b := by simpa using same
        rw [List.getElem?_cons_zero, ← eq]
        rfl
      | succ i => rw [List.getElem?_cons_succ, bits i (Nat.lt_of_succ_lt_succ lt),
          BitVec.getMsbD_shiftLeft]

/-- Its own bits are shifted out of a remainder. -/
lemma crc_take {k : Nat} (le : k ≤ w) : crc g r ((msbBits r).take k) = r <<< k := by
  induction k with
  | zero => simp [crc_nil]
  | succ k ih =>
    have next : (msbBits r).take (k + 1) = (msbBits r).take k ++ [r.getMsbD k] := by
      rw [List.take_add_one, msbBits, List.getElem?_map, List.getElem?_range (by omega)]
      rfl
    have top : (r <<< k).msb = r.getMsbD k := by
      rw [BitVec.msb, BitVec.getMsbD_shiftLeft, Nat.zero_add]
    rw [next, crc_append, ih (by omega), crc_cons, crc_nil, crcBit, top, Bool.xor_self,
      if_neg Bool.false_ne_true, BitVec.shiftLeft_add]

lemma crc_self : crc g r (msbBits r) = 0#w := by
  have all := crc_take (g := g) (r := r) (Nat.le_refl w)
  rw [List.take_of_length_le (Nat.le_of_eq length_msbBits)] at all
  rw [all]
  exact BitVec.shiftLeft_eq_zero (Nat.le_refl w)

/-- Two short rows with the same remainder are one. -/
lemma crc_inj (odd : g.getLsbD 0 = true) (len : x.length = y.length) (short : x.length ≤ w)
    (eq : crc g r x = crc g r y) : x = y := by
  have zero : crc g 0#w (List.zipWith xor x y) = 0#w := by
    have sum : crc g (r ^^^ r) (List.zipWith xor x y) = crc g r x ^^^ crc g r y := crc_xor len
    rwa [BitVec.xor_self, eq, BitVec.xor_self] at sum
  have size : (List.zipWith xor x y).length = x.length := by
    rw [List.length_zipWith, ← len, Nat.min_self]
  obtain ⟨-, bits⟩ := crc_eq_zero odd (size.symm ▸ short) zero
  refine List.ext_getElem len fun i lt lt' => ?_
  have bit := bits i (size.symm ▸ lt)
  rw [List.getElem?_zipWith, List.getElem?_eq_getElem lt, List.getElem?_eq_getElem lt'] at bit
  simpa using bit

/-- Behind the same bits, different remainders stay different. -/
lemma crc_inj_left (odd : g.getLsbD 0 = true) (eq : crc g r bs = crc g r' bs) : r = r' := by
  induction bs generalizing r r' with
  | nil => exact eq
  | cons b bs ih =>
    have step := ih eq
    have zero : crcBit g (r ^^^ r') false = 0#w := by
      have sum : crcBit g (r ^^^ r') (b ^^ b) = crcBit g r b ^^^ crcBit g r' b := crcBit_xor
      rwa [step, BitVec.xor_self, Bool.xor_self] at sum
    have pos : 0 < w := by
      by_contra none
      obtain rfl : w = 0 := by omega
      simp [BitVec.of_length_zero] at odd
    obtain ⟨shifted, top⟩ := @crc_eq_zero w g (r ^^^ r') [false] odd pos zero
    have diff : r ^^^ r' = 0#w := by
      refine BitVec.eq_of_getMsbD_eq fun i lt => ?_
      rw [BitVec.getMsbD_zero]
      cases i with
      | zero => exact (Option.some.inj (top 0 (by decide))).symm
      | succ i =>
        rw [← BitVec.getMsbD_shiftLeft]
        exact shifted ▸ BitVec.getMsbD_zero
    exact BitVec.xor_eq_zero_iff.1 diff

/-- A burst changes the remainder. -/
lemma Burst.crc_ne (odd : g.getLsbD 0 = true) (burst : Burst w bs cs) :
    crc g r bs ≠ crc g r cs := by
  obtain ⟨ne, before, x, y, behind, rfl, rfl, len, short⟩ := burst
  intro eq
  rw [crc_append, crc_append, crc_append, crc_append] at eq
  exact ne (by rw [crc_inj odd len short (crc_inj_left odd eq)])

end Imx.Base
