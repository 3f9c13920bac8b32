import Imx.MxsNand.Defs

/-!
# The strength of a chip

What `mxs_nand_get_ecc_strength` chooses, said without its loop: the strength the chip asks for,
rounded up, or with a large out-of-band area the first by twos that puts the bad block mark in data,
or the strength itself and an ECC of its own for the metadata.
-/

namespace Imx.MxsNand

variable {large : Bool} {g : Geometry} {s s' : Statics}

/-- The chip is one that can be used. -/
def Accepted (large : Bool) (g : Geometry) : Prop :=
  g.strength ≤ maxEccStrength large ∧ (0 < g.strength ∧ 0 < g.step ∨ 1024 < g.oobsize)

/-- A strength puts the mark in a data chunk. -/
def InData (g : Geometry) (s : Statics) (e : Nat) : Prop :=
  (bbmInDataChunk g.writesize (galoisField (setGf14 g s)) e g.step).isSome

instance (e : Nat) : Decidable (InData g s e) := inferInstanceAs (Decidable (_ = true))

/-- The strength for a chip, and whether the metadata have their own ECC. -/
inductive Chosen (large : Bool) (g : Geometry) (s : Statics) : Nat → Bool → Prop where
  | rounded :
    setLargeOob g s = false →
    Chosen large g s (g.strength + g.strength % 2) s.eccForMeta
  | inData {k : Nat} :
    setLargeOob g s = true →
    g.strength + 2 * k ≤ maxEccStrength large →
    InData g s (g.strength + 2 * k) →
    (∀ j < k, ¬ InData g s (g.strength + 2 * j)) →
    Chosen large g s (g.strength + 2 * k) s.eccForMeta
  | ownEcc :
    setLargeOob g s = true →
    (∀ k, g.strength + 2 * k ≤ maxEccStrength large → ¬ InData g s (g.strength + 2 * k)) →
    Chosen large g s g.strength true

/-- There is only one. -/
lemma Chosen.unique {e e' : Nat} {b b' : Bool} (one : Chosen large g s e b)
    (two : Chosen large g s e' b') : e = e' ∧ b = b' := by
  cases one with
  | rounded small =>
    cases two with
    | rounded => exact ⟨rfl, rfl⟩
    | inData big => exact absurd small (ne_false_of_eq_true big)
    | ownEcc big => exact absurd small (ne_false_of_eq_true big)
  | @inData k big le here before =>
    cases two with
    | rounded small => exact absurd small (ne_false_of_eq_true big)
    | @inData k' _ le' here' before' =>
      have eq : k = k' := by
        refine Nat.le_antisymm (Nat.not_lt.1 fun lt => ?_) (Nat.not_lt.1 fun lt => ?_)
        · exact before k' lt here'
        · exact before' k lt here
      exact ⟨by rw [eq], rfl⟩
    | ownEcc _ none => exact absurd here (none k le)
  | ownEcc big none =>
    cases two with
    | rounded small => exact absurd small (ne_false_of_eq_true big)
    | inData _ le here => exact absurd here (none _ le)
    | ownEcc => exact ⟨rfl, rfl⟩

/-- The registers have room for it. -/
lemma Chosen.le {e : Nat} {b : Bool} (chosen : Chosen large g s e b) (ok : Accepted large g) :
    e ≤ 62 := by
  have max : maxEccStrength large = 62 ∨ maxEccStrength large = 40 := by
    cases large
    · exact .inr rfl
    · exact .inl rfl
  have le := ok.1
  cases chosen with
  | rounded => omega
  | inData _ le' => omega
  | ownEcc => omega

/-! ## The search -/

/-- A strength that is found is the first one. -/
lemma searchStrength_some {max e e' chunk : Nat} {inData : Nat → Option Nat}
    (found : searchStrength max inData e = some (e', chunk)) :
    ∃ k, e' = e + 2 * k ∧ e' ≤ max ∧ (inData e').isSome ∧
      ∀ j < k, ¬ (inData (e + 2 * j)).isSome := by
  fun_induction searchStrength with
  | case1 => cases found
  | case2 e le chunk' here =>
    cases found
    exact ⟨0, rfl, Nat.le_of_not_lt le, by rw [here]; rfl, fun j lt => absurd lt (Nat.not_lt_zero j)⟩
  | case3 e le none ih =>
    obtain ⟨k, eq, le', here, before⟩ := ih found
    refine ⟨k + 1, by omega, le', here, fun j lt => ?_⟩
    cases j with
    | zero =>
      rw [Nat.mul_zero, Nat.add_zero, none]
      exact Bool.false_ne_true
    | succ j =>
      have eq' : e + 2 * (j + 1) = e + 2 + 2 * j := by omega
      rw [eq']
      exact before j (Nat.lt_of_succ_lt_succ lt)

/-- When none is found there is none. -/
lemma searchStrength_none {max e : Nat} {inData : Nat → Option Nat}
    (missing : searchStrength max inData e = none) (k : Nat) (le : e + 2 * k ≤ max) :
    ¬ (inData (e + 2 * k)).isSome := by
  fun_induction searchStrength generalizing k with
  | case1 e more => omega
  | case2 => cases missing
  | case3 e _ none ih =>
    cases k with
    | zero =>
      rw [Nat.mul_zero, Nat.add_zero, none]
      exact Bool.false_ne_true
    | succ k =>
      have eq' : e + 2 * (k + 1) = e + 2 + 2 * k := by omega
      rw [eq'] at le ⊢
      exact ih missing k le

/-! ## What is set up -/

/-- The variables for a chip: its step, the field, and what is chosen. -/
structure SetUp (large : Bool) (g : Geometry) (s s' : Statics) : Prop where
  step : s'.chunkDataSize = g.step
  gf14 : s'.gf14 = setGf14 g s
  chosen : Chosen large g s s'.eccStrength s'.eccForMeta

/-- A chip that is accepted is set up. -/
lemma getEccStrength_setUp (done : getEccStrength large g s = some s') :
    Accepted large g ∧ SetUp large g s s' := by
  simp only [getEccStrength] at done
  split_ifs at done with weak missing big
  · have ok : Accepted large g := by
      refine ⟨Nat.le_of_not_lt weak, ?_⟩
      rwa [not_and_not_right, ← or_iff_not_imp_left] at missing
    cases search : searchStrength (maxEccStrength large)
        (fun e => bbmInDataChunk g.writesize (galoisField (setGf14 g s)) e g.step) g.strength with
    | none =>
      rw [search] at done
      cases done
      exact ⟨ok, rfl, rfl, .ownEcc big fun k le => searchStrength_none search k le⟩
    | some found =>
      obtain ⟨e, chunk⟩ := found
      rw [search] at done
      cases done
      obtain ⟨k, rfl, le, here, before⟩ := searchStrength_some search
      exact ⟨ok, rfl, rfl, .inData big le here before⟩
  · have ok : Accepted large g := by
      refine ⟨Nat.le_of_not_lt weak, ?_⟩
      rwa [not_and_not_right, ← or_iff_not_imp_left] at missing
    cases done
    exact ⟨ok, rfl, rfl, .rounded (Bool.eq_false_of_not_eq_true big)⟩

/-- And it is set up when it is accepted. -/
lemma exists_setUp (s : Statics) (ok : Accepted large g) :
    ∃ s', getEccStrength large g s = some s' := by
  rw [getEccStrength, if_neg (Nat.not_lt.2 ok.1), if_neg]
  · simp only
    split
    · split
      · exact ⟨_, rfl⟩
      · exact ⟨_, rfl⟩
    · exact ⟨_, rfl⟩
  · rintro ⟨none, small⟩
    exact ok.2.elim none small

end Imx.MxsNand
