import Mathlib.Data.Nat.Prime.Basic
import Mathlib.Order.Interval.Finset.Nat
import Mathlib.Data.Nat.ModEq
import Mathlib.Tactic.Common
import Mathlib.Tactic.Ring

/-!
# Probe sequences

The slots of an open-addressing table of size `p` are numbered `1..p`. A probe sequence starts at
a slot `h` and goes down by `d` slots at a time, wrapping from the bottom to the top. When `p` is
prime the first `p` probes visit every slot exactly once and the next one is back at `h`.
-/

namespace Imx.Base

variable {p d h i j : Nat}

/-- The slot probed after slot `i`. -/
def probeNext (p d i : Nat) : Nat :=
  if i ≤ d then p + i - d else i - d

/-- The `j`-th slot of the probe sequence from `h`. -/
def probeAt (p d h : Nat) : Nat → Nat
  | 0 => h
  | j + 1 => probeNext p d (probeAt p d h j)

@[simp] lemma probeAt_zero : probeAt p d h 0 = h := rfl

lemma probeAt_succ : probeAt p d h (j + 1) = probeNext p d (probeAt p d h j) := rfl

/-- A probe stays among the slots. -/
lemma probeAt_mem (hd : 1 ≤ d) (dp : d < p) (h1 : 1 ≤ h) (hp : h ≤ p) :
    1 ≤ probeAt p d h j ∧ probeAt p d h j ≤ p := by
  induction j with
  | zero => exact ⟨h1, hp⟩
  | succ j ih =>
    rw [probeAt_succ, probeNext]
    split
    · omega
    · omega

/-- Modulo `p` the `j`-th probe is `j` steps of `d` below the start. -/
lemma probeAt_modEq (hd : 1 ≤ d) (dp : d < p) (h1 : 1 ≤ h) (hp : h ≤ p) :
    probeAt p d h j + j * d ≡ h [MOD p] := by
  induction j with
  | zero => simp [Nat.ModEq]
  | succ j ih =>
    have mem := probeAt_mem (j := j) hd dp h1 hp
    rw [probeAt_succ, probeNext]
    split
    · have e : p + probeAt p d h j - d + (j + 1) * d = p + (probeAt p d h j + j * d) := by
        rw [Nat.add_mul]
        omega
      rw [e]
      exact (Nat.add_modEq_left).trans ih
    · have e : probeAt p d h j - d + (j + 1) * d = probeAt p d h j + j * d := by
        rw [Nat.add_mul]
        omega
      rw [e]
      exact ih

/-- Two slots that agree modulo `p` are the same slot. -/
lemma slot_eq_of_modEq (e : i ≡ j [MOD p]) (i1 : 1 ≤ i) (ip : i ≤ p) (j1 : 1 ≤ j) (jp : j ≤ p) :
    i = j := by
  obtain ⟨a, rfl⟩ : ∃ a, i = a + 1 := ⟨i - 1, by omega⟩
  obtain ⟨b, rfl⟩ : ∃ b, j = b + 1 := ⟨j - 1, by omega⟩
  have ab : a ≡ b [MOD p] := Nat.ModEq.add_right_cancel' 1 e
  rw [Nat.ModEq, Nat.mod_eq_of_lt (by omega), Nat.mod_eq_of_lt (by omega)] at ab
  omega

section Prime

variable (prime : p.Prime) (hd : 1 ≤ d) (dp : d < p) (h1 : 1 ≤ h) (hp : h ≤ p)
include prime hd dp h1 hp

/-- The first `p` probes are distinct. -/
lemma probeAt_inj (ip : i < p) (jp : j < p) (e : probeAt p d h i = probeAt p d h j) : i = j := by
  have mi := probeAt_modEq (j := i) hd dp h1 hp
  have mj := probeAt_modEq (j := j) hd dp h1 hp
  rw [e] at mi
  have m : i * d ≡ j * d [MOD p] := Nat.ModEq.add_left_cancel' _ (mi.trans mj.symm)
  have cop : p.gcd d = 1 :=
    (Nat.Prime.coprime_iff_not_dvd prime).2 fun dvd => by
      have := Nat.le_of_dvd (by omega) dvd
      omega
  have m' : i ≡ j [MOD p] := Nat.ModEq.cancel_right_of_coprime cop m
  rwa [Nat.ModEq, Nat.mod_eq_of_lt ip, Nat.mod_eq_of_lt jp] at m'

omit prime in
/-- The `p`-th probe is back at the start. -/
lemma probeAt_period : probeAt p d h p = h := by
  have mem := probeAt_mem (j := p) hd dp h1 hp
  have m := probeAt_modEq (j := p) hd dp h1 hp
  have m' : probeAt p d h p + p * d ≡ probeAt p d h p [MOD p] := by simp [Nat.ModEq]
  exact slot_eq_of_modEq (m'.symm.trans m) mem.1 mem.2 h1 hp

/-- Every slot is probed among the first `p`. -/
lemma probeAt_surj (i1 : 1 ≤ i) (ip : i ≤ p) : ∃ j < p, probeAt p d h j = i := by
  have inj : Set.InjOn (probeAt p d h) (Finset.range p) := by
    intro a ha b hb e
    exact probeAt_inj prime hd dp h1 hp (by simpa using ha) (by simpa using hb) e
  have sub : (Finset.range p).image (probeAt p d h) ⊆ Finset.Icc 1 p := by
    intro a ha
    obtain ⟨b, -, rfl⟩ := Finset.mem_image.1 ha
    exact Finset.mem_Icc.2 (probeAt_mem hd dp h1 hp)
  have card : (Finset.Icc 1 p).card ≤ ((Finset.range p).image (probeAt p d h)).card := by
    rw [Finset.card_image_of_injOn inj]
    simp
  have mem : i ∈ (Finset.range p).image (probeAt p d h) := by
    rw [Finset.eq_of_subset_of_card_le sub card]
    exact Finset.mem_Icc.2 ⟨i1, ip⟩
  obtain ⟨j, hj, e⟩ := Finset.mem_image.1 mem
  exact ⟨j, Finset.mem_range.1 hj, e⟩

end Prime

end Imx.Base
