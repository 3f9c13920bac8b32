import Mathlib.NumberTheory.Bertrand
import Imx.HashTable.Defs

/-!
# The size of a new table

`hcreate_r` looks for the first odd number that passes its trial-division test. The test is exact
on the odd numbers above 3, and by Bertrand's postulate the loop ends, so the size of a table made
for two or more entries is a prime.
-/

namespace Imx.HashTable

variable {n div fuel nel : Nat}

/-- Where the trial divisions stop, and what was tried before. -/
lemma isprimeLoop_spec (odd : div % 2 = 1) (d3 : 3 ≤ div) (enough : n < div * div + fuel)
    (tried : ∀ d, 3 ≤ d → d < div → d % 2 = 1 → n % d ≠ 0) :
    (∀ d, 3 ≤ d → d < isprimeLoop n fuel div → d % 2 = 1 → n % d ≠ 0) ∧
      3 ≤ isprimeLoop n fuel div ∧
      (n ≤ isprimeLoop n fuel div * isprimeLoop n fuel div ∨ n % isprimeLoop n fuel div = 0) ∧
      (isprimeLoop n fuel div = div ∨
        (isprimeLoop n fuel div - 2) * (isprimeLoop n fuel div - 2) < n) := by
  induction fuel generalizing div with
  | zero => exact ⟨tried, d3, .inl (by simp only [isprimeLoop]; omega), .inl rfl⟩
  | succ fuel ih =>
    rw [isprimeLoop]
    split
    case isTrue h =>
      have sq : (div + 2) * (div + 2) = div * div + 4 * div + 4 := by ring
      have tried' : ∀ d, 3 ≤ d → d < div + 2 → d % 2 = 1 → n % d ≠ 0 := by
        intro d h3 hd ho
        rcases Nat.lt_or_ge d div with lt | ge
        · exact tried d h3 lt ho
        · obtain rfl : d = div := by omega
          exact h.2
      obtain ⟨t, h3, stop, last⟩ := ih (by omega) (by omega) (by omega) tried'
      refine ⟨t, h3, stop, .inr ?_⟩
      rcases last with e | lt
      · rw [e]
        simpa using h.1
      · exact lt
    case isFalse h =>
      refine ⟨tried, d3, ?_, .inl rfl⟩
      rcases Nat.lt_or_ge (div * div) n with lt | ge
      · exact .inr (by simpa [lt] using h)
      · exact .inl ge

/-- On odd numbers above 3 the test accepts exactly the primes. -/
lemma isprime_iff (odd : n % 2 = 1) (h3 : 3 < n) : isprime n = true ↔ n.Prime := by
  obtain ⟨tried, d3, stop, last⟩ :=
    @isprimeLoop_spec n 3 n rfl (by omega) (by omega) (by omega)
  simp only [isprime, bne_iff_ne]
  generalize isprimeLoop n n 3 = div at *
  constructor
  · intro hdiv
    have sq : n ≤ div * div := stop.resolve_right hdiv
    -- the least prime factor of a composite odd number is odd and at most its root
    by_contra comp
    have two : n ≠ 1 := by omega
    have mf := Nat.minFac_prime two
    have dvd := Nat.minFac_dvd n
    have msq := Nat.minFac_sq_le_self (by omega) comp
    have modd : n.minFac % 2 = 1 := by
      rcases mf.eq_two_or_odd with e | o
      · rw [e] at dvd
        omega
      · exact o
    have m3 : 3 ≤ n.minFac := by
      have := mf.two_le
      omega
    rcases Nat.lt_trichotomy n.minFac div with lt | e | gt
    · exact tried _ m3 lt modd (Nat.mod_eq_zero_of_dvd dvd)
    · exact hdiv (e ▸ Nat.mod_eq_zero_of_dvd dvd)
    · have : div * div < n.minFac * n.minFac := Nat.mul_self_lt_mul_self gt
      rw [pow_two] at msq
      omega
  · intro prime h0
    have dvd := Nat.dvd_of_mod_eq_zero h0
    rcases (Nat.dvd_prime prime).1 dvd with e | e
    · omega
    · rcases last with e3 | lt
      · omega
      · obtain ⟨m, rfl⟩ : ∃ m, div = m + 2 := ⟨div - 2, by omega⟩
        have : m + 2 ≤ m * m + 2 := by nlinarith
        have lt' : m * m < m + 2 := by
          rw [← e] at lt
          simpa using lt
        have : m < 3 := by nlinarith
        interval_cases m <;> omega

/-- The search for a prime ends at a prime when there is one within reach. -/
lemma nextPrime_spec (odd : n % 2 = 1) (h3 : 3 < n) {p : Nat} (prime : p.Prime) (np : n ≤ p)
    (enough : p < n + 2 * fuel) :
    ∃ q, nextPrime fuel n = some q ∧ q.Prime ∧ n ≤ q ∧ q ≤ p := by
  induction fuel generalizing n with
  | zero => omega
  | succ fuel ih =>
    rw [nextPrime]
    by_cases ip : isprime n
    · exact ⟨n, by rw [if_pos ip], (isprime_iff odd h3).1 ip, Nat.le_refl n, np⟩
    · rw [if_neg ip]
      have ne : n ≠ p := by
        rintro rfl
        exact ip ((isprime_iff odd h3).2 prime)
      have podd : p % 2 = 1 := by
        rcases prime.eq_two_or_odd with e | o
        · omega
        · exact o
      obtain ⟨q, e, qp, nq, qle⟩ := ih (n := n + 2) (by omega) (by omega) (by omega) (by omega)
      exact ⟨q, e, qp, by omega, qle⟩

/-- A table made for two or more entries has a prime number of slots, at least five. -/
lemma hcreateR_prime (h2 : 2 ≤ nel) :
    ∃ size, hcreateR nel = some (Htab.empty size) ∧ size.Prime ∧ 5 ≤ size ∧ nel ≤ size ∧
      size ≤ 2 * nel + 2 := by
  rcases Nat.lt_or_ge nel 4 with small | big
  · have : nel = 2 ∨ nel = 3 := by omega
    rcases this with rfl | rfl
    · exact ⟨5, rfl, by norm_num, by omega, by omega, by omega⟩
    · exact ⟨5, rfl, by norm_num, by omega, by omega, by omega⟩
  · have odd : nel ||| 1 = nel + (1 - nel % 2) := by
      have m : (nel ||| 1) % 2 = 1 := Nat.or_mod_two_eq_one.2 (.inr rfl)
      have q : (nel ||| 1) / 2 = nel / 2 := by simp [Nat.or_div_two]
      omega
    obtain ⟨p, prime, lt, le⟩ := Nat.exists_prime_lt_and_le_two_mul (nel ||| 1) (by omega)
    obtain ⟨q, e, qp, nq, qle⟩ :=
      @nextPrime_spec (nel ||| 1) (nel + 1) (by omega) (by omega) p prime (by omega)
        (by omega)
    refine ⟨q, ?_, qp, by omega, by omega, by omega⟩
    rw [hcreateR, e]
    rfl

end Imx.HashTable
