/-
PCGForUnity/Lib/ExpSums.lean

Sums of points of the unit circle whose angles are multiples of an integer are not
zero: `exp (d * a j * I)`, added up over `j`, is zero for no integers `a j`.

If the sum were zero, so were its product with its conjugate, which is the number of
pairs `j`, `k` with `a j = a k` and the sum of `exp (d * (a j - a k) * I)` over the
others.  Their exponents are roots of an integral polynomial, where `exp` is close to
rational (`exp_polynomial_approx`), and they come in pairs of opposites, so that the
approximations add up to an integer; that is too small to be anything but zero, and zero
it is not by divisibility.
-/
import Mathlib

namespace PCGForUnity.ExpSums

open Complex Polynomial Finset
open scoped Nat

variable {ι : Type*} [Fintype ι]

/-- The exponents. -/
def angle (d m : ℤ) : ℂ := ((d * m : ℤ) : ℂ) * I

theorem angle_sub (d m n : ℤ) : angle d (m - n) = angle d m - angle d n := by
  rw [angle, angle, angle]
  push_cast
  ring

/-! ### The polynomial -/

/-- Its roots are the exponents for numbers up to `M`. -/
noncomputable def rootPolynomial (d : ℤ) (M : ℕ) : ℤ[X] :=
  ∏ m ∈ range M, (X ^ 2 + C ((d * (m + 1)) ^ 2))

theorem rootPolynomial_eval_zero {d : ℤ} (hd : d ≠ 0) (M : ℕ) : (rootPolynomial d M).eval 0 ≠ 0 := by
  rw [rootPolynomial, eval_prod, prod_ne_zero_iff]
  intro m _
  rw [eval_add, eval_pow, eval_X, eval_C, zero_pow two_ne_zero, zero_add]
  exact pow_ne_zero 2 (mul_ne_zero hd (by omega))

theorem angle_mem_aroots {d : ℤ} {M : ℕ} (hd : d ≠ 0) {m : ℤ} (hm : m ≠ 0) (hM : m.natAbs ≤ M) :
    angle d m ∈ (rootPolynomial d M).aroots ℂ := by
  have hne : rootPolynomial d M ≠ 0 := by
    intro h
    refine rootPolynomial_eval_zero hd M ?_
    rw [h, eval_zero]
  rw [mem_aroots]
  refine ⟨hne, ?_⟩
  rw [rootPolynomial, map_prod, prod_eq_zero_iff]
  refine ⟨m.natAbs - 1, mem_range.mpr (by omega), ?_⟩
  have hsq : ((m.natAbs - 1 : ℕ) + 1 : ℤ) ^ 2 = m ^ 2 := by
    have habs : ((m.natAbs - 1 : ℕ) + 1 : ℤ) = m.natAbs := by omega
    rw [habs, Int.natAbs_sq]
  rw [map_add, map_pow, aeval_X, aeval_C, mul_pow, hsq, angle, mul_pow, I_sq]
  simp only [algebraMap_int_eq, eq_intCast]
  push_cast
  ring

/-! ### Sums over pairs of opposites -/

/-- A polynomial adds up to an integer over them. -/
theorem sum_aeval_isInt {κ : Type*} [Fintype κ] (d : ℤ) (b : κ → ℤ) (flip : κ ≃ κ)
    (hflip : ∀ i, b (flip i) = - b i) (g : ℤ[X]) :
    ∃ z : ℤ, ∑ i, aeval (angle d (b i)) g = z := by
  induction g using Polynomial.induction_on' with
  | add p q hp hq =>
      obtain ⟨y, hy⟩ := hp
      obtain ⟨z, hz⟩ := hq
      refine ⟨y + z, ?_⟩
      simp only [map_add, sum_add_distrib, hy, hz]
      push_cast
      rfl
  | monomial k c =>
      have hmono (i : κ) : aeval (angle d (b i)) (monomial k c)
          = c * (d : ℂ) ^ k * I ^ k * (b i : ℂ) ^ k := by
        rw [aeval_monomial, angle]
        simp only [algebraMap_int_eq, eq_intCast]
        push_cast
        ring
      simp only [hmono, ← mul_sum]
      rcases k.even_or_odd with hk | hk
      · -- the powers of `I` are signs
        obtain ⟨j, rfl⟩ := hk
        refine ⟨c * d ^ (j + j) * (-1) ^ j * ∑ i, b i ^ (j + j), ?_⟩
        have hI : I ^ (j + j) = (-1) ^ j := by
          rw [← two_mul, pow_mul, I_sq]
        rw [hI]
        push_cast
        rfl
      · -- opposites cancel
        refine ⟨0, ?_⟩
        have hzero : ∑ i, (b i : ℂ) ^ k = 0 := by
          have hneg : ∑ i, (b i : ℂ) ^ k = - ∑ i, (b i : ℂ) ^ k :=
            calc ∑ i, (b i : ℂ) ^ k
              _ = ∑ i, (b (flip i) : ℂ) ^ k := (Equiv.sum_comp flip fun i => (b i : ℂ) ^ k).symm
              _ = ∑ i, - (b i : ℂ) ^ k := by
                  refine sum_congr rfl fun i _ => ?_
                  rw [hflip, Int.cast_neg, hk.neg_pow]
              _ = - ∑ i, (b i : ℂ) ^ k := sum_neg_distrib _
          exact self_eq_neg.mp hneg
        rw [hzero, mul_zero, Int.cast_zero]

/-- A bound that factorials outgrow, at a prime as great as one likes. -/
theorem exists_prime_small (c : ℝ) (N K : ℕ) :
    ∃ p : ℕ, K < p ∧ p.Prime ∧ N * (c ^ p / (p - 1)!) < 1 := by
  have hlim := (FloorSemiring.tendsto_pow_div_factorial_atTop c).const_mul ((N : ℝ) * c)
  rw [mul_zero] at hlim
  obtain ⟨n, hn⟩ := Filter.eventually_atTop.mp (hlim.eventually_lt_const one_pos)
  obtain ⟨p, hp, hprime⟩ := Nat.exists_infinite_primes (max (n + 1) (K + 1))
  refine ⟨p, by omega, hprime, ?_⟩
  have h := hn (p - 1) (by omega)
  have hpow : c ^ p = c * c ^ (p - 1) := by
    rw [← pow_succ', Nat.sub_add_cancel hprime.one_le]
  calc (N : ℝ) * (c ^ p / (p - 1)!) = N * c * (c ^ (p - 1) / (p - 1)!) := by rw [hpow]; ring
    _ < 1 := h

/-- No sum over opposites is a negative integer. -/
theorem sum_exp_ne_neg {κ : Type*} [Fintype κ] {d : ℤ} (hd : d ≠ 0) (b : κ → ℤ)
    (hb : ∀ i, b i ≠ 0) (flip : κ ≃ κ) (hflip : ∀ i, b (flip i) = - b i) {z : ℕ} (hz : 0 < z) :
    ∑ i, exp (angle d (b i)) ≠ -(z : ℂ) := by
  intro hsum
  set M := univ.sup fun i => (b i).natAbs
  have hM (i : κ) : (b i).natAbs ≤ M := le_sup (f := fun i => (b i).natAbs) (mem_univ i)
  obtain ⟨c, hc⟩ := LindemannWeierstrass.exp_polynomial_approx (rootPolynomial d M) (rootPolynomial_eval_zero hd M)
  obtain ⟨p, hp, hprime, hsmall⟩ := exists_prime_small c (Fintype.card κ)
    (max ((rootPolynomial d M).eval 0).natAbs z)
  obtain ⟨n, hn, g, -, happrox⟩ := hc p (by omega) hprime
  obtain ⟨y, hy⟩ := sum_aeval_isInt d b flip hflip g
  -- what the approximations add up to
  have htotal : ‖((n * -z - p * y : ℤ) : ℂ)‖ < 1 := by
    have heq : ((n * -z - p * y : ℤ) : ℂ)
        = ∑ i, (n • exp (angle d (b i)) - p • aeval (angle d (b i)) g) := by
      rw [sum_sub_distrib, ← smul_sum, ← smul_sum, hsum, hy]
      push_cast
      rw [zsmul_eq_mul, nsmul_eq_mul]
    rw [heq]
    calc ‖∑ i, (n • exp (angle d (b i)) - p • aeval (angle d (b i)) g)‖
      _ ≤ ∑ _i : κ, c ^ p / (p - 1)! :=
          norm_sum_le_of_le _ fun i _ => happrox (angle_mem_aroots hd (hb i) (hM i))
      _ = Fintype.card κ * (c ^ p / (p - 1)!) := by rw [sum_const, card_univ, nsmul_eq_mul]
      _ < 1 := hsmall
  have hzero : n * -z - p * y = 0 := by
    rw [norm_intCast] at htotal
    exact Int.abs_lt_one_iff.mp (by exact_mod_cast htotal)
  have hdvd : (p : ℤ) ∣ n * z := ⟨-y, by linarith⟩
  rcases (Nat.prime_iff_prime_int.mp hprime).dvd_or_dvd hdvd with h | h
  · exact hn h
  · have hle := Nat.le_of_dvd hz (Int.natCast_dvd_natCast.mp h)
    omega

/-- The sum is not zero. -/
theorem sum_exp_ne_zero [Nonempty ι] {d : ℤ} (hd : d ≠ 0) (a : ι → ℤ) :
    ∑ j, exp (angle d (a j)) ≠ 0 := by
  classical
  intro hsum
  -- all pairs, those with equal numbers first
  have hpairs : ∑ q : ι × ι, exp (angle d (a q.1 - a q.2)) = 0 :=
    calc ∑ q : ι × ι, exp (angle d (a q.1 - a q.2))
      _ = ∑ j, ∑ k, exp (angle d (a j)) * exp (- angle d (a k)) := by
          rw [Fintype.sum_prod_type]
          refine sum_congr rfl fun j _ => sum_congr rfl fun k _ => ?_
          rw [angle_sub, sub_eq_add_neg, exp_add]
      _ = (∑ j, exp (angle d (a j))) * ∑ k, exp (- angle d (a k)) := (sum_mul_sum _ _ _ _).symm
      _ = 0 := by rw [hsum, zero_mul]
  rw [← Fintype.sum_subtype_add_sum_subtype fun q : ι × ι => a q.1 = a q.2] at hpairs
  have hequal : ∑ q : {q : ι × ι // a q.1 = a q.2}, exp (angle d (a q.1.1 - a q.1.2))
      = (Fintype.card {q : ι × ι // a q.1 = a q.2} : ℂ) := by
    have hone (q : {q : ι × ι // a q.1 = a q.2}) : exp (angle d (a q.1.1 - a q.1.2)) = 1 := by
      rw [q.2, sub_self, angle, mul_zero, Int.cast_zero, zero_mul, exp_zero]
    simp only [hone, sum_const, card_univ, nsmul_eq_mul, mul_one]
  obtain ⟨j⟩ := ‹Nonempty ι›
  have hpos : 0 < Fintype.card {q : ι × ι // a q.1 = a q.2} :=
    Fintype.card_pos_iff.mpr ⟨⟨(j, j), rfl⟩⟩
  let flip : {q : ι × ι // ¬ a q.1 = a q.2} ≃ {q : ι × ι // ¬ a q.1 = a q.2} :=
    (Equiv.prodComm ι ι).subtypeEquiv fun q => not_congr eq_comm
  refine sum_exp_ne_neg hd (fun q : {q : ι × ι // ¬ a q.1 = a q.2} => a q.1.1 - a q.1.2)
    (fun q => sub_ne_zero.mpr q.2) flip (fun q => (neg_sub _ _).symm) hpos ?_
  rw [hequal] at hpairs
  exact eq_neg_of_add_eq_zero_right hpairs

/-- Steps in such directions do not lead back. -/
theorem sum_cos_sin_ne_zero {d : ℤ} (hd : d ≠ 0) (θ : ℝ) {l : List ℤ} (hl : l ≠ []) :
    ¬ ((l.map fun n : ℤ => Real.cos (θ + d * n)).sum = 0 ∧
      (l.map fun n : ℤ => Real.sin (θ + d * n)).sum = 0) := by
  rintro ⟨hcos, hsin⟩
  have hexp (n : ℤ) : exp (θ * I) * exp (angle d n)
      = (Real.cos (θ + d * n) : ℂ) + (Real.sin (θ + d * n) : ℂ) * I := by
    rw [← exp_add, angle, ← add_mul, ofReal_cos, ofReal_sin, ← exp_mul_I]
    push_cast
    rfl
  have : Nonempty (Fin l.length) := ⟨⟨0, List.length_pos_iff.mpr hl⟩⟩
  refine sum_exp_ne_zero hd (fun j : Fin l.length => l[j.1]) ?_
  have hzero : exp (θ * I) * ∑ j : Fin l.length, exp (angle d l[j.1]) = 0 := by
    rw [mul_sum]
    simp only [hexp]
    rw [sum_add_distrib, ← sum_mul, ← ofReal_sum, ← ofReal_sum,
      Fin.sum_univ_fun_getElem l fun n : ℤ => Real.cos (θ + d * n),
      Fin.sum_univ_fun_getElem l fun n : ℤ => Real.sin (θ + d * n), hcos, hsin]
    simp
  exact (mul_eq_zero.mp hzero).resolve_left (exp_ne_zero _)

end PCGForUnity.ExpSums
