import Mathlib.Algebra.BigOperators.Field
import Mathlib.Algebra.Order.Chebyshev
import Mathlib.Analysis.SpecialFunctions.Trigonometric.Basic
import Mathlib.LinearAlgebra.Matrix.NonsingularInverse
import Mathlib.LinearAlgebra.Matrix.Trace
import Mathlib.Tactic.Linarith
import Mathlib.Tactic.LinearCombination
import Mathlib.Tactic.Ring
import Mathlib.Tactic.FieldSimp

/-! # The cosine transform

Row `u` of `cosines n` samples a cosine with `u` half periods. The rows are orthogonal and have
length `√n`, so that the transform in two dimensions has an inverse, and neither of them changes the
energy of a block.
-/

namespace CosineTransform
set_option autoImplicit false
open Real Matrix

/-! ## Sums of cosines -/

theorem sum_cos_mul_sin (n : ℕ) (θ : ℝ) :
    (∑ x ∈ Finset.range n, cos ((2 * x + 1) * θ)) * (2 * sin θ) = sin (2 * n * θ) := by
  induction n with
  | zero => simp
  | succ n ih =>
    have hstep : cos ((2 * n + 1) * θ) * (2 * sin θ) = sin (2 * (n + 1) * θ) - sin (2 * n * θ) := by
      rw [show 2 * ((n : ℝ) + 1) * θ = (2 * n + 1) * θ + θ by ring,
        show 2 * (n : ℝ) * θ = (2 * n + 1) * θ - θ by ring, sin_add, sin_sub]
      ring
    rw [Finset.sum_range_succ, add_mul, ih, hstep, Nat.cast_add, Nat.cast_one]
    ring

variable {n : ℕ}

theorem sum_cos_eq_zero {k : ℕ} (hk : 0 < k) (hkn : k < 2 * n) :
    ∑ x : Fin n, cos ((2 * (x : ℕ) + 1) * (k * π / (2 * n))) = 0 := by
  have hn : (0 : ℝ) < n := by
    have : 0 < n := by omega
    exact_mod_cast this
  have hk' : (0 : ℝ) < k := by exact_mod_cast hk
  have hkn' : (k : ℝ) < 2 * n := by exact_mod_cast hkn
  have hpos : 0 < sin (k * π / (2 * n)) := by
    apply sin_pos_of_pos_of_lt_pi
    · positivity
    · rw [div_lt_iff₀ (by positivity), mul_comm π]
      exact mul_lt_mul_of_pos_right hkn' pi_pos
  have hsum := sum_cos_mul_sin n (k * π / (2 * n))
  have hangle : 2 * (n : ℝ) * (k * π / (2 * n)) = k * π := by field_simp
  rw [hangle, sin_nat_mul_pi] at hsum
  rw [Fin.sum_univ_eq_sum_range fun x => cos ((2 * (x : ℝ) + 1) * (k * π / (2 * n)))]
  obtain h | h := mul_eq_zero.mp hsum
  · exact h
  · exact absurd h (by positivity)

/-! ## The rows -/

/-- Row `u` of the transform. -/
noncomputable def cosines (n : ℕ) : Matrix (Fin n) (Fin n) ℝ := fun u x =>
  (if (u : ℕ) = 0 then 1 else √2) * cos ((2 * (x : ℕ) + 1) * ((u : ℕ) * π / (2 * n)))

/-- The cosine of `k` times the `n`-th part of a right angle, as the rows have it. -/
noncomputable def wave (n k : ℕ) : ℝ := √2 * cos (k * π / (2 * n))

theorem cosines_eq_wave {u : Fin n} (hu : (u : ℕ) ≠ 0) (x : Fin n) :
    cosines n u x = wave n ((2 * (x : ℕ) + 1) * u) := by
  rw [cosines, if_neg hu, wave]
  congr 2
  push_cast
  ring

theorem wave_add_period (hn : 0 < n) (k m : ℕ) : wave n (k + 4 * n * m) = wave n k := by
  have hn' : (n : ℝ) ≠ 0 := by exact_mod_cast hn.ne'
  have hangle : ((k + 4 * n * m : ℕ) : ℝ) * π / (2 * n) = k * π / (2 * n) + m * (2 * π) := by
    push_cast
    field_simp
    ring
  rw [wave, hangle, cos_add_nat_mul_two_pi, wave]

theorem wave_add_half (hn : 0 < n) (k : ℕ) : wave n (k + 2 * n) = -wave n k := by
  have hn' : (n : ℝ) ≠ 0 := by exact_mod_cast hn.ne'
  have hangle : ((k + 2 * n : ℕ) : ℝ) * π / (2 * n) = k * π / (2 * n) + π := by
    push_cast
    field_simp
  rw [wave, hangle, cos_add_pi, wave]
  ring

theorem wave_reflect (hn : 0 < n) {k : ℕ} (hk : k ≤ 2 * n) : wave n (2 * n - k) = -wave n k := by
  have hn' : (n : ℝ) ≠ 0 := by exact_mod_cast hn.ne'
  have hangle : ((2 * n - k : ℕ) : ℝ) * π / (2 * n) = π - k * π / (2 * n) := by
    rw [Nat.cast_sub hk]
    push_cast
    field_simp
  rw [wave, hangle, cos_pi_sub, wave]
  ring

theorem wave_sq (n k : ℕ) : wave n k ^ 2 = 1 + wave n (2 * k) * √2 / 2 := by
  have htwo : √2 ^ 2 = 2 := sq_sqrt zero_le_two
  have hangle : ((2 * k : ℕ) : ℝ) * π / (2 * n) = 2 * (k * π / (2 * n)) := by
    push_cast
    ring
  rw [wave, wave, mul_pow, htwo, cos_sq, hangle]
  linear_combination (-cos (2 * (k * π / (2 * n))) / 2) * htwo

theorem wave_nonneg (hn : 0 < n) {k : ℕ} (hk : k ≤ n) : 0 ≤ wave n k := by
  have hn' : (0 : ℝ) < n := by exact_mod_cast hn
  have hk' : (k : ℝ) ≤ n := by exact_mod_cast hk
  have hpi := pi_pos
  have hpos : 0 ≤ k * π / (2 * n) := by positivity
  apply mul_nonneg (sqrt_nonneg 2)
  apply cos_nonneg_of_neg_pi_div_two_le_of_le
  · linarith
  · rw [div_le_div_iff₀ (by positivity) zero_lt_two]
    nlinarith

theorem cos_mul_cos_eq (a b : ℝ) : cos a * cos b = (cos (a - b) + cos (a + b)) / 2 := by
  rw [cos_sub, cos_add]
  ring

theorem sum_cos_mul_cos {u v : ℕ} (hv : v < u) (hu : u < n) :
    ∑ x : Fin n, cos ((2 * (x : ℕ) + 1) * (u * π / (2 * n))) *
      cos ((2 * (x : ℕ) + 1) * (v * π / (2 * n))) = 0 := by
  have hdiff := sum_cos_eq_zero (n := n) (k := u - v) (by omega) (by omega)
  have hsum := sum_cos_eq_zero (n := n) (k := u + v) (by omega) (by omega)
  have hterm : ∀ x : Fin n, cos ((2 * (x : ℕ) + 1) * (u * π / (2 * n))) *
      cos ((2 * (x : ℕ) + 1) * (v * π / (2 * n))) =
        (cos ((2 * (x : ℕ) + 1) * ((u - v : ℕ) * π / (2 * n))) +
          cos ((2 * (x : ℕ) + 1) * ((u + v : ℕ) * π / (2 * n)))) / 2 := by
    intro x
    rw [cos_mul_cos_eq, Nat.cast_sub hv.le, Nat.cast_add]
    congr 3 <;> ring
  rw [Finset.sum_congr rfl fun x _ => hterm x, ← Finset.sum_div, Finset.sum_add_distrib, hdiff,
    hsum, add_zero, zero_div]

theorem sum_cos_sq {u : ℕ} (hpos : 0 < u) (hu : u < n) :
    ∑ x : Fin n, cos ((2 * (x : ℕ) + 1) * (u * π / (2 * n))) ^ 2 = n / 2 := by
  have hsum := sum_cos_eq_zero (n := n) (k := 2 * u) (by omega) (by omega)
  have hterm : ∀ x : Fin n, cos ((2 * (x : ℕ) + 1) * (u * π / (2 * n))) ^ 2 =
      1 / 2 + cos ((2 * (x : ℕ) + 1) * ((2 * u : ℕ) * π / (2 * n))) / 2 := by
    intro x
    rw [cos_sq, Nat.cast_mul]
    congr 3
    push_cast
    ring
  rw [Finset.sum_congr rfl fun x _ => hterm x, Finset.sum_add_distrib, Finset.sum_const,
    ← Finset.sum_div, hsum, Finset.card_univ, Fintype.card_fin, nsmul_eq_mul]
  ring

theorem cosines_orthogonal (u v : Fin n) :
    ∑ x, cosines n u x * cosines n v x = if u = v then (n : ℝ) else 0 := by
  unfold cosines
  have hpull : ∀ a b : ℝ, ∀ f g : Fin n → ℝ, ∑ x, a * f x * (b * g x) = a * b * ∑ x, f x * g x := by
    intro a b f g
    rw [Finset.mul_sum]
    exact Finset.sum_congr rfl fun x _ => by ring
  rw [hpull]
  obtain hlt | heq | hgt := lt_trichotomy u v
  · rw [if_neg (ne_of_lt hlt)]
    have hzero := sum_cos_mul_cos (n := n) (show (u : ℕ) < v from hlt) v.isLt
    rw [Finset.sum_congr rfl fun x _ => mul_comm _ _, hzero, mul_zero]
  · subst heq
    rw [if_pos rfl]
    by_cases hu : (u : ℕ) = 0
    · simp [hu]
    · have hsq := sum_cos_sq (n := n) (Nat.pos_of_ne_zero hu) u.isLt
      rw [if_neg hu, mul_self_sqrt zero_le_two, Finset.sum_congr rfl fun x _ => (sq _).symm, hsq]
      ring
  · rw [if_neg (ne_of_gt hgt), sum_cos_mul_cos (show (v : ℕ) < u from hgt) u.isLt, mul_zero]

theorem cosines_mul_transpose (n : ℕ) :
    cosines n * (cosines n)ᵀ = (n : ℝ) • (1 : Matrix (Fin n) (Fin n) ℝ) := by
  apply Matrix.ext
  intro u v
  rw [Matrix.mul_apply, Matrix.smul_apply, Matrix.one_apply, smul_eq_mul, mul_ite, mul_one,
    mul_zero]
  exact cosines_orthogonal u v

theorem transpose_mul_cosines (n : ℕ) :
    (cosines n)ᵀ * cosines n = (n : ℝ) • (1 : Matrix (Fin n) (Fin n) ℝ) := by
  by_cases hn : (n : ℝ) = 0
  · have : n = 0 := by exact_mod_cast hn
    subst this
    exact Subsingleton.elim _ _
  · have hleft : cosines n * ((n : ℝ)⁻¹ • (cosines n)ᵀ) = 1 := by
      rw [Matrix.mul_smul, cosines_mul_transpose, smul_smul, inv_mul_cancel₀ hn, one_smul]
    have hright := mul_eq_one_comm.mp hleft
    rw [Matrix.smul_mul] at hright
    rw [← hright, smul_smul, mul_inv_cancel₀ hn, one_smul]

/-! ## Two dimensions -/

/-- The coefficients of a block. -/
noncomputable def transform (p : Matrix (Fin n) (Fin n) ℝ) : Matrix (Fin n) (Fin n) ℝ :=
  (n : ℝ)⁻¹ • (cosines n * p * (cosines n)ᵀ)

/-- The block that coefficients stand for. -/
noncomputable def restore (s : Matrix (Fin n) (Fin n) ℝ) : Matrix (Fin n) (Fin n) ℝ :=
  (n : ℝ)⁻¹ • ((cosines n)ᵀ * s * cosines n)

def energy (p : Matrix (Fin n) (Fin n) ℝ) : ℝ := ∑ i, ∑ j, p i j ^ 2

theorem transform_apply (p : Matrix (Fin n) (Fin n) ℝ) (v u : Fin n) :
    transform p v u = (n : ℝ)⁻¹ * ∑ y, cosines n v y * ∑ x, cosines n u x * p y x := by
  rw [transform, Matrix.smul_apply, smul_eq_mul, Matrix.mul_assoc, Matrix.mul_apply]
  congr 1
  apply Finset.sum_congr rfl
  intro y _
  rw [Matrix.mul_apply]
  congr 1
  exact Finset.sum_congr rfl fun x _ => mul_comm _ _

theorem restore_transform (p : Matrix (Fin n) (Fin n) ℝ) : restore (transform p) = p := by
  by_cases hn : (n : ℝ) = 0
  · have : n = 0 := by exact_mod_cast hn
    subst this
    exact Subsingleton.elim _ _
  · have hmul : (cosines n)ᵀ * (cosines n * p * (cosines n)ᵀ) * cosines n =
        ((cosines n)ᵀ * cosines n) * p * ((cosines n)ᵀ * cosines n) := by
      simp only [Matrix.mul_assoc]
    rw [restore, transform, Matrix.mul_smul, Matrix.smul_mul, hmul, transpose_mul_cosines,
      Matrix.smul_mul, Matrix.one_mul, Matrix.mul_smul, Matrix.mul_one]
    simp only [smul_smul]
    rw [show (n : ℝ)⁻¹ * ((n : ℝ)⁻¹ * ((n : ℝ) * n)) = 1 by field_simp, one_smul]

theorem restore_sub (s t : Matrix (Fin n) (Fin n) ℝ) :
    restore s - restore t = restore (s - t) := by
  rw [restore, restore, restore, ← smul_sub, Matrix.mul_sub, Matrix.sub_mul]

theorem energy_eq_trace (p : Matrix (Fin n) (Fin n) ℝ) : energy p = trace (p * pᵀ) := by
  unfold energy trace
  apply Finset.sum_congr rfl
  intro i _
  rw [Matrix.diag_apply, Matrix.mul_apply]
  exact Finset.sum_congr rfl fun j _ => sq _

/-- The energy of a block is that of its coefficients. -/
theorem energy_restore (s : Matrix (Fin n) (Fin n) ℝ) : energy (restore s) = energy s := by
  by_cases hn : (n : ℝ) = 0
  · have : n = 0 := by exact_mod_cast hn
    subst this
    rfl
  · have hmul : (cosines n)ᵀ * s * cosines n * ((cosines n)ᵀ * s * cosines n)ᵀ =
        (cosines n)ᵀ * (s * (cosines n * (cosines n)ᵀ) * sᵀ * cosines n) := by
      simp only [Matrix.transpose_mul, Matrix.transpose_transpose, Matrix.mul_assoc]
    have hback : s * sᵀ * cosines n * (cosines n)ᵀ = s * sᵀ * (cosines n * (cosines n)ᵀ) :=
      Matrix.mul_assoc _ _ _
    rw [energy_eq_trace, energy_eq_trace, restore, Matrix.transpose_smul, Matrix.smul_mul,
      Matrix.mul_smul, smul_smul, hmul, cosines_mul_transpose, Matrix.mul_smul, Matrix.mul_one,
      Matrix.smul_mul, Matrix.smul_mul, Matrix.mul_smul, smul_smul, trace_smul, trace_mul_comm,
      hback, cosines_mul_transpose, Matrix.mul_smul, Matrix.mul_one, trace_smul, smul_smul,
      smul_eq_mul, show (n : ℝ)⁻¹ * (n : ℝ)⁻¹ * n * n = 1 by field_simp, one_mul]

/-- Coefficients that are near those of a block stand for a block that is near it. -/
theorem energy_restore_sub {s p e : Matrix (Fin n) (Fin n) ℝ}
    (h : ∀ i j, |s i j - transform p i j| ≤ e i j) : energy (restore s - p) ≤ energy e := by
  have hsub : restore s - p = restore (s - transform p) := by
    rw [← restore_sub, restore_transform]
  rw [hsub, energy_restore]
  apply Finset.sum_le_sum
  intro i _
  apply Finset.sum_le_sum
  intro j _
  exact sq_le_sq.mpr ((h i j).trans (le_abs_self _))

/-! ## Errors -/

/-- The terms of a row add up to `n` at most. -/
theorem sum_abs_cosines (u : Fin n) : ∑ x, |cosines n u x| ≤ n := by
  have hsq : ∑ x, |cosines n u x| ^ 2 = n := by
    have horth := cosines_orthogonal u u
    rw [if_pos rfl] at horth
    rw [← horth]
    exact Finset.sum_congr rfl fun x _ => by rw [sq_abs, sq]
  have hcauchy := sq_sum_le_card_mul_sum_sq (s := Finset.univ) (f := fun x => |cosines n u x|)
  rw [hsq, Finset.card_univ, Fintype.card_fin, ← sq] at hcauchy
  exact le_of_sq_le_sq hcauchy (Nat.cast_nonneg n)

theorem abs_sum_cosines_le (u : Fin n) {e : Fin n → ℝ} {b : ℝ} (h : ∀ x, |e x| ≤ b) :
    |∑ x, cosines n u x * e x| ≤ n * b := by
  have hb : 0 ≤ b := (abs_nonneg (e u)).trans (h u)
  calc |∑ x, cosines n u x * e x| ≤ ∑ x, |cosines n u x * e x| := Finset.abs_sum_le_sum_abs _ _
    _ ≤ ∑ x, |cosines n u x| * b := by
        apply Finset.sum_le_sum
        intro x _
        rw [abs_mul]
        exact mul_le_mul_of_nonneg_left (h x) (abs_nonneg _)
    _ = (∑ x, |cosines n u x|) * b := (Finset.sum_mul _ _ _).symm
    _ ≤ n * b := mul_le_mul_of_nonneg_right (sum_abs_cosines u) hb

end CosineTransform
