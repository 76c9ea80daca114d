import Mathlib.Algebra.BigOperators.Fin
import Mathlib.Data.List.GetD
import Mathlib.Tactic.FinCases
import Mathlib.Tactic.IntervalCases
import EspMesh.Library.JpegSamples
import EspMesh.Proof.JpegTransform

/-! # How exact the transform is

The factors are those of the cosine transform in units of `2 ^ -13`, each of them less than two
units off. No coefficient is then farther than 1 from that of the cosine transform.
-/

namespace EspMesh.Jpge
set_option autoImplicit false
open Real CosineTransform BaselineJpeg

/-! ## Cosines -/

theorem wave_four : wave 8 4 = 1 := by
  have hangle : ((4 : ℕ) : ℝ) * π / (2 * (8 : ℕ)) = π / 4 := by
    push_cast
    ring
  have htwo : √2 * √2 = 2 := mul_self_sqrt zero_le_two
  rw [wave, hangle, cos_pi_div_four]
  linarith

theorem wave_bounds {k : ℕ} (hk : k ≤ 8) {lo hi : ℝ} (hhi : 0 ≤ hi)
    (h : lo ^ 2 ≤ wave 8 k ^ 2 ∧ wave 8 k ^ 2 ≤ hi ^ 2) : lo ≤ wave 8 k ∧ wave 8 k ≤ hi :=
  ⟨le_of_sq_le_sq h.1 (wave_nonneg (by decide) hk), le_of_sq_le_sq h.2 hhi⟩

theorem sqrt_two_bounds : 1.414213 ≤ √2 ∧ √2 ≤ 1.414214 := by
  constructor
  · apply le_sqrt_of_sq_le
    norm_num
  · rw [sqrt_le_left (by norm_num)]
    norm_num

theorem wave_two_bounds : 1.306562 ≤ wave 8 2 ∧ wave 8 2 ≤ 1.306564 := by
  obtain ⟨hlo, hhi⟩ := sqrt_two_bounds
  have hsq := wave_sq 8 2
  rw [show 2 * 2 = 4 from rfl, wave_four] at hsq
  apply wave_bounds (by decide) (by norm_num)
  rw [hsq]
  constructor <;> linarith

theorem wave_six_bounds : 0.541195 ≤ wave 8 6 ∧ wave 8 6 ≤ 0.541197 := by
  obtain ⟨hlo, hhi⟩ := sqrt_two_bounds
  have hsq := wave_sq 8 6
  have hneg : wave 8 12 = -wave 8 4 := wave_reflect (n := 8) (k := 4) (by decide) (by decide)
  rw [show 2 * 6 = 12 from rfl, hneg, wave_four] at hsq
  apply wave_bounds (by decide) (by norm_num)
  rw [hsq]
  constructor <;> linarith

/-- The cosines of a quarter, in units of `2 ^ -13`. -/
def quarter (k : ℕ) : ℤ := [11585, 11363, 10703, 9633, 8192, 6436, 4433, 2260, 0].getD k 0

/-- A square root from above and from below. -/
theorem near_of_sq {k : ℕ} (hk : k ≤ 8) {v b : ℝ} (hsq : wave 8 k ^ 2 = v) (hb : 0 ≤ b)
    (h : (b - 1 / 2) ^ 2 ≤ 67108864 * v ∧ 67108864 * v ≤ (b + 1 / 2) ^ 2) :
    |b - 8192 * wave 8 k| ≤ 1 / 2 := by
  have hbounds : ((b - 1 / 2) / 8192) ^ 2 ≤ wave 8 k ^ 2 ∧
      wave 8 k ^ 2 ≤ ((b + 1 / 2) / 8192) ^ 2 := by
    rw [hsq, div_pow, div_pow]
    norm_num at h ⊢
    constructor <;> linarith
  obtain ⟨hlo, hhi⟩ := wave_bounds hk (by linarith) hbounds
  rw [abs_le]
  constructor <;> linarith

theorem mul_bounds {a b c d x y : ℝ} (ha : 0 ≤ a) (hb : 0 ≤ b) (hx : a ≤ x ∧ x ≤ c)
    (hy : b ≤ y ∧ y ≤ d) : a * b ≤ x * y ∧ x * y ≤ c * d :=
  ⟨mul_le_mul hx.1 hy.1 hb (ha.trans hx.1),
    mul_le_mul hx.2 hy.2 (hb.trans hy.1) ((ha.trans hx.1).trans hx.2)⟩

theorem quarter_wave {k : ℕ} (hk : 0 < k) (hk8 : k < 8) :
    |(quarter k : ℝ) - 8192 * wave 8 k| ≤ 1 / 2 := by
  have hroot := sqrt_two_bounds
  obtain ⟨htwo, htwo'⟩ := mul_bounds (by norm_num) (by norm_num) wave_two_bounds hroot
  obtain ⟨hsix, hsix'⟩ := mul_bounds (by norm_num) (by norm_num) wave_six_bounds hroot
  norm_num at htwo htwo' hsix hsix'
  have hfourteen : wave 8 14 = -wave 8 2 := wave_reflect (n := 8) (k := 2) (by decide) (by decide)
  have htwelve : wave 8 12 = -wave 8 4 :=
    wave_reflect (n := 8) (k := 4) (by decide) (by decide)
  have hten : wave 8 10 = -wave 8 6 := wave_reflect (n := 8) (k := 6) (by decide) (by decide)
  have hsq := wave_sq 8 k
  interval_cases k
  · rw [show quarter 1 = 11363 from rfl]
    push_cast
    apply near_of_sq (by decide) hsq (by norm_num)
    norm_num
    constructor <;> linarith
  · rw [show quarter 2 = 10703 from rfl]
    simp only [Nat.reduceMul, wave_four] at hsq
    push_cast
    apply near_of_sq (by decide) hsq (by norm_num)
    norm_num
    constructor <;> linarith
  · rw [show quarter 3 = 9633 from rfl]
    push_cast
    apply near_of_sq (by decide) hsq (by norm_num)
    norm_num
    constructor <;> linarith
  · rw [show quarter 4 = 8192 from rfl]
    rw [wave_four]
    norm_num
  · rw [show quarter 5 = 6436 from rfl]
    simp only [Nat.reduceMul, hten] at hsq
    push_cast
    apply near_of_sq (by decide) hsq (by norm_num)
    norm_num
    constructor <;> linarith
  · rw [show quarter 6 = 4433 from rfl]
    simp only [Nat.reduceMul, htwelve, wave_four] at hsq
    push_cast
    apply near_of_sq (by decide) hsq (by norm_num)
    norm_num
    constructor <;> linarith
  · rw [show quarter 7 = 2260 from rfl]
    simp only [Nat.reduceMul, hfourteen] at hsq
    push_cast
    apply near_of_sq (by decide) hsq (by norm_num)
    norm_num
    constructor <;> linarith

/-- The cosine of any number of sixteenths of a half period. -/
def around (k : ℕ) : ℤ :=
  let r := k % 32
  if r < 8 then quarter r
  else if r < 16 then -quarter (16 - r)
  else if r < 24 then -quarter (r - 16)
  else quarter (32 - r)

theorem around_wave {k : ℕ} (hk : k % 8 ≠ 0) : |(around k : ℝ) - 8192 * wave 8 k| ≤ 1 / 2 := by
  have hperiod : wave 8 k = wave 8 (k % 32) := by
    have h := wave_add_period (n := 8) (by decide) (k % 32) (k / 32)
    rw [show 4 * 8 * (k / 32) = 32 * (k / 32) from rfl, Nat.mod_add_div] at h
    exact h
  have hlt : k % 32 < 32 := Nat.mod_lt _ (by decide)
  have hmod : k % 32 % 8 = k % 8 := Nat.mod_mod_of_dvd k (by decide)
  have hneg : ∀ a b : ℝ, |-a - 8192 * -b| = |a - 8192 * b| := by
    intro a b
    rw [← abs_neg]
    congr 1
    ring
  rw [around, hperiod]
  generalize k % 32 = r at *
  by_cases h8 : r < 8
  · rw [if_pos h8]
    exact quarter_wave (by omega) h8
  · rw [if_neg h8]
    by_cases h16 : r < 16
    · have hwave := wave_reflect (n := 8) (k := 16 - r) (by decide) (by omega)
      rw [show 2 * 8 - (16 - r) = r by omega] at hwave
      rw [if_pos h16, hwave, Int.cast_neg, hneg]
      exact quarter_wave (by omega) (by omega)
    · have hhalf := wave_add_half (n := 8) (by decide) (r - 16)
      rw [show r - 16 + 2 * 8 = r by omega] at hhalf
      rw [if_neg h16]
      by_cases h24 : r < 24
      · rw [if_pos h24, hhalf, Int.cast_neg, hneg]
        exact quarter_wave (by omega) (by omega)
      · have hwave := wave_reflect (n := 8) (k := 32 - r) (by decide) (by omega)
        rw [show 2 * 8 - (32 - r) = r - 16 by omega] at hwave
        rw [if_neg h24, hhalf, hwave, neg_neg]
        exact quarter_wave (by omega) (by omega)

/-! ## Factors -/

/-- The factors of the transform of a row or a column. -/
def dctFactors : Fin 8 → Fin 8 → ℤ :=
  ![![1, 1, 1, 1, 1, 1, 1, 1],
    ![11363, 9633, 6437, 2260, -2260, -6437, -9633, -11363],
    ![10703, 4433, -4433, -10703, -10703, -4433, 4433, 10703],
    ![9633, -2259, -11362, -6436, 6436, 11362, 2259, -9633],
    ![1, -1, -1, 1, 1, -1, -1, 1],
    ![6437, -11362, 2261, 9633, -9633, -2261, 11362, -6437],
    ![4433, -10704, 10704, -4433, -4433, 10704, -10704, 4433],
    ![2260, -6436, 9633, -11363, 11363, -9633, 6436, -2260]]

theorem dctLinear_eq (s : Fin 8 → ℤ) (u : Fin 8) :
    dctLinear s u = ∑ x, dctFactors u x * s x := by
  rw [Fin.sum_univ_eight]
  unfold dctLinear dctFactors
  fin_cases u <;> simp only [Fin.zero_eta, Fin.mk_one, Fin.reduceFinMk, Matrix.cons_val] <;> ring

/-- Rows 0 and 4 are not in units of `2 ^ -13`. -/
def Whole (u : Fin 8) : Prop := u = 0 ∨ u = 4

instance (u : Fin 8) : Decidable (Whole u) := inferInstanceAs (Decidable (u = 0 ∨ u = 4))

theorem dctFactors_near : ∀ u x : Fin 8, ¬ Whole u →
    (2 * (x : ℕ) + 1) * (u : ℕ) % 8 ≠ 0 ∧
      |dctFactors u x - around ((2 * (x : ℕ) + 1) * (u : ℕ))| ≤ 1 := by
  decide

theorem dctFactors_error {u : Fin 8} (hu : ¬ Whole u) (x : Fin 8) :
    |(dctFactors u x : ℝ) - 8192 * cosines 8 u x| ≤ 3 / 2 := by
  obtain ⟨hmod, hnear⟩ := dctFactors_near u x hu
  have hwave := around_wave hmod
  have hnear' : |(dctFactors u x : ℝ) - around ((2 * (x : ℕ) + 1) * (u : ℕ))| ≤ 1 := by
    exact_mod_cast hnear
  rw [cosines_eq_wave fun h => hu (Or.inl (Fin.ext h))]
  have hsum := abs_sub_le (dctFactors u x : ℝ) (around ((2 * (x : ℕ) + 1) * (u : ℕ)))
    (8192 * wave 8 ((2 * (x : ℕ) + 1) * (u : ℕ)))
  linarith

theorem dctFactors_whole {u : Fin 8} (hu : Whole u) (x : Fin 8) :
    (dctFactors u x : ℝ) = cosines 8 u x := by
  obtain rfl | rfl := hu
  · have hone : dctFactors 0 x = 1 := by
      revert x
      decide
    rw [hone, cosines]
    simp
  · have hminus : ((-1 : ℤ) : ℝ) = -1 := by norm_num
    have hreflect : wave 8 12 = -wave 8 4 :=
      wave_reflect (n := 8) (k := 4) (by decide) (by decide)
    have hhalf : ∀ k, wave 8 (k + 16) = -wave 8 k := wave_add_half (by decide)
    have hagain : ∀ k, wave 8 (k + 32) = wave 8 k := fun k => wave_add_period (by decide) k 1
    have h12 : wave 8 12 = -1 := hreflect.trans (by rw [wave_four])
    have h20 : wave 8 20 = -1 := (hhalf 4).trans (by rw [wave_four])
    have h28 : wave 8 28 = 1 := (hhalf 12).trans (by rw [h12, neg_neg])
    rw [cosines_eq_wave (by decide)]
    fin_cases x
    · exact Int.cast_one.trans wave_four.symm
    · exact hminus.trans h12.symm
    · exact hminus.trans h20.symm
    · exact Int.cast_one.trans h28.symm
    · exact Int.cast_one.trans ((hagain 4).trans wave_four).symm
    · exact hminus.trans ((hagain 12).trans h12).symm
    · exact hminus.trans ((hagain 20).trans h20).symm
    · exact Int.cast_one.trans ((hagain 28).trans h28).symm

/-! ## Errors -/

variable {s : Fin 8 → ℤ} {lo : ℤ}

theorem dctLinear_whole {u : Fin 8} (hu : Whole u) :
    (dctLinear s u : ℝ) = ∑ x, cosines 8 u x * s x := by
  rw [dctLinear_eq, Int.cast_sum]
  apply Finset.sum_congr rfl
  intro x _
  rw [Int.cast_mul, dctFactors_whole hu]

theorem dctLinear_error {b : ℝ} (hs : ∀ x, |(s x : ℝ)| ≤ b) {u : Fin 8} (hu : ¬ Whole u) :
    |(dctLinear s u : ℝ) - 8192 * ∑ x, cosines 8 u x * s x| ≤ 12 * b := by
  have hsum : (dctLinear s u : ℝ) - 8192 * ∑ x, cosines 8 u x * s x =
      ∑ x, ((dctFactors u x : ℝ) - 8192 * cosines 8 u x) * s x := by
    rw [dctLinear_eq, Int.cast_sum, Finset.mul_sum, ← Finset.sum_sub_distrib]
    apply Finset.sum_congr rfl
    intro x _
    rw [Int.cast_mul]
    ring
  have hterm : ∀ x ∈ Finset.univ,
      |((dctFactors u x : ℝ) - 8192 * cosines 8 u x) * s x| ≤ 3 / 2 * b := by
    intro x _
    rw [abs_mul]
    exact mul_le_mul (dctFactors_error hu x) (hs x) (abs_nonneg _) (by norm_num)
  rw [hsum]
  calc |∑ x, ((dctFactors u x : ℝ) - 8192 * cosines 8 u x) * s x|
      ≤ ∑ x, |((dctFactors u x : ℝ) - 8192 * cosines 8 u x) * s x| :=
        Finset.abs_sum_le_sum_abs _ _
    _ ≤ Finset.univ.card (α := Fin 8) • (3 / 2 * b) := Finset.sum_le_card_nsmul _ _ _ hterm
    _ = 12 * b := by
        rw [Finset.card_univ, Fintype.card_fin, nsmul_eq_mul]
        push_cast
        ring

/-- A shift rounds to the nearest number. -/
theorem dctDescale_error {x : ℤ} {n : ℕ} (hn : 0 < n)
    (h : -2147483648 ≤ x + 2 ^ (n - 1) ∧ x + 2 ^ (n - 1) < 2147483648) :
    |(dctDescale x n : ℝ) - x / 2 ^ n| ≤ 1 / 2 := by
  have hpow : (2 : ℤ) ^ n = 2 * 2 ^ (n - 1) := by
    rw [← pow_succ', Nat.sub_add_cancel hn]
  have hpos : (0 : ℤ) < 2 ^ (n - 1) := by positivity
  have hdiv := Int.mul_ediv_add_emod (x + 2 ^ (n - 1)) (2 ^ n)
  have hlo := Int.emod_nonneg (x + 2 ^ (n - 1)) (show (2 : ℤ) ^ n ≠ 0 by positivity)
  have hhi := Int.emod_lt_of_pos (x + 2 ^ (n - 1)) (show (0 : ℤ) < 2 ^ n by positivity)
  have hbounds : |2 * 2 ^ (n - 1) * dctDescale x n - x| ≤ 2 ^ (n - 1) := by
    rw [dctDescale, i32_eq h.1 h.2, abs_le]
    rw [hpow] at hdiv hlo hhi ⊢
    constructor <;> linarith
  have hbounds' : |2 * 2 ^ (n - 1) * (dctDescale x n : ℝ) - x| ≤ 2 ^ (n - 1) := by
    exact_mod_cast hbounds
  have hpow' : (2 : ℝ) ^ n = 2 * 2 ^ (n - 1) := by exact_mod_cast hpow
  have hpos' : (0 : ℝ) < 2 ^ (n - 1) := by positivity
  rw [abs_le] at hbounds' ⊢
  rw [hpow']
  constructor
  · rw [neg_le_sub_iff_le_add, div_le_iff₀ (by positivity)]
    linarith
  · rw [sub_le_iff_le_add', ← sub_le_iff_le_add, le_div_iff₀ (by positivity)]
    linarith

theorem dctRow_eq (h : ∀ i, -128 ≤ s i ∧ s i ≤ 127) (u : Fin 8) :
    dctRow s u = if Whole u then 4 * dctLinear s u else dctDescale (dctLinear s u) 11 := by
  have hwithin : Within (-128) 255 s := ⟨by decide, fun i => by have := h i; omega⟩
  obtain ⟨h0, h4, -⟩ := dctLinear_bounds hwithin
  have hzero : i32 (dctLinear s 0 * 2 ^ 2) = 4 * dctLinear s 0 := by
    rw [i32_eq (by omega) (by omega)]
    ring
  have hfour : i32 (dctLinear s 4 * 2 ^ 2) = 4 * dctLinear s 4 := by
    rw [i32_eq (by omega) (by omega)]
    ring
  unfold dctRow
  rw [dct1d_eq hwithin (by decide), hzero, hfour]
  fin_cases u <;> rfl

theorem dctColumn_eq (h : Within lo 8160 s) (v : Fin 8) :
    dctColumn s v = dctDescale (dctLinear s v) (if Whole v then 5 else 18) := by
  unfold dctColumn
  rw [dct1d_eq h (by decide)]
  fin_cases v <;> rfl

theorem dctLinear_room {d : ℤ} (h : Within lo d s) (hd : 0 ≤ d ∧ d ≤ 8160) (u : Fin 8) :
    -2000000000 ≤ dctLinear s u ∧ dctLinear s u ≤ 2000000000 := by
  obtain ⟨h0, h4, hk⟩ := dctLinear_bounds h
  have hlo := h.low
  by_cases hu0 : u = 0
  · subst hu0
    omega
  · by_cases hu4 : u = 4
    · subst hu4
      omega
    · have := hk u hu0 hu4
      omega

theorem dctRow_error (h : ∀ i, -128 ≤ s i ∧ s i ≤ 127) (u : Fin 8) :
    |(dctRow s u : ℝ) - 4 * ∑ x, cosines 8 u x * s x| ≤ 5 / 4 := by
  rw [dctRow_eq h]
  by_cases hu : Whole u
  · rw [if_pos hu, Int.cast_mul, dctLinear_whole hu]
    norm_num
  · have hwithin : Within (-128) 255 s := ⟨by decide, fun i => by have := h i; omega⟩
    have hroom := dctLinear_room hwithin (by decide) u
    have hround := dctDescale_error (x := dctLinear s u) (n := 11) (by decide) (by omega)
    have habs : ∀ x, |(s x : ℝ)| ≤ 128 := by
      intro x
      have hx := h x
      have hint : |s x| ≤ 128 := abs_le.mpr (by omega)
      exact_mod_cast hint
    have hlinear := dctLinear_error habs hu
    rw [if_neg hu]
    rw [abs_le] at hround hlinear ⊢
    norm_num at hround hlinear ⊢
    constructor <;> linarith

theorem dctColumn_error (h : Within lo 8160 s) (hs : ∀ y, |s y| ≤ 4096) (v : Fin 8) :
    |(dctColumn s v : ℝ) - (∑ y, cosines 8 v y * s y) / 32| ≤ 11 / 16 := by
  have hroom := dctLinear_room h (by decide) v
  rw [dctColumn_eq h]
  by_cases hv : Whole v
  · have hround := dctDescale_error (x := dctLinear s v) (n := 5) (by decide) (by omega)
    rw [dctLinear_whole hv] at hround
    rw [if_pos hv]
    norm_num at hround ⊢
    linarith
  · have hround := dctDescale_error (x := dctLinear s v) (n := 18) (by decide) (by omega)
    have habs : ∀ y, |(s y : ℝ)| ≤ 4096 := fun y => by exact_mod_cast hs y
    have hlinear := dctLinear_error habs hv
    rw [if_neg hv]
    rw [abs_le] at hround hlinear ⊢
    norm_num at hround hlinear ⊢
    constructor <;> linarith

/-! ## A block -/

def samples (p : Block) : Matrix (Fin 8) (Fin 8) ℝ := fun y x => p y x

theorem dct2d_error {p : Block} (h : Samples p) (v u : Fin 8) :
    |(dct2d p v u : ℝ) - transform (samples p) v u| ≤ 1 := by
  have hwithin := column_within h u
  have hrows : ∀ y, |dctRow (p y) u| ≤ 4096 := by
    intro y
    have hy := hwithin.mem y
    rw [abs_le]
    split at hy <;> omega
  have hcolumn := dctColumn_error hwithin hrows v
  have hrow : ∀ y, |(dctRow (p y) u : ℝ) - 4 * ∑ x, cosines 8 u x * p y x| ≤ 5 / 4 :=
    fun y => dctRow_error (h y) u
  have hspread := abs_sum_cosines_le v hrow
  have hsplit : ∑ y, cosines 8 v y * ((dctRow (p y) u : ℝ) - 4 * ∑ x, cosines 8 u x * p y x) =
      ∑ y, cosines 8 v y * (dctRow (p y) u : ℝ) - 32 * transform (samples p) v u := by
    rw [transform_apply, ← mul_assoc, Finset.mul_sum, ← Finset.sum_sub_distrib]
    apply Finset.sum_congr rfl
    intro y _
    push_cast
    simp only [samples]
    ring
  have heq : dct2d p v u = dctColumn (fun y => dctRow (p y) u) v := rfl
  rw [hsplit] at hspread
  rw [heq]
  rw [abs_le] at hcolumn hspread ⊢
  push_cast at hspread
  constructor <;> linarith

/-! ## What a reader restores -/

theorem zag_zigzag : ∀ v u : Fin 8, zag.getD (zigzagIndex v u) 0 = 8 * v + u ∧
    zigzagIndex v u < 64 := by
  decide

theorem coefficient_eq {table : List ℤ} (hlen : table.length = 64) (p : Block) (v u : Fin 8) :
    (loadQuantizedCoefficients table p).getD (zigzagIndex v u) 0 =
      quantize (p v u) (table.getD (zigzagIndex v u) 0) := by
  obtain ⟨hzag, hlt⟩ := zag_zigzag v u
  have hzip : zigzagIndex v u < (zag.zip table).length := by
    rw [List.length_zip, hlen]
    exact hlt
  have hzagLen : zigzagIndex v u < zag.length := hlt
  have htable : zigzagIndex v u < table.length := by omega
  rw [List.getD_eq_getElem _ _ hzagLen] at hzag
  rw [loadQuantizedCoefficients, List.getD_eq_getElem _ _ (by rwa [List.length_map]),
    List.getElem_map, List.getElem_zip, List.getD_eq_getElem _ _ htable, hzag]
  congr 2
  · apply Fin.ext
    show (8 * v.val + u.val) / 8 % 8 = v.val
    omega
  · apply Fin.ext
    show (8 * v.val + u.val) % 8 % 8 = u.val
    omega

theorem dequantised_error {p : Block} (h : Samples p) {table : List ℤ} (hlen : table.length = 64)
    (hsteps : ∀ q ∈ table, Step q) (v u : Fin 8) :
    |dequantised (table.map Int.toNat) (loadQuantizedCoefficients table (dct2d p)) v u -
        transform (samples p) v u| ≤ (table.getD (zigzagIndex v u) 0 : ℝ) / 2 + 1 := by
  obtain ⟨-, hlt⟩ := zag_zigzag v u
  have htable : zigzagIndex v u < table.length := by omega
  have hmem : table.getD (zigzagIndex v u) 0 ∈ table := by
    rw [List.getD_eq_getElem _ _ htable]
    exact List.getElem_mem _
  have hstep := hsteps _ hmem
  have hquant : (table.map Int.toNat).getD (zigzagIndex v u) 0 =
      (table.getD (zigzagIndex v u) 0).toNat := by
    rw [List.getD_eq_getElem _ _ (by rwa [List.length_map]), List.getElem_map,
      List.getD_eq_getElem _ _ htable]
  have hcast : (((table.getD (zigzagIndex v u) 0).toNat : ℕ) : ℝ) =
      ((table.getD (zigzagIndex v u) 0 : ℤ) : ℝ) := by
    have hnat : ((table.getD (zigzagIndex v u) 0).toNat : ℤ) = table.getD (zigzagIndex v u) 0 :=
      Int.toNat_of_nonneg (by have := hstep.1; omega)
    exact_mod_cast congrArg (Int.cast (R := ℝ)) hnat
  have hbounds := dct2d_bounds h v u
  have hquantize := quantize_error ⟨hbounds.1, hbounds.2.1⟩ hstep
  have hdct := dct2d_error h v u
  rw [dequantised, coefficient_eq hlen, hquant, hcast]
  generalize table.getD (zigzagIndex v u) 0 = q at *
  have hhalf : |(q : ℝ) * quantize (dct2d p v u) q - dct2d p v u| ≤ (q : ℝ) / 2 := by
    have hint : 2 * |q * quantize (dct2d p v u) q - dct2d p v u| ≤ q := by omega
    have hreal : 2 * |(q : ℝ) * quantize (dct2d p v u) q - dct2d p v u| ≤ q := by
      exact_mod_cast hint
    linarith
  rw [abs_le] at hhalf hdct ⊢
  constructor <;> linarith

/-- **The restored samples are near those of the block**: the squares of the differences add up to
no more than the steps of the table allow. -/
theorem restored_near {p : Block} (h : Samples p) {table : List ℤ} (hlen : table.length = 64)
    (hsteps : ∀ q ∈ table, Step q) :
    energy (restored (table.map Int.toNat) (loadQuantizedCoefficients table (dct2d p)) -
      samples p) ≤ (table.map fun q : ℤ => ((q : ℝ) / 2 + 1) ^ 2).sum := by
  have henergy := energy_restored_sub (e := fun k => (table.getD k 0 : ℝ) / 2 + 1) fun v u =>
    dequantised_error h hlen hsteps v u
  have hlist : table = (List.range 64).map fun k => table.getD k 0 := by
    apply List.ext_getElem
    · rw [List.length_map, List.length_range, hlen]
    · intro k hk hk'
      rw [List.getElem_map, List.getElem_range, List.getD_eq_getElem _ _ hk]
  have hsum : (table.map fun q : ℤ => ((q : ℝ) / 2 + 1) ^ 2) =
      (List.range 64).map fun k => ((table.getD k 0 : ℝ) / 2 + 1) ^ 2 := by
    conv_lhs => rw [hlist]
    rw [List.map_map]
    rfl
  rw [hsum]
  exact henergy

end EspMesh.Jpge
