import Mathlib.Tactic.Linarith
import Mathlib.Tactic.NormNum
import Mathlib.Tactic.Ring
import EspMesh.Library.JpegFile
import EspMesh.Model.JpegEncoder

/-! # The transform of a block

The samples are differences of bytes from 128, and then no number in the transform leaves its type,
and each coefficient is one that has a code.
-/

namespace EspMesh.Jpge
set_option autoImplicit false
open BaselineJpeg

/-! ## Machine integers -/

theorem i32_eq {x : ℤ} (h : -2147483648 ≤ x) (h' : x < 2147483648) : i32 x = x := by
  apply Int.bmod_eq_of_le
  · norm_num
    exact h
  · norm_num
    exact h'

theorem i16_eq {x : ℤ} (h : -32768 ≤ x) (h' : x < 32768) : i16 x = x := by
  apply Int.bmod_eq_of_le
  · norm_num
    exact h
  · norm_num
    exact h'

/-! ## One dimension -/

/-- The transform without bounds. -/
def dctLinear (s : Fin 8 → ℤ) : Fin 8 → ℤ :=
  ![s 0 + s 1 + s 2 + s 3 + s 4 + s 5 + s 6 + s 7,
    11363 * (s 0 - s 7) + 9633 * (s 1 - s 6) + 6437 * (s 2 - s 5) + 2260 * (s 3 - s 4),
    10703 * (s 0 + s 7 - s 3 - s 4) + 4433 * (s 1 + s 6 - s 2 - s 5),
    9633 * (s 0 - s 7) - 2259 * (s 1 - s 6) - 11362 * (s 2 - s 5) - 6436 * (s 3 - s 4),
    s 0 + s 3 + s 4 + s 7 - s 1 - s 2 - s 5 - s 6,
    6437 * (s 0 - s 7) - 11362 * (s 1 - s 6) + 2261 * (s 2 - s 5) + 9633 * (s 3 - s 4),
    4433 * (s 0 + s 7 - s 3 - s 4) - 10704 * (s 1 + s 6 - s 2 - s 5),
    2260 * (s 0 - s 7) - 6436 * (s 1 - s 6) + 9633 * (s 2 - s 5) - 11363 * (s 3 - s 4)]

theorem eq_of_ne_zero : ∀ k : Fin 8, k ≠ 0 →
    k = 1 ∨ k = 2 ∨ k = 3 ∨ k = 4 ∨ k = 5 ∨ k = 6 ∨ k = 7 := by
  decide

/-- The numbers lie in an interval of length `d`. Where factors are `int16`, they are sums of four
differences. -/
structure Within (lo d : ℤ) (s : Fin 8 → ℤ) : Prop where
  low : -4096 ≤ lo ∧ lo ≤ 0
  mem : ∀ i, lo ≤ s i ∧ s i ≤ lo + d

variable {lo d : ℤ} {s : Fin 8 → ℤ}

/-- No factor is cut and nothing overflows. -/
theorem dct1d_eq (h : Within lo d s) (hd : d ≤ 8160) : dct1d s = dctLinear s := by
  obtain ⟨hlo, hmem⟩ := h
  have h0 := hmem 0
  have h1 := hmem 1
  have h2 := hmem 2
  have h3 := hmem 3
  have h4 := hmem 4
  have h5 := hmem 5
  have h6 := hmem 6
  have h7 := hmem 7
  clear hmem
  unfold dct1d dctLinear dctMul
  generalize s 0 = a0 at *
  generalize s 1 = a1 at *
  generalize s 2 = a2 at *
  generalize s 3 = a3 at *
  generalize s 4 = a4 at *
  generalize s 5 = a5 at *
  generalize s 6 = a6 at *
  generalize s 7 = a7 at *
  simp (disch := omega) only [i32_eq, i16_eq]
  ring_nf

/-- The outputs but the first are sums of differences. -/
theorem dctLinear_bounds (h : Within lo d s) :
    (8 * lo ≤ dctLinear s 0 ∧ dctLinear s 0 ≤ 8 * lo + 8 * d) ∧
      (-(4 * d) ≤ dctLinear s 4 ∧ dctLinear s 4 ≤ 4 * d) ∧
      ∀ k, k ≠ 0 → k ≠ 4 → -(30274 * d) ≤ dctLinear s k ∧ dctLinear s k ≤ 30274 * d := by
  obtain ⟨-, hmem⟩ := h
  have h0 := hmem 0
  have h1 := hmem 1
  have h2 := hmem 2
  have h3 := hmem 3
  have h4 := hmem 4
  have h5 := hmem 5
  have h6 := hmem 6
  have h7 := hmem 7
  clear hmem
  unfold dctLinear
  generalize s 0 = a0 at *
  generalize s 1 = a1 at *
  generalize s 2 = a2 at *
  generalize s 3 = a3 at *
  generalize s 4 = a4 at *
  generalize s 5 = a5 at *
  generalize s 6 = a6 at *
  generalize s 7 = a7 at *
  refine ⟨?_, ?_, ?_⟩
  · simp only [Matrix.cons_val]
    omega
  · simp only [Matrix.cons_val]
    omega
  · intro k hk0 hk4
    obtain rfl | rfl | rfl | rfl | rfl | rfl | rfl := eq_of_ne_zero k hk0 <;>
      simp only [Matrix.cons_val] <;> first | contradiction | omega

/-! ## Two dimensions -/

/-- Samples of a byte. -/
def Samples (p : Block) : Prop := ∀ i j, -128 ≤ p i j ∧ p i j ≤ 127

/-- What a row gives, but for its first number. -/
theorem dctRow_bounds (h : ∀ i, -128 ≤ s i ∧ s i ≤ 127) :
    (-4096 ≤ dctRow s 0 ∧ dctRow s 0 ≤ 4064) ∧
      ∀ k, k ≠ 0 → -4080 ≤ dctRow s k ∧ dctRow s k ≤ 4080 := by
  have hwithin : Within (-128) 255 s := ⟨by decide, fun i => by have := h i; omega⟩
  obtain ⟨h0, h4, hk⟩ := dctLinear_bounds hwithin
  have h1 := hk 1 (by decide) (by decide)
  have h2 := hk 2 (by decide) (by decide)
  have h3 := hk 3 (by decide) (by decide)
  have h5 := hk 5 (by decide) (by decide)
  have h6 := hk 6 (by decide) (by decide)
  have h7 := hk 7 (by decide) (by decide)
  unfold dctRow dctDescale
  rw [dct1d_eq hwithin (by decide)]
  constructor
  · simp only [Matrix.cons_val]
    rw [i32_eq (by omega) (by omega)]
    omega
  · intro k hk0
    obtain rfl | rfl | rfl | rfl | rfl | rfl | rfl := eq_of_ne_zero k hk0 <;>
      simp only [Matrix.cons_val] <;> rw [i32_eq (by omega) (by omega)] <;> omega

theorem dctColumn_bounds (h : Within lo 8160 s) :
    ((8 * lo + 16) / 32 ≤ dctColumn s 0 ∧ dctColumn s 0 ≤ (8 * lo + 65296) / 32) ∧
      ∀ k, k ≠ 0 → -1020 ≤ dctColumn s k ∧ dctColumn s k ≤ 1020 := by
  obtain ⟨h0, h4, hk⟩ := dctLinear_bounds h
  have hlo := h.low
  have h1 := hk 1 (by decide) (by decide)
  have h2 := hk 2 (by decide) (by decide)
  have h3 := hk 3 (by decide) (by decide)
  have h5 := hk 5 (by decide) (by decide)
  have h6 := hk 6 (by decide) (by decide)
  have h7 := hk 7 (by decide) (by decide)
  unfold dctColumn dctDescale
  rw [dct1d_eq h (by decide)]
  constructor
  · simp only [Matrix.cons_val]
    rw [i32_eq (by omega) (by omega)]
    omega
  · intro k hk0
    obtain rfl | rfl | rfl | rfl | rfl | rfl | rfl := eq_of_ne_zero k hk0 <;>
      simp only [Matrix.cons_val] <;> rw [i32_eq (by omega) (by omega)] <;> omega

/-- The columns behind the rows are within the bounds again. -/
theorem column_within {p : Block} (h : Samples p) (j : Fin 8) :
    Within (if j = 0 then -4096 else -4080) 8160 fun k => dctRow (p k) j := by
  by_cases hj : j = 0
  · subst hj
    rw [if_pos rfl]
    exact ⟨by decide, fun i => by have := (dctRow_bounds (h i)).1; omega⟩
  · rw [if_neg hj]
    exact ⟨by decide, fun i => by have := (dctRow_bounds (h i)).2 j hj; omega⟩

theorem dct2d_bounds {p : Block} (h : Samples p) (i j : Fin 8) :
    -1024 ≤ dct2d p i j ∧ dct2d p i j ≤ 1020 ∧ (i ≠ 0 ∨ j ≠ 0 → -1020 ≤ dct2d p i j) := by
  have hcolumn := column_within h j
  obtain ⟨h0, hk⟩ := dctColumn_bounds hcolumn
  have heq : dct2d p i j = dctColumn (fun k => dctRow (p k) j) i := rfl
  rw [heq]
  by_cases hi : i = 0
  · subst hi
    by_cases hj : j = 0
    · subst hj
      rw [if_pos rfl] at h0
      refine ⟨by omega, by omega, fun hne => ?_⟩
      simp at hne
    · rw [if_neg hj] at h0
      exact ⟨by omega, by omega, fun _ => by omega⟩
  · have := hk i hi
    exact ⟨by omega, this.2, fun _ => this.1⟩

/-! ## Quantisation -/

/-- A step of a quantisation table is a byte and not zero. -/
def Step (q : ℤ) : Prop := 1 ≤ q ∧ q ≤ 255

theorem computeQuantTable_steps (quality : ℤ) (src : List ℤ) :
    (computeQuantTable quality src).length = src.length ∧
      ∀ q ∈ computeQuantTable quality src, Step q := by
  unfold computeQuantTable
  refine ⟨List.length_map _, ?_⟩
  intro q hq
  obtain ⟨j, -, rfl⟩ := List.mem_map.mp hq
  unfold Step
  omega

/-- The quotient is rounded to the nearest number, halves away from zero. -/
theorem quantize_eq {j q : ℤ} (hj : -1024 ≤ j ∧ j ≤ 1020) (hq : Step q) :
    quantize j q = if j < 0 then -((-j + q / 2) / q) else (j + q / 2) / q := by
  obtain ⟨hq1, hq2⟩ := hq
  have hround : ∀ x, 0 ≤ x → x ≤ 1024 → (x + q / 2 < q → (x + q / 2) / q = 0) ∧
      0 ≤ (x + q / 2) / q ∧ (x + q / 2) / q < 1152 := by
    intro x hx hx'
    refine ⟨fun h => Int.ediv_eq_zero_of_lt (by omega) h, ?_, ?_⟩
    · exact Int.ediv_nonneg (by omega) (by omega)
    · apply Int.ediv_lt_of_lt_mul (by omega)
      omega
  unfold quantize
  by_cases hneg : j < 0
  · obtain ⟨hsmall, hlo, hhi⟩ := hround (-j) (by omega) (by omega)
    rw [if_pos hneg, if_pos hneg, i32_eq (by omega) (by omega)]
    dsimp only
    by_cases hlt : -j + q / 2 < q
    · rw [if_pos hlt, hsmall hlt]
      rfl
    · rw [if_neg hlt, i16_eq (by omega) (by omega)]
  · obtain ⟨hsmall, hlo, hhi⟩ := hround j (by omega) (by omega)
    rw [if_neg hneg, if_neg hneg, i32_eq (by omega) (by omega)]
    dsimp only
    by_cases hlt : j + q / 2 < q
    · rw [if_pos hlt, hsmall hlt]
    · rw [if_neg hlt, i16_eq (by omega) (by omega)]

/-- A rounded quotient is within half a step, and not beyond the number. -/
theorem round_bounds {x q : ℤ} (hx : 0 ≤ x) (hq : 1 ≤ q) :
    x - q / 2 ≤ q * ((x + q / 2) / q) ∧ q * ((x + q / 2) / q) ≤ x + q / 2 ∧
      0 ≤ (x + q / 2) / q ∧ (x + q / 2) / q ≤ x := by
  have hdiv := Int.mul_ediv_add_emod (x + q / 2) q
  have hlo := Int.emod_nonneg (x + q / 2) (show q ≠ 0 by omega)
  have hhi := Int.emod_lt_of_pos (x + q / 2) (show 0 < q by omega)
  refine ⟨by omega, by omega, Int.ediv_nonneg (by omega) (by omega), ?_⟩
  apply Int.le_of_lt_add_one
  apply Int.ediv_lt_of_lt_mul (by omega)
  have hmul : x * 1 ≤ x * q := Int.mul_le_mul_of_nonneg_left hq hx
  rw [Int.add_mul, Int.one_mul]
  omega

theorem quantize_error {j q : ℤ} (hj : -1024 ≤ j ∧ j ≤ 1020) (hq : Step q) :
    |q * quantize j q - j| ≤ q / 2 := by
  rw [quantize_eq hj hq, abs_le]
  by_cases hneg : j < 0
  · obtain ⟨hlo, hhi, -, -⟩ := round_bounds (show 0 ≤ -j by omega) hq.1
    rw [if_pos hneg, mul_neg]
    omega
  · obtain ⟨hlo, hhi, -, -⟩ := round_bounds (show 0 ≤ j by omega) hq.1
    rw [if_neg hneg]
    omega

theorem quantize_le {j q : ℤ} (hj : -1024 ≤ j ∧ j ≤ 1020) (hq : Step q) :
    min j 0 ≤ quantize j q ∧ quantize j q ≤ max j 0 := by
  rw [quantize_eq hj hq]
  by_cases hneg : j < 0
  · obtain ⟨-, -, hlo, hhi⟩ := round_bounds (show 0 ≤ -j by omega) hq.1
    rw [if_pos hneg]
    omega
  · obtain ⟨-, -, hlo, hhi⟩ := round_bounds (show 0 ≤ j by omega) hq.1
    rw [if_neg hneg]
    omega

/-- Where position `k` of the zigzag order is in a block. -/
def zagAt (p : Block) (z : ℕ) : ℤ := p (Fin.ofNat 8 (z / 8)) (Fin.ofNat 8 (z % 8))

theorem zag_tail : ∀ z ∈ zag.tail, Fin.ofNat 8 (z / 8) ≠ 0 ∨ Fin.ofNat 8 (z % 8) ≠ 0 := by
  decide

/-- Whatever the samples are, their quantised coefficients have codes. -/
theorem codable_coefficients {p : Block} (h : Samples p) {table : List ℤ}
    (hlen : table.length = 64) (hsteps : ∀ q ∈ table, Step q) :
    Codable (loadQuantizedCoefficients table (dct2d p)) := by
  have hbounds := dct2d_bounds h
  obtain ⟨q, table, rfl⟩ := List.exists_cons_of_length_pos (show 0 < table.length by omega)
  constructor
  · rw [loadQuantizedCoefficients, List.length_map, List.length_zip, hlen]
    rfl
  · have h0 : -1024 ≤ zagAt (dct2d p) 0 ∧ zagAt (dct2d p) 0 ≤ 1020 ∧
        (_ → -1020 ≤ zagAt (dct2d p) 0) := hbounds _ _
    have hle := quantize_le ⟨h0.1, h0.2.1⟩ (hsteps q List.mem_cons_self)
    have hhead : (loadQuantizedCoefficients (q :: table) (dct2d p)).headD 0 =
        quantize (zagAt (dct2d p) 0) q := rfl
    rw [hhead]
    omega
  · intro v hv
    have htail : (loadQuantizedCoefficients (q :: table) (dct2d p)).tail =
        (zag.tail.zip table).map fun e => quantize (zagAt (dct2d p) e.1) e.2 := rfl
    rw [htail] at hv
    obtain ⟨e, he, rfl⟩ := List.mem_map.mp hv
    obtain ⟨hz, hq⟩ := List.of_mem_zip he
    have hb : -1024 ≤ zagAt (dct2d p) e.1 ∧ zagAt (dct2d p) e.1 ≤ 1020 ∧
        (_ → -1020 ≤ zagAt (dct2d p) e.1) := hbounds _ _
    have hlow := hb.2.2 (zag_tail e.1 hz)
    have hle := quantize_le ⟨hb.1, hb.2.1⟩ (hsteps e.2 (List.mem_cons_of_mem q hq))
    omega

end EspMesh.Jpge
