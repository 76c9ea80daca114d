import Mathlib.Data.List.FinRange
import EspMesh.Library.CosineTransform
import EspMesh.Library.JpegFile

/-! # The samples of a block

A reader multiplies the coefficients by the steps of their table, takes them out of zigzag order and
undoes the cosine transform. It adds 128 afterwards.
-/

namespace BaselineJpeg
set_option autoImplicit false
open CosineTransform

/-- Where the coefficient of row `v` and column `u` is: the diagonals go up and down by turns. -/
def zigzagIndex (v u : Fin 8) : ℕ :=
  let d := v.val + u.val
  if d < 8 then d * (d + 1) / 2 + if d % 2 = 0 then u.val else v.val
  else 63 - ((14 - d) * (15 - d) / 2 + if d % 2 = 0 then 7 - u.val else 7 - v.val)

theorem zigzagIndex_perm :
    ((List.finRange 8).flatMap fun v => (List.finRange 8).map (zigzagIndex v)).Perm
      (List.range 64) := by
  decide

theorem sum_zigzag (f : ℕ → ℝ) :
    ∑ v, ∑ u, f (zigzagIndex v u) = ((List.range 64).map f).sum := by
  have hrow : ∀ v, ∑ u, f (zigzagIndex v u) =
      (((List.finRange 8).map (zigzagIndex v)).map f).sum := by
    intro v
    rw [Fin.sum_univ_def, List.map_map]
    rfl
  have hperm := (zigzagIndex_perm.map f).sum_eq
  rw [List.map_flatMap, List.flatMap_def, List.sum_flatten, List.map_map] at hperm
  rw [← hperm, Fin.sum_univ_def]
  simp only [hrow]
  rfl

noncomputable def dequantised (quant : List ℕ) (b : List ℤ) : Matrix (Fin 8) (Fin 8) ℝ := fun v u =>
  (b.getD (zigzagIndex v u) 0 : ℝ) * quant.getD (zigzagIndex v u) 0

noncomputable def restored (quant : List ℕ) (b : List ℤ) : Matrix (Fin 8) (Fin 8) ℝ :=
  restore (dequantised quant b)

theorem energy_restored_sub {quant : List ℕ} {b : List ℤ} {p : Matrix (Fin 8) (Fin 8) ℝ}
    {e : ℕ → ℝ} (h : ∀ v u, |dequantised quant b v u - transform p v u| ≤ e (zigzagIndex v u)) :
    energy (restored quant b - p) ≤ ((List.range 64).map fun k => e k ^ 2).sum := by
  rw [← sum_zigzag]
  exact energy_restore_sub h

end BaselineJpeg
