import Mathlib.Data.List.GetD
import EspMesh.Proof.JpegTransform

/-! # The samples of a picture

The lines of a row of units are filled up at their ends, and so is the last row. The blocks that are
coded are those of the picture whose last column and last line go on for ever.
-/

namespace EspMesh.Jpge
set_option autoImplicit false
open Encoder

/-! ## The picture -/

/-- Component `c` of the pixel at `x` and `y`. -/
def plane (g : Layout) (src : ℕ → List UInt8) (c x y : ℕ) : ℤ :=
  ((convertLine g (src (min y (g.imageY - 1)))).getD
    (min x (g.imageX - 1) * g.numComponents + c) 0).toNat

def tile (f : ℕ → ℕ → ℤ) (bx by' : ℕ) : Block := fun i j => f (8 * bx + j) (8 * by' + i) - 128

/-- The mean of two pixels. -/
def halved (f : ℕ → ℕ → ℤ) (x y : ℕ) : ℤ := (f (2 * x) y + f (2 * x + 1) y) / 2

/-- The mean of four pixels, rounded down or up like the fields of a chessboard. -/
def quartered (f : ℕ → ℕ → ℤ) (x y : ℕ) : ℤ :=
  (f (2 * x) (2 * y) + f (2 * x + 1) (2 * y) + f (2 * x) (2 * y + 1) +
    f (2 * x + 1) (2 * y + 1) + if (x + y) % 2 = 0 then 0 else 2) / 4

/-- The blocks of the unit in column `m` of row `r`. -/
def pictureUnit (f : ℕ → ℕ → ℕ → ℤ) (m r : ℕ) : Subsampling → List (ℕ × Block)
  | .yOnly => [(0, tile (f 0) m r)]
  | .h1v1 => [(0, tile (f 0) m r), (1, tile (f 1) m r), (2, tile (f 2) m r)]
  | .h2v1 =>
    [(0, tile (f 0) (2 * m) r), (0, tile (f 0) (2 * m + 1) r),
      (1, tile (halved (f 1)) m r), (2, tile (halved (f 2)) m r)]
  | .h2v2 =>
    [(0, tile (f 0) (2 * m) (2 * r)), (0, tile (f 0) (2 * m + 1) (2 * r)),
      (0, tile (f 0) (2 * m) (2 * r + 1)), (0, tile (f 0) (2 * m + 1) (2 * r + 1)),
      (1, tile (quartered (f 1)) m r), (2, tile (quartered (f 2)) m r)]

theorem plane_range (g : Layout) (src : ℕ → List UInt8) (c x y : ℕ) :
    0 ≤ plane g src c x y ∧ plane g src c x y ≤ 255 := by
  have h := ((convertLine g (src (min y (g.imageY - 1)))).getD
    (min x (g.imageX - 1) * g.numComponents + c) 0).toNat_lt
  unfold plane
  omega

theorem tile_samples {f : ℕ → ℕ → ℤ} (h : ∀ x y, 0 ≤ f x y ∧ f x y ≤ 255) (bx by' : ℕ) :
    Samples (tile f bx by') := by
  intro i j
  have := h (8 * bx + j) (8 * by' + i)
  unfold tile
  omega

theorem halved_range {f : ℕ → ℕ → ℤ} (h : ∀ x y, 0 ≤ f x y ∧ f x y ≤ 255) (x y : ℕ) :
    0 ≤ halved f x y ∧ halved f x y ≤ 255 := by
  have h0 := h (2 * x) y
  have h1 := h (2 * x + 1) y
  unfold halved
  omega

theorem quartered_range {f : ℕ → ℕ → ℤ} (h : ∀ x y, 0 ≤ f x y ∧ f x y ≤ 255) (x y : ℕ) :
    0 ≤ quartered f x y ∧ quartered f x y ≤ 255 := by
  have h0 := h (2 * x) (2 * y)
  have h1 := h (2 * x + 1) (2 * y)
  have h2 := h (2 * x) (2 * y + 1)
  have h3 := h (2 * x + 1) (2 * y + 1)
  unfold quartered
  split <;> omega

theorem pictureUnit_samples {f : ℕ → ℕ → ℕ → ℤ} (h : ∀ c x y, 0 ≤ f c x y ∧ f c x y ≤ 255)
    (m r : ℕ) (sub : Subsampling) : ∀ b ∈ pictureUnit f m r sub, Samples b.2 := by
  have hfull : ∀ c bx by', Samples (tile (f c) bx by') := fun c => tile_samples (h c)
  have hhalf : ∀ c bx by', Samples (tile (halved (f c)) bx by') := fun c =>
    tile_samples (halved_range (h c))
  have hquarter : ∀ c bx by', Samples (tile (quartered (f c)) bx by') := fun c =>
    tile_samples (quartered_range (h c))
  cases sub <;> simp [pictureUnit, hfull, hhalf, hquarter]

/-! ## Lines -/

theorem flatMap_range_length {α : Type} (f : ℕ → List α) (n k : ℕ) (h : ∀ i, (f i).length = k) :
    ((List.range n).flatMap f).length = n * k := by
  rw [List.length_flatMap]
  simp only [h, List.map_const', List.length_range, List.sum_replicate_nat]

theorem replicate_flatten_getD {α : Type} (p : List α) (n i k : ℕ) (d : α) (hi : i < n)
    (hk : k < p.length) : (List.replicate n p).flatten.getD (i * p.length + k) d = p.getD k d := by
  induction n generalizing i with
  | zero => omega
  | succ n ih =>
    rw [List.replicate_succ, List.flatten_cons]
    cases i with
    | zero => rw [Nat.zero_mul, Nat.zero_add, List.getD_append _ _ _ _ hk]
    | succ i =>
      rw [Nat.succ_mul, List.getD_append_right _ _ _ _ (by omega),
        show i * p.length + p.length + k - p.length = i * p.length + k by omega]
      exact ih i (by omega)

/-- A layout as `jpg_open` makes it, for a picture with a pixel at least. -/
structure Sound (g : Layout) (sub : Subsampling) : Prop where
  layout : g = Layout.ofSubsampling g.imageX g.imageY g.imageBpp sub
  width : 0 < g.imageX
  height : 0 < g.imageY
  bpp : 0 < g.imageBpp

/-- The lines are as long as the width says. -/
def Lines (g : Layout) (src : ℕ → List UInt8) : Prop :=
  ∀ y < g.imageY, (src y).length = g.imageX * g.imageBpp

variable {g : Layout} {sub : Subsampling} {src : ℕ → List UInt8}

theorem Sound.components (h : Sound g sub) : g.numComponents = 1 ∨ g.numComponents = 3 := by
  rw [h.layout]
  cases sub <;> simp [Layout.ofSubsampling]

theorem convertLine_length (h : Sound g sub) {l : List UInt8}
    (hl : l.length = g.imageX * g.imageBpp) :
    (convertLine g l).length = g.imageX * g.numComponents := by
  have hbpp : g.imageX * 1 ≤ g.imageX * g.imageBpp := Nat.mul_le_mul_left _ h.bpp
  unfold convertLine
  obtain hn | hn := h.components
  · rw [if_pos hn, hn]
    split
    · rw [rgbToY, List.length_map, List.length_range, Nat.mul_one]
    · rw [List.length_take]
      omega
  · rw [if_neg (by omega), hn]
    split
    · exact flatMap_range_length _ _ _ fun _ => rfl
    · exact flatMap_range_length _ _ _ fun _ => rfl

theorem mcuLine_getD (h : Sound g sub) {l : List UInt8} (hl : l.length = g.imageX * g.imageBpp)
    {x c : ℕ} (hx : x < g.imageXMcu) (hc : c < g.numComponents) :
    (mcuLine g l).getD (x * g.numComponents + c) 0 =
      (convertLine g l).getD (min x (g.imageX - 1) * g.numComponents + c) 0 := by
  have hlen := convertLine_length h hl
  have hwidth := h.width
  unfold mcuLine
  dsimp only
  rw [Layout.imageBplXlt]
  by_cases hin : x < g.imageX
  · have hle : (x + 1) * g.numComponents ≤ g.imageX * g.numComponents :=
      Nat.mul_le_mul_right _ hin
    rw [Nat.add_mul, Nat.one_mul] at hle
    rw [List.getD_append _ _ _ _ (by omega), Nat.min_eq_left (by omega)]
  · obtain ⟨k, rfl⟩ := Nat.exists_eq_add_of_le (Nat.not_lt.mp hin)
    have hlast : g.imageX * g.numComponents =
        (g.imageX - 1) * g.numComponents + g.numComponents := by
      rw [← Nat.succ_mul, Nat.succ_eq_add_one, Nat.sub_add_cancel hwidth]
    have hpos : (g.imageX + k) * g.numComponents + c - (convertLine g l).length =
        k * g.numComponents + c := by
      rw [hlen, Nat.add_mul]
      omega
    rw [List.getD_append_right _ _ _ _ (by rw [hlen, Nat.add_mul]; omega), hpos,
      Nat.min_eq_right (by omega)]
    obtain hn | hn := h.components
    · have hc0 : c = 0 := by omega
      rw [hn] at hlast ⊢
      subst hc0
      rw [if_pos rfl]
      have hflat := replicate_flatten_getD [(convertLine g l).getD (g.imageX * 1 - 1) 0]
        (g.imageXMcu - g.imageX) k 0 0 (by omega) Nat.one_pos
      rw [List.length_singleton] at hflat
      rw [hflat, hlast]
      rfl
    · rw [hn] at hlast hc ⊢
      rw [if_neg (by decide)]
      have hflat := replicate_flatten_getD
        [(convertLine g l).getD (g.imageX * 3 - 3) 0, (convertLine g l).getD (g.imageX * 3 - 2) 0,
          (convertLine g l).getD (g.imageX * 3 - 1) 0]
        (g.imageXMcu - g.imageX) k c 0 (by omega) hc
      simp only [List.length_cons, List.length_nil] at hflat
      rw [hflat, hlast]
      obtain rfl | rfl | rfl : c = 0 ∨ c = 1 ∨ c = 2 := by omega
      · rfl
      · rfl
      · rfl

/-! ## Units -/

/-- The lines of row `r` of units. -/
def RowLines (g : Layout) (src : ℕ → List UInt8) (r : ℕ) (lines : McuLines) : Prop :=
  ∀ i < g.mcuY, lines i = mcuLine g (src (min (r * g.mcuY + i) (g.imageY - 1)))

theorem sample_eq (h : Sound g sub) (hsrc : Lines g src) {r : ℕ} {lines : McuLines}
    (hlines : RowLines g src r lines) {i x c : ℕ} (hi : i < g.mcuY) (hx : x < g.imageXMcu)
    (hc : c < g.numComponents) :
    sample lines i (x * g.numComponents + c) = plane g src c x (r * g.mcuY + i) := by
  have hheight := h.height
  unfold sample plane
  rw [hlines i hi, mcuLine_getD h (hsrc _ (by omega)) hx hc]

theorem lt_imageXMcu (g : Layout) {m k : ℕ} (hm : m < g.mcusPerRow) (hk : k < g.mcuX) :
    m * g.mcuX + k < g.imageXMcu := by
  have hmul : (m + 1) * g.mcuX ≤ g.mcusPerRow * g.mcuX := Nat.mul_le_mul_right _ hm
  have hdiv : g.mcusPerRow * g.mcuX ≤ g.imageXMcu := Nat.div_mul_le_self _ _
  rw [Nat.add_mul, Nat.one_mul] at hmul
  omega

theorem loadBlock88_eq (h : Sound g sub) (hsrc : Lines g src) {r : ℕ} {lines : McuLines}
    (hlines : RowLines g src r lines) (hn : g.numComponents = 3) {x y c by' : ℕ}
    (hx : x * 8 + 7 < g.imageXMcu) (hy : y * 8 + 7 < g.mcuY) (hc : c < 3)
    (hby : r * g.mcuY + y * 8 = 8 * by') :
    loadBlock88 lines x y c = tile (plane g src c) x by' := by
  funext i j
  have hsample := sample_eq h hsrc hlines (i := y * 8 + i) (x := 8 * x + j) (c := c) (by omega)
    (by omega) (by omega)
  unfold loadBlock88 tile
  rw [← hby, Nat.add_assoc (r * g.mcuY), ← hsample, hn,
    show x * (8 * 3) + c + j.val * 3 = (8 * x + j) * 3 + c by omega]

theorem loadBlock88Grey_eq (h : Sound g sub) (hsrc : Lines g src) {r : ℕ} {lines : McuLines}
    (hlines : RowLines g src r lines) (hn : g.numComponents = 1) (hy : g.mcuY = 8) {x : ℕ}
    (hx : x * 8 + 7 < g.imageXMcu) : loadBlock88Grey lines x = tile (plane g src 0) x r := by
  funext i j
  have hsample := sample_eq h hsrc hlines (i := i) (x := 8 * x + j) (c := 0) (by omega)
    (by omega) (by omega)
  unfold loadBlock88Grey tile
  rw [show 8 * r + i.val = r * g.mcuY + i by rw [hy]; omega, ← hsample, hn,
    show x * 8 + j.val = (8 * x + j) * 1 + 0 by omega]

theorem loadBlock1688_eq (h : Sound g sub) (hsrc : Lines g src) {r : ℕ} {lines : McuLines}
    (hlines : RowLines g src r lines) (hn : g.numComponents = 3) (hy : g.mcuY = 8) {x c : ℕ}
    (hx : x * 16 + 15 < g.imageXMcu) (hc : c < 3) :
    loadBlock1688 lines x c = tile (halved (plane g src c)) x r := by
  funext i j
  have hsample := fun k (hk : k < 2) => sample_eq h hsrc hlines (i := i)
    (x := 2 * (8 * x + j) + k) (c := c) (by omega) (by omega) (by omega)
  have h0 := hsample 0 (by decide)
  have h1 := hsample 1 (by decide)
  rw [Nat.add_zero] at h0
  unfold loadBlock1688 tile halved
  rw [show 8 * r + i.val = r * g.mcuY + i by rw [hy]; omega, ← h0, ← h1, hn,
    show x * (16 * 3) + c + 2 * j.val * 3 = 2 * (8 * x + j) * 3 + c by omega,
    show x * (16 * 3) + c + (2 * j.val + 1) * 3 = (2 * (8 * x + j) + 1) * 3 + c by omega]

theorem loadBlock168_eq (h : Sound g sub) (hsrc : Lines g src) {r : ℕ} {lines : McuLines}
    (hlines : RowLines g src r lines) (hn : g.numComponents = 3) (hy : g.mcuY = 16) {x c : ℕ}
    (hx : x * 16 + 15 < g.imageXMcu) (hc : c < 3) :
    loadBlock168 lines x c = tile (quartered (plane g src c)) x r := by
  funext i j
  have hsample := fun k (hk : k < 2) n (hn : n < 2) => sample_eq h hsrc hlines (i := 2 * i + n)
    (x := 2 * (8 * x + j) + k) (c := c) (by omega) (by omega) (by omega)
  have h00 := hsample 0 (by decide) 0 (by decide)
  have h10 := hsample 1 (by decide) 0 (by decide)
  have h01 := hsample 0 (by decide) 1 (by decide)
  have h11 := hsample 1 (by decide) 1 (by decide)
  simp only [Nat.add_zero] at h00 h10 h01
  have hparity : (8 * x + j.val + (8 * r + i.val)) % 2 = (i.val + j.val) % 2 := by omega
  unfold loadBlock168 tile quartered
  dsimp only
  rw [hparity, show 2 * (8 * r + i.val) = r * g.mcuY + 2 * i by rw [hy]; omega, ← h00, ← h10,
    Nat.add_assoc (r * g.mcuY), ← h01, ← h11, hn,
    show x * (16 * 3) + c + 2 * j.val * 3 = 2 * (8 * x + j) * 3 + c by omega,
    show x * (16 * 3) + c + (2 * j.val + 1) * 3 = (2 * (8 * x + j) + 1) * 3 + c by omega]

/-- The blocks that are loaded are those of the picture. -/
theorem unitBlocks_eq (h : Sound g sub) (hsrc : Lines g src) {r m : ℕ} {lines : McuLines}
    (hlines : RowLines g src r lines) (hm : m < g.mcusPerRow) :
    unitBlocks g lines m = pictureUnit (plane g src) m r sub := by
  have hg := h.layout
  have hlast := fun k (hk : k < g.mcuX) => lt_imageXMcu g hm hk
  cases sub with
  | yOnly =>
    have hn : g.numComponents = 1 := by rw [hg]; rfl
    have hx : g.mcuX = 8 := by rw [hg]; rfl
    have hy : g.mcuY = 8 := by rw [hg]; rfl
    rw [hx] at hlast
    unfold unitBlocks pictureUnit
    dsimp only
    rw [if_pos hn, loadBlock88Grey_eq h hsrc hlines hn hy (hlast 7 (by decide))]
  | h1v1 =>
    have hn : g.numComponents = 3 := by rw [hg]; rfl
    have hh : g.compHSamp = [1, 1, 1] := by rw [hg]; rfl
    have hv : g.compVSamp = [1, 1, 1] := by rw [hg]; rfl
    have hx : g.mcuX = 8 := by rw [hg]; rfl
    have hy : g.mcuY = 8 := by rw [hg]; rfl
    rw [hx] at hlast
    have hload := fun c (hc : c < 3) => loadBlock88_eq h hsrc hlines hn (hlast 7 (by decide))
      (show 0 * 8 + 7 < g.mcuY by omega) hc (show r * g.mcuY + 0 * 8 = 8 * r by rw [hy]; omega)
    unfold unitBlocks pictureUnit
    rw [hh, hv, hload 0 (by decide), hload 1 (by decide), hload 2 (by decide), if_neg (by omega)]
    rfl
  | h2v1 =>
    have hn : g.numComponents = 3 := by rw [hg]; rfl
    have hh : g.compHSamp = [2, 1, 1] := by rw [hg]; rfl
    have hv : g.compVSamp = [1, 1, 1] := by rw [hg]; rfl
    have hx : g.mcuX = 16 := by rw [hg]; rfl
    have hy : g.mcuY = 8 := by rw [hg]; rfl
    rw [hx] at hlast
    have h15 := hlast 15 (by decide)
    have hload := fun x (hx : x * 8 + 7 < g.imageXMcu) => loadBlock88_eq h hsrc hlines hn hx
      (show 0 * 8 + 7 < g.mcuY by omega) (show 0 < 3 by decide)
      (show r * g.mcuY + 0 * 8 = 8 * r by rw [hy]; omega)
    unfold unitBlocks pictureUnit
    rw [hh, hv, hload (m * 2) (by omega), hload (m * 2 + 1) (by omega),
      loadBlock1688_eq h hsrc hlines hn hy h15 (show 1 < 3 by decide),
      loadBlock1688_eq h hsrc hlines hn hy h15 (show 2 < 3 by decide), if_neg (by omega),
      Nat.mul_comm m 2]
    rfl
  | h2v2 =>
    have hn : g.numComponents = 3 := by rw [hg]; rfl
    have hh : g.compHSamp = [2, 1, 1] := by rw [hg]; rfl
    have hv : g.compVSamp = [2, 1, 1] := by rw [hg]; rfl
    have hx : g.mcuX = 16 := by rw [hg]; rfl
    have hy : g.mcuY = 16 := by rw [hg]; rfl
    rw [hx] at hlast
    have h15 := hlast 15 (by decide)
    have hload := fun x (hx : x * 8 + 7 < g.imageXMcu) y (hy' : y < 2) =>
      loadBlock88_eq h hsrc hlines hn hx (show y * 8 + 7 < g.mcuY by omega)
        (show 0 < 3 by decide)
        (show r * g.mcuY + y * 8 = 8 * (2 * r + y) by rw [hy]; omega)
    unfold unitBlocks pictureUnit
    rw [hh, hv, hload (m * 2) (by omega) 0 (by decide), hload (m * 2 + 1) (by omega) 0 (by decide),
      hload (m * 2) (by omega) 1 (by decide), hload (m * 2 + 1) (by omega) 1 (by decide),
      loadBlock168_eq h hsrc hlines hn hy h15 (show 1 < 3 by decide),
      loadBlock168_eq h hsrc hlines hn hy h15 (show 2 < 3 by decide), if_neg (by omega),
      Nat.mul_comm m 2]
    rfl

end EspMesh.Jpge
