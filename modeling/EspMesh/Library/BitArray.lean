import Mathlib.Logic.Function.Basic
import Mathlib.Data.Nat.Notation
import Mathlib.Tactic.Tauto

/-! # Bits in an array of bytes

Bit `i` is bit `i % 8` of byte `i / 8`.
-/

namespace BitArray
set_option autoImplicit false

def mask (i : ℕ) : UInt8 := UInt8.ofNat (1 <<< (i % 8))

def get (data : ℕ → UInt8) (i : ℕ) : Bool := data (i / 8) &&& mask i != 0

def set (data : ℕ → UInt8) (i : ℕ) : ℕ → UInt8 :=
  Function.update data (i / 8) (data (i / 8) ||| mask i)

theorem mask_and_mask : ∀ i < 8, ∀ j < 8,
    UInt8.ofNat (1 <<< i) &&& UInt8.ofNat (1 <<< j) = 0 ↔ i ≠ j := by
  decide

theorem or_and (a b m : UInt8) : (a ||| b) &&& m = (a &&& m) ||| (b &&& m) := by
  apply UInt8.toBitVec_inj.mp
  ext i
  simp [Bool.and_or_distrib_right]

/-- A mask picks one bit out. -/
theorem and_mask : ∀ a < 256, ∀ j < 8, UInt8.ofNat a &&& UInt8.ofNat (1 <<< j) = 0 ∨
    UInt8.ofNat a &&& UInt8.ofNat (1 <<< j) = UInt8.ofNat (1 <<< j) := by
  decide +kernel

theorem full_byte : ∀ a < 256, (∀ j < 8, UInt8.ofNat a &&& UInt8.ofNat (1 <<< j) ≠ 0) →
    UInt8.ofNat a = 255 := by
  decide +kernel

theorem byte_and_mask (a : UInt8) (i : ℕ) : a &&& mask i = 0 ∨ a &&& mask i = mask i := by
  have h := and_mask a.toNat a.toNat_lt (i % 8) (Nat.mod_lt _ (by decide))
  rwa [UInt8.ofNat_toNat] at h

theorem get_and (x y : ℕ → UInt8) (i : ℕ) :
    get (fun k => x k &&& y k) i = (get x i && get y i) := by
  have hand : (x (i / 8) &&& y (i / 8)) &&& mask i =
      (x (i / 8) &&& mask i) &&& (y (i / 8) &&& mask i) := by
    apply UInt8.toBitVec_inj.mp
    ext k
    simp only [UInt8.toBitVec_and, BitVec.getElem_and]
    grind
  rw [get, get, get, hand]
  rcases byte_and_mask (x (i / 8)) i with hx | hx <;>
    rcases byte_and_mask (y (i / 8)) i with hy | hy <;> simp [hx, hy]

/-- All bits are set exactly when all bytes are full. -/
theorem get_full (x : ℕ → UInt8) (n : ℕ) :
    (∀ i < 8 * n, get x i = true) ↔ ∀ k < n, x k = 255 := by
  constructor
  · intro h k hk
    have hbyte := full_byte (x k).toNat (x k).toNat_lt fun j hj => ?_
    · rwa [UInt8.ofNat_toNat] at hbyte
    · have hbit := h (8 * k + j) (by omega)
      rw [get, mask, show (8 * k + j) / 8 = k by omega, show (8 * k + j) % 8 = j by omega] at hbit
      rw [UInt8.ofNat_toNat]
      simpa using hbit
  · intro h i hi
    have h255 : ∀ j < 8, (255 : UInt8) &&& UInt8.ofNat (1 <<< j) ≠ 0 := by decide
    rw [get, h (i / 8) (by omega), bne_iff_ne]
    exact h255 _ (Nat.mod_lt _ (by decide))

theorem get_clear (i : ℕ) : get (fun _ => 0) i = false := by
  simp [get]

theorem get_set (data : ℕ → UInt8) (i j : ℕ) :
    get (set data i) j = (get data j || decide (i = j)) := by
  by_cases hbyte : j / 8 = i / 8
  · have hmask : mask i &&& mask j = 0 ↔ i ≠ j := by
      rw [mask, mask, mask_and_mask _ (Nat.mod_lt _ (by decide)) _ (Nat.mod_lt _ (by decide))]
      omega
    rw [get, set, hbyte, Function.update_self, or_and, get, hbyte, Bool.eq_iff_iff]
    simp only [bne_iff_ne, ne_eq, UInt8.or_eq_zero_iff, hmask, Bool.or_eq_true, decide_eq_true_eq]
    tauto
  · have hne : i ≠ j := fun h => hbyte (by rw [h])
    rw [get, set, Function.update_of_ne hbyte, decide_eq_false hne, Bool.or_false, get]

end BitArray
