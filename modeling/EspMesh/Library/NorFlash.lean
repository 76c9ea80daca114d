import Mathlib.Data.Nat.Notation

/-! # NOR flash

Erasing sets all bits of a byte, programming clears those that are clear in the data and sets
none. A write that fails may have cleared any of the bits it was to clear.

* `program flash offset size data left`: `left` has the bits that the write failed to clear.
* `Accepts flash image n`: the first `n` bytes can still be programmed to those of `image`.
-/

namespace NorFlash
set_option autoImplicit false

abbrev Flash := ℕ → UInt8

def erased : UInt8 := 0xff

def program (flash : Flash) (offset size : ℕ) (data left : ℕ → UInt8) : Flash := fun a =>
  if offset ≤ a ∧ a < offset + size then flash a &&& (data (a - offset) ||| left (a - offset))
  else flash a

def Accepts (flash : Flash) (image : ℕ → UInt8) (n : ℕ) : Prop :=
  ∀ a < n, flash a &&& image a = image a

variable {flash : Flash} {image data left : ℕ → UInt8} {offset size n a : ℕ}

theorem program_inside (h : offset ≤ a ∧ a < offset + size) :
    program flash offset size data left a =
      flash a &&& (data (a - offset) ||| left (a - offset)) := if_pos h

theorem program_outside (h : ¬ (offset ≤ a ∧ a < offset + size)) :
    program flash offset size data left a = flash a := if_neg h

theorem and_or_absorb (a b : UInt8) : a &&& (a ||| b) = a := by
  apply UInt8.toBitVec_inj.mp
  ext i
  simp only [UInt8.toBitVec_and, UInt8.toBitVec_or, BitVec.getElem_and, BitVec.getElem_or,
    Bool.and_or_distrib_left, Bool.and_self]
  cases a.toBitVec[i] <;> rfl

theorem data_at (hdata : ∀ k < size, data k = image (offset + k))
    (hin : offset ≤ a ∧ a < offset + size) : data (a - offset) = image a := by
  rw [hdata _ (by omega), Nat.add_sub_cancel' hin.1]

/-- What holds the right byte holds it after any write of the right data. -/
theorem program_stable (hdata : ∀ k < size, data k = image (offset + k)) (h : flash a = image a) :
    program flash offset size data left a = image a := by
  by_cases hin : offset ≤ a ∧ a < offset + size
  · rw [program_inside hin, data_at hdata hin, h, and_or_absorb]
  · rw [program_outside hin, h]

theorem Accepts.of_erased (h : ∀ a < n, flash a = erased) : Accepts flash image n := by
  intro a ha
  rw [h a ha]
  exact UInt8.neg_one_and

theorem Accepts.program (h : Accepts flash image n)
    (hdata : ∀ k < size, data k = image (offset + k)) :
    Accepts (program flash offset size data left) image n := by
  intro a ha
  by_cases hin : offset ≤ a ∧ a < offset + size
  · rw [program_inside hin, data_at hdata hin, UInt8.and_assoc, UInt8.and_comm _ (image a),
      and_or_absorb, h a ha]
  · rw [program_outside hin, h a ha]

/-- A write that leaves no bit behind. -/
theorem program_complete (h : Accepts flash image n)
    (hdata : ∀ k < size, data k = image (offset + k)) (hin : offset ≤ a ∧ a < offset + size)
    (ha : a < n) : NorFlash.program flash offset size data (fun _ => 0) a = image a := by
  rw [program_inside hin, data_at hdata hin, UInt8.or_zero, h a ha]

end NorFlash
