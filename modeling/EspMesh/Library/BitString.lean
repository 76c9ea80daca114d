import Mathlib.Data.List.Basic
import Mathlib.Data.List.Induction
import Mathlib.Data.Nat.Notation
import Mathlib.Tactic.Ring

/-! # Strings of bits, and bytes with stuffing

The most significant bit of a number comes first. In a stuffed string of bytes each 255 has a zero
behind it, so that 255 with another byte behind it ends the string.
-/

namespace BitString
set_option autoImplicit false

def value (w : List Bool) : ℕ := w.foldl (fun a b => 2 * a + b.toNat) 0

/-- The last `n` binary digits of `v`. -/
def bits : ℕ → ℕ → List Bool
  | 0, _ => []
  | n + 1, v => bits n (v / 2) ++ [decide (v % 2 = 1)]

@[simp] theorem bits_zero (v : ℕ) : bits 0 v = [] := rfl

@[simp] theorem bits_length (n v : ℕ) : (bits n v).length = n := by
  induction n generalizing v with
  | zero => rfl
  | succ n ih => rw [bits, List.length_append, ih, List.length_singleton]

@[simp] theorem value_nil : value [] = 0 := rfl

theorem value_concat (w : List Bool) (b : Bool) : value (w ++ [b]) = 2 * value w + b.toNat := by
  rw [value, List.foldl_append]
  rfl

theorem value_append (u w : List Bool) : value (u ++ w) = value u * 2 ^ w.length + value w := by
  induction w using List.reverseRecOn with
  | nil => simp
  | append_singleton w b ih =>
    rw [← List.append_assoc, value_concat, ih, value_concat, List.length_append,
      List.length_singleton, pow_succ]
    ring

theorem value_lt (w : List Bool) : value w < 2 ^ w.length := by
  induction w using List.reverseRecOn with
  | nil => decide
  | append_singleton w b ih =>
    rw [value_concat, List.length_append, List.length_singleton, pow_succ]
    have hb : b.toNat ≤ 1 := Bool.toNat_le b
    omega

theorem value_bits (n v : ℕ) : value (bits n v) = v % 2 ^ n := by
  induction n generalizing v with
  | zero => simp [Nat.mod_one]
  | succ n ih =>
    have hb : (decide (v % 2 = 1)).toNat = v % 2 := by
      obtain h | h := Nat.mod_two_eq_zero_or_one v <;> simp [h]
    rw [bits, value_concat, ih, hb, pow_succ, Nat.mul_comm (2 ^ n) 2, Nat.mod_mul]
    omega

theorem bits_value (w : List Bool) : bits w.length (value w) = w := by
  induction w using List.reverseRecOn with
  | nil => rfl
  | append_singleton w b ih =>
    have hdiv : (2 * value w + b.toNat) / 2 = value w := by cases b <;> simp; omega
    have hmod : decide ((2 * value w + b.toNat) % 2 = 1) = b := by cases b <;> simp
    rw [List.length_append, List.length_singleton, bits, value_concat, hdiv, hmod, ih]

theorem value_ones (n : ℕ) : value (List.replicate n true) + 1 = 2 ^ n := by
  induction n with
  | zero => rfl
  | succ n ih =>
    rw [List.replicate_succ', value_concat, pow_succ, Bool.toNat_true]
    omega

/-! ## Bytes -/

def byteBits (b : UInt8) : List Bool := bits 8 b.toNat

@[simp] theorem byteBits_length (b : UInt8) : (byteBits b).length = 8 := bits_length 8 _

/-! ## Stuffing -/

def stuff : List UInt8 → List UInt8
  | [] => []
  | b :: l => if b = 255 then b :: 0 :: stuff l else b :: stuff l

/-- The bytes before the end of a stuffed string, and what begins with its end. -/
def unstuff : List UInt8 → List UInt8 × List UInt8
  | [] => ([], [])
  | [b] => ([b], [])
  | b :: c :: l =>
    if b = 255 then
      if c = 0 then (b :: (unstuff l).1, (unstuff l).2) else ([], b :: c :: l)
    else (b :: (unstuff (c :: l)).1, (unstuff (c :: l)).2)

theorem stuff_append (l l' : List UInt8) : stuff (l ++ l') = stuff l ++ stuff l' := by
  induction l with
  | nil => rfl
  | cons b l ih =>
    rw [List.cons_append, stuff, stuff, ih]
    split <;> rfl

theorem unstuff_stuff (l rest : List UInt8) {m : UInt8} (hm : m ≠ 0) :
    unstuff (stuff l ++ 255 :: m :: rest) = (l, 255 :: m :: rest) := by
  induction l with
  | nil => simp [stuff, unstuff, hm]
  | cons b l ih =>
    rw [stuff]
    by_cases hb : b = 255
    · rw [if_pos hb, List.cons_append, List.cons_append, unstuff, if_pos hb, if_pos rfl, ih]
    · have hne : stuff l ++ 255 :: m :: rest ≠ [] := by simp
      obtain ⟨c, l', hc⟩ := List.exists_cons_of_ne_nil hne
      rw [if_neg hb, List.cons_append, hc, unstuff, if_neg hb, ← hc, ih]

end BitString
