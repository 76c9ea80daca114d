import Mathlib.Algebra.BigOperators.Group.Finset.Basic
import Mathlib.Algebra.Order.BigOperators.Group.Finset

/-! # A byte string cut into blocks

`n` bytes in blocks of `b`, of which the last may be shorter.

* `num b n`: how many blocks there are.
* `size b n i`: the length of block `i`.
* `sizes b n s`: the bytes in the blocks that `s` has.
-/

namespace Blocks
set_option autoImplicit false

def num (b n : ℕ) : ℕ := (n + b - 1) / b

def size (b n i : ℕ) : ℕ := min b (n - i * b)

def sizes (b n : ℕ) (s : ℕ → Bool) : ℕ := ∑ i ∈ Finset.range (num b n) with s i, size b n i

variable {b n i a : ℕ}

theorem lt_num_iff (hb : 0 < b) : i < num b n ↔ i * b < n := by
  rw [num, Nat.lt_iff_add_one_le, Nat.le_div_iff_mul_le hb, Nat.add_mul]
  omega

theorem size_pos (hb : 0 < b) (h : i < num b n) : 0 < size b n i := by
  rw [lt_num_iff hb] at h
  rw [size]
  omega

theorem end_le (hb : 0 < b) (h : i < num b n) : i * b + size b n i ≤ n := by
  rw [lt_num_iff hb] at h
  rw [size]
  omega

theorem last_iff (hb : 0 < b) (h : i < num b n) : i + 1 = num b n ↔ n ≤ i * b + b := by
  have hnext := lt_num_iff (n := n) (i := i + 1) hb
  rw [Nat.add_mul, Nat.one_mul] at hnext
  omega

/-- The last block is full where the length divides, and has the rest where it does not. -/
theorem size_eq (hb : 0 < b) (h : i < num b n) :
    size b n i = if i + 1 = num b n then (if n % b = 0 then b else n % b) else b := by
  have hstart := (lt_num_iff hb).mp h
  have hlast_iff := last_iff hb h
  obtain ⟨m, rfl⟩ := Nat.exists_eq_add_of_lt hstart
  have hmod : (i * b + m + 1) % b = (m + 1) % b := by
    rw [Nat.add_assoc, Nat.mul_comm, Nat.mul_add_mod]
  rw [hmod, size]
  by_cases hlast : i * b + m + 1 ≤ i * b + b
  · rw [if_pos (hlast_iff.mpr hlast)]
    by_cases hfull : m + 1 = b
    · rw [hfull, Nat.mod_self, if_pos rfl]
      omega
    · rw [Nat.mod_eq_of_lt (by omega), if_neg (by omega)]
      omega
  · rw [if_neg fun h => hlast (hlast_iff.mp h)]
    omega

/-- Where a byte is. -/
theorem mem_block (hb : 0 < b) (h : a < n) :
    a / b < num b n ∧ a / b * b ≤ a ∧ a < a / b * b + size b n (a / b) := by
  have hle := Nat.div_mul_le_self a b
  have hlt := Nat.lt_div_mul_add hb (a := a)
  refine ⟨(lt_num_iff hb).mpr (by omega), hle, ?_⟩
  rw [size]
  omega

theorem sum_range (b n k : ℕ) : ∑ i ∈ Finset.range k, size b n i = min (k * b) n := by
  induction k with
  | zero => simp
  | succ k ih =>
    rw [Finset.sum_range_succ, ih, size, Nat.add_mul]
    omega

/-- The blocks have all the bytes. -/
theorem sum_all (hb : 0 < b) (n : ℕ) : ∑ i ∈ Finset.range (num b n), size b n i = n := by
  have hend := lt_num_iff (n := n) (i := num b n) hb
  rw [sum_range]
  omega

theorem sizes_none (b n : ℕ) {s : ℕ → Bool} (h : ∀ i, s i = false) : sizes b n s = 0 := by
  simp [sizes, h]

theorem sizes_congr {s t : ℕ → Bool} (h : ∀ i < num b n, s i = t i) :
    sizes b n s = sizes b n t := by
  have hfilter : (Finset.range (num b n)).filter (fun i => s i = true) =
      (Finset.range (num b n)).filter fun i => t i = true := by
    refine Finset.filter_congr fun i hi => ?_
    rw [h i (Finset.mem_range.mp hi)]
  rw [sizes, hfilter, sizes]

/-- One block more. -/
theorem sizes_insert {s t : ℕ → Bool} (hi : i < num b n) (hs : s i = false)
    (ht : ∀ j, t j = (s j || decide (i = j))) : sizes b n t = sizes b n s + size b n i := by
  have hfilter : (Finset.range (num b n)).filter (fun j => t j = true) =
      insert i ((Finset.range (num b n)).filter fun j => s j = true) := by
    ext j
    simp only [Finset.mem_filter, Finset.mem_insert, Finset.mem_range, ht, Bool.or_eq_true,
      decide_eq_true_eq]
    constructor
    · rintro ⟨hj, hsj | rfl⟩
      · exact .inr ⟨hj, hsj⟩
      · exact .inl rfl
    · rintro (rfl | ⟨hj, hsj⟩)
      · exact ⟨hi, .inr rfl⟩
      · exact ⟨hj, .inl hsj⟩
  rw [sizes, hfilter, Finset.sum_insert (by simp [hs]), Nat.add_comm]
  rfl

theorem sizes_add_sizes_not (hb : 0 < b) (n : ℕ) (s : ℕ → Bool) :
    sizes b n s + sizes b n (fun i => !s i) = n := by
  have hsplit := Finset.sum_filter_add_sum_filter_not (Finset.range (num b n))
    (fun i => s i = true) (size b n)
  rw [sum_all hb n] at hsplit
  simpa [sizes] using hsplit

theorem sizes_le (hb : 0 < b) (n : ℕ) (s : ℕ → Bool) : sizes b n s ≤ n := by
  have hsplit := sizes_add_sizes_not hb n s
  omega

/-- All bytes are there exactly when no block is missing. -/
theorem sizes_eq_iff (hb : 0 < b) (s : ℕ → Bool) :
    sizes b n s = n ↔ ∀ i < num b n, s i = true := by
  have hsplit := sizes_add_sizes_not hb n s
  have hzero : sizes b n (fun i => !s i) = 0 ↔ ∀ i < num b n, s i = true := by
    rw [sizes, Finset.sum_eq_zero_iff]
    constructor
    · intro h i hi
      by_contra hsi
      have hmem : i ∈ (Finset.range (num b n)).filter fun j => (!s j) = true :=
        Finset.mem_filter.mpr ⟨Finset.mem_range.mpr hi, by simpa using hsi⟩
      exact absurd (h i hmem) (Nat.ne_of_gt (size_pos hb hi))
    · intro h i hi
      rw [Finset.mem_filter, Finset.mem_range] at hi
      simp [h i hi.1] at hi
  rw [← hzero]
  omega

/-! ## Cutting and putting together -/

section Cut
variable {α : Type} {cut : ℕ → ℕ → List α}

theorem flatMap_range (hnil : ∀ a, cut a 0 = [])
    (hadd : ∀ a m k, cut a (m + k) = cut a m ++ cut (a + m) k) (b n k : ℕ) :
    ((List.range k).flatMap fun i => cut (b * i) (size b n i)) = cut 0 (min (k * b) n) := by
  induction k with
  | zero => simp [hnil]
  | succ k ih =>
    rw [List.range_succ, List.flatMap_append, ih, List.flatMap_singleton]
    have hsum : min ((k + 1) * b) n = min (k * b) n + size b n k := by
      rw [size, Nat.add_mul]
      omega
    rw [hsum, hadd, Nat.zero_add]
    by_cases h : k * b ≤ n
    · rw [Nat.min_eq_left h, Nat.mul_comm]
    · have hnone : size b n k = 0 := by rw [size]; omega
      rw [hnone, hnil, hnil]

/-- The blocks of a byte string behind each other are the string; `cut a m` has its `m` bytes
from `a` on. -/
theorem flatMap_blocks (hnil : ∀ a, cut a 0 = [])
    (hadd : ∀ a m k, cut a (m + k) = cut a m ++ cut (a + m) k) (hb : 0 < b) (n : ℕ) :
    ((List.range (num b n)).flatMap fun i => cut (b * i) (size b n i)) = cut 0 n := by
  have hend := lt_num_iff (n := n) (i := num b n) hb
  rw [flatMap_range hnil hadd, Nat.min_eq_right (by omega)]

end Cut

end Blocks
