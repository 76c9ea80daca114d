import Mathlib.Data.List.Basic
import Mathlib.Data.Nat.ModEq

/-! # Fixed-size frames of a byte stream

A stream arrives in chunks; a reader that asks for no more than the current frame still lacks
never sees a chunk cross a frame boundary. `frames` is what the stream says, `collect` is the
reader that keeps the pending bytes and emits a frame when it is full, and `collect_eq_frames`
says that every admissible cutting gives the same frames.
-/

namespace Framing
set_option autoImplicit false

variable {α : Type}

/-- The consecutive full frames of `n` elements; a shorter rest is not a frame. -/
def frames (n : ℕ) (s : List α) : List (List α) :=
  (List.range (s.length / n)).map fun i => (s.drop (i * n)).take n

/-- The chunks a reader can get that has `a` elements of the current frame: each is nonempty
and no longer than what the frame still lacks. -/
def Cut (n : ℕ) : ℕ → List (List α) → Prop
  | _, [] => True
  | a, c :: cs => c ≠ [] ∧ a + c.length ≤ n ∧ Cut n ((a + c.length) % n) cs

/-- The reader: `cur` is what it has of the current frame. -/
def collect (n : ℕ) : List α → List (List α) → List (List α)
  | _, [] => []
  | cur, c :: cs =>
    if (cur ++ c).length = n then (cur ++ c) :: collect n [] cs else collect n (cur ++ c) cs

theorem frames_short (n : ℕ) (s : List α) (h : s.length < n) : frames n s = [] := by
  rw [frames, Nat.div_eq_of_lt h]
  rfl

theorem frames_cons (n : ℕ) (hn : 0 < n) (f s : List α) (hf : f.length = n) :
    frames n (f ++ s) = f :: frames n s := by
  have hlen : (f ++ s).length / n = s.length / n + 1 := by
    rw [List.length_append, hf, Nat.add_div_left _ hn]
  simp only [frames, hlen, List.range_succ_eq_map, List.map_cons, List.map_map]
  congr 1
  · simp [← hf]
  · apply List.map_congr_left
    intro i _
    have hd : (f ++ s).drop ((i + 1) * n) = s.drop (i * n) := by
      rw [show (i + 1) * n = f.length + i * n by rw [hf, Nat.succ_mul, Nat.add_comm],
        ← List.drop_drop, List.drop_left]
    simp only [Function.comp_apply, Nat.succ_eq_add_one, hd]

/-- **The frames do not depend on the cutting.** -/
theorem collect_eq_frames (n : ℕ) (hn : 0 < n) (cur : List α) (cs : List (List α))
    (hcur : cur.length < n) (hcut : Cut n cur.length cs) :
    collect n cur cs = frames n (cur ++ cs.flatten) := by
  induction cs generalizing cur with
  | nil => rw [collect, List.flatten_nil, List.append_nil, frames_short n cur hcur]
  | cons c cs ih =>
    obtain ⟨_, hle, hrest⟩ := hcut
    rw [collect, List.flatten_cons, ← List.append_assoc]
    by_cases hfull : (cur ++ c).length = n
    · rw [if_pos hfull, frames_cons n hn _ _ hfull]
      have hmod : (cur.length + c.length) % n = 0 := by
        rw [← List.length_append, hfull, Nat.mod_self]
      rw [ih [] hn (by rw [List.length_nil, ← hmod]; exact hrest), List.nil_append]
    · have hlt : (cur ++ c).length < n := by rw [List.length_append] at hfull ⊢; omega
      rw [if_neg hfull]
      apply ih (cur ++ c) hlt
      rw [← List.length_append, Nat.mod_eq_of_lt hlt] at hrest
      exact hrest

end Framing
