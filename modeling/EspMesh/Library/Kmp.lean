import Mathlib.Data.List.Infix

/-! # Searching with borders

A target is sought in a text that is read symbol by symbol. What is remembered of the text is the
longest start of the target that the text ends with (`Longest`); a mismatch falls back to the
longest proper border of that start (`Border`). A border is itself the longest start that a text
ends with, namely the start without its first symbol, so that the table of the borders is made by
the same search.

* `Longest.candidate`, `Candidate.fall`: what a fall keeps.
* `Candidate.matched`, `Candidate.zero`: what is remembered when the fall has ended.
-/

namespace Kmp
set_option autoImplicit false

variable {α : Type*}

/-- The text ends with the first `j` symbols of the target. -/
def Ends (target text : List α) (j : ℕ) : Prop := j ≤ target.length ∧ target.take j <:+ text

structure Longest (target text : List α) (j : ℕ) : Prop where
  ends : Ends target text j
  le : ∀ k, Ends target text k → k ≤ j

/-- `b` is the length of the longest proper border of the first `j` symbols. -/
def Border (target : List α) (j b : ℕ) : Prop := Longest target (target.take j).tail b

/-- On the way to the symbol `c`: every start that `c` continues is at most as long as this. -/
structure Candidate (target text : List α) (c : α) (j : ℕ) : Prop where
  ends : Ends target text j
  le : ∀ k, Ends target text k → target[k]? = some c → k ≤ j

variable {target text : List α} {c : α} {b j k : ℕ}

/-! ## Ends -/

theorem ends_zero (target text : List α) : Ends target text 0 :=
  ⟨Nat.zero_le _, by simp⟩

theorem Ends.length_le (h : Ends target text j) : j ≤ text.length := by
  have hle := h.2.length_le
  rwa [List.length_take, Nat.min_eq_left h.1] at hle

theorem ends_length_iff : Ends target text target.length ↔ target <:+ text := by
  rw [Ends, List.take_length]
  exact and_iff_right (Nat.le_refl _)

theorem take_succ_of_getElem? (h : target[j]? = some c) :
    target.take (j + 1) = target.take j ++ [c] := by
  rw [List.take_add_one, h, Option.toList_some]

/-- One more symbol is read. -/
theorem ends_snoc_iff :
    Ends target (text ++ [c]) (j + 1) ↔ Ends target text j ∧ target[j]? = some c := by
  constructor
  · rintro ⟨hlen, hsuffix⟩
    have hj : target[j]? = some target[j] := List.getElem?_eq_getElem hlen
    rw [take_succ_of_getElem? hj] at hsuffix
    obtain ⟨pre, hpre⟩ := hsuffix
    rw [← List.append_assoc] at hpre
    obtain ⟨htext, hc⟩ := List.append_inj' hpre rfl
    rw [hj, List.singleton_inj.mp hc]
    exact ⟨⟨Nat.le_of_lt hlen, ⟨pre, htext⟩⟩, rfl⟩
  · rintro ⟨⟨-, pre, hpre⟩, hc⟩
    refine ⟨(List.getElem?_eq_some_iff.mp hc).1, pre, ?_⟩
    rw [take_succ_of_getElem? hc, ← List.append_assoc, hpre]

/-- The shorter starts at the end of a text are those at the end of the longer one. -/
theorem Ends.shorter_iff (h : Ends target text j) (hk : k < j) :
    Ends target text k ↔ Ends target (target.take j).tail k := by
  have hlen : (target.take j).tail.length = j - 1 := by
    rw [List.length_tail, List.length_take, Nat.min_eq_left h.1]
  have htake : (target.take k).length = k := by
    rw [List.length_take]
    exact Nat.min_eq_left (Nat.le_of_lt (Nat.lt_of_lt_of_le hk h.1))
  have htail : (target.take j).tail <:+ text := (List.tail_suffix _).trans h.2
  constructor
  · rintro ⟨hle, hsuffix⟩
    exact ⟨hle, List.suffix_of_suffix_length_le hsuffix htail (by omega)⟩
  · rintro ⟨hle, hsuffix⟩
    exact ⟨hle, hsuffix.trans htail⟩

/-! ## Borders -/

theorem Border.lt (h : Border target j b) (hj : 0 < j) : b < j := by
  have hle := h.ends.length_le
  rw [List.length_tail, List.length_take] at hle
  omega

theorem border_one : Border target 1 0 := by
  refine ⟨ends_zero _ _, fun k hk => ?_⟩
  have hle := hk.length_le
  rw [List.length_tail, List.length_take] at hle
  omega

/-! ## The next symbol -/

theorem Longest.candidate (h : Longest target text j) (c : α) : Candidate target text c j :=
  ⟨h.ends, fun k hk _ => h.le k hk⟩

theorem Candidate.fall (h : Candidate target text c j) (hb : Border target j b) (hj : 0 < j)
    (hne : target[j]? ≠ some c) : Candidate target text c b := by
  refine ⟨(h.ends.shorter_iff (hb.lt hj)).mpr hb.ends, fun k hk hc => ?_⟩
  have hkj : k < j := by
    refine Nat.lt_of_le_of_ne (h.le k hk hc) fun heq => hne ?_
    rwa [← heq]
  exact hb.le k ((h.ends.shorter_iff hkj).mp hk)

theorem Candidate.matched (h : Candidate target text c j) (hc : target[j]? = some c) :
    Longest target (text ++ [c]) (j + 1) := by
  refine ⟨ends_snoc_iff.mpr ⟨h.ends, hc⟩, fun k hk => ?_⟩
  cases k with
  | zero => exact Nat.zero_le _
  | succ k =>
    obtain ⟨hends, hk⟩ := ends_snoc_iff.mp hk
    exact Nat.succ_le_succ (h.le k hends hk)

/-- The fall has ended with nothing, and the symbol does not start the target either. -/
theorem Candidate.zero (h : Candidate target text c 0) (hne : target[0]? ≠ some c) :
    Longest target (text ++ [c]) 0 := by
  refine ⟨ends_zero _ _, fun k hk => ?_⟩
  cases k with
  | zero => exact Nat.le_refl 0
  | succ k =>
    obtain ⟨hends, hk⟩ := ends_snoc_iff.mp hk
    obtain rfl : k = 0 := Nat.le_zero.mp (h.le k hends hk)
    exact absurd hk hne

theorem longest_nil (target : List α) : Longest target [] 0 :=
  ⟨ends_zero _ _, fun _ hk => hk.length_le⟩

/-- The whole target has been read exactly when the longest start is the whole target. -/
theorem Longest.eq_length_iff (h : Longest target text j) :
    j = target.length ↔ target <:+ text := by
  rw [← ends_length_iff]
  constructor
  · rintro rfl
    exact h.ends
  · exact fun hends => Nat.le_antisymm h.ends.1 (h.le _ hends)

end Kmp
