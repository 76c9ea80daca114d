import Mathlib.Data.List.Count

/-! # Resources that are lent out

A trace of what a program does to resources that are handed to it and that it has to give back,
the latest first; `none` is the null pointer. `Custody as held` follows a trace: `held` is what the
program has at its end. `Disciplined` is what is wanted of a whole trace, in terms of the trace
alone.
-/

namespace Ownership
set_option autoImplicit false

inductive Access (ρ : Type*)
  | acquire (r : ρ)
  | use (r : Option ρ)
  | release (r : Option ρ)
  deriving DecidableEq

variable {ρ : Type*} [DecidableEq ρ]

/-- A resource is new when it is acquired, and held when it is used or released. -/
inductive Custody : List (Access ρ) → List ρ → Prop
  | nil : Custody [] []
  | acquire {as : List (Access ρ)} {held : List ρ} {r : ρ} (h : Custody as held)
      (hnew : .acquire r ∉ as) : Custody (.acquire r :: as) (r :: held)
  | use {as : List (Access ρ)} {held : List ρ} {r : ρ} (h : Custody as held) (hr : r ∈ held) :
      Custody (.use (some r) :: as) held
  | release {as : List (Access ρ)} {held : List ρ} {r : ρ} (h : Custody as held) (hr : r ∈ held) :
      Custody (.release (some r) :: as) (held.erase r)

/-- Nothing is done through the null pointer; what is acquired is released exactly once; what is
used has been acquired and not yet released. -/
structure Disciplined (as : List (Access ρ)) : Prop where
  never_null : .use none ∉ as ∧ .release none ∉ as
  once : ∀ r, as.count (.acquire r) ≤ 1 ∧ as.count (.release (some r)) = as.count (.acquire r)
  while_held : ∀ later earlier r, as = later ++ .use (some r) :: earlier →
    .acquire r ∈ earlier ∧ .release (some r) ∉ earlier

section
variable {as : List (Access ρ)} {held : List ρ}

theorem Custody.never_null (h : Custody as held) : .use none ∉ as ∧ .release none ∉ as := by
  induction h with
  | nil => exact ⟨List.not_mem_nil, List.not_mem_nil⟩
  | acquire _ _ ih | use _ _ ih | release _ _ ih =>
    simpa using ih

theorem Custody.acquired_once (h : Custody as held) (r : ρ) : as.count (.acquire r) ≤ 1 := by
  induction h with
  | nil => exact Nat.zero_le 1
  | @acquire as held q _ hnew ih =>
    by_cases hq : q = r
    · rw [hq] at hnew ⊢
      have hzero := List.count_eq_zero_of_not_mem hnew
      rw [List.count_cons_self]
      omega
    · have hne : Access.acquire q ≠ .acquire r := by simpa using hq
      rwa [List.count_cons_of_ne hne]
  | @use as held q _ _ ih | @release as held q _ _ ih =>
    rwa [List.count_cons_of_ne (by simp)]

/-- What was acquired is held or has been released. -/
theorem Custody.balance (h : Custody as held) (r : ρ) :
    as.count (.acquire r) = as.count (.release (some r)) + held.count r := by
  induction h with
  | nil => rfl
  | @acquire as held q _ _ ih =>
    have hrelease : Access.acquire q ≠ .release (some r) := by simp
    rw [List.count_cons_of_ne hrelease]
    by_cases hq : q = r
    · rw [hq, List.count_cons_self, List.count_cons_self, ih, Nat.add_assoc]
    · have hacquire : Access.acquire q ≠ .acquire r := by simpa using hq
      rw [List.count_cons_of_ne hacquire, List.count_cons_of_ne hq, ih]
  | @use as held q _ _ ih =>
    rwa [List.count_cons_of_ne (by simp), List.count_cons_of_ne (by simp)]
  | @release as held q _ hmem ih =>
    have hacquire : Access.release (some q) ≠ .acquire r := by simp
    rw [List.count_cons_of_ne hacquire, ih]
    by_cases hq : q = r
    · have hpos := List.count_pos_iff.mpr hmem
      rw [hq] at hpos ⊢
      rw [List.count_cons_self, List.count_erase_self]
      omega
    · have hrelease : Access.release (some q) ≠ .release (some r) := by simpa using hq
      rw [List.count_cons_of_ne hrelease, List.count_erase_of_ne (Ne.symm hq)]

theorem Custody.of_held (h : Custody as held) {r : ρ} (hr : r ∈ held) :
    .acquire r ∈ as ∧ .release (some r) ∉ as := by
  have hpos := List.count_pos_iff.mpr hr
  have hbalance := h.balance r
  have honce := h.acquired_once r
  exact ⟨List.count_pos_iff.mp (by omega), List.count_eq_zero.mp (by omega)⟩

theorem Custody.earlier (h : Custody as held) {later earlier : List (Access ρ)}
    (has : as = later ++ earlier) : ∃ held', Custody earlier held' := by
  induction later generalizing as held with
  | nil =>
    rw [List.nil_append] at has
    exact ⟨held, has ▸ h⟩
  | cons a later ih =>
    rw [List.cons_append] at has
    cases h with
    | nil => cases has
    | acquire h _ | use h _ | release h _ => exact ih h (List.cons.inj has).2

theorem Custody.used (h : Custody as held) {later earlier : List (Access ρ)} {r : ρ}
    (has : as = later ++ .use (some r) :: earlier) :
    .acquire r ∈ earlier ∧ .release (some r) ∉ earlier := by
  obtain ⟨_, huse⟩ := h.earlier has
  cases huse with
  | use huse hr => exact huse.of_held hr

/-- A trace that ends with nothing held is disciplined. -/
theorem Custody.disciplined (h : Custody as []) : Disciplined as where
  never_null := h.never_null
  once := fun r => ⟨h.acquired_once r, (h.balance r).symm⟩
  while_held := fun _ _ _ has => h.used has

end

end Ownership
