import Mathlib.Order.Basic

/-! # `while` loops

`while (guard) body` over the locals of a function, where the body may leave the loop early. The
loop is a relation, so that it ends is something to prove.

* `Leaves guard body s t`: the loop entered in `s` ends in `t.1`; `t.2` says whether the body has
  left it.
* `turns body n s`: at most `n` turns, whatever the guard says.
-/

namespace WhileLoop
set_option autoImplicit false

variable {σ : Type} {guard : σ → Bool} {body : σ → σ × Bool}

inductive Leaves (guard : σ → Bool) (body : σ → σ × Bool) : σ → σ × Bool → Prop
  | done {s : σ} (h : guard s = false) : Leaves guard body s (s, false)
  | left {s t : σ} (h : guard s = true) (hbody : body s = (t, true)) :
      Leaves guard body s (t, true)
  | turn {s s' : σ} {t : σ × Bool} (h : guard s = true) (hbody : body s = (s', false))
      (hrest : Leaves guard body s' t) : Leaves guard body s t

theorem Leaves.unique {s : σ} {t u : σ × Bool} (ht : Leaves guard body s t)
    (hu : Leaves guard body s u) : t = u := by
  induction ht with
  | done h =>
    cases hu with
    | done => rfl
    | left h' | turn h' => rw [h] at h'; cases h'
  | left h hbody =>
    cases hu with
    | done h' => rw [h] at h'; cases h'
    | left _ hbody' => rw [← hbody, hbody']
    | turn _ hbody' => rw [hbody] at hbody'; cases hbody'
  | turn h hbody _ ih =>
    cases hu with
    | done h' => rw [h] at h'; cases h'
    | left _ hbody' => rw [hbody] at hbody'; cases hbody'
    | turn _ hbody' hrest' =>
      rw [hbody] at hbody'
      cases hbody'
      exact ih hrest'

def turns (body : σ → σ × Bool) : ℕ → σ → σ × Bool
  | 0, s => (s, false)
  | n + 1, s =>
    match body s with
    | (t, true) => (t, true)
    | (t, false) => turns body n t

/-- **Counting down.** A loop whose guard says that a number is not zero, which each turn lowers
by one, takes this many turns. -/
theorem leaves_turns (c : σ → ℕ) (hguard : ∀ s, guard s = true ↔ c s ≠ 0)
    (hbody : ∀ s t, guard s = true → body s = (t, false) → c t + 1 = c s) (s : σ) :
    Leaves guard body s (turns body (c s) s) := by
  induction hn : c s generalizing s with
  | zero => exact .done (by simpa [hn] using (hguard s).not)
  | succ n ih =>
    have hgo : guard s = true := (hguard s).mpr (by omega)
    rw [turns]
    rcases hs : body s with ⟨t, early⟩
    cases early with
    | true => exact .left hgo hs
    | false =>
      have hdown := hbody s t hgo hs
      exact .turn hgo hs (ih t (by omega))

theorem leaves_iff_turns (c : σ → ℕ) (hguard : ∀ s, guard s = true ↔ c s ≠ 0)
    (hbody : ∀ s t, guard s = true → body s = (t, false) → c t + 1 = c s) (s : σ)
    (t : σ × Bool) : Leaves guard body s t ↔ t = turns body (c s) s :=
  ⟨fun h => h.unique (leaves_turns c hguard hbody s), fun h => h ▸ leaves_turns c hguard hbody s⟩

end WhileLoop
