import Mathlib.Order.Basic
import Mathlib.Data.List.Basic

/-! # Runs of a step function

A system is a total step function on states; an event the system is not waiting for leaves the
state as it is. A run is a list of events. The rules here are the only inductions over runs the
rest of the development needs.

* `run step s es`: the state after the events `es`.
* `Along step C s es`: every step of the run is taken in a state and with an event that
  together meet `C`.
* `Through step P s es`: every state of the run, the first one included, satisfies `P`.
* `Reachable step start s`: some run from a state in `start` ends in `s`.
* `total step f s es`: the sum of `f` over the steps of the run.
* `observe step note`: the system together with an observer that notes what each step does.
-/

namespace StepRuns
set_option autoImplicit false

variable {σ ε γ : Type} (step : σ → ε → σ)

def run (s : σ) (es : List ε) : σ := es.foldl step s

@[simp] theorem run_nil (s : σ) : run step s [] = s := rfl

@[simp] theorem run_cons (s : σ) (e : ε) (es : List ε) :
    run step s (e :: es) = run step (step s e) es := rfl

theorem run_append (s : σ) (es fs : List ε) :
    run step s (es ++ fs) = run step (run step s es) fs := List.foldl_append

def Along (C : σ → ε → Prop) : σ → List ε → Prop
  | _, [] => True
  | s, e :: es => C s e ∧ Along C (step s e) es

def Along.decide (C : σ → ε → Prop) [∀ s e, Decidable (C s e)] :
    ∀ (s : σ) (es : List ε), Decidable (Along step C s es)
  | _, [] => .isTrue trivial
  | s, e :: es =>
    haveI := Along.decide C (step s e) es
    inferInstanceAs (Decidable (C s e ∧ Along step C (step s e) es))

instance (C : σ → ε → Prop) [∀ s e, Decidable (C s e)] (s : σ) (es : List ε) :
    Decidable (Along step C s es) := Along.decide step C s es

def Through (P : σ → Prop) : σ → List ε → Prop
  | s, [] => P s
  | s, e :: es => P s ∧ Through P (step s e) es

def Through.decide (P : σ → Prop) [∀ s, Decidable (P s)] :
    ∀ (s : σ) (es : List ε), Decidable (Through step P s es)
  | s, [] => inferInstanceAs (Decidable (P s))
  | s, e :: es =>
    haveI := Through.decide P (step s e) es
    inferInstanceAs (Decidable (P s ∧ Through step P (step s e) es))

instance (P : σ → Prop) [∀ s, Decidable (P s)] (s : σ) (es : List ε) :
    Decidable (Through step P s es) := Through.decide step P s es

def Reachable (start : σ → Prop) (s : σ) : Prop := ∃ s₀ es, start s₀ ∧ run step s₀ es = s

def total (f : σ → ε → ℕ) : σ → List ε → ℕ
  | _, [] => 0
  | s, e :: es => f s e + total f (step s e) es

/-- The observer sees the state in front of the step. -/
def observe (note : γ → σ → ε → γ) (w : σ × γ) (e : ε) : σ × γ :=
  (step w.1 e, note w.2 w.1 e)

variable {step}

/-- What a condition says about the event alone it says about every event of the run. -/
theorem along_of_forall {C : σ → ε → Prop} :
    ∀ {s : σ} {es : List ε}, (∀ s', ∀ e ∈ es, C s' e) → Along step C s es
  | _, [], _ => trivial
  | _, e :: _, h => ⟨h _ e (List.mem_cons_self ..),
      along_of_forall fun s' e' he => h s' e' (List.mem_cons_of_mem _ he)⟩

theorem along_event {C : ε → Prop} {s : σ} {es : List ε} :
    Along step (fun _ e => C e) s es ↔ ∀ e ∈ es, C e := by
  induction es generalizing s with
  | nil => simp [Along]
  | cons e es ih => rw [Along, ih, List.forall_mem_cons]

theorem along_append {C : σ → ε → Prop} {s : σ} {es fs : List ε} :
    Along step C s (es ++ fs) ↔ Along step C s es ∧ Along step C (run step s es) fs := by
  induction es generalizing s with
  | nil => simp [Along]
  | cons e es ih => rw [List.cons_append, Along, Along, ih, run_cons, and_assoc]

/-- What a step of the run says in a state of the invariant may be put differently. -/
theorem along_congr {I : σ → Prop} {B C D : σ → ε → Prop}
    (hstep : ∀ s e, I s → B s e → I (step s e)) (h : ∀ s e, I s → B s e → (C s e ↔ D s e))
    {s : σ} {es : List ε} (hs : I s) (hB : Along step B s es) :
    Along step C s es ↔ Along step D s es := by
  induction es generalizing s with
  | nil => exact Iff.rfl
  | cons e es ih => exact and_congr (h s e hs hB.1) (ih (hstep s e hs hB.1) hB.2)

/-- Two conditions are met along the same runs if they agree in every state of an invariant that
one of them keeps. -/
theorem along_iff_along {I : σ → Prop} {C D : σ → ε → Prop}
    (hstep : ∀ s e, I s → D s e → I (step s e)) (h : ∀ s e, I s → (C s e ↔ D s e)) {s : σ}
    {es : List ε} (hs : I s) : Along step C s es ↔ Along step D s es := by
  induction es generalizing s with
  | nil => exact Iff.rfl
  | cons e es ih =>
    rw [Along, Along, h s e hs]
    exact and_congr_right fun hD => ih (hstep s e hs hD)

theorem Through.first {P : σ → Prop} {s : σ} {es : List ε} (h : Through step P s es) : P s := by
  cases es with
  | nil => exact h
  | cons e es => exact h.1

theorem Through.last {P : σ → Prop} {s : σ} {es : List ε} (h : Through step P s es) :
    P (run step s es) := by
  induction es generalizing s with
  | nil => exact h
  | cons e es ih => exact ih h.2

theorem run_invariant_along {I : σ → Prop} {C : σ → ε → Prop}
    (hstep : ∀ s e, I s → C s e → I (step s e)) {s : σ} {es : List ε} (h : I s)
    (k : Along step C s es) : I (run step s es) := by
  induction es generalizing s with
  | nil => exact h
  | cons e es ih => exact ih (hstep s e h k.1) k.2

theorem run_invariant {I : σ → Prop} (hstep : ∀ s e, I s → I (step s e)) {s : σ} (h : I s)
    (es : List ε) : I (run step s es) :=
  run_invariant_along (C := fun _ _ => True) (fun s e hi _ => hstep s e hi) h
    (along_of_forall fun _ _ _ => trivial)

/-- A run whose end shows no sign of a step against the condition had no such step, when the
sign stays once it is there. -/
theorem along_of_no_sign {B : σ → Prop} {C : σ → ε → Prop}
    (hsign : ∀ s e, ¬ C s e → B (step s e)) (hstay : ∀ s e, B s → B (step s e)) {s : σ}
    {es : List ε} (h : ¬ B (run step s es)) : Along step C s es := by
  induction es generalizing s with
  | nil => trivial
  | cons e es ih =>
    refine ⟨by_contra fun hC => h ?_, ih h⟩
    exact run_invariant hstay (hsign s e hC) es

theorem through_of_invariant_along {I P : σ → Prop} {C : σ → ε → Prop}
    (hstep : ∀ s e, I s → C s e → I (step s e)) (hP : ∀ s, I s → P s) :
    ∀ {s : σ} {es : List ε}, I s → Along step C s es → Through step P s es
  | s, [], h, _ => hP s h
  | s, _ :: _, h, k => ⟨hP s h, through_of_invariant_along hstep hP (hstep _ _ h k.1) k.2⟩

/-- Every state of a run whose steps all meet `B` is as wanted exactly when no step of it is of
the kind that spoils this. -/
theorem through_iff_along_of {I P : σ → Prop} {B C : σ → ε → Prop}
    (hstep : ∀ s e, I s → B s e → C s e → I (step s e)) (hP : ∀ s, I s → P s)
    (hC : ∀ s e, I s → B s e → P (step s e) → C s e) {s : σ} {es : List ε} (h : I s)
    (hB : Along step B s es) : Through step P s es ↔ Along step C s es := by
  induction es generalizing s with
  | nil => exact iff_of_true (hP s h) trivial
  | cons e es ih =>
    constructor
    · intro k
      have he : C s e := hC s e h hB.1 k.2.first
      exact ⟨he, (ih (hstep s e h hB.1 he) hB.2).mp k.2⟩
    · intro k
      exact ⟨hP s h, (ih (hstep s e h hB.1 k.1) hB.2).mpr k.2⟩

theorem through_iff_along {I P : σ → Prop} {C : σ → ε → Prop}
    (hstep : ∀ s e, I s → C s e → I (step s e)) (hP : ∀ s, I s → P s)
    (hC : ∀ s e, I s → P (step s e) → C s e) {s : σ} {es : List ε} (h : I s) :
    Through step P s es ↔ Along step C s es :=
  through_iff_along_of (B := fun _ _ => True) (fun s e hi _ => hstep s e hi) hP
    (fun s e hi _ => hC s e hi) h (along_of_forall fun _ _ _ => trivial)

theorem along_of_invariant_along {I : σ → Prop} {C D : σ → ε → Prop}
    (hstep : ∀ s e, I s → C s e → I (step s e)) (hD : ∀ s e, I s → C s e → D s e) {s : σ}
    {es : List ε} (h : I s) (k : Along step C s es) : Along step D s es := by
  induction es generalizing s with
  | nil => trivial
  | cons e es ih => exact ⟨hD s e h k.1, ih (hstep s e h k.1) k.2⟩

theorem Reachable.invariant {I start : σ → Prop} (h0 : ∀ s, start s → I s)
    (hstep : ∀ s e, I s → I (step s e)) {s : σ} (h : Reachable step start s) : I s := by
  obtain ⟨s₀, es, hs, rfl⟩ := h
  exact run_invariant hstep (h0 s₀ hs) es

theorem Reachable.run {start : σ → Prop} {s : σ} (h : Reachable step start s) (es : List ε) :
    Reachable step start (StepRuns.run step s es) := by
  obtain ⟨s₀, fs, hs, rfl⟩ := h
  exact ⟨s₀, fs ++ es, hs, run_append step s₀ fs es⟩

/-! ## Totals -/

@[simp] theorem total_nil (f : σ → ε → ℕ) (s : σ) : total step f s [] = 0 := rfl

@[simp] theorem total_cons (f : σ → ε → ℕ) (s : σ) (e : ε) (es : List ε) :
    total step f s (e :: es) = f s e + total step f (step s e) es := rfl

/-- What a run produces is bounded by what it takes in, when a potential carries what has been
taken in and not yet been used. -/
theorem total_le {I : σ → Prop} {C : σ → ε → Prop} {f g : σ → ε → ℕ} (φ : σ → ℕ) (k : ℕ)
    (hstep : ∀ s e, I s → C s e → I (step s e))
    (hf : ∀ s e, I s → C s e → k * f s e + φ (step s e) ≤ φ s + g s e) {s : σ} {es : List ε}
    (h : I s) (hC : Along step C s es) :
    k * total step f s es + φ (run step s es) ≤ φ s + total step g s es := by
  induction es generalizing s with
  | nil => simp
  | cons e es ih =>
    have hone := hf s e h hC.1
    have hrest := ih (hstep s e h hC.1) hC.2
    rw [total_cons, total_cons, run_cons, Nat.mul_add]
    omega

/-! ## Observers -/

theorem run_observe (note : γ → σ → ε → γ) (w : σ × γ) (es : List ε) :
    (run (observe step note) w es).1 = run step w.1 es := by
  induction es generalizing w with
  | nil => rfl
  | cons e es ih => exact ih _

/-- What is said without the observer holds of the observed run when it holds of the run. -/
theorem along_observe (note : γ → σ → ε → γ) {C : σ → ε → Prop} (w : σ × γ) (es : List ε) :
    Along (observe step note) (fun v e => C v.1 e) w es ↔ Along step C w.1 es := by
  induction es generalizing w with
  | nil => exact Iff.rfl
  | cons e es ih => exact and_congr Iff.rfl (ih _)

theorem through_observe (note : γ → σ → ε → γ) {P : σ → Prop} (w : σ × γ) (es : List ε) :
    Through (observe step note) (fun v => P v.1) w es ↔ Through step P w.1 es := by
  induction es generalizing w with
  | nil => exact Iff.rfl
  | cons e es ih => exact and_congr Iff.rfl (ih _)

end StepRuns
