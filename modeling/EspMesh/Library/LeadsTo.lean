import Mathlib.Computability.StateTransition

/-! # Where a machine gets to

Rules for a machine `f : σ → Option σ` that makes one step after another until there is none,
over `StateTransition.Reaches`.

* `Leads f P Q`: from every state in `P` the machine gets to one in `Q`.
* `Decides p P Q`: the states in `P` if `p`, and those in `Q` if not.
-/

namespace LeadsTo
set_option autoImplicit false
open StateTransition

variable {σ : Type} {f : σ → Option σ} {P Q R S : σ → Prop}

def Leads (f : σ → Option σ) (P Q : σ → Prop) : Prop := ∀ s, P s → ∃ t, Reaches f s t ∧ Q t

def Decides (p : Prop) (P Q : σ → Prop) (s : σ) : Prop := p ∧ P s ∨ ¬ p ∧ Q s

theorem Leads.of_imp (h : ∀ s, P s → Q s) : Leads f P Q := fun s hs => ⟨s, .refl, h s hs⟩

theorem Leads.trans (h : Leads f P Q) (k : Leads f Q R) : Leads f P R := by
  intro s hs
  obtain ⟨t, hst, ht⟩ := h s hs
  obtain ⟨u, htu, hu⟩ := k t ht
  exact ⟨u, hst.trans htu, hu⟩

theorem Leads.step (h : ∀ s, P s → ∃ t ∈ f s, Q t) : Leads f P Q := by
  intro s hs
  obtain ⟨t, hst, ht⟩ := h s hs
  exact ⟨t, .single hst, ht⟩

/-- **Loops.** Each turn gets to the end or back to the invariant, with a smaller variant. -/
theorem Leads.loop {ι : Type} {I : ι → σ → Prop} (variant : ι → ℕ)
    (h : ∀ i, Leads f (I i) fun s => Q s ∨ ∃ j, variant j < variant i ∧ I j s) (i : ι) :
    Leads f (I i) Q := by
  induction hn : variant i using Nat.strong_induction_on generalizing i with
  | _ n ih =>
    refine (h i).trans fun s hs => ?_
    rcases hs with hend | ⟨j, hj, hagain⟩
    · exact ⟨s, .refl, hend⟩
    · exact ih (variant j) (hn ▸ hj) j rfl s hagain

/-- **Stages.** Each condition is decided once the one before it has been met; the first one that
fails takes the machine to `S`. -/
theorem Leads.decides {p q : Prop} (h : Leads f P (Decides p Q S))
    (k : p → Leads f Q (Decides q R S)) : Leads f P (Decides (p ∧ q) R S) := by
  refine h.trans fun s hs => ?_
  rcases hs with ⟨hp, hQ⟩ | ⟨hp, hS⟩
  · obtain ⟨t, hst, ht⟩ := k hp s hQ
    refine ⟨t, hst, ?_⟩
    rcases ht with ⟨hq, hR⟩ | ⟨hq, hS⟩
    · exact .inl ⟨⟨hp, hq⟩, hR⟩
    · exact .inr ⟨fun h => hq h.2, hS⟩
  · exact ⟨s, .refl, .inr ⟨fun h => hp h.1, hS⟩⟩

/-! ## The end of a run -/

theorem Leads.ends (h : Leads f P Q) (hQ : ∀ t, Q t → f t = none) {s : σ} (hs : P s) :
    ∃ t ∈ eval f s, Q t := by
  obtain ⟨t, hst, ht⟩ := h s hs
  exact ⟨t, mem_eval.mpr ⟨hst, hQ t ht⟩, ht⟩

/-- The machine stops at one state only. -/
theorem Leads.stops_only (h : Leads f P Q) (hQ : ∀ t, Q t → f t = none) {s t : σ} (hs : P s)
    (hst : Reaches f s t) (ht : f t = none) : Q t := by
  obtain ⟨u, hu, hQu⟩ := h.ends hQ hs
  rwa [Part.mem_unique (mem_eval.mpr ⟨hst, ht⟩) hu]

end LeadsTo
