import Mathlib.Data.List.Nodup

/-! # Working off a list

The members of a list are worked off one at a time: a member still to do is either finished or
dropped. `Accounted` says that nobody is lost on the way, and the rules say that each move keeps
it. What has been dropped is only known from outside, so it may name strangers and repeat.
-/

namespace Worklist
set_option autoImplicit false

variable {α : Type*}

/-- Every member is to do, finished or dropped, and nobody is both to do and finished. -/
structure Accounted (members todo finished dropped : List α) : Prop where
  todo_nodup : todo.Nodup
  finished_nodup : finished.Nodup
  disjoint : ∀ a ∈ todo, a ∉ finished
  todo_sub : todo ⊆ members
  finished_sub : finished ⊆ members
  covered : ∀ a ∈ members, a ∈ todo ∨ a ∈ finished ∨ a ∈ dropped

variable {members todo finished dropped : List α} {a : α}

theorem Accounted.start (h : members.Nodup) : Accounted members members [] [] where
  todo_nodup := h
  finished_nodup := List.nodup_nil
  disjoint := fun _ _ => List.not_mem_nil
  todo_sub := List.Subset.refl members
  finished_sub := List.nil_subset members
  covered := fun _ ha => .inl ha

/-- Somebody, perhaps a stranger, is known to have been dropped. -/
theorem Accounted.note (h : Accounted members todo finished dropped) (a : α) :
    Accounted members todo finished (a :: dropped) :=
  { h with covered := fun b hb =>
      (h.covered b hb).imp_right (.imp_right (List.mem_cons_of_mem a)) }

theorem Accounted.mem_iff (h : Accounted members todo finished dropped) (b : α) :
    b ∈ members ↔ b ∈ todo ∨ b ∈ finished ∨ b ∈ dropped ∧ b ∈ members := by
  constructor
  · intro hb
    exact (h.covered b hb).imp_right (.imp_right fun hdropped => ⟨hdropped, hb⟩)
  · rintro (htodo | hfinished | ⟨-, hb⟩)
    · exact h.todo_sub htodo
    · exact h.finished_sub hfinished
    · exact hb

variable [BEq α] [LawfulBEq α]

/-- Dropping somebody who is noted as dropped, whether he was still to do or not. -/
theorem Accounted.drop (h : Accounted members todo finished dropped) (ha : a ∈ dropped) :
    Accounted members (todo.erase a) finished dropped where
  todo_nodup := h.todo_nodup.erase a
  finished_nodup := h.finished_nodup
  disjoint := fun b hb => h.disjoint b (List.mem_of_mem_erase hb)
  todo_sub := fun _ hb => h.todo_sub (List.mem_of_mem_erase hb)
  finished_sub := h.finished_sub
  covered := fun b hb => by
    by_cases hba : b = a
    · exact .inr (.inr (hba ▸ ha))
    · exact (h.covered b hb).imp_left (List.mem_erase_of_ne hba).mpr

theorem Accounted.finish (h : Accounted members todo finished dropped) (ha : a ∈ todo) :
    Accounted members (todo.erase a) (finished ++ [a]) dropped where
  todo_nodup := h.todo_nodup.erase a
  finished_nodup := by
    rw [List.nodup_append]
    refine ⟨h.finished_nodup, List.nodup_singleton a, ?_⟩
    rintro b hb c hc rfl
    rw [List.mem_singleton] at hc
    exact h.disjoint a ha (hc ▸ hb)
  disjoint := fun b hb hmem => by
    rcases List.mem_append.mp hmem with hfin | hone
    · exact h.disjoint b (List.mem_of_mem_erase hb) hfin
    · exact (h.todo_nodup.mem_erase_iff.mp hb).1 (List.mem_singleton.mp hone)
  todo_sub := fun _ hb => h.todo_sub (List.mem_of_mem_erase hb)
  finished_sub := List.append_subset.mpr
    ⟨h.finished_sub, fun b hb => List.mem_singleton.mp hb ▸ h.todo_sub ha⟩
  covered := fun b hb => by
    by_cases hba : b = a
    · exact .inr (.inl (List.mem_append_right _ (List.mem_singleton.mpr hba)))
    · exact (h.covered b hb).imp (List.mem_erase_of_ne hba).mpr
        (.imp_left (List.mem_append_left _))

end Worklist
