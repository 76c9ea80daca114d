import Mathlib.Data.List.Nodup
import Mathlib.Logic.Function.Basic

/-! # Singly linked cells on a heap

A heap is a partial function from addresses to cells; an access to an address that is not
allocated has no result. A pointer is an address or NULL, and a segment is what a list of cells
looks like in memory: the pointer to its first cell, the cells with their addresses, and the
pointer in the last.

* `Segment h p cells q`: from `p` the cells `cells` lead to `q`.
* `seek h found n pre cur`: the loop that follows `next` from `cur` until a cell is found or the
  list ends, for at most `n` turns; `pre` trails `cur` by one cell.
-/

namespace LinkedCells
set_option autoImplicit false

variable {α : Type}

structure Cell (α : Type) where
  next : Option ℕ
  val : α

def Heap (α : Type) := ℕ → Option (Cell α)

def Heap.empty : Heap α := fun _ => none

def Heap.alloc (h : Heap α) (a : ℕ) (c : Cell α) : Heap α := Function.update h a (some c)

def Heap.free (h : Heap α) (a : ℕ) : Heap α := Function.update h a none

/-- An assignment through the pointer `a`. -/
def Heap.modify (h : Heap α) (a : ℕ) (f : Cell α → Cell α) : Option (Heap α) :=
  (h a).map fun c => h.alloc a (f c)

theorem Heap.alloc_self (h : Heap α) (a : ℕ) (c : Cell α) : h.alloc a c a = some c :=
  Function.update_self ..

theorem Heap.alloc_ne (h : Heap α) {a b : ℕ} (c : Cell α) (hb : b ≠ a) : h.alloc a c b = h b :=
  Function.update_of_ne hb ..

theorem Heap.free_ne (h : Heap α) {a b : ℕ} (hb : b ≠ a) : h.free a b = h b :=
  Function.update_of_ne hb ..

/-! ## Segments -/

def Segment (h : Heap α) : Option ℕ → List (ℕ × α) → Option ℕ → Prop
  | p, [], q => p = q
  | p, (a, v) :: cells, q => p = some a ∧ ∃ next, h a = some ⟨next, v⟩ ∧ Segment h next cells q

variable {h h' : Heap α} {p q r : Option ℕ} {cells xs ys : List (ℕ × α)} {a : ℕ} {v : α}

theorem segment_append : Segment h p (xs ++ ys) r ↔ ∃ q, Segment h p xs q ∧ Segment h q ys r := by
  induction xs generalizing p with
  | nil => simp [Segment]
  | cons x xs ih =>
    simp only [List.cons_append, Segment, ih]
    constructor
    · rintro ⟨hp, next, hcell, q, hxs, hys⟩
      exact ⟨q, ⟨hp, next, hcell, hxs⟩, hys⟩
    · rintro ⟨q, ⟨hp, next, hcell, hxs⟩, hys⟩
      exact ⟨hp, next, hcell, q, hxs, hys⟩

/-- A segment is the same in every heap that agrees on its addresses. -/
theorem Segment.frame (hseg : Segment h p cells q) (hsame : ∀ x ∈ cells, h' x.1 = h x.1) :
    Segment h' p cells q := by
  induction cells generalizing p with
  | nil => exact hseg
  | cons x cells ih =>
    obtain ⟨hp, next, hcell, hrest⟩ := hseg
    refine ⟨hp, next, (hsame x (List.mem_cons_self ..)).trans hcell, ih hrest ?_⟩
    exact fun y hy => hsame y (List.mem_cons_of_mem _ hy)

theorem Segment.of_null (hseg : Segment h none cells q) : cells = [] := by
  cases cells with
  | nil => rfl
  | cons x cells => cases hseg.1

theorem Segment.allocated (hseg : Segment h p cells q) (x : ℕ × α) (hx : x ∈ cells) :
    h x.1 ≠ none := by
  induction cells generalizing p with
  | nil => cases hx
  | cons y cells ih =>
    obtain ⟨-, next, hcell, hrest⟩ := hseg
    rcases List.mem_cons.mp hx with rfl | hx
    · rw [hcell]
      exact Option.some_ne_none _
    · exact ih hrest hx

/-- The cell in the middle of a segment. -/
theorem Segment.split (hseg : Segment h p (xs ++ (a, v) :: ys) r) :
    ∃ q, Segment h p xs (some a) ∧ h a = some ⟨q, v⟩ ∧ Segment h q ys r := by
  obtain ⟨-, hxs, rfl, q, hcell, hys⟩ := segment_append.mp hseg
  exact ⟨q, hxs, hcell, hys⟩

theorem Segment.join {q : Option ℕ} (hxs : Segment h p xs (some a)) (hcell : h a = some ⟨q, v⟩)
    (hys : Segment h q ys r) : Segment h p (xs ++ (a, v) :: ys) r :=
  segment_append.mpr ⟨some a, hxs, rfl, q, hcell, hys⟩

/-- No two cells at one address. -/
def Apart (cells : List (ℕ × α)) : Prop := (cells.map Prod.fst).Nodup

theorem apart_middle :
    Apart (xs ++ (a, v) :: ys) ↔ Apart (xs ++ ys) ∧ ∀ x ∈ xs ++ ys, x.1 ≠ a := by
  have hperm : ((xs ++ (a, v) :: ys).map Prod.fst).Perm (a :: (xs ++ ys).map Prod.fst) :=
    List.perm_middle.map Prod.fst
  rw [Apart, hperm.nodup_iff, List.nodup_cons, and_comm, Apart]
  refine and_congr_right fun _ => ?_
  simp only [List.mem_map, not_exists, not_and, ne_eq]

/-! ## Changes -/

/-- A new value in the middle of a segment. -/
theorem Segment.setVal (hseg : Segment h p (xs ++ (a, v) :: ys) r)
    (hapart : Apart (xs ++ (a, v) :: ys)) (f : α → α) :
    ∃ h', h.modify a (fun c => { c with val := f c.val }) = some h' ∧
      Segment h' p (xs ++ (a, f v) :: ys) r ∧ Apart (xs ++ (a, f v) :: ys) := by
  obtain ⟨q, hxs, hcell, hys⟩ := hseg.split
  have hne := (apart_middle.mp hapart).2
  refine ⟨h.alloc a ⟨q, f v⟩, by simp [Heap.modify, hcell], ?_,
    by rw [apart_middle] at hapart ⊢; exact hapart⟩
  refine Segment.join (hxs.frame fun x hx => ?_) (h.alloc_self a _) (hys.frame fun x hx => ?_)
  · exact h.alloc_ne _ (hne x (List.mem_append_left _ hx))
  · exact h.alloc_ne _ (hne x (List.mem_append_right _ hx))

/-- A new target for the last pointer of a segment. -/
theorem Segment.setNext (hseg : Segment h p (xs ++ [(a, v)]) q) (hapart : Apart (xs ++ [(a, v)]))
    (r : Option ℕ) :
    ∃ h', h.modify a (fun c => { c with next := r }) = some h' ∧
      Segment h' p (xs ++ [(a, v)]) r ∧ ∀ b, b ≠ a → h' b = h b := by
  obtain ⟨_, hxs, hcell, -⟩ := hseg.split
  have hne := (apart_middle.mp hapart).2
  refine ⟨h.alloc a ⟨r, v⟩, by simp [Heap.modify, hcell], ?_, fun b hb => h.alloc_ne _ hb⟩
  refine Segment.join (hxs.frame fun x hx => ?_) (h.alloc_self a _) rfl
  exact h.alloc_ne _ (hne x (List.mem_append_left _ hx))

/-- A cell not in use, behind the last one. -/
theorem Segment.snoc (hseg : Segment h p (xs ++ [(a, v)]) q) (hapart : Apart (xs ++ [(a, v)]))
    {b : ℕ} (hb : h b = none) (w : α) :
    ∃ h', (h.alloc b ⟨none, w⟩).modify a (fun c => { c with next := some b }) = some h' ∧
      Segment h' p (xs ++ [(a, v)] ++ [(b, w)]) none ∧ Apart (xs ++ [(a, v)] ++ [(b, w)]) := by
  have hnew : ∀ x ∈ xs ++ [(a, v)], x.1 ≠ b := fun x hx hxb =>
    hseg.allocated x hx (by rw [hxb, hb])
  have hframe : Segment (h.alloc b ⟨none, w⟩) p (xs ++ [(a, v)]) q :=
    hseg.frame fun x hx => h.alloc_ne _ (hnew x hx)
  obtain ⟨h', hmod, hseg', hsame⟩ := hframe.setNext hapart (some b)
  have hba : b ≠ a := fun hba => hnew (a, v) (by simp) hba.symm
  refine ⟨h', hmod, Segment.join hseg' ((hsame b hba).trans (h.alloc_self b _)) rfl, ?_⟩
  rw [apart_middle, List.append_nil]
  exact ⟨hapart, hnew⟩

/-- The cell behind another one is unlinked and freed. -/
theorem Segment.unlink {b : ℕ} {w : α} (hseg : Segment h p (xs ++ (a, v) :: (b, w) :: ys) r)
    (hapart : Apart (xs ++ (a, v) :: (b, w) :: ys)) :
    ∃ q h', h b = some ⟨q, w⟩ ∧ h.modify a (fun c => { c with next := q }) = some h' ∧
      Segment (h'.free b) p (xs ++ (a, v) :: ys) r ∧ Apart (xs ++ (a, v) :: ys) := by
  obtain ⟨-, hxs, hcell, rfl, q, hcell', hys⟩ := hseg.split
  rw [List.append_cons] at hapart
  obtain ⟨hapart', hne⟩ := apart_middle.mp hapart
  rw [List.append_assoc, List.singleton_append] at hapart' hne
  have hne' := (apart_middle.mp hapart').2
  have hab : a ≠ b := hne (a, v) (by simp)
  refine ⟨q, h.alloc a ⟨q, v⟩, hcell', by simp [Heap.modify, hcell], ?_, hapart'⟩
  have hsame : ∀ x ∈ xs ++ ys, ((h.alloc a ⟨q, v⟩).free b) x.1 = h x.1 := fun x hx => by
    have hxb : x.1 ≠ b := hne x (by
      rcases List.mem_append.mp hx with hx | hx <;> simp [hx])
    rw [Heap.free_ne _ hxb, Heap.alloc_ne _ _ (hne' x hx)]
  refine Segment.join (hxs.frame fun x hx => hsame x (List.mem_append_left _ hx)) ?_
    (hys.frame fun x hx => hsame x (List.mem_append_right _ hx))
  rw [Heap.free_ne _ hab, Heap.alloc_self]

theorem Segment.unlinkHead (hseg : Segment h p ((a, v) :: ys) r) (hapart : Apart ((a, v) :: ys)) :
    ∃ q, h a = some ⟨q, v⟩ ∧ Segment (h.free a) q ys r ∧ Apart ys := by
  obtain ⟨-, q, hcell, hys⟩ := hseg
  rw [← List.nil_append ((a, v) :: ys)] at hapart
  obtain ⟨hapart', hne⟩ := apart_middle.mp hapart
  exact ⟨q, hcell, hys.frame fun x hx => h.free_ne (hne x hx), hapart'⟩

/-! ## The search -/

def seek (h : Heap α) (found : α → Bool) : ℕ → Option ℕ → Option ℕ →
    Option (Option ℕ × Option ℕ)
  | 0, _, _ => none
  | _ + 1, pre, none => some (pre, none)
  | n + 1, pre, some cur =>
    match h cur with
    | none => none
    | some c => if found c.val then some (pre, some cur) else seek h found n (some cur) c.next

/-- The address of the last cell, or `pre` where there is none. -/
def lastOf : Option ℕ → List (ℕ × α) → Option ℕ
  | pre, [] => pre
  | _, x :: cells => lastOf (some x.1) cells

theorem lastOf_snoc (pre : Option ℕ) (xs : List (ℕ × α)) (x : ℕ × α) :
    lastOf pre (xs ++ [x]) = some x.1 := by
  induction xs generalizing pre with
  | nil => rfl
  | cons y xs ih => exact ih _

variable {found : α → Bool}

/-- Either no cell is the one looked for, or there is a first one. -/
theorem first_found (found : α → Bool) (cells : List (ℕ × α)) :
    (∀ x ∈ cells, found x.2 = false) ∨ ∃ xs a v ys, cells = xs ++ (a, v) :: ys ∧
      (∀ x ∈ xs, found x.2 = false) ∧ found v = true := by
  induction cells with
  | nil => exact .inl fun x hx => absurd hx List.not_mem_nil
  | cons y cells ih =>
    cases hy : found y.2 with
    | true => exact .inr ⟨[], y.1, y.2, cells, rfl, fun x hx => absurd hx List.not_mem_nil, hy⟩
    | false =>
      rcases ih with hnone | ⟨xs, a, v, ys, rfl, hxs, hv⟩
      · exact .inl (List.forall_mem_cons.mpr ⟨hy, hnone⟩)
      · exact .inr ⟨y :: xs, a, v, ys, rfl, List.forall_mem_cons.mpr ⟨hy, hxs⟩, hv⟩

theorem seek_next {next : Option ℕ} (hcell : h a = some ⟨next, v⟩) (hv : found v = false) (n : ℕ)
    (pre : Option ℕ) : seek h found (n + 1) pre (some a) = seek h found n (some a) next := by
  simp only [seek, hcell, hv, Bool.false_eq_true, if_false]

theorem seek_end (hseg : Segment h p cells none) (hnone : ∀ x ∈ cells, found x.2 = false)
    (pre : Option ℕ) {n : ℕ} (hn : cells.length < n) :
    seek h found n pre p = some (lastOf pre cells, none) := by
  induction cells generalizing p pre n with
  | nil =>
    obtain ⟨n, rfl⟩ : ∃ k, n = k + 1 := Nat.exists_eq_succ_of_ne_zero (by omega)
    rw [hseg]
    rfl
  | cons x cells ih =>
    obtain ⟨n, rfl⟩ : ∃ k, n = k + 1 := Nat.exists_eq_succ_of_ne_zero (by omega)
    obtain ⟨rfl, next, hcell, hrest⟩ := hseg
    rw [seek_next hcell (hnone x (List.mem_cons_self ..))]
    exact ih hrest (fun y hy => hnone y (List.mem_cons_of_mem _ hy)) _
      (Nat.lt_of_succ_lt_succ hn)

theorem seek_found (hseg : Segment h p (xs ++ (a, v) :: ys) q)
    (hnone : ∀ x ∈ xs, found x.2 = false) (hv : found v = true) (pre : Option ℕ) {n : ℕ}
    (hn : xs.length < n) : seek h found n pre p = some (lastOf pre xs, some a) := by
  induction xs generalizing p pre n with
  | nil =>
    obtain ⟨n, rfl⟩ : ∃ k, n = k + 1 := Nat.exists_eq_succ_of_ne_zero (by omega)
    obtain ⟨rfl, next, hcell, -⟩ := hseg
    simp only [seek, hcell, hv, if_true]
    rfl
  | cons x xs ih =>
    obtain ⟨n, rfl⟩ : ∃ k, n = k + 1 := Nat.exists_eq_succ_of_ne_zero (by omega)
    obtain ⟨rfl, next, hcell, hrest⟩ := hseg
    rw [seek_next hcell (hnone x (List.mem_cons_self ..))]
    exact ih hrest (fun y hy => hnone y (List.mem_cons_of_mem _ hy)) _
      (Nat.lt_of_succ_lt_succ hn)

end LinkedCells
