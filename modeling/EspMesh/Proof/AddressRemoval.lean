import EspMesh.Model.AddrsRemove
import EspMesh.Proof.Distribution

/-! # An address is removed exactly

The copy moves what is behind the address down by one entry, so on the bytes the function is
`addrsRemoveBytes`, whose meaning on lists is known. What it touches is bounded turn by turn: the
entry compared lies in the list, and the move ends where the list ends, because the count it is
computed from is one less already.
-/

namespace EspMesh
set_option autoImplicit false
open ByteMem

theorem addrsAt_byte {m m' : Mem} (h : m.byte = m'.byte) (p n : ℕ) :
    addrsAt m p n = addrsAt m' p n :=
  addrsAt_congr fun a _ => congrFun h (p + a)

/-! ## The same bytes -/

theorem addrsRemoveTurn_bytes (addr : Mac) (num n i p : ℕ) (m : Mem) (reads : List (ℕ × ℕ)) :
    let r := addrsRemoveTurn addr num n i p m reads
    let b := addrsRemoveLoop addr num n i p m
    r.mem.byte = b.1.byte ∧ r.addrsNum = b.2.1 ∧ r.found = b.2.2 := by
  induction n generalizing i p reads with
  | zero => exact ⟨rfl, rfl, rfl⟩
  | succ n ih =>
    rw [addrsRemoveTurn, addrsRemoveLoop]
    by_cases h : m.loadBytes p 6 = addr
    · rw [if_pos h, if_pos h]
      by_cases hlast : num - 1 = 0
      · simp only [if_pos hlast, and_self]
      · simp only [if_neg hlast, and_true]
        exact Mem.copyForward_eq_store m _ _ _ (Nat.le_add_right p mwifiAddrLen)
    · rw [if_neg h, if_neg h]
      exact ih (i + 1) _ _

theorem addrsRemoveTurn_notFound (addr : Mac) (num n i p : ℕ) (m : Mem) (reads : List (ℕ × ℕ))
    (h : (addrsRemoveTurn addr num n i p m reads).found = false) :
    (addrsRemoveTurn addr num n i p m reads).mem = m := by
  induction n generalizing i p reads with
  | zero => rfl
  | succ n ih =>
    rw [addrsRemoveTurn] at h ⊢
    by_cases hhere : m.loadBytes p 6 = addr
    · rw [if_pos hhere] at h
      dsimp only at h
      split at h <;> cases h
    · rw [if_neg hhere] at h ⊢
      exact ih (i + 1) _ _ h

/-- The answer, the count and the list that is left, in the terms of lists. -/
theorem addrsRemoveAccess_spec (addr : Mac) (p n : ℕ) (m : Mem) :
    let r := addrsRemoveAccess addr p n m
    r.found = decide (addr ∈ addrsAt m p n) ∧ r.addrsNum = n - r.found.toNat ∧
      addrsAt r.mem p r.addrsNum = (addrsAt m p n).erase addr := by
  obtain ⟨m', found, hloop, -, hfound, herase⟩ := addrsRemoveLoop_spec addr n 0 p m
  rw [Nat.zero_add] at hloop
  obtain ⟨hbyte, hnum, hsame⟩ := addrsRemoveTurn_bytes addr n n 0 p m []
  rw [hloop] at hbyte hnum hsame
  dsimp only at hbyte hnum hsame
  refine ⟨hsame.trans hfound, ?_, ?_⟩
  · rw [addrsRemoveAccess, hnum, hsame]
  · rw [addrsRemoveAccess, hnum, addrsAt_byte hbyte, herase]

/-! ## Nothing outside the list -/

/-- Every span read, and every span written, lies in `[lo, hi)`. -/
def AddrsRemoved.Within (lo hi : ℕ) (r : AddrsRemoved) : Prop :=
  (∀ s ∈ r.reads, lo ≤ s.1 ∧ s.1 + s.2 ≤ hi) ∧ Mem.Inside lo hi r.mem

theorem addrsRemoveTurn_within (addr : Mac) {lo hi : ℕ} (n i p : ℕ) (m : Mem)
    (reads : List (ℕ × ℕ)) (hlo : lo ≤ p) (hhi : p + mwifiAddrLen * n = hi)
    (hreads : ∀ s ∈ reads, lo ≤ s.1 ∧ s.1 + s.2 ≤ hi) (hm : Mem.Inside lo hi m) :
    (addrsRemoveTurn addr (i + n) n i p m reads).Within lo hi := by
  induction n generalizing i p reads with
  | zero => exact ⟨hreads, hm⟩
  | succ n ih =>
    rw [mwifiAddrLen] at hhi
    have hcompare : ∀ s ∈ (p, mwifiAddrLen) :: reads, lo ≤ s.1 ∧ s.1 + s.2 ≤ hi := by
      refine List.forall_mem_cons.mpr ⟨⟨hlo, ?_⟩, hreads⟩
      dsimp only [mwifiAddrLen]
      omega
    rw [addrsRemoveTurn]
    by_cases h : m.loadBytes p 6 = addr
    · rw [if_pos h]
      by_cases hlast : i + (n + 1) - 1 = 0
      · simp only [if_pos hlast]
        exact ⟨hcompare, hm⟩
      · -- the entries behind the address: `n` of them, whatever `i` is
        have hsize : (i + (n + 1) - 1 - i) * mwifiAddrLen = 6 * n := by
          rw [mwifiAddrLen]
          omega
        simp only [if_neg hlast, hsize]
        refine ⟨List.forall_mem_cons.mpr ⟨⟨by omega, ?_⟩, hcompare⟩,
          Mem.inside_copyForward hm hlo (by omega)⟩
        dsimp only [mwifiAddrLen]
        omega
    · rw [if_neg h, show i + (n + 1) = i + 1 + n by omega]
      refine ih (i + 1) _ _ (by omega) ?_ hcompare
      rw [mwifiAddrLen]
      omega

/-! ## Main result -/

/-- **Removal of an address is exact.** -/
theorem addrsRemoveAccess_exact (addr : Mac) (addrsList n : ℕ) (byte : ℕ → UInt8) :
    let r := addrsRemoveAccess addr addrsList n ⟨byte, []⟩
    let old := addrsAt ⟨byte, []⟩ addrsList n
    (r.found = true ↔ addr ∈ old) ∧
    (r.found = true → r.addrsNum + 1 = n ∧ ∃ before after, addr ∉ before ∧
      old = before ++ addr :: after ∧
      addrsAt r.mem addrsList r.addrsNum = before ++ after) ∧
    (r.found = false → r.addrsNum = n ∧ r.mem.byte = byte) ∧
    (∀ s ∈ r.reads ++ r.mem.spans, addrsList ≤ s.1 ∧ s.1 + s.2 ≤ addrsList + mwifiAddrLen * n) := by
  intro r old
  obtain ⟨hfound, hnum, herase⟩ := addrsRemoveAccess_spec addr addrsList n ⟨byte, []⟩
  have hmem : r.found = true ↔ addr ∈ old := by
    rw [show r.found = decide (addr ∈ old) from hfound, decide_eq_true_iff]
  refine ⟨hmem, fun h => ⟨?_, ?_⟩, fun h => ⟨?_, ?_⟩, ?_⟩
  · -- the list has an element, so the count was not zero
    have hpos : 0 < old.length := List.length_pos_of_mem (hmem.mp h)
    rw [show old.length = n by simp [old, addrsAt]] at hpos
    rw [show r.addrsNum = n - r.found.toNat from hnum, h, Bool.toNat_true]
    omega
  · obtain ⟨before, after, hnot, hold, hrest⟩ := List.exists_erase_eq (hmem.mp h)
    exact ⟨before, after, hnot, hold, herase.trans hrest⟩
  · rw [show r.addrsNum = n - r.found.toNat from hnum, h, Bool.toNat_false, Nat.sub_zero]
  · exact congrArg Mem.byte (addrsRemoveTurn_notFound addr n n 0 addrsList ⟨byte, []⟩ [] h)
  · have hwithin := addrsRemoveTurn_within addr n 0 addrsList ⟨byte, []⟩ [] (le_refl _) rfl
      (fun s hs => absurd hs List.not_mem_nil) (fun s hs => absurd hs List.not_mem_nil)
    rw [Nat.zero_add] at hwithin
    intro s hs
    exact (List.mem_append.mp hs).elim (hwithin.1 s) (hwithin.2 s)

end EspMesh
