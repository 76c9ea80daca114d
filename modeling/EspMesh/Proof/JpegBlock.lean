import EspMesh.Proof.JpegHuffman
import EspMesh.Proof.JpegOutput

/-! # Coding of blocks

What `code_coefficients_pass_two` puts are the bits of the block.
-/

namespace EspMesh.Jpge
set_option autoImplicit false
open BitString PrefixCode BaselineJpeg

variable {σ : Type} {str : OutputStream σ} {o₀ o : Output σ} {head : List UInt8} {b : List Bool}

/-! ## Numbers -/

theorem size_half {t : ℕ} (h : t ≠ 0) : t.size = (t / 2).size + 1 := by
  have hpos : 0 < t.size := Nat.size_pos.mpr (by omega)
  apply Nat.le_antisymm
  · apply Nat.size_le.mpr
    have hlt := Nat.lt_size_self (t / 2)
    rw [pow_succ]
    omega
  · have hle : (t / 2).size ≤ t.size - 1 := by
      apply Nat.size_le.mpr
      have hlt := Nat.lt_size_self t
      have hpow : (2 : ℕ) ^ t.size = 2 * 2 ^ (t.size - 1) := by
        rw [← pow_succ', Nat.sub_add_cancel hpos]
      omega
    omega

theorem bitLength_eq {n t : ℕ} (h : t < 2 ^ n) : bitLength n t = t.size := by
  induction n generalizing t with
  | zero =>
    have ht : t = 0 := by simpa using h
    subst ht
    rfl
  | succ n ih =>
    rw [bitLength]
    by_cases ht : t = 0
    · subst ht
      rfl
    · have hhalf : t >>> 1 < 2 ^ n := by
        rw [Nat.shiftRight_one]
        rw [pow_succ] at h
        omega
      rw [if_neg ht, ih hhalf, Nat.shiftRight_one, size_half ht]

/-- The number that is masked, and the mask. -/
theorem lowBits_magnitude (v : ℤ) :
    lowBits (if v < 0 then v - 1 else v) (magnitude v).1 = (magnitude v).2 := by
  have hlt := Nat.lt_size_self v.natAbs
  have hcast : (2 : ℤ) ^ v.natAbs.size = ((2 ^ v.natAbs.size : ℕ) : ℤ) := by push_cast; rfl
  unfold lowBits magnitude
  dsimp only
  rw [hcast]
  by_cases hv : v < 0
  · rw [if_pos hv, if_pos hv]
    have hmod : (v - 1) % ((2 ^ v.natAbs.size : ℕ) : ℤ) =
        v - 1 + ((2 ^ v.natAbs.size : ℕ) : ℤ) := by
      rw [← Int.add_emod_right, Int.emod_eq_of_lt (by omega) (by omega)]
    rw [hmod]
    omega
  · rw [if_neg hv, if_neg hv, Int.emod_eq_of_lt (by omega) (by omega)]
    omega

theorem Coding.number (h : Coding str o₀ head b o) {v : ℤ} (hv : (magnitude v).1 ≤ 16) :
    Coding str o₀ head (b ++ magnitudeBits v)
      (o.putBits str (lowBits (if v < 0 then v - 1 else v) (magnitude v).1) (magnitude v).1) := by
  rw [lowBits_magnitude]
  exact h.put (extend_magnitude v).1 hv

/-! ## Codes -/

/-- A table for first coefficients and one for the others, with symbols for all of them. -/
structure TablePair (dBits dVal aBits aVal : List ℕ) : Prop where
  dFits : TableFits dBits dVal
  aFits : TableFits aBits aVal
  dcMem : ∀ t ≤ 11, t ∈ dVal
  acMem : ∀ r < 16, ∀ s < 10, 16 * r + (s + 1) ∈ aVal
  eobMem : 0 ∈ aVal
  zrlMem : 0xf0 ∈ aVal

section tables
variable {dBits dVal aBits aVal : List ℕ} (h : TablePair dBits dVal aBits aVal)

/-- The code of a reader, with the words of the encoder. -/
def TablePair.code : BlockCode where
  dc := words dBits dVal
  ac := words aBits aVal
  dcWord := (computeHuffmanTable dBits dVal).word
  acWord := (computeHuffmanTable aBits aVal).word
  dcFree := words_free h.dFits
  acFree := words_free h.aFits
  dcMem t ht := (mem_words h.dFits (h.dcMem t ht)).1
  acMem r hr s hs := (mem_words h.aFits (h.acMem r hr s hs)).1
  eobMem := (mem_words h.aFits h.eobMem).1
  zrlMem := (mem_words h.aFits h.zrlMem).1

end tables

theorem Coding.code {tBits tVal : List ℕ} (ht : TableFits tBits tVal) {j : ℕ} (hj : j ∈ tVal)
    (h : Coding str o₀ head b o) :
    Coding str o₀ head (b ++ (computeHuffmanTable tBits tVal).word j)
      (o.putCode str (computeHuffmanTable tBits tVal) j) := by
  obtain ⟨-, hlt, -, hle⟩ := mem_words ht hj
  exact h.put hlt hle

/-! ## Blocks -/

section blocks
variable {dBits dVal aBits aVal : List ℕ} (ht : TablePair dBits dVal aBits aVal)
include ht

theorem Coding.dc (h : Coding str o₀ head b o) {v : ℤ} (hv : v.natAbs < 2 ^ 11) :
    Coding str o₀ head (b ++ dcBits ht.code v)
      (o.codeDc str (computeHuffmanTable dBits dVal) v) := by
  have hsize := magnitude_le hv
  have hlen : bitLength 32 v.natAbs = (magnitude v).1 := bitLength_eq (by omega)
  have hcode := h.code ht.dFits (ht.dcMem _ hsize)
  unfold Output.codeDc
  dsimp only
  rw [hlen, dcBits, ← List.append_assoc]
  by_cases hzero : (magnitude v).1 = 0
  · have hnil : magnitudeBits v = [] := by rw [magnitudeBits, hzero, bits_zero]
    rw [if_neg (not_not.mpr hzero), hnil, List.append_nil]
    exact hcode
  · rw [if_pos hzero]
    exact hcode.number (by omega)

theorem Coding.runs (h : Coding str o₀ head b o) {n run : ℕ} (hn : run ≤ 16 * n) :
    (Output.putRuns str (computeHuffmanTable aBits aVal) n (run, o)).1 = run % 16 ∧
      Coding str o₀ head (b ++ (List.replicate (run / 16) (ht.code.acWord 0xf0)).flatten)
        (Output.putRuns str (computeHuffmanTable aBits aVal) n (run, o)).2 := by
  induction n generalizing run b o with
  | zero =>
    have hrun : run = 0 := by omega
    subst hrun
    rw [Output.putRuns, Nat.zero_div, List.replicate_zero, List.flatten_nil, List.append_nil]
    exact ⟨rfl, h⟩
  | succ n ih =>
    rw [Output.putRuns]
    by_cases hlong : run ≥ 16
    · obtain ⟨hrun, hcoding⟩ := ih (h.code ht.aFits ht.zrlMem)
        (show run - 16 ≤ 16 * n by omega)
      have hdiv : run / 16 = (run - 16) / 16 + 1 := by omega
      have hmod : run % 16 = (run - 16) % 16 := by omega
      rw [if_pos hlong, hdiv, hmod, List.replicate_succ, List.flatten_cons, ← List.append_assoc]
      exact ⟨hrun, hcoding⟩
    · have hdiv : run / 16 = 0 := by omega
      have hmod : run % 16 = run := by omega
      rw [if_neg hlong, hdiv, hmod, List.replicate_zero, List.flatten_nil, List.append_nil]
      exact ⟨rfl, h⟩

theorem Coding.ac (h : Coding str o₀ head b o) {l : List ℤ} (hl : ∀ v ∈ l, v.natAbs < 2 ^ 10)
    (run : ℕ) :
    Coding str o₀ head (b ++ acBits ht.code run l)
      (Output.codeAc str (computeHuffmanTable aBits aVal) l run o) := by
  induction l generalizing run b o with
  | nil =>
    rw [Output.codeAc, acBits]
    by_cases hrun : run = 0
    · rw [if_neg (not_not.mpr hrun), if_pos hrun, List.append_nil]
      exact h
    · rw [if_pos hrun, if_neg hrun]
      exact h.code ht.aFits ht.eobMem
  | cons v l ih =>
    have htail := fun v' hv' => hl v' (List.mem_cons_of_mem v hv')
    rw [Output.codeAc, acBits]
    by_cases hv : v = 0
    · rw [if_pos hv, if_pos hv]
      exact ih h htail (run + 1)
    · have hsize := magnitude_le (hl v List.mem_cons_self)
      have hpos := magnitude_pos hv
      have hhalf : v.natAbs >>> 1 < 2 ^ 32 := by
        have := hl v List.mem_cons_self
        rw [Nat.shiftRight_one]
        omega
      have hlen : 1 + bitLength 32 (v.natAbs >>> 1) = (magnitude v).1 := by
        rw [bitLength_eq hhalf, Nat.shiftRight_one, Nat.add_comm]
        exact (size_half (Int.natAbs_ne_zero.mpr hv)).symm
      obtain ⟨hrun, hcoding⟩ := h.runs ht (show run ≤ 16 * run by omega)
      have hmem := ht.acMem (run % 16) (by omega) ((magnitude v).1 - 1) (by omega)
      rw [Nat.sub_add_cancel hpos] at hmem
      have hindex : (run % 16) <<< 4 + (magnitude v).1 = 16 * (run % 16) + (magnitude v).1 := by
        rw [Nat.shiftLeft_eq]
        omega
      rw [if_neg hv, if_neg hv]
      dsimp only
      rw [hlen, hrun, hindex, ← List.append_assoc, ← List.append_assoc, ← List.append_assoc]
      exact ih ((hcoding.code ht.aFits hmem).number (by omega)) htail 0

end blocks

end EspMesh.Jpge
