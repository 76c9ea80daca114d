import EspMesh.Library.JpegFile
import EspMesh.Model.JpegEncoder

/-! # Huffman tables

`compute_huffman_table` gives each symbol the word that a reader of the table finds in its place.
-/

namespace EspMesh.Jpge
set_option autoImplicit false
open BitString PrefixCode BaselineJpeg

/-! ## Sizes -/

theorem huffSize_sorted (bits : List ℕ) : (huffSize bits).Pairwise (· ≤ ·) := by
  apply List.pairwise_flatMap.mpr
  constructor
  · intro l _
    exact List.pairwise_replicate.mpr (Or.inr (le_refl l))
  · apply List.Pairwise.imp _ (List.pairwise_lt_range' (s := 1) (n := 16))
    intro a b hab x hx y hy
    rw [List.eq_of_mem_replicate hx, List.eq_of_mem_replicate hy]
    omega

theorem huffSize_mem {bits : List ℕ} {s : ℕ} (h : s ∈ huffSize bits) : 1 ≤ s ∧ s ≤ 16 := by
  obtain ⟨l, hl, hs⟩ := List.mem_flatMap.mp h
  have heq := List.eq_of_mem_replicate hs
  obtain ⟨i, hi, rfl⟩ := List.mem_range'.mp hl
  omega

/-- What `emit_dht` says of the sizes. -/
def counts (bits : List ℕ) : List ℕ := (List.range' 1 16).map fun i => bits.getD i 0

theorem wordSizes_counts (bits : List ℕ) : wordSizes (counts bits) = huffSize bits := rfl

theorem huffSize_length (bits : List ℕ) : (huffSize bits).length = (counts bits).sum := by
  rw [huffSize, List.length_flatMap, counts]
  simp only [List.length_replicate]

/-! ## Codes -/

theorem codesOfSize_numbers {si : ℕ} {sizes : List ℕ} (code : ℕ)
    (hsorted : sizes.Pairwise (· ≤ ·)) (hle : ∀ s ∈ sizes, si ≤ s) :
    let o := codesOfSize si sizes code
    codeNumbers 16 (code * 2 ^ (16 - si)) sizes =
        o.1 ++ codeNumbers 16 (o.2.2 * 2 ^ (16 - si)) o.2.1 ∧
      o.2.1.Pairwise (· ≤ ·) ∧ ∀ s ∈ o.2.1, s ∈ sizes ∧ si < s := by
  induction sizes generalizing code with
  | nil => simp [codesOfSize, codeNumbers]
  | cons s sizes ih =>
    obtain ⟨hfirst, hrest⟩ := List.pairwise_cons.mp hsorted
    rw [codesOfSize]
    by_cases hs : s = si
    · subst hs
      obtain ⟨hnum, hsort, hmem⟩ := ih (code + 1) hrest hfirst
      rw [if_pos rfl, codeNumbers, Nat.mul_div_cancel _ (Nat.two_pow_pos _), ← Nat.succ_mul, hnum]
      exact ⟨rfl, hsort, fun x hx => ⟨List.mem_cons_of_mem _ (hmem x hx).1, (hmem x hx).2⟩⟩
    · rw [if_neg hs]
      refine ⟨rfl, hsorted, ?_⟩
      intro x hx
      have hsi := hle s List.mem_cons_self
      obtain rfl | hx' := List.mem_cons.mp hx
      · exact ⟨hx, by omega⟩
      · have := hfirst x hx'
        exact ⟨hx, by omega⟩

/-- The loops give out the codes of the canonical code. -/
theorem huffCode_numbers {n si : ℕ} {sizes : List ℕ} {code : ℕ} (hsorted : sizes.Pairwise (· ≤ ·))
    (hlo : ∀ s ∈ sizes, si ≤ s) (hhi : ∀ s ∈ sizes, s < si + n ∧ s ≤ 16) :
    huffCode n si sizes code = codeNumbers 16 (code * 2 ^ (16 - si)) sizes := by
  induction n generalizing si sizes code with
  | zero =>
    cases sizes with
    | nil => rfl
    | cons s sizes =>
      have h1 := hlo s List.mem_cons_self
      have h2 := (hhi s List.mem_cons_self).1
      omega
  | succ n ih =>
    rw [huffCode]
    by_cases hnil : sizes = []
    · subst hnil
      rfl
    · rw [if_neg hnil]
      obtain ⟨hnum, hsort, hmem⟩ := codesOfSize_numbers code hsorted hlo
      dsimp only
      rw [hnum]
      generalize codesOfSize si sizes code = o at *
      congr 1
      rw [ih hsort (fun s hs => (hmem s hs).2) fun s hs => by
        have := hhi s (hmem s hs).1
        omega]
      cases hrest : o.2.1 with
      | nil => rfl
      | cons s rest =>
        have hs : s ∈ o.2.1 := by rw [hrest]; exact List.mem_cons_self
        have h16 := (hhi s (hmem s hs).1).2
        have hlt := (hmem s hs).2
        have hpow : 2 ^ (16 - si) = 2 * 2 ^ (16 - (si + 1)) := by
          rw [← pow_succ', show 16 - si = 16 - (si + 1) + 1 by omega]
        rw [hpow, Nat.mul_assoc]

theorem huffCode_eq (bits : List ℕ) :
    huffCode 17 ((huffSize bits).headD 0) (huffSize bits) 0 =
      codeNumbers 16 0 (huffSize bits) := by
  have hsorted := huffSize_sorted bits
  have hmem : ∀ s ∈ huffSize bits, 1 ≤ s ∧ s ≤ 16 := fun s hs => huffSize_mem hs
  cases hsizes : huffSize bits with
  | nil => rfl
  | cons s sizes =>
    rw [hsizes] at hsorted hmem
    have hs := hmem s List.mem_cons_self
    rw [List.headD_cons, huffCode_numbers hsorted, Nat.zero_mul]
    · intro x hx
      obtain rfl | hx := List.mem_cons.mp hx
      · exact le_refl x
      · exact (List.pairwise_cons.mp hsorted).1 x hx
    · intro x hx
      have := hmem x hx
      omega

theorem computeHuffmanTable_codes (bits val : List ℕ) :
    (computeHuffmanTable bits val).codes =
      (val.zip (codeNumbers 16 0 (huffSize bits))).foldl (fun t e => t.set e.1 e.2)
        (List.replicate 256 0) := by
  rw [← huffCode_eq]
  rfl

/-! ## Tables -/

theorem foldl_set_of_not_mem {l : List (ℕ × ℕ)} {v : ℕ} (h : v ∉ l.map Prod.fst) (t : List ℕ) :
    (l.foldl (fun t e => t.set e.1 e.2) t).getD v 0 = t.getD v 0 := by
  induction l generalizing t with
  | nil => rfl
  | cons e l ih =>
    rw [List.map_cons, List.mem_cons, not_or] at h
    rw [List.foldl_cons, ih h.2]
    simp only [List.getD_eq_getElem?_getD]
    rw [List.getElem?_set_ne fun heq => h.1 heq.symm]

theorem foldl_set_of_mem {l : List (ℕ × ℕ)} {v x : ℕ} (hnodup : (l.map Prod.fst).Nodup)
    (h : (v, x) ∈ l) (t : List ℕ) (hv : v < t.length) :
    (l.foldl (fun t e => t.set e.1 e.2) t).getD v 0 = x := by
  induction l generalizing t with
  | nil => simp at h
  | cons e l ih =>
    rw [List.map_cons, List.nodup_cons] at hnodup
    rw [List.foldl_cons]
    obtain rfl | hmem := List.mem_cons.mp h
    · rw [foldl_set_of_not_mem hnodup.1, List.getD_eq_getElem?_getD, List.getElem?_set_self hv]
      rfl
    · exact ih hnodup.2 hmem _ (by rwa [List.length_set])

/-- A table of symbols with distinct bytes, for which there are enough words. -/
structure TableFits (bits val : List ℕ) : Prop where
  length : val.length = (counts bits).sum
  nodup : val.Nodup
  byte : ∀ v ∈ val, v < 256
  room : ((huffSize bits).map fun s => 2 ^ (16 - s)).sum < 2 ^ 16

variable {bits val : List ℕ}

/-- The code a reader finds. -/
def words (bits val : List ℕ) : List (ℕ × List Bool) := tableCode (counts bits) val

theorem TableFits.sizes (h : TableFits bits val) : (huffSize bits).length ≤ val.length := by
  rw [huffSize_length, h.length]

theorem TableFits.words_room (h : TableFits bits val) :
    Room 16 0 (val.zip (wordSizes (counts bits))) where
  sorted := by
    rw [wordSizes_counts, List.map_snd_zip h.sizes]
    exact huffSize_sorted bits
  size e he := by
    rw [wordSizes_counts] at he
    exact (huffSize_mem (List.of_mem_zip he).2).2
  aligned e _ := Nat.dvd_zero _
  room := by
    have hroom := h.room
    rw [wordSizes_counts, covered_zip h.sizes]
    omega

theorem codeNumbers_length (m p : ℕ) (sizes : List ℕ) :
    (codeNumbers m p sizes).length = sizes.length := by
  induction sizes generalizing p with
  | nil => rfl
  | cons s sizes ih => rw [codeNumbers, List.length_cons, List.length_cons, ih]

theorem getElem_mem_zip {α β : Type} {l : List α} {l' : List β} {i : ℕ} (h : i < l.length)
    (h' : i < l'.length) : (l[i], l'[i]) ∈ l.zip l' := by
  rw [← List.getElem_zip (h := by rw [List.length_zip]; omega)]
  exact List.getElem_mem _

/-- What the table holds for a symbol of `val`. -/
theorem assign_getD (h : TableFits bits val) {l : List ℕ} (hlen : val.length = l.length)
    {v x : ℕ} (hx : (v, x) ∈ val.zip l) :
    ((val.zip l).foldl (fun t e => t.set e.1 e.2) (List.replicate 256 0)).getD v 0 = x := by
  apply foldl_set_of_mem _ hx
  · rw [List.length_replicate]
    exact h.byte v (List.of_mem_zip hx).1
  · rw [List.map_fst_zip (by omega)]
    exact h.nodup

/-- The word `put_bits` is given for a symbol. -/
def HuffTable.word (t : HuffTable) (v : ℕ) : List Bool :=
  BitString.bits (t.codeSizes.getD v 0) (t.codes.getD v 0)

/-- `compute_huffman_table` has the words of the code a reader finds. -/
theorem mem_words (h : TableFits bits val) {v : ℕ} (hv : v ∈ val) :
    let t := computeHuffmanTable bits val
    (v, t.word v) ∈ words bits val ∧
      t.codes.getD v 0 < 2 ^ t.codeSizes.getD v 0 ∧
      1 ≤ t.codeSizes.getD v 0 ∧ t.codeSizes.getD v 0 ≤ 16 := by
  intro t
  have hlen : val.length = (huffSize bits).length := by rw [h.length, huffSize_length]
  have hlen' : (huffSize bits).length = (codeNumbers 16 0 (huffSize bits)).length :=
    (codeNumbers_length ..).symm
  obtain ⟨i, hi, rfl⟩ := List.getElem_of_mem hv
  have hsize : i < (huffSize bits).length := by omega
  have hcode : i < (codeNumbers 16 0 (huffSize bits)).length := by omega
  have hs : t.codeSizes.getD val[i] 0 = (huffSize bits)[i] :=
    assign_getD h hlen (getElem_mem_zip hi hsize)
  have hc : t.codes.getD val[i] 0 = (codeNumbers 16 0 (huffSize bits))[i] := by
    rw [computeHuffmanTable_codes]
    exact assign_getD h (hlen.trans hlen') (getElem_mem_zip hi hcode)
  have hlt := codeNumbers_lt h.words_room (s := (huffSize bits)[i])
    (x := (codeNumbers 16 0 (huffSize bits))[i])
  rw [wordSizes_counts, List.map_snd_zip h.sizes] at hlt
  rw [HuffTable.word, hs, hc]
  refine ⟨?_, hlt (getElem_mem_zip hsize hcode), huffSize_mem (List.getElem_mem _)⟩
  rw [words, tableCode, wordSizes_counts, canonical_zip, List.mem_map]
  refine ⟨(val[i], (huffSize bits)[i], (codeNumbers 16 0 (huffSize bits))[i]), ?_, rfl⟩
  have hboth : i < ((huffSize bits).zip (codeNumbers 16 0 (huffSize bits))).length := by
    rw [List.length_zip]
    omega
  have hmem := getElem_mem_zip hi hboth
  rwa [List.getElem_zip] at hmem

theorem words_free (h : TableFits bits val) : Free (words bits val) := canonical_free h.words_room

theorem words_not_ones (h : TableFits bits val) (v n : ℕ) :
    (v, List.replicate n true) ∉ words bits val := by
  apply canonical_not_ones h.words_room
  rw [wordSizes_counts, covered_zip h.sizes]
  have := h.room
  omega

end EspMesh.Jpge
