import EspMesh.Proof.JpegPicture
import EspMesh.Proof.JpegStream

/-! # Encoding a picture

Line by line the blocks of the rows of units that are complete have been coded, and at the end those
of the whole picture.
-/

namespace EspMesh.Jpge
set_option autoImplicit false
open BitString PrefixCode BaselineJpeg

variable {σ : Type} {str : OutputStream σ} {o₀ : Output σ} {head : List UInt8} {g : Layout}
  {sub : Subsampling} {src : ℕ → List UInt8} {quality : ℤ} {e : Encoder σ}

/-! ## Rows -/

/-- The blocks of the first `n` rows of units. -/
def rowBlocks (g : Layout) (sub : Subsampling) (src : ℕ → List UInt8) (n : ℕ) :
    List (ℕ × Block) :=
  (List.range n).flatMap fun r =>
    (List.range g.mcusPerRow).flatMap fun m => pictureUnit (plane g src) m r sub

theorem rowBlocks_succ (n : ℕ) :
    rowBlocks g sub src (n + 1) = rowBlocks g sub src n ++
      (List.range g.mcusPerRow).flatMap fun m => pictureUnit (plane g src) m n sub := by
  rw [rowBlocks, List.range_succ, List.flatMap_append, List.flatMap_singleton]
  rfl

/-- What the encoder has coded of a picture. -/
structure Rows (str : OutputStream σ) (o₀ : Output σ) (head : List UInt8) (g : Layout)
    (sub : Subsampling) (src : ℕ → List UInt8) (quality : ℤ) (n : ℕ) (e : Encoder σ) : Prop where
  layout : e.layout = g
  ready : Ready quality e.statics
  pass : e.passNum = 2
  scanned : Scanned str o₀ head ((rowBlocks g sub src n).map (coefficients quality)) e

/-- One more row of units. -/
theorem Rows.next {n : ℕ} (hg : Sound g sub) (hsrc : Lines g src)
    (h : Rows str o₀ head g sub src quality n e) (hlines : RowLines g src n e.mcuLines) :
    Rows str o₀ head g sub src quality (n + 1) (e.processMcuRow str) ∧
      (e.processMcuRow str).mcuYOfs = e.mcuYOfs := by
  have hunits : (List.range g.mcusPerRow).flatMap (Encoder.unitBlocks g e.mcuLines) =
      (List.range g.mcusPerRow).flatMap fun m => pictureUnit (plane g src) m n sub := by
    apply List.flatMap_congr
    intro m hm
    exact unitBlocks_eq hg hsrc hlines (List.mem_range.mp hm)
  have hsamples : ∀ b ∈ (List.range g.mcusPerRow).flatMap fun m =>
      pictureUnit (plane g src) m n sub, Samples b.2 := by
    intro b hb
    obtain ⟨m, -, hb⟩ := List.mem_flatMap.mp hb
    exact pictureUnit_samples (plane_range g src) m n sub b hb
  obtain ⟨hscan, hsame⟩ := h.scanned.blocks h.ready hsamples
  have hrow : e.processMcuRow str = ((List.range g.mcusPerRow).flatMap fun m =>
      pictureUnit (plane g src) m n sub).foldl (Encoder.codeBlock str) e := by
    rw [Encoder.processMcuRow, h.layout, hunits]
  rw [hrow]
  refine ⟨⟨hsame.layout.trans h.layout, ?_, hsame.passNum.trans h.pass, ?_⟩, hsame.mcuYOfs⟩
  · rw [hsame.statics]
    exact h.ready
  · rw [rowBlocks_succ, List.map_append]
    exact hscan

/-! ## Lines -/

/-- After `k` lines those that make no whole row of units are still there. -/
structure Loaded (str : OutputStream σ) (o₀ : Output σ) (head : List UInt8) (g : Layout)
    (sub : Subsampling) (src : ℕ → List UInt8) (quality : ℤ) (k : ℕ) (e : Encoder σ) :
    Prop where
  rows : Rows str o₀ head g sub src quality (k / g.mcuY) e
  ofs : e.mcuYOfs = k % g.mcuY
  lines : ∀ i < k % g.mcuY, e.mcuLines i = Encoder.mcuLine g (src (k / g.mcuY * g.mcuY + i))

theorem Sound.mcuY_pos (h : Sound g sub) : 0 < g.mcuY := by
  rw [h.layout]
  cases sub <;> exact Nat.succ_pos _

/-- The next number has the same quotient, or the next one and no rest. -/
theorem succ_div_mod {k n : ℕ} (hn : 0 < n) :
    (k % n + 1 = n → (k + 1) / n = k / n + 1 ∧ (k + 1) % n = 0) ∧
      (k % n + 1 ≠ n → (k + 1) / n = k / n ∧ (k + 1) % n = k % n + 1) := by
  have hdiv := Nat.mod_add_div k n
  have hlt := Nat.mod_lt k hn
  constructor
  · intro h
    apply (Nat.div_mod_unique hn).mpr
    rw [Nat.mul_add, Nat.mul_one]
    omega
  · intro h
    apply (Nat.div_mod_unique hn).mpr
    omega

theorem Rows.setLines {n : ℕ} (h : Rows str o₀ head g sub src quality n e) (lines : McuLines)
    (ofs : ℕ) :
    Rows str o₀ head g sub src quality n { e with mcuLines := lines, mcuYOfs := ofs } :=
  ⟨h.layout, h.ready, h.pass, ⟨h.scanned.out, h.scanned.preds, h.scanned.codable⟩⟩

theorem Loaded.line {k : ℕ} (hg : Sound g sub) (hsrc : Lines g src) (hk : k < g.imageY)
    (h : Loaded str o₀ head g sub src quality k e) :
    Loaded str o₀ head g sub src quality (k + 1) (e.loadMcu str (src k)) := by
  have hpos := hg.mcuY_pos
  have hdiv := Nat.div_add_mod' k g.mcuY
  have hmod := Nat.mod_lt k hpos
  obtain ⟨hfull, hpart⟩ := succ_div_mod (k := k) hpos
  have hrows := h.rows.setLines
    (Function.update e.mcuLines e.mcuYOfs (Encoder.mcuLine e.layout (src k))) (e.mcuYOfs + 1)
  have hlines : ∀ i < k % g.mcuY + 1, Function.update e.mcuLines e.mcuYOfs
      (Encoder.mcuLine e.layout (src k)) i =
        Encoder.mcuLine g (src (k / g.mcuY * g.mcuY + i)) := by
    intro i hi
    rw [h.ofs, h.rows.layout]
    by_cases hlast : i = k % g.mcuY
    · subst hlast
      rw [Function.update_self, hdiv]
    · rw [Function.update_of_ne hlast]
      exact h.lines i (by omega)
  unfold Encoder.loadMcu
  dsimp only
  by_cases hend : k % g.mcuY + 1 = g.mcuY
  · obtain ⟨hnext, hzero⟩ := hfull hend
    have hrow : RowLines g src (k / g.mcuY) (Function.update e.mcuLines e.mcuYOfs
        (Encoder.mcuLine e.layout (src k))) := by
      intro i hi
      rw [hlines i (by omega), Nat.min_eq_left (by omega)]
    obtain ⟨hcoded, -⟩ := hrows.next hg hsrc hrow
    rw [if_pos (by rw [h.ofs, h.rows.layout]; exact hend)]
    refine ⟨?_, ?_, ?_⟩
    · rw [hnext]
      exact hcoded.setLines _ 0
    · exact hzero.symm
    · intro i hi
      omega
  · obtain ⟨hsame, hnext⟩ := hpart hend
    rw [if_neg (by rw [h.ofs, h.rows.layout]; exact hend)]
    refine ⟨?_, ?_, ?_⟩
    · rw [hsame]
      exact hrows
    · rw [hnext, ← h.ofs]
    · intro i hi
      rw [hnext] at hi
      rw [hsame]
      exact hlines i hi

/-! ## A whole picture -/

theorem Emitted.ok (hacc : Accepts str) {s : σ} {l : List UInt8} {o : Output σ}
    (h : Emitted str (startOutput s) l o) : o.allStreamWritesSucceeded = true := by
  obtain ⟨pieces, hsent⟩ := (sent_start str s).bytes hacc l
  have hok := hsent.ok
  have hblank : o.blank = (startOutput s).emitBytes str l := h
  rw [← hblank] at hok
  exact hok

theorem Coding.ok (hacc : Accepts str) {s : σ} {b : List Bool} {o : Output σ}
    (h : Coding str (startOutput s) head b o) : o.allStreamWritesSucceeded = true := by
  obtain ⟨pend, hcoded, -⟩ := h
  obtain ⟨whole, -, hemit⟩ := hcoded.emitted
  exact hemit.ok hacc

/-- The lines of an unfinished row of units, and behind them copies of the last one. -/
def filledLines (e : Encoder σ) : McuLines := fun i =>
  if e.mcuYOfs ≤ i ∧ i < e.layout.mcuY then e.mcuLines (e.mcuYOfs - 1) else e.mcuLines i

/-- The first step of `process_end_of_image`. -/
def lastRow (str : OutputStream σ) (e : Encoder σ) : Encoder σ :=
  if e.mcuYOfs ≠ 0 then { e with mcuLines := filledLines e }.processMcuRow str else e

theorem Loaded.last (hg : Sound g sub) (hsrc : Lines g src)
    (h : Loaded str o₀ head g sub src quality g.imageY e) :
    Rows str o₀ head g sub src quality (unitRows g) (lastRow str e) := by
  have hpos := hg.mcuY_pos
  have hdiv := Nat.div_add_mod' g.imageY g.mcuY
  have hmod := Nat.mod_lt g.imageY hpos
  have hofs := h.ofs
  by_cases hzero : e.mcuYOfs = 0
  · have hrows : unitRows g = g.imageY / g.mcuY := by
      rw [unitRows]
      apply ((Nat.div_mod_unique (c := g.mcuY - 1) hpos).mpr _).1
      rw [Nat.mul_comm]
      omega
    rw [lastRow, if_neg (not_not.mpr hzero), hrows]
    exact h.rows
  · have hrows : unitRows g = g.imageY / g.mcuY + 1 := by
      rw [unitRows]
      apply ((Nat.div_mod_unique (c := g.imageY % g.mcuY - 1) hpos).mpr _).1
      rw [Nat.mul_add, Nat.mul_comm]
      omega
    have hrow : RowLines g src (g.imageY / g.mcuY) (filledLines e) := by
      intro i hi
      rw [filledLines, h.rows.layout]
      by_cases hlate : e.mcuYOfs ≤ i
      · rw [if_pos ⟨hlate, hi⟩, h.lines _ (by omega), Nat.min_eq_right (by omega)]
        congr 2
        omega
      · rw [if_neg (fun hand => hlate hand.1), h.lines _ (by omega), Nat.min_eq_left (by omega)]
    rw [lastRow, if_pos hzero, hrows]
    exact ((h.rows.setLines _ e.mcuYOfs).next hg hsrc hrow).1

theorem flatMap_range_const {α : Type} (n : ℕ) (u : List α) :
    ((List.range n).flatMap fun _ => u) = (List.replicate n u).flatten := by
  induction n with
  | zero => rfl
  | succ n ih =>
    rw [List.range_succ, List.flatMap_append, ih, List.flatMap_singleton, List.replicate_succ',
      List.flatten_concat]

theorem replicate_flatten_mul {α : Type} (m n : ℕ) (u : List α) :
    (List.replicate n (List.replicate m u).flatten).flatten =
      (List.replicate (m * n) u).flatten := by
  induction n with
  | zero => rfl
  | succ n ih =>
    rw [List.replicate_succ', List.flatten_concat, ih, Nat.mul_succ, List.replicate_add,
      List.flatten_append]

theorem rowBlocks_order (g : Layout) (sub : Subsampling) (src : ℕ → List UInt8) (quality : ℤ) :
    ((rowBlocks g sub src (unitRows g)).map (coefficients quality)).map Prod.fst =
      scanOrder g sub := by
  have hunit : ∀ m r, (pictureUnit (plane g src) m r sub).map
      (Prod.fst ∘ coefficients quality) = unitComponents sub := by
    intro m r
    cases sub <;> rfl
  rw [List.map_map, rowBlocks, List.map_flatMap]
  simp only [List.map_flatMap, hunit]
  rw [flatMap_range_const, flatMap_range_const, replicate_flatten_mul, scanOrder]

/-- What a reader is to find: for each block of the picture its quantised coefficients. -/
def encodedPicture (g : Layout) (sub : Subsampling) (src : ℕ → List UInt8) (quality : ℤ) :
    Picture :=
  { width := g.imageX
    height := g.imageY
    components := components quality sub
    blocks := (rowBlocks g sub src (unitRows g)).map (coefficients quality) }

/-- The end of a file. -/
theorem Emitted.send (hacc : Accepts str) {s : σ} {file : List UInt8} {o : Output σ}
    (h : Emitted str (startOutput s) file o) :
    ((o.flushOutputBuffer str).write str none).stream = sendFile str s file ∧
      ((o.flushOutputBuffer str).write str none).allStreamWritesSucceeded = true := by
  have hblank : ((o.flushOutputBuffer str).write str none).blank =
      (((startOutput s).emitBytes str file).flushOutputBuffer str).write str none := by
    rw [Output.write_blank, Output.flush_blank, h]
    rfl
  have hstream := congrArg Output.stream hblank
  exact ⟨hstream, Output.write_flush_ok hacc (h.ok hacc) none⟩

theorem processEndOfImage_out (e : Encoder σ) :
    (e.processEndOfImage str).out =
      ((((lastRow str e).out.putBits str 0x7f 7).emitMarker str 0xd9).flushOutputBuffer
        str).write str none := by
  unfold Encoder.processEndOfImage lastRow filledLines
  dsimp only

theorem Loaded.finish (hacc : Accepts str) (hg : Sound g sub) (hsrc : Lines g src)
    (hwidth : g.imageX < 65536) (hheight : g.imageY < 65536) {s : σ}
    (h : Loaded str (startOutput s) (headBytes g quality) g sub src quality g.imageY e) :
    ∃ file, BaselineJpeg.read file = some (encodedPicture g sub src quality) ∧
      (e.processScanline str none).2 = true ∧
      (e.processScanline str none).1.out.stream = sendFile str s file := by
  have hrows := h.last hg hsrc
  have hpass := h.rows.pass
  have hok := h.rows.scanned.out.ok hacc
  obtain ⟨whole, n, hemit, hn, hbits⟩ := hrows.scanned.out.finish
  have hread := read_file quality hg hwidth hheight hrows.scanned.codable
    (rowBlocks_order g sub src quality) hn hbits
  have hfile : Emitted str (startOutput s) (fileBytes g quality whole)
      (((lastRow str e).out.putBits str 0x7f 7).emitMarker str 0xd9) := by
    rw [Output.emitMarker_eq, fileBytes]
    exact hemit.bytes [0xff, 0xd9]
  obtain ⟨hstream, hdone⟩ := hfile.send hacc
  rw [← processEndOfImage_out] at hstream hdone
  have hprocess : e.processScanline str none = (e.processEndOfImage str, true) := by
    unfold Encoder.processScanline
    rw [if_neg (by omega), if_pos hok]
    dsimp only
    rw [hdone]
  refine ⟨fileBytes g quality whole, hread, ?_, ?_⟩
  · rw [hprocess]
  · rw [hprocess]
    exact hstream

end EspMesh.Jpge
