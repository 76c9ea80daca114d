import EspMesh.Proof.JpegBlock
import EspMesh.Proof.JpegTransform

/-! # The scan

With the static arrays set up, the bits that have been put are those of the blocks coded so far.
-/

namespace EspMesh.Jpge
set_option autoImplicit false
open BitString PrefixCode BaselineJpeg

/-! ## The standard tables -/

theorem dcLum_fits : TableFits dcLumBits dcLumVal where
  length := by decide
  nodup := by decide
  byte := by decide
  room := by decide

theorem dcChroma_fits : TableFits dcChromaBits dcChromaVal where
  length := by decide
  nodup := by decide
  byte := by decide
  room := by decide

theorem acLum_fits : TableFits acLumBits acLumVal where
  length := by decide +kernel
  nodup := by decide +kernel
  byte := by decide +kernel
  room := by decide +kernel

theorem acChroma_fits : TableFits acChromaBits acChromaVal where
  length := by decide +kernel
  nodup := by decide +kernel
  byte := by decide +kernel
  room := by decide +kernel

theorem lum_tables : TablePair dcLumBits dcLumVal acLumBits acLumVal where
  dFits := dcLum_fits
  aFits := acLum_fits
  dcMem := by decide
  acMem := by decide +kernel
  eobMem := by decide
  zrlMem := by decide

theorem chroma_tables : TablePair dcChromaBits dcChromaVal acChromaBits acChromaVal where
  dFits := dcChroma_fits
  aFits := acChroma_fits
  dcMem := by decide
  acMem := by decide +kernel
  eobMem := by decide
  zrlMem := by decide

/-- The codes of a component. -/
def codes (c : ℕ) : BlockCode := if c = 0 then lum_tables.code else chroma_tables.code

/-! ## Static arrays -/

/-- The quantisation table of a component. -/
def quantTable (quality : ℤ) (c : ℕ) : List ℤ :=
  computeQuantTable quality (if c > 0 then stdCromaQuant else stdLumQuant)

structure HuffReady (s : Statics) : Prop where
  huff : s.huff = [computeHuffmanTable dcLumBits dcLumVal,
    computeHuffmanTable dcChromaBits dcChromaVal, computeHuffmanTable acLumBits acLumVal,
    computeHuffmanTable acChromaBits acChromaVal]
  bits : s.huffBits = [dcLumBits, dcChromaBits, acLumBits, acChromaBits]
  val : s.huffVal = [dcLumVal, dcChromaVal, acLumVal, acChromaVal]

/-- The arrays are set up for `quality`. -/
structure Ready (quality : ℤ) (s : Statics) : Prop where
  quant : s.quantizationTables = [quantTable quality 0, quantTable quality 1]
  huff : HuffReady s

/-- What the arrays say of themselves. -/
structure Kept (s : Statics) : Prop where
  quant : s.lastQuality ≠ 0 →
    s.quantizationTables = [quantTable s.lastQuality 0, quantTable s.lastQuality 1]
  huff : s.huffInitialized = true → HuffReady s

theorem kept_start : Kept Statics.start where
  quant h := absurd rfl h
  huff h := Bool.noConfusion h

theorem Kept.loadQuality {s : Statics} (h : Kept s) {quality : ℤ} (hq : quality ≠ 0) :
    (s.loadQuality quality).quantizationTables = [quantTable quality 0, quantTable quality 1] ∧
      Kept (s.loadQuality quality) := by
  unfold Statics.loadQuality
  by_cases hsame : s.lastQuality = quality
  · rw [if_neg (not_not.mpr hsame)]
    subst hsame
    exact ⟨h.quant hq, h⟩
  · rw [if_pos hsame]
    exact ⟨rfl, fun _ => rfl, fun hinit => ⟨(h.huff hinit).huff, (h.huff hinit).bits,
      (h.huff hinit).val⟩⟩

theorem Kept.loadHuffman {s : Statics} (h : Kept s) :
    HuffReady s.loadHuffman ∧ s.loadHuffman.quantizationTables = s.quantizationTables ∧
      Kept s.loadHuffman := by
  unfold Statics.loadHuffman
  by_cases hinit : s.huffInitialized = true
  · rw [if_pos hinit]
    exact ⟨h.huff hinit, rfl, h⟩
  · rw [if_neg hinit]
    exact ⟨⟨rfl, rfl, rfl⟩, rfl, h.quant, fun _ => ⟨rfl, rfl, rfl⟩⟩

/-- Whatever pictures came before, `jpg_open` has the arrays set up. -/
theorem Kept.load {s : Statics} (h : Kept s) {quality : ℤ} (hq : quality ≠ 0) :
    Ready quality (s.loadQuality quality).loadHuffman ∧
      Kept (s.loadQuality quality).loadHuffman := by
  obtain ⟨hquant, hkept⟩ := h.loadQuality hq
  obtain ⟨hhuff, hsame, hkept⟩ := hkept.loadHuffman
  exact ⟨⟨hsame.trans hquant, hhuff⟩, hkept⟩

theorem quantTable_steps (quality : ℤ) (c : ℕ) :
    (quantTable quality c).length = 64 ∧ ∀ q ∈ quantTable quality c, Step q := by
  unfold quantTable
  obtain ⟨hlen, hsteps⟩ := computeQuantTable_steps quality
    (if c > 0 then stdCromaQuant else stdLumQuant)
  refine ⟨?_, hsteps⟩
  rw [hlen]
  split <;> rfl

/-! ## Blocks -/

/-- A block of samples and its coefficients. -/
def coefficients (quality : ℤ) (b : ℕ × Block) : ℕ × List ℤ :=
  (b.1, loadQuantizedCoefficients (quantTable quality b.1) (dct2d b.2))

theorem coefficients_codable (quality : ℤ) {b : ℕ × Block} (h : Samples b.2) :
    Codable (coefficients quality b).2 :=
  codable_coefficients h (quantTable_steps quality b.1).1 (quantTable_steps quality b.1).2

variable {σ : Type} {str : OutputStream σ} {o₀ : Output σ} {head : List UInt8} {quality : ℤ}
  {e : Encoder σ} {l : List (ℕ × List ℤ)}

/-- The blocks `l` have been coded. -/
structure Scanned (str : OutputStream σ) (o₀ : Output σ) (head : List UInt8)
    (l : List (ℕ × List ℤ)) (e : Encoder σ) : Prop where
  out : Coding str o₀ head (scanBits codes (fun _ => 0) l) e.out
  preds : e.lastDcVal = predAfter (fun _ => 0) l
  codable : ∀ x ∈ l, Codable x.2

theorem Ready.table {s : Statics} (h : Ready quality s) (c : ℕ) :
    s.quantizationTables.getD (if c > 0 then 1 else 0) [] = quantTable quality c := by
  rw [h.quant]
  by_cases hc : c > 0
  · have hone : quantTable quality c = quantTable quality 1 := by
      rw [quantTable, if_pos hc]
      rfl
    rw [if_pos hc, hone]
    rfl
  · have hzero : c = 0 := by omega
    rw [if_neg hc, hzero]
    rfl

theorem Ready.dcTable {s : Statics} (h : Ready quality s) (c : ℕ) :
    s.table (if c = 0 then 0 else 1) = if c = 0 then computeHuffmanTable dcLumBits dcLumVal
      else computeHuffmanTable dcChromaBits dcChromaVal := by
  rw [Statics.table, h.huff.huff]
  split <;> rfl

theorem Ready.acTable {s : Statics} (h : Ready quality s) (c : ℕ) :
    s.table (2 + if c = 0 then 0 else 1) = if c = 0 then computeHuffmanTable acLumBits acLumVal
      else computeHuffmanTable acChromaBits acChromaVal := by
  rw [Statics.table, h.huff.huff]
  split <;> rfl

/-- A block's bits, by the tables of its component. -/
theorem Coding.block {o : Output σ} {b : List Bool} (h : Coding str o₀ head b o)
    {s : Statics} (hready : Ready quality s) (c : ℕ) {pred v : ℤ} {l : List ℤ}
    (hdc : (v - pred).natAbs < 2 ^ 11) (hac : ∀ v ∈ l, v.natAbs < 2 ^ 10) :
    Coding str o₀ head (b ++ blockBits (codes c) pred (v :: l))
      ((o.codeDc str (s.table (if c = 0 then 0 else 1)) (v - pred)).codeAc str
        (s.table (2 + if c = 0 then 0 else 1)) l 0) := by
  rw [hready.dcTable, hready.acTable, blockBits, ← List.append_assoc, codes]
  by_cases hc : c = 0
  · rw [if_pos hc, if_pos hc, if_pos hc]
    exact (h.dc lum_tables hdc).ac lum_tables hac 0
  · rw [if_neg hc, if_neg hc, if_neg hc]
    exact (h.dc chroma_tables hdc).ac chroma_tables hac 0

theorem Scanned.block (h : Scanned str o₀ head l e) (hready : Ready quality e.statics)
    {b : ℕ × Block} (hb : Samples b.2) :
    Scanned str o₀ head (l ++ [coefficients quality b]) (e.codeBlock str b) := by
  have hcode := coefficients_codable quality hb
  have hpred := predAfter_range h.codable b.1
  rw [← h.preds] at hpred
  obtain ⟨v, l', hcoefs⟩ := List.exists_cons_of_length_pos
    (l := (coefficients quality b).2) (by rw [hcode.length]; decide)
  have hdc := hcode.dc
  have hac := hcode.ac
  rw [hcoefs, List.headD_cons] at hdc
  rw [hcoefs, List.tail_cons] at hac
  have hdiff : (v - e.lastDcVal b.1).natAbs < 2 ^ 11 := by omega
  have hout := h.out.block hready b.1 hdiff hac
  have hload : loadQuantizedCoefficients (e.statics.quantizationTables.getD
      (if b.1 > 0 then 1 else 0) []) (dct2d b.2) = v :: l' := by
    rw [hready.table]
    exact hcoefs
  have hpair : coefficients quality b = (b.1, v :: l') := Prod.ext rfl hcoefs
  rw [hpair]
  unfold Encoder.codeBlock
  dsimp only
  rw [hload]
  constructor
  · rw [scanBits_concat, ← h.preds]
    exact hout
  · rw [predAfter_concat, ← h.preds]
    rfl
  · intro x hx
    obtain hx | hx := List.mem_append.mp hx
    · exact h.codable x hx
    · rw [List.mem_singleton.mp hx, ← hcoefs]
      exact hcode

/-- What coding leaves as it is. -/
structure SameSetting (e e' : Encoder σ) : Prop where
  layout : e'.layout = e.layout
  statics : e'.statics = e.statics
  mcuLines : e'.mcuLines = e.mcuLines
  mcuYOfs : e'.mcuYOfs = e.mcuYOfs
  passNum : e'.passNum = e.passNum

theorem Scanned.blocks (h : Scanned str o₀ head l e) (hready : Ready quality e.statics)
    {bs : List (ℕ × Block)} (hbs : ∀ b ∈ bs, Samples b.2) :
    Scanned str o₀ head (l ++ bs.map (coefficients quality))
        (bs.foldl (Encoder.codeBlock str) e) ∧
      SameSetting e (bs.foldl (Encoder.codeBlock str) e) := by
  induction bs generalizing l e with
  | nil =>
    rw [List.map_nil, List.append_nil]
    exact ⟨h, rfl, rfl, rfl, rfl, rfl⟩
  | cons b bs ih =>
    have hstep := h.block hready (hbs b List.mem_cons_self)
    obtain ⟨hscan, hsame⟩ := ih hstep hready fun x hx => hbs x (List.mem_cons_of_mem b hx)
    rw [List.append_assoc] at hscan
    exact ⟨hscan, hsame.layout, hsame.statics, hsame.mcuLines, hsame.mcuYOfs, hsame.passNum⟩

end EspMesh.Jpge
