import EspMesh.Proof.JpegOutput
import EspMesh.Proof.JpegScan
import EspMesh.Proof.JpegTiles

/-! # The segments before the scan

Each of the `emit_` functions puts out one segment, and a reader finds in them the size, the
sampling and the tables of the picture.
-/

namespace EspMesh.Jpge
set_option autoImplicit false
open BitString PrefixCode BaselineJpeg

/-! ## What is emitted -/

def jfifBytes : List UInt8 := [0x4a, 0x46, 0x49, 0x46, 0, 1, 1, 0, 0, 1, 0, 1, 0, 0]

def dqtBytes (i : ℕ) (table : List ℤ) : List UInt8 :=
  UInt8.ofNat i :: table.map fun q => UInt8.ofNat q.toNat

def wordBytes (n : ℕ) : List UInt8 := [UInt8.ofNat (n / 256), UInt8.ofNat n]

def sofBytes (g : Layout) : List UInt8 :=
  [(8 : UInt8)] ++ wordBytes g.imageY ++ wordBytes g.imageX ++ [UInt8.ofNat g.numComponents] ++
    (List.range g.numComponents).flatMap fun i =>
      [UInt8.ofNat (i + 1), UInt8.ofNat (g.compHSamp.getD i 0 <<< 4 + g.compVSamp.getD i 0),
        if i > 0 then 1 else 0]

def dhtBytes (bits val : List ℕ) (i : ℕ) : List UInt8 :=
  UInt8.ofNat i :: ((counts bits).map UInt8.ofNat ++ val.map UInt8.ofNat)

def sosBytes (numComponents : ℕ) : List UInt8 :=
  [UInt8.ofNat numComponents] ++
    ((List.range numComponents).flatMap fun i =>
      [UInt8.ofNat (i + 1), if i = 0 then 0 else 0x11]) ++ [0, 63, 0]

theorem dqtBytes_length {table : List ℤ} (h : table.length = 64) (i : ℕ) :
    (dqtBytes i table).length = 65 := by
  rw [dqtBytes, List.length_cons, List.length_map, h]

theorem sofBytes_length {g : Layout} (h : g.numComponents = 1 ∨ g.numComponents = 3) :
    (sofBytes g).length + 2 = 3 * g.numComponents + 2 + 5 + 1 := by
  obtain h | h := h <;> rw [sofBytes, h] <;> rfl

theorem dhtBytes_length (bits val : List ℕ) (i : ℕ) :
    (dhtBytes bits val i).length + 2 = val.length + 2 + 1 + 16 := by
  rw [dhtBytes, List.length_cons, List.length_append, List.length_map, List.length_map, counts,
    List.length_map, List.length_range']
  omega

theorem sosBytes_length {n : ℕ} (h : n = 1 ∨ n = 3) :
    (sosBytes n).length + 2 = 2 * n + 2 + 1 + 3 := by
  obtain h | h := h <;> rw [sosBytes, h] <;> rfl

namespace Output
variable {σ : Type} (str : OutputStream σ) (o : Output σ)

theorem emitByte_eq (b : UInt8) : o.emitByte str b = o.emitBytes str [b] := rfl

theorem emitWord_eq (n : ℕ) : o.emitWord str n = o.emitBytes str (wordBytes n) := rfl

theorem emitMarker_eq (m : UInt8) : o.emitMarker str m = o.emitBytes str [0xff, m] := rfl

theorem foldl_emitBytes (l : List ℕ) (f : ℕ → List UInt8) :
    l.foldl (fun o i => o.emitBytes str (f i)) o = o.emitBytes str (l.flatMap f) := by
  induction l generalizing o with
  | nil => rfl
  | cons i l ih => rw [List.foldl_cons, ih, ← emitBytes_append, List.flatMap_cons]

theorem emitJfifApp0_eq :
    o.emitJfifApp0 str = o.emitBytes str (segmentBytes 0xe0 jfifBytes) := by
  have hbytes : [0xff, 0xe0] ++ wordBytes (2 + 4 + 1 + 2 + 1 + 2 + 2 + 1 + 1) ++
      [0x4a, 0x46, 0x49, 0x46, 0, 1, 1, 0] ++ wordBytes 1 ++ wordBytes 1 ++ [0, 0] =
        segmentBytes 0xe0 jfifBytes := by
    decide
  unfold emitJfifApp0
  dsimp only
  rw [emitMarker_eq, emitWord_eq, emitWord_eq, emitWord_eq, ← hbytes]
  simp only [emitBytes_append]

theorem emitDqt_eq (numComponents : ℕ) (tables : List (List ℤ))
    (h : ∀ i < 2, (tables.getD i []).length = 64) :
    o.emitDqt str numComponents tables =
      o.emitBytes str ((List.range (if numComponents = 3 then 2 else 1)).flatMap fun i =>
        segmentBytes 0xdb (dqtBytes i (tables.getD i []))) := by
  have hle : ∀ i ∈ List.range (if numComponents = 3 then 2 else 1), i < 2 := by
    intro i hi
    have := List.mem_range.mp hi
    split at this <;> omega
  unfold emitDqt
  rw [← foldl_emitBytes]
  apply List.foldl_ext
  intro o' i hi
  have hlen := dqtBytes_length (h i (hle i hi)) i
  have hbytes : segmentBytes 0xdb (dqtBytes i (tables.getD i [])) =
      [0xff, 0xdb] ++ wordBytes (64 + 1 + 2) ++ [UInt8.ofNat i] ++
        (tables.getD i []).map fun q => UInt8.ofNat q.toNat := by
    rw [segmentBytes, hlen]
    rfl
  dsimp only
  rw [emitMarker_eq, emitWord_eq, emitByte_eq, hbytes]
  simp only [emitBytes_append]

theorem emitSof_eq (g : Layout) (h : g.numComponents = 1 ∨ g.numComponents = 3) :
    o.emitSof str g = o.emitBytes str (segmentBytes 0xc0 (sofBytes g)) := by
  have hbytes : segmentBytes 0xc0 (sofBytes g) =
      [0xff, 0xc0] ++ wordBytes (3 * g.numComponents + 2 + 5 + 1) ++ sofBytes g := by
    rw [segmentBytes, sofBytes_length h]
    rfl
  unfold emitSof
  dsimp only
  rw [foldl_emitBytes, emitMarker_eq, emitWord_eq, emitWord_eq, emitWord_eq, emitByte_eq,
    emitByte_eq, hbytes, sofBytes]
  simp only [emitBytes_append]

theorem emitDht_eq {bits val : List ℕ} (h : TableFits bits val) (index : ℕ) (acFlag : Bool) :
    o.emitDht str bits val index acFlag =
      o.emitBytes str (segmentBytes 0xc4 (dhtBytes bits val (index + acFlag.toNat <<< 4))) := by
  have hval : (List.range val.length).map (fun i => UInt8.ofNat (val.getD i 0)) =
      val.map UInt8.ofNat := by
    apply List.ext_getElem (by simp)
    intro i hi hi'
    rw [List.length_map, List.length_range] at hi
    rw [List.getElem_map, List.getElem_map, List.getElem_range, List.getD_eq_getElem _ _ hi]
  have hbytes : segmentBytes 0xc4 (dhtBytes bits val (index + acFlag.toNat <<< 4)) =
      [(0xff : UInt8), 0xc4] ++ wordBytes (val.length + 2 + 1 + 16) ++
        [UInt8.ofNat (index + acFlag.toNat <<< 4)] ++
        ((List.range' 1 16).map fun i => UInt8.ofNat (bits.getD i 0)) ++
          val.map UInt8.ofNat := by
    rw [segmentBytes, dhtBytes_length, dhtBytes, counts, List.map_map]
    rfl
  have hsum : ((List.range' 1 16).map fun i => bits.getD i 0).sum = val.length := h.length.symm
  unfold emitDht
  dsimp only
  rw [hsum, hval, emitMarker_eq, emitWord_eq, emitByte_eq, hbytes]
  simp only [emitBytes_append]

theorem emitSos_eq (n : ℕ) (h : n = 1 ∨ n = 3) :
    o.emitSos str n = o.emitBytes str (segmentBytes 0xda (sosBytes n)) := by
  have hbytes : segmentBytes 0xda (sosBytes n) =
      [0xff, 0xda] ++ wordBytes (2 * n + 2 + 1 + 3) ++ sosBytes n := by
    rw [segmentBytes, sosBytes_length h]
    rfl
  unfold emitSos
  dsimp only
  rw [foldl_emitBytes, emitMarker_eq, emitWord_eq, emitByte_eq, hbytes, sosBytes]
  simp only [emitBytes_append]

end Output

/-! ## What is read -/

theorem toNat_ofNat {n : ℕ} (h : n < 256) : (UInt8.ofNat n).toNat = n := by
  rw [UInt8.toNat_ofNat', Nat.mod_eq_of_lt h]

theorem map_toNat_ofNat {l : List ℕ} (h : ∀ n ∈ l, n < 256) :
    (l.map UInt8.ofNat).map UInt8.toNat = l := by
  rw [List.map_map]
  calc l.map (UInt8.toNat ∘ UInt8.ofNat) = l.map id :=
        List.map_congr_left fun n hn => toNat_ofNat (h n hn)
    _ = l := List.map_id l

theorem readQuant_dqt (h : Head) {i : ℕ} (hi : i < 256) {table : List ℤ}
    (hlen : table.length = 64) (hsteps : ∀ q ∈ table, Step q) :
    h.readQuant (dqtBytes i table) =
      some { h with quant := Function.update h.quant i (table.map Int.toNat) } := by
  have hmap : (table.map fun q => UInt8.ofNat q.toNat).map UInt8.toNat = table.map Int.toNat := by
    rw [List.map_map]
    apply List.map_congr_left
    intro q hq
    have hstep := hsteps q hq
    unfold Step at hstep
    exact toNat_ofNat (by omega)
  rw [dqtBytes, Head.readQuant, if_pos (by rw [List.length_map, hlen]), toNat_ofNat hi, hmap]

theorem readCode_dht (h : Head) {i : ℕ} (hi : i < 256) {bits val : List ℕ}
    (hfits : TableFits bits val) (hcounts : ∀ n ∈ counts bits, n < 256) :
    h.readCode (dhtBytes bits val i) =
      some { h with codes := Function.update h.codes i (words bits val) } := by
  have hlen : ((counts bits).map UInt8.ofNat).length = 16 := by
    rw [List.length_map, counts, List.length_map, List.length_range']
  rw [dhtBytes, Head.readCode, ← hlen, List.take_left, List.drop_left, map_toNat_ofNat hcounts,
    map_toNat_ofNat hfits.byte, if_pos ⟨by rw [List.length_append]; omega, hfits.length⟩,
    toNat_ofNat hi]
  rfl

theorem word_toNat {n : ℕ} (h : n < 65536) :
    (UInt8.ofNat (n / 256)).toNat * 256 + (UInt8.ofNat n).toNat = n := by
  rw [UInt8.toNat_ofNat', UInt8.toNat_ofNat']
  omega

/-- The part of the frame for each component. -/
def frame : Subsampling → List (UInt8 × UInt8 × UInt8)
  | .yOnly => [(1, 0x11, 0)]
  | .h1v1 => [(1, 0x11, 0), (2, 0x11, 1), (3, 0x11, 1)]
  | .h2v1 => [(1, 0x21, 0), (2, 0x11, 1), (3, 0x11, 1)]
  | .h2v2 => [(1, 0x22, 0), (2, 0x11, 1), (3, 0x11, 1)]

variable {g : Layout} {sub : Subsampling}

theorem Sound.frame_length (h : Sound g sub) : g.numComponents = (frame sub).length := by
  rw [h.layout]
  cases sub <;> rfl

theorem readFrame_sof (h : Sound g sub) (hwidth : g.imageX < 65536) (hheight : g.imageY < 65536)
    (hd : Head) :
    hd.readFrame (sofBytes g) =
      some { hd with height := g.imageY, width := g.imageX, frame := frame sub } := by
  have hg := h.layout
  have htail : ((List.range g.numComponents).flatMap fun i => [UInt8.ofNat (i + 1),
      UInt8.ofNat (g.compHSamp.getD i 0 <<< 4 + g.compVSamp.getD i 0), if i > 0 then 1 else 0]) =
        (frame sub).flatMap fun e => [e.1, e.2.1, e.2.2] := by
    rw [hg]
    cases sub <;> rfl
  rw [sofBytes, htail, h.frame_length]
  simp only [wordBytes, List.cons_append, List.nil_append, Head.readFrame, word_toNat hheight,
    word_toNat hwidth]
  cases sub <;> rfl

theorem words_read {bits val : List ℕ} (h : TableFits bits val) {vs : List ℕ}
    (hvs : ∀ v ∈ vs, v ∈ val) (rest : List Bool) :
    decodeMany (words bits val) vs.length
      (vs.flatMap (computeHuffmanTable bits val).word ++ rest) = some (vs, rest) := by
  have hmem : ∀ v ∈ vs, (v, (computeHuffmanTable bits val).word v) ∈ words bits val :=
    fun v hv => (mem_words h (hvs v hv)).1
  generalize (computeHuffmanTable bits val).word = word at hmem
  have hmany := decodeMany_append (words_free h) (l := vs.map fun v => (v, word v))
    (List.forall_mem_map.mpr hmem) rest
  have hsymbols : (vs.map fun v => (v, word v)).map Prod.fst = vs := by
    rw [List.map_map]
    exact List.map_id vs
  rwa [List.length_map, List.flatMap_map, hsymbols] at hmany

/-- **A table's segment says what its words are.** Symbols that are put out one after another are
read again, and ones only are no word. -/
theorem huffman_segment_reads {σ : Type} (str : OutputStream σ) (o : Output σ) {bits val : List ℕ}
    (h : TableFits bits val) (hcounts : ∀ n ∈ counts bits, n < 256) {index : ℕ}
    (hindex : index < 16) (acFlag : Bool) (hd : Head) {vs : List ℕ} (hvs : ∀ v ∈ vs, v ∈ val)
    (rest : List Bool) :
    ∃ p hd', o.emitDht str bits val index acFlag = o.emitBytes str (segmentBytes 0xc4 p) ∧
      hd.read 0xc4 p = some hd' ∧
      decodeMany (hd'.codes (index + 16 * acFlag.toNat)) vs.length
        (vs.flatMap (computeHuffmanTable bits val).word ++ rest) = some (vs, rest) ∧
      ∀ v n, (v, List.replicate n true) ∉ hd'.codes (index + 16 * acFlag.toNat) := by
  have hshift : index + acFlag.toNat <<< 4 = index + 16 * acFlag.toNat := by
    rw [Nat.shiftLeft_eq]
    omega
  have hbyte : index + 16 * acFlag.toNat < 256 := by
    have hflag := Bool.toNat_le acFlag
    omega
  have hemit := Output.emitDht_eq str o h index acFlag
  rw [hshift] at hemit
  refine ⟨_, _, hemit, readCode_dht hd hbyte h hcounts, ?_, ?_⟩
  · dsimp only
    rw [Function.update_self]
    exact words_read h hvs rest
  · intro v n
    dsimp only
    rw [Function.update_self]
    exact words_not_ones h v n

/-- The symbols of the first chrominance table, in the order of `m_huff_val`. -/
theorem huffman_segment_reads_chroma :
    ∃ p hd', Output.emitDht ⟨fun s _ => (s, true)⟩ ⟨(), [], 0, 0, true⟩ dcChromaBits dcChromaVal 1
        false =
          Output.emitBytes ⟨fun s _ => (s, true)⟩ ⟨(), [], 0, 0, true⟩ (segmentBytes 0xc4 p) ∧
      Head.empty.read 0xc4 p = some hd' ∧
      decodeMany (hd'.codes 1) 12
        (dcChromaVal.flatMap (computeHuffmanTable dcChromaBits dcChromaVal).word ++ [true]) =
          some (dcChromaVal, [true]) ∧
      ∀ v n, (v, List.replicate n true) ∉ hd'.codes 1 :=
  huffman_segment_reads _ _ dcChroma_fits (by decide) (by decide) false _ (fun _ hv => hv) _

/-! ## All segments -/

def dqtSegments (quality : ℤ) (n : ℕ) : List (UInt8 × List UInt8) :=
  (List.range (if n = 3 then 2 else 1)).map fun i => (0xdb, dqtBytes i (quantTable quality i))

def dhtSegments (n : ℕ) : List (UInt8 × List UInt8) :=
  [(0xc4, dhtBytes dcLumBits dcLumVal 0), (0xc4, dhtBytes acLumBits acLumVal 16)] ++
    if n = 3 then
      [(0xc4, dhtBytes dcChromaBits dcChromaVal 1), (0xc4, dhtBytes acChromaBits acChromaVal 17)]
    else []

def segments (g : Layout) (quality : ℤ) : List (UInt8 × List UInt8) :=
  [(0xe0, jfifBytes)] ++ dqtSegments quality g.numComponents ++ [(0xc0, sofBytes g)] ++
    dhtSegments g.numComponents

def headBytes (g : Layout) (quality : ℤ) : List UInt8 :=
  [0xff, 0xd8] ++ ((segments g quality).flatMap fun s => segmentBytes s.1 s.2) ++
    segmentBytes 0xda (sosBytes g.numComponents)

/-- The tables after the segments. -/
def headQuant (quality : ℤ) (n : ℕ) : ℕ → List ℕ :=
  let quant := Function.update (fun _ => []) 0 ((quantTable quality 0).map Int.toNat)
  if n = 3 then Function.update quant 1 ((quantTable quality 1).map Int.toNat) else quant

def headCodes (n : ℕ) : ℕ → List (ℕ × List Bool) :=
  let codes := Function.update (Function.update (fun _ => []) 0 (words dcLumBits dcLumVal)) 16
    (words acLumBits acLumVal)
  if n = 3 then
    Function.update (Function.update codes 1 (words dcChromaBits dcChromaVal)) 17
      (words acChromaBits acChromaVal)
  else codes

theorem headCodes_lum (n : ℕ) :
    headCodes n 0 = words dcLumBits dcLumVal ∧ headCodes n 16 = words acLumBits acLumVal := by
  unfold headCodes
  split <;> simp [Function.update]

theorem headCodes_chroma :
    headCodes 3 1 = words dcChromaBits dcChromaVal ∧
      headCodes 3 17 = words acChromaBits acChromaVal := by
  simp [headCodes, Function.update]

theorem read_e0 (h : Head) (p : List UInt8) : h.read 0xe0 p = some h := rfl

theorem read_db (h : Head) (p : List UInt8) : h.read 0xdb p = h.readQuant p := rfl

theorem read_c4 (h : Head) (p : List UInt8) : h.read 0xc4 p = h.readCode p := rfl

theorem read_c0 (h : Head) (p : List UInt8) : h.read 0xc0 p = h.readFrame p := rfl

/-- A reader finds what the encoder has written. -/
theorem readAll_segments (h : Sound g sub) (hwidth : g.imageX < 65536) (hheight : g.imageY < 65536)
    (quality : ℤ) :
    Head.empty.readAll (segments g quality) =
      some { quant := headQuant quality g.numComponents, codes := headCodes g.numComponents
             width := g.imageX, height := g.imageY, frame := frame sub } := by
  have hquant := fun hd i (hi : i < 256) => readQuant_dqt hd hi (quantTable_steps quality i).1
    (quantTable_steps quality i).2
  have hframe := readFrame_sof h hwidth hheight
  have hdc := fun hd => readCode_dht hd (show 0 < 256 by decide) dcLum_fits (by decide)
  have hac := fun hd => readCode_dht hd (show 16 < 256 by decide) acLum_fits (by decide)
  have hdc' := fun hd => readCode_dht hd (show 1 < 256 by decide) dcChroma_fits (by decide)
  have hac' := fun hd => readCode_dht hd (show 17 < 256 by decide) acChroma_fits (by decide)
  obtain hn | hn := h.components
  · rw [segments, hn]
    show Head.readAll _ [(0xe0, jfifBytes), (0xdb, dqtBytes 0 (quantTable quality 0)),
      (0xc0, sofBytes g), (0xc4, dhtBytes dcLumBits dcLumVal 0),
      (0xc4, dhtBytes acLumBits acLumVal 16)] = _
    simp only [Head.readAll, read_e0, read_db, read_c0, read_c4, hquant _ 0 (by decide), hframe,
      hdc, hac]
    rfl
  · rw [segments, hn]
    show Head.readAll _ [(0xe0, jfifBytes), (0xdb, dqtBytes 0 (quantTable quality 0)),
      (0xdb, dqtBytes 1 (quantTable quality 1)), (0xc0, sofBytes g),
      (0xc4, dhtBytes dcLumBits dcLumVal 0), (0xc4, dhtBytes acLumBits acLumVal 16),
      (0xc4, dhtBytes dcChromaBits dcChromaVal 1),
      (0xc4, dhtBytes acChromaBits acChromaVal 17)] = _
    simp only [Head.readAll, read_e0, read_db, read_c0, read_c4, hquant _ 0 (by decide),
      hquant _ 1 (by decide), hframe, hdc, hac, hdc', hac']
    rfl

/-- The components of a picture, with their quantisation tables. -/
def components (quality : ℤ) (sub : Subsampling) : List Component :=
  (frame sub).map fun e =>
    { hSamp := e.2.1.toNat / 16, vSamp := e.2.1.toNat % 16
      quant := (quantTable quality e.2.2.toNat).map Int.toNat }

end EspMesh.Jpge
