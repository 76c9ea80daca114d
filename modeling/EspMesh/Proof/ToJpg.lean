import EspMesh.Proof.JpegAccuracy
import EspMesh.Proof.JpegEncode

/-! # Pictures and their files

**The file of a picture is read as the picture**, whatever pictures came before. The caller has all
of it when it has at most 64 KiB.
-/

namespace EspMesh.Jpge
set_option autoImplicit false
open BitString PrefixCode BaselineJpeg

variable {σ : Type} {str : OutputStream σ} {g : Layout} {sub : Subsampling} {quality : ℤ}

/-! ## The start -/

theorem emitDhts_eq {s : Statics} (h : HuffReady s) (o : Output σ) (n : ℕ) :
    o.emitDhts str n s.huffBits s.huffVal =
      o.emitBytes str ((dhtSegments n).flatMap fun s => segmentBytes s.1 s.2) := by
  have hdc : ∀ o : Output σ, o.emitDht str dcLumBits dcLumVal 0 false =
      o.emitBytes str (segmentBytes 0xc4 (dhtBytes dcLumBits dcLumVal 0)) := fun o =>
    o.emitDht_eq str dcLum_fits 0 false
  have hac : ∀ o : Output σ, o.emitDht str acLumBits acLumVal 0 true =
      o.emitBytes str (segmentBytes 0xc4 (dhtBytes acLumBits acLumVal 16)) := fun o =>
    o.emitDht_eq str acLum_fits 0 true
  have hdc' : ∀ o : Output σ, o.emitDht str dcChromaBits dcChromaVal 1 false =
      o.emitBytes str (segmentBytes 0xc4 (dhtBytes dcChromaBits dcChromaVal 1)) := fun o =>
    o.emitDht_eq str dcChroma_fits 1 false
  have hac' : ∀ o : Output σ, o.emitDht str acChromaBits acChromaVal 1 true =
      o.emitBytes str (segmentBytes 0xc4 (dhtBytes acChromaBits acChromaVal 17)) := fun o =>
    o.emitDht_eq str acChroma_fits 1 true
  unfold Output.emitDhts dhtSegments
  rw [h.bits, h.val]
  simp only [List.getD_cons_zero, List.getD_cons_succ, hdc, hac, hdc', hac']
  split <;> simp only [List.flatMap_append, List.flatMap_cons, List.flatMap_nil,
    Output.emitBytes_append, List.append_nil]

/-- The bytes of the segments. -/
theorem emit_head (str : OutputStream σ) {s : Statics} (hready : Ready quality s)
    (hg : Sound g sub) (o : Output σ) :
    ((((((o.emitMarker str 0xd8).emitJfifApp0 str).emitDqt str g.numComponents
        s.quantizationTables).emitSof str g).emitDhts str g.numComponents s.huffBits
          s.huffVal).emitSos str g.numComponents) =
      o.emitBytes str (headBytes g quality) := by
  have htable : ∀ i < 2, s.quantizationTables.getD i [] = quantTable quality i := by
    intro i hi
    rw [hready.quant]
    obtain rfl | rfl : i = 0 ∨ i = 1 := by omega
    · rfl
    · rfl
  have hlen : ∀ i < 2, (s.quantizationTables.getD i []).length = 64 := by
    intro i hi
    rw [htable i hi]
    exact (quantTable_steps quality i).1
  have hdqt : ((List.range (if g.numComponents = 3 then 2 else 1)).flatMap fun i =>
      segmentBytes 0xdb (dqtBytes i (s.quantizationTables.getD i []))) =
        (dqtSegments quality g.numComponents).flatMap fun s => segmentBytes s.1 s.2 := by
    rw [dqtSegments, List.flatMap_map]
    apply List.flatMap_congr
    intro i hi
    have hi := List.mem_range.mp hi
    rw [htable i (by split at hi <;> omega)]
  rw [emitDhts_eq hready.huff, Output.emitMarker_eq, Output.emitJfifApp0_eq,
    Output.emitDqt_eq _ _ _ _ hlen, Output.emitSof_eq _ _ _ hg.components,
    Output.emitSos_eq _ _ _ hg.components, hdqt, headBytes, segments]
  simp only [List.flatMap_append, List.flatMap_cons, List.flatMap_nil, List.append_nil,
    Output.emitBytes_append]

theorem sound_ofSubsampling {width height channels : ℕ} (hwidth : 0 < width)
    (hheight : 0 < height) (hchannels : 0 < channels) (sub : Subsampling) :
    Sound (Layout.ofSubsampling width height channels sub) sub := by
  cases sub <;> exact ⟨rfl, hwidth, hheight, hchannels⟩

/-- The encoder behind the segments. -/
def startEncoder (g : Layout) (s : Statics) (lines : McuLines) (o : Output σ) : Encoder σ :=
  { layout := g, statics := s, mcuLines := lines, mcuYOfs := 0, lastDcVal := fun _ => 0
    out := o, passNum := 2 }

theorem emitted_head (str : OutputStream σ) (stream : σ) (l : List UInt8) :
    Emitted str (startOutput stream) l ((startOutput stream).emitBytes str l) :=
  (Emitted.refl (startOutput stream)).bytes l

theorem jpgOpen_eq (hacc : Accepts str) {s : Statics} (hs : Kept s) (stream : σ)
    {width height channels : ℕ} {p : Params} (hq : p.quality ≠ 0)
    (hg : Sound (Layout.ofSubsampling width height channels p.subsampling) p.subsampling)
    (lines : McuLines) :
    let g := Layout.ofSubsampling width height channels p.subsampling
    let s' := (s.loadQuality p.quality).loadHuffman
    let o := (startOutput stream).emitBytes str (headBytes g p.quality)
    jpgOpen str s stream width height channels p (some lines) =
      { statics := s', stream := o.stream, encoder := some (startEncoder g s' lines o) } := by
  intro g s' o
  have hout := emit_head str (hs.load hq).1 hg (startOutput stream)
  have hok := (emitted_head str stream (headBytes g p.quality)).ok hacc
  have hstart : ({ stream := stream, outBuf := [], bitBuffer := 0, bitsIn := 0
                   allStreamWritesSucceeded := true } : Output σ) = startOutput stream := rfl
  unfold jpgOpen
  dsimp only
  rw [hstart, hout, if_pos hok]
  rfl

theorem loaded_start (str : OutputStream σ) (g : Layout) (sub : Subsampling) (stream : σ)
    {s : Statics} (hready : Ready quality s) (lines : McuLines) (src : ℕ → List UInt8)
    (head : List UInt8) :
    Loaded str (startOutput stream) head g sub src quality 0
      (startEncoder g s lines ((startOutput stream).emitBytes str head)) := by
  obtain ⟨hbuffer, hbits⟩ := Output.emitBytes_bits str (startOutput stream) head
  have hcoding : Coding str (startOutput stream) head []
      ((startOutput stream).emitBytes str head) :=
    Coding.start (emitted_head str stream head) hbuffer hbits
  have hdiv : 0 / g.mcuY = 0 := Nat.zero_div _
  have hmod : 0 % g.mcuY = 0 := Nat.zero_mod _
  constructor
  · rw [hdiv]
    exact ⟨rfl, hready, rfl, ⟨hcoding, rfl, fun x hx => absurd hx List.not_mem_nil⟩⟩
  · rw [hmod]
    rfl
  · intro i hi
    omega

/-! ## The lines -/

theorem Loaded.scan (hacc : Accepts str) (hg : Sound g sub) {src : ℕ → List UInt8}
    (hsrc : Lines g src) {s : σ} {head : List UInt8} {k : ℕ} (hk : k < g.imageY) {e : Encoder σ}
    (h : Loaded str (startOutput s) head g sub src quality k e) :
    e.processScanline str (some (src k)) = (e.loadMcu str (src k), true) := by
  have hpass := h.rows.pass
  have hok := h.rows.scanned.out.ok hacc
  have hnext := (h.line hg hsrc hk).rows.scanned.out.ok hacc
  unfold Encoder.processScanline
  rw [if_neg (by omega), if_pos hok]
  dsimp only
  rw [hnext]

theorem Loaded.run (hacc : Accepts str) (hg : Sound g sub) {src : ℕ → List UInt8}
    (hsrc : Lines g src) {s : σ} {head : List UInt8} (rest : List (Option (List UInt8))) (n : ℕ)
    {k : ℕ} (hk : k + n ≤ g.imageY) {e : Encoder σ}
    (h : Loaded str (startOutput s) head g sub src quality k e) :
    ∃ e', Loaded str (startOutput s) head g sub src quality (k + n) e' ∧
      processLines str ((List.range' k n).map (fun i => some (src i)) ++ rest) e =
        processLines str rest e' := by
  induction n generalizing k e with
  | zero => exact ⟨e, h, rfl⟩
  | succ n ih =>
    have hscan := h.scan hacc hg hsrc (by omega)
    obtain ⟨e', hloaded, hrun⟩ := ih (by omega) (h.line hg hsrc (by omega))
    refine ⟨e', ?_, ?_⟩
    · rwa [Nat.add_assoc, Nat.add_comm 1 n] at hloaded
    · rw [List.range'_succ, List.map_cons, List.cons_append, processLines, hscan]
      exact hrun

/-! ## Pictures -/

/-- The formats that have a conversion; two pixels of `PIXFORMAT_YUV422` are one group. -/
def Convertible (width : ℕ) : PixFormat → Prop
  | .grayscale | .rgb888 | .rgb565 => True
  | .yuv422 => 2 ∣ width
  | _ => False

instance (width : ℕ) : (format : PixFormat) → Decidable (Convertible width format)
  | .grayscale | .rgb888 | .rgb565 => inferInstanceAs (Decidable True)
  | .yuv422 => inferInstanceAs (Decidable (2 ∣ width))
  | .jpeg | .raw | .rgb444 | .rgb555 => inferInstanceAs (Decidable False)

theorem convertLineFormat_length {src : ℕ → UInt8} {format : PixFormat} {width : ℕ}
    (h : Convertible width format) (dst : List UInt8) (line : ℕ) :
    (convertLineFormat src format dst width line).length = width * numChannels format := by
  cases format with
  | grayscale => simp [convertLineFormat, numChannels]
  | rgb888 => exact flatMap_range_length _ _ _ fun _ => rfl
  | rgb565 => exact flatMap_range_length _ _ _ fun _ => rfl
  | yuv422 =>
    obtain ⟨n, rfl⟩ : 2 ∣ width := h
    have hgroups : (2 * n * 2 + 3) / 4 = n := by omega
    have hlen := flatMap_range_length (fun n' =>
      yuv2rgb (src (2 * n * 2 * line + 4 * n')) (src (2 * n * 2 * line + 4 * n' + 1))
          (src (2 * n * 2 * line + 4 * n' + 3)) ++
        yuv2rgb (src (2 * n * 2 * line + 4 * n' + 2)) (src (2 * n * 2 * line + 4 * n' + 1))
          (src (2 * n * 2 * line + 4 * n' + 3))) n 6 fun _ => rfl
    rw [convertLineFormat, hgroups]
    dsimp only
    rw [hlen, numChannels, if_neg (by decide)]
    omega
  | _ => exact False.elim h

theorem convertLineFormat_dst {src : ℕ → UInt8} {format : PixFormat} {width : ℕ}
    (h : Convertible width format) (dst dst' : List UInt8) (line : ℕ) :
    convertLineFormat src format dst width line = convertLineFormat src format dst' width line := by
  cases format with
  | grayscale | rgb888 | rgb565 | yuv422 => rfl
  | _ => exact False.elim h

/-- A frame as the encoder sees it. -/
def frameLayout (format : PixFormat) (width height : ℕ) : Layout :=
  Layout.ofSubsampling width height (numChannels format) (encodeParams format 0).subsampling

/-- What a reader is to find in the file of a frame. -/
def framePicture (src : ℕ → UInt8) (width height : ℕ) (format : PixFormat) (quality : ℕ) :
    Picture :=
  encodedPicture (frameLayout format width height) (encodeParams format quality).subsampling
    (convertLineFormat src format [] width) (encodeParams format quality).quality

theorem encodeParams_quality (format : PixFormat) (quality : ℕ) :
    1 ≤ (encodeParams format quality).quality ∧ (encodeParams format quality).quality ≤ 100 := by
  unfold encodeParams
  dsimp only
  omega

theorem encodeParams_check (format : PixFormat) (quality : ℕ) :
    (encodeParams format quality).check = true := by
  have h := encodeParams_quality format quality
  rw [Params.check, decide_eq_false (by omega), decide_eq_false (by omega)]
  rfl

theorem numChannels_cases (format : PixFormat) :
    numChannels format = 1 ∨ numChannels format = 3 := by
  unfold numChannels
  split
  · exact Or.inl rfl
  · exact Or.inr rfl

theorem init_eq (s : Statics) (stream : σ) {width height : ℕ} (hwidth : 0 < width)
    (hheight : 0 < height) (format : PixFormat) (quality : ℕ) (malloc : Option McuLines) :
    init str s stream width height (numChannels format) (encodeParams format quality) malloc =
      jpgOpen str s stream width height (numChannels format) (encodeParams format quality)
        malloc := by
  have hchannels := numChannels_cases format
  have hcheck := encodeParams_check format quality
  rw [init, if_neg]
  intro h
  obtain h | h | h | h := h
  · omega
  · omega
  · omega
  · rw [hcheck] at h
    exact Bool.noConfusion h

theorem frameLayout_size (format : PixFormat) (width height : ℕ) :
    (frameLayout format width height).imageX = width ∧
      (frameLayout format width height).imageY = height ∧
      (frameLayout format width height).imageBpp = numChannels format := by
  unfold frameLayout
  cases (encodeParams format 0).subsampling <;> exact ⟨rfl, rfl, rfl⟩

theorem frameLayout_eq (format : PixFormat) (width height quality : ℕ) :
    Layout.ofSubsampling width height (numChannels format)
        (encodeParams format quality).subsampling = frameLayout format width height := rfl

/-- The scan lines of a frame. -/
theorem processLines_file (hacc : Accepts str) {sub : Subsampling} {e : Encoder σ}
    (hg : Sound g sub) {src : ℕ → List UInt8} (hsrc : Lines g src) (hwidth : g.imageX < 65536)
    (hheight : g.imageY < 65536) {stream : σ}
    (h : Loaded str (startOutput stream) (headBytes g quality) g sub src quality 0 e) :
    ∃ file e', BaselineJpeg.read file = some (encodedPicture g sub src quality) ∧
      processLines str ((List.range g.imageY).map (fun i => some (src i)) ++ [none]) e =
        (e', true) ∧ e'.out.stream = sendFile str stream file := by
  obtain ⟨e₁, hloaded, hrun⟩ := h.run hacc hg hsrc [none] g.imageY (by omega)
  rw [Nat.zero_add] at hloaded
  obtain ⟨file, hread, hok, hstream⟩ := hloaded.finish hacc hg hsrc hwidth hheight
  refine ⟨file, (e₁.processScanline str none).1, hread, ?_, hstream⟩
  rw [List.range_eq_range', hrun, processLines]
  generalize e₁.processScanline str none = r at hok
  obtain ⟨e', ok⟩ := r
  obtain rfl : ok = true := hok
  rfl

theorem convertImage_file (hacc : Accepts str) {s : Statics} (hs : Kept s) (src : ℕ → UInt8)
    {width height : ℕ} (hwidth : 0 < width ∧ width < 65536)
    (hheight : 0 < height ∧ height < 65536) {format : PixFormat}
    (hformat : Convertible width format) (quality : ℕ) (stream : σ) (lines : McuLines)
    (line : List UInt8) :
    let r := convertImage str s src width height format quality stream ⟨some lines, some line⟩
    ∃ file, BaselineJpeg.read file = some (framePicture src width height format quality) ∧
      r.ok = true ∧ r.stream = sendFile str stream file := by
  have hchannels : 0 < numChannels format := by
    obtain h | h := numChannels_cases format <;> omega
  have hquality : (encodeParams format quality).quality ≠ 0 := by
    have h := encodeParams_quality format quality
    omega
  have hg : Sound (frameLayout format width height) (encodeParams format quality).subsampling :=
    sound_ofSubsampling hwidth.1 hheight.1 hchannels (encodeParams format quality).subsampling
  obtain ⟨hX, hY, hbpp⟩ := frameLayout_size format width height
  have hsrc : Lines (frameLayout format width height)
      (convertLineFormat src format [] width) := by
    intro y _
    rw [hX, hbpp]
    exact convertLineFormat_length hformat [] y
  have hstart := loaded_start str (frameLayout format width height)
    (encodeParams format quality).subsampling stream (hs.load hquality).1 lines
    (convertLineFormat src format [] width)
    (headBytes (frameLayout format width height) (encodeParams format quality).quality)
  obtain ⟨file, e', hread, hlines, hstream⟩ := processLines_file hacc hg hsrc
    (by rw [hX]; exact hwidth.2) (by rw [hY]; exact hheight.2) hstart
  have hscan : (scanLines src format width height line).map some =
      (List.range height).map fun i => some (convertLineFormat src format [] width i) := by
    rw [scanLines, List.map_map]
    apply List.map_congr_left
    intro i _
    exact congrArg some (convertLineFormat_dst hformat line [] i)
  have hopen := jpgOpen_eq hacc hs stream hquality hg lines
  rw [hY] at hlines
  intro r
  have hr : r = { statics := (s.loadQuality (encodeParams format quality).quality).loadHuffman
                  stream := e'.out.stream, ok := true } := by
    show convertImage _ _ _ _ _ _ _ _ _ = _
    unfold convertImage
    dsimp only
    rw [init_eq s stream hwidth.1 hheight.1, hopen]
    dsimp only
    rw [hscan, frameLayout_eq, hlines]
  refine ⟨file, hread, ?_, ?_⟩
  · rw [hr]
  · rw [hr]
    exact hstream

theorem convertImage_fails {σ : Type} (str : OutputStream σ) (s : Statics) (src : ℕ → UInt8)
    (width height : ℕ) (format : PixFormat) (quality : ℕ) (stream : σ) {m : Mallocs}
    (h : m.mcuLines = none ∨ m.line = none) :
    (convertImage str s src width height format quality stream m).ok = false := by
  unfold convertImage
  dsimp only
  split
  · next hencoder hline =>
    obtain hnone | hnone := h
    · rw [hnone, init] at hencoder
      split at hencoder <;> cases hencoder
    · rw [hnone] at hline
      cases hline
  · rfl

theorem fmt2jpg_file {s : Statics} (hs : Kept s) (src : ℕ → UInt8) {width height : ℕ}
    (hwidth : 0 < width ∧ width < 65536) (hheight : 0 < height ∧ height < 65536)
    {format : PixFormat} (hformat : Convertible width format) (quality : ℕ) (lines : McuLines)
    (line : List UInt8) :
    ∃ file, BaselineJpeg.read file = some (framePicture src width height format quality) ∧
      (fmt2jpg s src width height format quality true ⟨some lines, some line⟩).2 =
        some (file.take jpgBufLen) := by
  obtain ⟨file, hread, hok, hstream⟩ := convertImage_file memoryStream_accepts hs src hwidth
    hheight hformat quality { outBuf := [], maxLen := jpgBufLen } lines line
  refine ⟨file, hread, ?_⟩
  unfold fmt2jpg
  dsimp only
  rw [if_pos rfl, if_pos hok, hstream, memoryStream_file]

/-! ## Pictures before -/

theorem Kept.convert {s : Statics} (hs : Kept s) (src : ℕ → UInt8) (width height : ℕ)
    (format : PixFormat) (quality : ℕ) (stream : σ) (m : Mallocs) :
    Kept (convertImage str s src width height format quality stream m).statics := by
  have hstatics : (convertImage str s src width height format quality stream m).statics =
      (init str s stream width height (numChannels format) (encodeParams format quality)
        m.mcuLines).statics := by
    unfold convertImage
    dsimp only
    split <;> rfl
  have hquality : (encodeParams format quality).quality ≠ 0 := by
    have h := encodeParams_quality format quality
    omega
  rw [hstatics, init]
  split
  · exact hs
  · unfold jpgOpen
    split
    · exact hs
    · exact (hs.load hquality).2

theorem Kept.fmt2jpg {s : Statics} (hs : Kept s) (src : ℕ → UInt8) (width height : ℕ)
    (format : PixFormat) (quality : ℕ) (jpgBuf : Bool) (m : Mallocs) :
    Kept (fmt2jpg s src width height format quality jpgBuf m).1 := by
  unfold Jpge.fmt2jpg
  split
  · exact hs.convert src width height format quality _ m
  · exact hs

/-- What the static arrays may hold: pictures of any kind were encoded, or were not. -/
inductive Called : Statics → Prop
  | start : Called Statics.start
  | fmt2jpg {s : Statics} (h : Called s) (src : ℕ → UInt8) (width height : ℕ) (format : PixFormat)
      (quality : ℕ) (jpgBuf : Bool) (m : Mallocs) :
      Called (fmt2jpg s src width height format quality jpgBuf m).1
  | fmt2jpgCb {s : Statics} (h : Called s) {τ : Type}
      (ocb : τ → ℕ → Option (List UInt8) → τ × ℕ) (arg : τ) (src : ℕ → UInt8) (width height : ℕ)
      (format : PixFormat) (quality : ℕ) (m : Mallocs) :
      Called (fmt2jpgCb ocb arg s src width height format quality m).statics

theorem Called.kept {s : Statics} (h : Called s) : Kept s := by
  induction h with
  | start => exact kept_start
  | fmt2jpg _ src width height format quality jpgBuf m ih =>
    exact ih.fmt2jpg src width height format quality jpgBuf m
  | fmt2jpgCb _ ocb arg src width height format quality m ih =>
    exact ih.convert src width height format quality _ m

/-! ## Samples -/

/-- The blocks of samples of a frame, in the order of the scan. -/
def frameBlocks (src : ℕ → UInt8) (width height : ℕ) (format : PixFormat) : List (ℕ × Block) :=
  rowBlocks (frameLayout format width height) (encodeParams format 0).subsampling
    (convertLineFormat src format [] width) (unitRows (frameLayout format width height))

theorem components_quant (quality : ℤ) (sub : Subsampling) {c : ℕ} (hc : c ∈ unitComponents sub) :
    ((components quality sub).getD c ⟨0, 0, []⟩).quant = (quantTable quality c).map Int.toNat := by
  have hcolour : quantTable quality 2 = quantTable quality 1 := rfl
  cases sub with
  | yOnly =>
    rw [List.mem_singleton.mp hc]
    rfl
  | h1v1 | h2v1 | h2v2 =>
    have hcases : c = 0 ∨ c = 1 ∨ c = 2 := by
      simp only [unitComponents, List.mem_cons, List.not_mem_nil, or_false] at hc
      omega
    obtain rfl | rfl | rfl := hcases
    · rfl
    · rfl
    · rw [hcolour]
      rfl

theorem pictureUnit_component (f : ℕ → ℕ → ℕ → ℤ) (m r : ℕ) (sub : Subsampling) :
    ∀ b ∈ pictureUnit f m r sub, b.1 ∈ unitComponents sub := by
  intro b hb
  have hunit : (pictureUnit f m r sub).map Prod.fst = unitComponents sub := by
    cases sub <;> rfl
  rw [← hunit]
  exact List.mem_map_of_mem hb

/-! ## Main results -/

/-- **The file of a picture is read as the picture.** -/
theorem jpg_file_reads {s : Statics} (hs : Called s) (src : ℕ → UInt8) {width height : ℕ}
    (hwidth : 0 < width ∧ width < 65536) (hheight : 0 < height ∧ height < 65536)
    {format : PixFormat} (hformat : Convertible width format) (quality : ℕ) (lines : McuLines)
    (line : List UInt8) :
    ∃ file, BaselineJpeg.read file = some (framePicture src width height format quality) ∧
      (fmt2jpg s src width height format quality true ⟨some lines, some line⟩).2 =
        some (file.take jpgBufLen) := by
  exact fmt2jpg_file hs.kept src hwidth hheight hformat quality lines line

/-- Two pixels, behind a picture of another quality for which there was no scan line. -/
theorem jpg_file_reads_pair :
    ∃ file, BaselineJpeg.read file =
        some (framePicture (fun i => UInt8.ofNat (40 * i)) 2 1 .yuv422 80) ∧
      (fmt2jpg (fmt2jpg Statics.start (fun _ => 0) 1 1 .rgb565 12 true ⟨some fun _ => [], none⟩).1
        (fun i => UInt8.ofNat (40 * i)) 2 1 .yuv422 80 true
        ⟨some fun _ => [], some [0, 0, 0, 0, 0, 0]⟩).2 = some (file.take jpgBufLen) :=
  jpg_file_reads (Called.start.fmt2jpg _ 1 1 _ 12 true _) _ (by decide) (by decide) (by decide) 80
    _ _

/-- **The restored samples are near those of the frame**, block by block. -/
theorem jpg_samples_near (src : ℕ → UInt8) (width height : ℕ) (format : PixFormat) (quality : ℕ) :
    let q := (encodeParams format quality).quality
    let picture := framePicture src width height format quality
    List.Forall₂ (fun b x => x.1 = b.1 ∧
        CosineTransform.energy (restored (picture.components.getD b.1 ⟨0, 0, []⟩).quant x.2 -
          samples b.2) ≤ ((quantTable q b.1).map fun s : ℤ => ((s : ℝ) / 2 + 1) ^ 2).sum)
      (frameBlocks src width height format) picture.blocks := by
  intro q picture
  have hblocks : picture.blocks = (frameBlocks src width height format).map (coefficients q) := rfl
  rw [hblocks, List.forall₂_map_right_iff, List.forall₂_same]
  intro b hb
  obtain ⟨r, -, hb⟩ := List.mem_flatMap.mp hb
  obtain ⟨m, -, hb⟩ := List.mem_flatMap.mp hb
  have hsamples := pictureUnit_samples (plane_range _ _) m r _ b hb
  have hquant : (picture.components.getD b.1 ⟨0, 0, []⟩).quant =
      (quantTable q b.1).map Int.toNat :=
    components_quant q _ (pictureUnit_component _ m r _ b hb)
  obtain ⟨hlen, hsteps⟩ := quantTable_steps q b.1
  rw [hquant]
  exact ⟨rfl, restored_near hsamples hlen hsteps⟩

/-- **The response is the file**, in chunks of at most 512 bytes, and ends twice. A chunk that is
not sent is missed by nobody; memory that is not there is. -/
theorem capture_response {s : Statics} (hs : Called s) (src : ℕ → UInt8) {width height : ℕ}
    (hwidth : 0 < width ∧ width < 65536) (hheight : 0 < height ∧ height < 65536)
    {format : PixFormat} (hformat : Convertible width format) (lines : McuLines)
    (line : List UInt8) (sendOk : ℕ → Bool) :
    ∃ pieces : List (List UInt8),
      BaselineJpeg.read pieces.flatten = some (framePicture src width height format 80) ∧
      (∀ c ∈ pieces, c ≠ [] ∧ c.length ≤ outBufSize) ∧
      captureJpg sendOk s src width height format ⟨some lines, some line⟩ =
        (⟨pieces.map some ++ [none, none], sentLength sendOk pieces 0⟩, true) ∧
      ∀ m : Mallocs, m.mcuLines = none ∨ m.line = none →
        (captureJpg sendOk s src width height format m).2 = false := by
  have hacc := callbackStream_accepts (jpgEncodeStream sendOk)
  obtain ⟨file, hread, hok, hstream⟩ := convertImage_file hacc hs.kept src hwidth hheight hformat
    80 (⟨[], 0⟩, 0) lines line
  obtain ⟨pieces, hfile, hsize, hsend⟩ := sendFile_pieces hacc (⟨[], 0⟩, 0) file
  refine ⟨pieces, ?_, hsize, ?_, fun m hm => convertImage_fails _ _ _ _ _ _ _ _ hm⟩
  · rw [hfile]
    exact hread
  · have hpieces := encodeStream_pieces sendOk pieces [] 0
    have hlast := jpgEncodeStream_eq sendOk ([] ++ pieces.map some)
      (0 + sentLength sendOk pieces 0) none
    rw [List.length_nil] at hpieces
    rw [hpieces] at hsend
    unfold captureJpg fmt2jpgCb
    dsimp only
    rw [hok, hstream, hsend]
    unfold callbackStream
    dsimp only
    rw [hlast, Option.getD_none, List.length_nil, ite_self, Nat.zero_add, List.nil_append,
      Nat.add_zero, List.append_assoc]
    rfl

/-- The first chunk of the response is lost. -/
theorem capture_response_grey :
    ∃ pieces : List (List UInt8),
      BaselineJpeg.read pieces.flatten =
        some (framePicture (fun i => UInt8.ofNat (7 * i)) 160 120 .grayscale 80) ∧
      (∀ c ∈ pieces, c ≠ [] ∧ c.length ≤ outBufSize) ∧
      captureJpg (fun n => n != 0) Statics.start (fun i => UInt8.ofNat (7 * i)) 160 120 .grayscale
          ⟨some fun _ => [], some []⟩ =
        (⟨pieces.map some ++ [none, none], sentLength (fun n => n != 0) pieces 0⟩, true) ∧
      ∀ m : Mallocs, m.mcuLines = none ∨ m.line = none →
        (captureJpg (fun n => n != 0) Statics.start (fun i => UInt8.ofNat (7 * i)) 160 120
          .grayscale m).2 = false :=
  capture_response Called.start _ (by decide) (by decide) (by decide) _ _ _

end EspMesh.Jpge
