import EspMesh.Library.StepRuns
import EspMesh.Model.CameraSetup

/-! # The sizes that the camera is set up with

For each configuration a filter turns one DMA buffer into just the bytes between two positions in
the frame, and one such piece fits. So nothing is written outside a frame.
-/

namespace EspMesh
set_option autoImplicit false
set_option maxRecDepth 4000
open ByteMem Mem StepRuns CameraDriver CameraConfig

/-- A piece is what a filter makes of one DMA buffer. -/
structure Fits (c : CameraConf) : Prop where
  piece : ∀ src, (c.dmaFilter src c.dmaLength).length = c.bufLen
  header : 4 ≤ c.bufLen
  room : c.bufLen ≤ c.fbSize
  word : c.fbSize < 4294967296

/-! ## Filters -/

theorem filterTurns_length {step k : ℕ} {group : ℕ → List UInt8}
    (h : ∀ i, (group i).length = k) (n i : ℕ) : (filterTurns step group n i).length = n * k := by
  induction n generalizing i with
  | zero => rw [filterTurns, List.length_nil, Nat.zero_mul]
  | succ n ih => rw [filterTurns, List.length_append, h, ih, Nat.succ_mul, Nat.add_comm]

theorem turns_lastSample_length {step k m : ℕ} {group last : ℕ → List UInt8}
    (hgroup : ∀ i, (group i).length = k) (hlast : ∀ i, (last i).length = m) (n i j length : ℕ) :
    (filterTurns step group n i ++ lastSample length j last).length =
      n * k + if length % 8 ≠ 0 then m else 0 := by
  rw [List.length_append, filterTurns_length hgroup]
  unfold lastSample
  split
  · rw [hlast]
  · rfl

section Filters
variable (src : ℕ → DmaElem) (length : ℕ)

theorem dmaFilterJpeg_length : (dmaFilterJpeg src length).length = length / 4 / 4 * 4 := by
  apply filterTurns_length
  exact fun _ => rfl

theorem dmaFilterGrayscale_length :
    (dmaFilterGrayscale src length).length = length / 4 / 4 * 4 := by
  apply filterTurns_length
  exact fun _ => rfl

theorem dmaFilterYuyv_length : (dmaFilterYuyv src length).length = length / 4 / 4 * 8 := by
  apply filterTurns_length
  exact fun _ => rfl

theorem dmaFilterRgb888_length : (dmaFilterRgb888 src length).length = length / 4 / 4 * 12 := by
  apply filterTurns_length
  exact fun _ => rfl

theorem dmaFilterGrayscaleHighspeed_length :
    (dmaFilterGrayscaleHighspeed src length).length =
      length / 4 / 8 * 4 + if length % 8 ≠ 0 then 2 else 0 := by
  apply turns_lastSample_length
  · exact fun _ => rfl
  · exact fun _ => rfl

theorem dmaFilterYuyvHighspeed_length :
    (dmaFilterYuyvHighspeed src length).length =
      length / 4 / 8 * 8 + if length % 8 ≠ 0 then 4 else 0 := by
  apply turns_lastSample_length
  · exact fun _ => rfl
  · exact fun _ => rfl

theorem dmaFilterRgb888Highspeed_length :
    (dmaFilterRgb888Highspeed src length).length =
      length / 4 / 8 * 12 + if length % 8 ≠ 0 then 6 else 0 := by
  apply turns_lastSample_length
  · exact fun _ => rfl
  · exact fun _ => rfl

end Filters

/-! ## Configurations -/

/-- The numbers of a configuration, with the length of a piece as a function of the length of the
buffer. -/
def SizesFit (z : FrameSize) (inBytes perSample fbBytes fbSize : ℕ) (pieceLen : ℕ → ℕ) : Prop :=
  let width := (resolution z).1
  let b := dmaSplit 32 (width * inBytes * perSample, 1)
  pieceLen b.1 = width * fbBytes / b.2 ∧ 4 ≤ width * fbBytes / b.2 ∧
    width * fbBytes / b.2 ≤ fbSize ∧ fbSize < 4294967296

instance (z : FrameSize) (inBytes perSample fbBytes fbSize : ℕ) (pieceLen : ℕ → ℕ) :
    Decidable (SizesFit z inBytes perSample fbBytes fbSize pieceLen) := by
  unfold SizesFit
  infer_instance

theorem fits_of_sizes {s : CameraConfig} {inBytes perSample fbBytes fbSize : ℕ}
    {filter : (ℕ → DmaElem) → ℕ → List UInt8} {pieceLen : ℕ → ℕ}
    (hlen : ∀ src length, (filter src length).length = pieceLen length)
    (h : SizesFit s.frameSize inBytes perSample fbBytes fbSize pieceLen) :
    Fits (s.dmaDescInit inBytes perSample fbBytes fbSize filter) :=
  ⟨fun src => (hlen src _).trans h.1, h.2.1, h.2.2.1, h.2.2.2⟩

theorem sizes_jpeg (z : FrameSize) {ratio : ℕ} (h : ratio = 16 ∨ ratio = 10 ∨ ratio = 4) :
    SizesFit z 2 4 2 ((resolution z).1 * (resolution z).2 * 2 / ratio)
      fun length => length / 4 / 4 * 4 := by
  obtain rfl | rfl | rfl := h <;> cases z <;> decide

theorem compressionRatioBound_cases (s : CameraConfig) :
    s.compressionRatioBound = 16 ∨ s.compressionRatioBound = 10 ∨
      s.compressionRatioBound = 4 := by
  unfold compressionRatioBound
  split
  · exact .inl rfl
  · split
    · exact .inr (.inl rfl)
    · exact .inr (.inr rfl)

theorem sizes_fits {s : CameraConfig} {c : CameraConf} (h : s.sizes = some c) : Fits c := by
  unfold sizes at h
  dsimp only at h
  split at h
  · obtain rfl := Option.some.inj h
    split
    · split
      · apply fits_of_sizes dmaFilterYuyvHighspeed_length
        unfold width height
        cases s.frameSize <;> decide
      · apply fits_of_sizes dmaFilterYuyv_length
        unfold width height
        cases s.frameSize <;> decide
    · split
      · apply fits_of_sizes dmaFilterGrayscaleHighspeed_length
        unfold width height
        cases s.frameSize <;> decide
      · apply fits_of_sizes dmaFilterGrayscale_length
        unfold width height
        cases s.frameSize <;> decide
  iterate 2
    · obtain rfl := Option.some.inj h
      split
      · apply fits_of_sizes dmaFilterYuyvHighspeed_length
        unfold width height
        cases s.frameSize <;> decide
      · apply fits_of_sizes dmaFilterYuyv_length
        unfold width height
        cases s.frameSize <;> decide
  · obtain rfl := Option.some.inj h
    split
    · apply fits_of_sizes dmaFilterRgb888Highspeed_length
      unfold width height
      cases s.frameSize <;> decide
    · apply fits_of_sizes dmaFilterRgb888_length
      unfold width height
      cases s.frameSize <;> decide
  · split at h
    · cases h
    · obtain rfl := Option.some.inj h
      apply fits_of_sizes dmaFilterJpeg_length
      exact sizes_jpeg s.frameSize (compressionRatioBound_cases s)
  · cases h
  · cases h
  · cases h

/-- Every configuration that `camera_init` takes has sizes that fit. -/
theorem cameraInit_fits {s : CameraConfig} {c : CameraConf} (h : s.cameraInit = some c) :
    Fits c :=
  sizes_fits (Option.filter_eq_some_iff.mp h).1

/-! ## Writes -/

def BuffersInside (c : CameraConf) (d : CameraDriver) : Prop :=
  ∀ i, Inside 0 c.fbSize (d.frames i).buf

section Writes
variable {c : CameraConf} {d : CameraDriver}

theorem BuffersInside.setFrame (h : BuffersInside c d) {f : FrameBuffer}
    (hf : Inside 0 c.fbSize f.buf) (i : ℕ) : BuffersInside c (d.setFrame i f) := by
  intro j
  unfold CameraDriver.setFrame
  dsimp only
  by_cases hj : j = i
  · rw [hj, Function.update_self]
    exact hf
  · rw [Function.update_of_ne hj]
    exact h j

theorem BuffersInside.freeFrame (h : BuffersInside c d) (i : ℕ) :
    BuffersInside c (d.freeFrame i) :=
  h.setFrame (f := { d.frames i with ref := false, len := 0 }) (h i) i

theorem BuffersInside.cameraFbDone (h : BuffersInside c d) :
    BuffersInside c (cameraFbDone c d) := by
  unfold CameraDriver.cameraFbDone
  split
  · exact h
  split
  · exact h.setFrame (f := { d.frame with ref := true }) (h d.fb) d.fb
  · exact h

section
variable (hfits : Fits c)
include hfits

theorem emptied_inside {f : FrameBuffer} (h : Inside 0 c.fbSize f.buf) :
    Inside 0 c.fbSize f.emptied.buf := by
  have hheader := hfits.header
  have hroom := hfits.room
  exact (inside_fill 0 c.fbSize 0 4 f.buf 0).mpr ⟨⟨le_refl 0, by omega⟩, h⟩

theorem BuffersInside.dmaFilterBuffer (h : BuffersInside c d) (idx : ℕ) :
    BuffersInside c (dmaFilterBuffer c d idx) := by
  unfold CameraDriver.dmaFilterBuffer
  dsimp only
  split
  · exact h
  · split
    · exact h
    · rename_i hpos
      have hstore : Inside 0 c.fbSize (d.frame.buf.store (d.dmaFilteredCount * c.bufLen)
          (c.dmaFilter (d.dmaBuf idx) c.dmaLength)) := by
        refine (inside_store 0 c.fbSize _ _ _).mpr ⟨⟨Nat.zero_le _, ?_⟩, h d.fb⟩
        have hroom := hfits.room
        have hword := hfits.word
        rw [hfits.piece]
        omega
      split
      · split
        · exact h.setFrame hstore d.fb
        · exact h.setFrame hstore d.fb
      · exact h.setFrame hstore d.fb

theorem BuffersInside.dmaFinishFrame (h : BuffersInside c d) :
    BuffersInside c (dmaFinishFrame c d) := by
  have hstart : ∀ d : CameraDriver, BuffersInside c d →
      BuffersInside c (if c.fbCount = 1 then d.i2sStartBus else d) := by
    intro d hd
    split <;> exact hd
  unfold CameraDriver.dmaFinishFrame
  split
  · split
    · exact hstart _ (h.setFrame (by exact emptied_inside hfits (by exact h d.fb)) d.fb)
    · dsimp only
      split
      · exact (h.setFrame (by exact h d.fb) d.fb).cameraFbDone
      · exact hstart _ (h.setFrame (by exact h d.fb) d.fb)
  · split
    · exact h.cameraFbDone
    · exact h

theorem BuffersInside.advance (h : BuffersInside c d) (fb : ℕ) :
    BuffersInside c (advance c d fb) := by
  unfold CameraDriver.advance
  dsimp only
  generalize nextFree c d fb c.fbCount _ = i
  split
  · exact h
  · exact h.setFrame (by exact emptied_inside hfits (h i)) i

theorem BuffersInside.filterStep (h : BuffersInside c d) : BuffersInside c (filterStep c d) := by
  unfold CameraDriver.filterStep
  split
  · split
    · exact h
    · rename_i idx rest _
      exact BuffersInside.dmaFilterBuffer (d := { d with dataReady := rest }) hfits h idx
    · rename_i rest _
      exact BuffersInside.dmaFinishFrame (d := { d with dataReady := rest }) hfits h
  · exact h
  · split
    · exact h
    · exact h.freeFrame _
  · exact h
  · split
    · exact h.advance hfits _
    · exact h.freeFrame _

end

theorem signalDmaBufReceived_inside (h : BuffersInside c d) :
    BuffersInside c (signalDmaBufReceived c d) := by
  have hsent : ∀ (d : CameraDriver) (item : Option ℕ), BuffersInside c d →
      BuffersInside c (d.dataReadySend item).1 := by
    intro d item h
    unfold dataReadySend
    split <;> exact h
  unfold signalDmaBufReceived
  dsimp only
  split
  · exact h
  · have hqueued := hsent { d with
      dmaDescCur := (d.dmaDescCur + 1) % c.dmaDescCount
      dmaReceivedCount := d.dmaReceivedCount + 1 } (some d.dmaDescCur) h
    split
    · exact hqueued.setFrame (by exact hqueued _) _
    · exact hqueued

theorem i2sStop_inside (h : BuffersInside c d) : BuffersInside c (i2sStop c d) := by
  unfold i2sStop dataReadySend
  dsimp only
  split
  · split <;> exact h
  · split <;> exact h

theorem i2sIsr_inside (h : BuffersInside c d) : BuffersInside c (i2sIsr c d) := by
  have hsignal := signalDmaBufReceived_inside h
  unfold i2sIsr
  dsimp only
  split
  · exact i2sStop_inside hsignal
  · exact hsignal

theorem vsyncIsr_inside (h : BuffersInside c d) : BuffersInside c (vsyncIsr c d) := by
  have hsignal := signalDmaBufReceived_inside h
  have hdone : BuffersInside c (vsyncFrameDone c d) := by
    unfold vsyncFrameDone
    dsimp only
    split
    · split
      · exact i2sStop_inside hsignal
      · exact hsignal
    · exact h
  unfold vsyncIsr
  dsimp only
  split <;> exact hdone

theorem BuffersInside.step (hfits : Fits c) (h : BuffersInside c d) (e : CameraEvent) :
    BuffersInside c (d.step c e) := by
  cases e with
  | filter => exact h.filterStep hfits
  | dma data =>
    unfold CameraDriver.step
    dsimp only
    split
    · exact i2sIsr_inside (d := d.dmaFill data) h
    · exact h
  | vsync data =>
    unfold CameraDriver.step
    dsimp only
    split
    · exact vsyncIsr_inside (d := d.dmaFill data) h
    · exact h
  | call =>
    unfold CameraDriver.step
    dsimp only
    split <;> exact h
  | start =>
    unfold CameraDriver.step
    dsimp only
    split <;> exact h
  | noVsync => exact h
  | get =>
    unfold CameraDriver.step espCameraFbGet
    dsimp only
    split
    · split <;> exact h
    · split <;> exact h
  | timeout => exact i2sStop_inside h
  | giveBack fb =>
    unfold CameraDriver.step espCameraFbReturn
    dsimp only
    split
    · exact h
    · split <;> exact h

end Writes

/-- **Whatever configuration `camera_init` takes, with one frame or more, each filter makes of a DMA
buffer just the bytes between two positions, and no run writes outside a frame.** -/
theorem camera_writes_inside (s : CameraConfig) (es : List CameraEvent) :
    ∀ c ∈ s.cameraInit, (∀ src, (c.dmaFilter src c.dmaLength).length = c.bufLen) ∧
      ∀ i, Inside 0 c.fbSize ((run (step c) c.init es).frames i).buf := by
  intro c hc
  have hfits := cameraInit_fits hc
  refine ⟨hfits.piece, ?_⟩
  apply run_invariant (I := BuffersInside c)
  · intro d e h
    exact h.step hfits e
  · intro i w hw
    exact absurd hw List.not_mem_nil

/-- The configuration of the program, but with one frame buffer. -/
def singleConfig : CameraConfig where
  pid := .ov2640
  xclkFreqHz := 20000000
  pixelFormat := .jpeg
  frameSize := .uxga
  jpegQuality := 10
  fbCount := 1

def startPiece (i : ℕ) : DmaElem := ⟨0, 0, if i = 1 then 0xd8 else 0xff, 0⟩

/-- A picture of three pieces, behind which the bus stops; a user takes the frame and, coming back,
starts the bus again. -/
def singleRun : List CameraEvent :=
  [.dma startPiece, .filter, .dma startPiece, .filter, .vsync startPiece, .filter, .filter, .get,
    .call, .start, .dma startPiece, .filter]

theorem camera_writes_inside_single :
    ∃ c ∈ singleConfig.cameraInit,
      ((run (step c) c.init singleRun).held = [0] ∧
        ((run (step c) c.init singleRun).frames 0).buf.spans =
          [(0, 800), (1600, 800), (800, 800), (0, 800)]) ∧
      (∀ src, (c.dmaFilter src c.dmaLength).length = c.bufLen) ∧
      ∀ i, Inside 0 c.fbSize ((run (step c) c.init singleRun).frames i).buf :=
  ⟨_, rfl, by decide +kernel, camera_writes_inside singleConfig singleRun _ rfl⟩

end EspMesh
