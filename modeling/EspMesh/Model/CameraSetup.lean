import EspMesh.Model.CameraDriver

/-! # `camera_init`: the sizes and the filter

The part of `camera_init` and `dma_desc_init` that computes with numbers. Each descriptor has the
length of its buffer: `SM_0A0B_0B0C`, which would make some shorter, is never chosen.
-/

namespace EspMesh
set_option autoImplicit false

/-! ## The other filters -/

def dmaFilterGrayscale (src : ℕ → DmaElem) (length : ℕ) : List UInt8 :=
  filterTurns 4 (fun i => [(src i).sample1, (src (i + 1)).sample1, (src (i + 2)).sample1,
    (src (i + 3)).sample1]) (length / 4 / 4) 0

/-- `dma_desc->length & 0x7` is tested behind the loop, with `src` at element `i`. -/
def lastSample (length i : ℕ) (group : ℕ → List UInt8) : List UInt8 :=
  if length % 8 ≠ 0 then group i else []

def dmaFilterGrayscaleHighspeed (src : ℕ → DmaElem) (length : ℕ) : List UInt8 :=
  let end_ := length / 4 / 8
  filterTurns 8 (fun i => [(src i).sample1, (src (i + 2)).sample1, (src (i + 4)).sample1,
    (src (i + 6)).sample1]) end_ 0 ++
  lastSample length (8 * end_) fun i => [(src i).sample1, (src (i + 2)).sample1]

/-- The two samples of an element. -/
def DmaElem.both (e : DmaElem) : List UInt8 := [e.sample1, e.sample2]

def dmaFilterYuyv (src : ℕ → DmaElem) (length : ℕ) : List UInt8 :=
  filterTurns 4 (fun i => (src i).both ++ (src (i + 1)).both ++ (src (i + 2)).both ++
    (src (i + 3)).both) (length / 4 / 4) 0

def dmaFilterYuyvHighspeed (src : ℕ → DmaElem) (length : ℕ) : List UInt8 :=
  let end_ := length / 4 / 8
  filterTurns 8 (fun i => [(src i).sample1, (src (i + 1)).sample1, (src (i + 2)).sample1,
    (src (i + 3)).sample1, (src (i + 4)).sample1, (src (i + 5)).sample1, (src (i + 6)).sample1,
    (src (i + 7)).sample1]) end_ 0 ++
  lastSample length (8 * end_) fun i =>
    [(src i).sample1, (src (i + 1)).sample1, (src (i + 2)).sample1, (src (i + 2)).sample2]

def rgb888 (hb lb : UInt8) : List UInt8 :=
  [(lb &&& 0x1f) <<< 3, (hb &&& 0x07) <<< 5 ||| (lb &&& 0xe0) >>> 3, hb &&& 0xf8]

def DmaElem.rgb888 (e : DmaElem) : List UInt8 := EspMesh.rgb888 e.sample1 e.sample2

def dmaFilterRgb888 (src : ℕ → DmaElem) (length : ℕ) : List UInt8 :=
  filterTurns 4 (fun i => (src i).rgb888 ++ (src (i + 1)).rgb888 ++ (src (i + 2)).rgb888 ++
    (src (i + 3)).rgb888) (length / 4 / 4) 0

def dmaFilterRgb888Highspeed (src : ℕ → DmaElem) (length : ℕ) : List UInt8 :=
  let end_ := length / 4 / 8
  let pixel := fun i => rgb888 (src i).sample1 (src (i + 1)).sample1
  filterTurns 8 (fun i => pixel i ++ pixel (i + 2) ++ pixel (i + 4) ++ pixel (i + 6)) end_ 0 ++
  lastSample length (8 * end_) fun i => pixel i ++ (src (i + 2)).rgb888

/-! ## The configuration -/

/-- The sensors that `camera_probe` knows. -/
inductive SensorPid
  | ov2640 | ov7725 | ov3660
  deriving DecidableEq

/-- `framesize_t` without `FRAMESIZE_INVALID`. -/
inductive FrameSize
  | qqvga | qqvga2 | qcif | hqvga | qvga | cif | vga | svga | xga | sxga | uxga | qxga

def resolution : FrameSize → ℕ × ℕ
  | .qqvga => (160, 120)
  | .qqvga2 => (128, 160)
  | .qcif => (176, 144)
  | .hqvga => (240, 176)
  | .qvga => (320, 240)
  | .cif => (400, 296)
  | .vga => (640, 480)
  | .svga => (800, 600)
  | .xga => (1024, 768)
  | .sxga => (1280, 1024)
  | .uxga => (1600, 1200)
  | .qxga => (2048, 1536)

/-- The fields of `camera_config_t` that are used here, and the sensor that was found. -/
structure CameraConfig where
  pid : SensorPid
  xclkFreqHz : ℕ
  pixelFormat : PixFormat
  frameSize : FrameSize
  jpegQuality : ℤ
  fbCount : ℕ

namespace CameraConfig
variable (s : CameraConfig)

def width : ℕ := (resolution s.frameSize).1

def height : ℕ := (resolution s.frameSize).2

def isHsMode : Bool := decide (s.xclkFreqHz > 10000000)

def compressionRatioBound : ℕ :=
  if s.jpegQuality > 10 then 16 else if s.jpegQuality > 5 then 10 else 4

/-- The loop of `dma_desc_init` over `buf_size` and `dma_per_line`, with at most `n` turns. -/
def dmaSplit : ℕ → ℕ × ℕ → ℕ × ℕ
  | 0, b => b
  | n + 1, b => if b.1 ≥ 4096 then dmaSplit n (b.1 / 2, b.2 * 2) else b

/-- With `SM_0A00_0B00` a sample is four bytes, with `SM_0A0B_0C0D` two. -/
def dmaDescInit (inBytesPerPixel bytesPerSample fbBytesPerPixel fbSize : ℕ)
    (dmaFilter : (ℕ → DmaElem) → ℕ → List UInt8) : CameraConf :=
  let b := dmaSplit 32 (s.width * inBytesPerPixel * bytesPerSample, 1)
  { fbCount := s.fbCount
    fbSize := fbSize
    pixelFormat := s.pixelFormat
    width := s.width
    height := s.height
    fbBytesPerPixel := fbBytesPerPixel
    dmaPerLine := b.2
    dmaDescCount := b.2 * 4
    dmaLength := b.1
    dmaFilter := dmaFilter
    resolution := resolution s.frameSize }

/-- The sizes and the filter, with `dma_desc_init`. -/
def sizes : Option CameraConf :=
  let pixels := s.width * s.height
  match s.pixelFormat with
  | .grayscale => some <|
    if s.pid = .ov3660 then
      if s.isHsMode then s.dmaDescInit 1 4 1 pixels dmaFilterYuyvHighspeed
      else s.dmaDescInit 1 2 1 pixels dmaFilterYuyv
    else if s.isHsMode && s.pid != .ov7725 then
      s.dmaDescInit 2 4 1 pixels dmaFilterGrayscaleHighspeed
    else s.dmaDescInit 2 2 1 pixels dmaFilterGrayscale
  | .yuv422 | .rgb565 => some <|
    if s.isHsMode && s.pid != .ov7725 then
      s.dmaDescInit 2 4 2 (pixels * 2) dmaFilterYuyvHighspeed
    else s.dmaDescInit 2 2 2 (pixels * 2) dmaFilterYuyv
  | .rgb888 => some <|
    if s.isHsMode then s.dmaDescInit 2 4 3 (pixels * 3) dmaFilterRgb888Highspeed
    else s.dmaDescInit 2 2 3 (pixels * 3) dmaFilterRgb888
  | .jpeg =>
    if s.pid ≠ .ov2640 ∧ s.pid ≠ .ov3660 then none
    else some (s.dmaDescInit 2 4 2 (pixels * 2 / s.compressionRatioBound) dmaFilterJpeg)
  | .raw | .rgb444 | .rgb555 => none

/-- `none` is `ESP_ERR_NOT_SUPPORTED`, or `ESP_ERR_INVALID_ARG` of `camera_fb_init`. -/
def cameraInit : Option CameraConf := s.sizes.filter fun c => c.fbCount != 0

end CameraConfig

end EspMesh
