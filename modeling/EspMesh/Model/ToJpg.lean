import EspMesh.Model.CameraDriver
import EspMesh.Model.JpegEncoder
import EspMesh.Model.Yuv

/-! # `to_jpg.cpp`

A frame is read as memory from `src` on.
-/

namespace EspMesh.Jpge
set_option autoImplicit false

/-! ## Lines -/

/-- `dst` is what the line held before. -/
def convertLineFormat (src : ℕ → UInt8) (format : PixFormat) (dst : List UInt8)
    (width line : ℕ) : List UInt8 :=
  match format with
  | .grayscale => (List.range width).map fun i => src (line * width + i)
  | .rgb888 =>
    let l := width * 3
    (List.range width).flatMap fun n =>
      let i := l * line + 3 * n
      [src (i + 2), src (i + 1), src i]
  | .rgb565 =>
    let l := width * 2
    (List.range width).flatMap fun n =>
      let i := l * line + 2 * n
      [src i &&& 0xf8, (src i &&& 0x07) <<< 5 ||| (src (i + 1) &&& 0xe0) >>> 3,
        (src (i + 1) &&& 0x1f) <<< 3]
  | .yuv422 =>
    let l := width * 2
    (List.range ((l + 3) / 4)).flatMap fun n =>
      let i := l * line + 4 * n
      yuv2rgb (src i) (src (i + 1)) (src (i + 3)) ++
        yuv2rgb (src (i + 2)) (src (i + 1)) (src (i + 3))
  | _ => dst

/-! ## Pictures -/

/-- Whether memory is there for the lines of the encoder and for a scan line, and what it holds. -/
structure Mallocs where
  mcuLines : Option McuLines
  line : Option (List UInt8)

def encodeParams (format : PixFormat) (quality : ℕ) : Params :=
  { quality := if quality = 0 then 1 else if quality > 100 then 100 else quality
    subsampling := if format = .grayscale then .yOnly else .h2v2 }

def numChannels (format : PixFormat) : ℕ := if format = .grayscale then 1 else 3

variable {σ : Type} (str : OutputStream σ)

/-- The calls of `process_scanline`, until one returns `false`. -/
def processLines : List (Option (List UInt8)) → Encoder σ → Encoder σ × Bool
  | [], e => (e, true)
  | l :: ls, e =>
    match e.processScanline str l with
    | (e, true) => processLines ls e
    | (e, false) => (e, false)

/-- The scan lines of a picture, one after another in the same memory. -/
def scanLines (src : ℕ → UInt8) (format : PixFormat) (width height : ℕ) (line : List UInt8) :
    List (List UInt8) :=
  (List.range height).map fun i => convertLineFormat src format line width i

structure ConvertResult (σ : Type) where
  statics : Statics
  stream : σ
  ok : Bool

def convertImage (s : Statics) (src : ℕ → UInt8) (width height : ℕ) (format : PixFormat)
    (quality : ℕ) (stream : σ) (m : Mallocs) : ConvertResult σ :=
  let r := init str s stream width height (numChannels format) (encodeParams format quality)
    m.mcuLines
  match r.encoder, m.line with
  | some e, some line =>
    let lines := (scanLines src format width height line).map some ++ [none]
    let o := processLines str lines e
    { statics := r.statics, stream := o.1.out.stream, ok := o.2 }
  | _, _ => { statics := r.statics, stream := r.stream, ok := false }

/-! ## Streams -/

/-- `memory_stream`; `outBuf` is the memory up to `index`. -/
structure MemoryStream where
  outBuf : List UInt8
  maxLen : ℕ

def memoryStream : OutputStream MemoryStream where
  putBuf s data :=
    match data with
    | none => (s, true)
    | some buf =>
      let len := if buf.length > s.maxLen - s.outBuf.length then s.maxLen - s.outBuf.length
        else buf.length
      ({ s with outBuf := s.outBuf ++ buf.take len }, true)

/-- `callback_stream`; `ocb` returns a length, which is added to `index`. -/
def callbackStream {τ : Type} (ocb : τ → ℕ → Option (List UInt8) → τ × ℕ) :
    OutputStream (τ × ℕ) where
  putBuf s data :=
    let r := ocb s.1 s.2 data
    ((r.1, s.2 + r.2), true)

def fmt2jpgCb {τ : Type} (ocb : τ → ℕ → Option (List UInt8) → τ × ℕ) (arg : τ) (s : Statics)
    (src : ℕ → UInt8) (width height : ℕ) (format : PixFormat) (quality : ℕ) (m : Mallocs) :
    ConvertResult (τ × ℕ) :=
  convertImage (callbackStream ocb) s src width height format quality (arg, 0) m

@[simp] def jpgBufLen : ℕ := 64 * 1024

/-- The static arrays afterwards, and the picture when `true` is returned; `jpgBuf` tells whether
there is memory for it. -/
def fmt2jpg (s : Statics) (src : ℕ → UInt8) (width height : ℕ) (format : PixFormat) (quality : ℕ)
    (jpgBuf : Bool) (m : Mallocs) : Statics × Option (List UInt8) :=
  if jpgBuf then
    let r := convertImage memoryStream s src width height format quality
      { outBuf := [], maxLen := jpgBufLen } m
    (r.statics, if r.ok then some r.stream.outBuf else none)
  else (s, none)

/-! ## The response of `capture_handler` -/

/-- `jpg_chunking_t`, the request with the chunks that were given to `httpd_resp_send_chunk`. -/
structure JpgChunking where
  chunks : List (Option (List UInt8))
  len : ℕ

/-- `sendOk n` is whether chunk `n` of the request is sent. -/
def jpgEncodeStream (sendOk : ℕ → Bool) (j : JpgChunking) (index : ℕ)
    (data : Option (List UInt8)) : JpgChunking × ℕ :=
  let len := (data.getD []).length
  let j := if index = 0 then { j with len := 0 } else j
  let sent := sendOk j.chunks.length
  let j := { j with chunks := j.chunks ++ [data] }
  if !sent then (j, 0) else ({ j with len := j.len + len }, len)

/-- What `capture_handler` does with a frame that is no JPEG, and whether `res` is `ESP_OK`. -/
def captureJpg (sendOk : ℕ → Bool) (s : Statics) (src : ℕ → UInt8) (width height : ℕ)
    (format : PixFormat) (m : Mallocs) : JpgChunking × Bool :=
  let r := fmt2jpgCb (jpgEncodeStream sendOk) { chunks := [], len := 0 } s src width height format
    80 m
  let j := r.stream.1
  ({ j with chunks := j.chunks ++ [none] }, r.ok)

end EspMesh.Jpge
