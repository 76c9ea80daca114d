import Mathlib.Logic.Function.Basic
import EspMesh.Model.JpegCoder

/-! # `jpge.cpp`: the encoder

An encoder that `jpg_open` has set up. The lines of a row of units are numbered from zero, whatever
memory they lie in.
-/

namespace EspMesh.Jpge
set_option autoImplicit false

/-! ## Parameters -/

/-- `subsampling_t`. -/
inductive Subsampling
  | yOnly | h1v1 | h2v1 | h2v2
  deriving DecidableEq, Repr

structure Params where
  quality : ℤ
  subsampling : Subsampling

/-- `m_subsampling` is never above `H2V2`. -/
def Params.check (p : Params) : Bool := !(decide (p.quality < 1) || decide (p.quality > 100))

/-- What `jpg_open` sets once for a picture. -/
structure Layout where
  numComponents : ℕ
  compHSamp : List ℕ
  compVSamp : List ℕ
  mcuX : ℕ
  mcuY : ℕ
  imageX : ℕ
  imageY : ℕ
  imageBpp : ℕ

namespace Layout

def ofSubsampling (imageX imageY imageBpp : ℕ) : Subsampling → Layout
  | .yOnly =>
    { numComponents := 1, compHSamp := [1], compVSamp := [1], mcuX := 8, mcuY := 8
      imageX, imageY, imageBpp }
  | .h1v1 =>
    { numComponents := 3, compHSamp := [1, 1, 1], compVSamp := [1, 1, 1], mcuX := 8, mcuY := 8
      imageX, imageY, imageBpp }
  | .h2v1 =>
    { numComponents := 3, compHSamp := [2, 1, 1], compVSamp := [1, 1, 1], mcuX := 16, mcuY := 8
      imageX, imageY, imageBpp }
  | .h2v2 =>
    { numComponents := 3, compHSamp := [2, 1, 1], compVSamp := [2, 1, 1], mcuX := 16, mcuY := 16
      imageX, imageY, imageBpp }

variable (g : Layout)

/-- `(m_image_x + m_mcu_x - 1) & (~(m_mcu_x - 1))`; `m_mcu_x` is a power of two. -/
def imageXMcu : ℕ := (g.imageX + g.mcuX - 1) / g.mcuX * g.mcuX

def imageBplXlt : ℕ := g.imageX * g.numComponents

def imageBplMcu : ℕ := g.imageXMcu * g.numComponents

def mcusPerRow : ℕ := g.imageXMcu / g.mcuX

end Layout

/-! ## Static arrays -/

/-- The static arrays of the encoder, those for Huffman codes in their order of two for the first
coefficient and two for the others. -/
structure Statics where
  lastQuality : ℤ
  quantizationTables : List (List ℤ)
  huffInitialized : Bool
  huff : List HuffTable
  huffBits : List (List ℕ)
  huffVal : List (List ℕ)

/-- Before the first picture. -/
def Statics.start : Statics :=
  { lastQuality := 0
    quantizationTables := List.replicate 2 (List.replicate 64 0)
    huffInitialized := false
    huff := List.replicate 4 { codes := List.replicate 256 0, codeSizes := List.replicate 256 0 }
    huffBits := List.replicate 4 (List.replicate 17 0)
    huffVal := List.replicate 4 (List.replicate 256 0) }

def Statics.loadQuality (s : Statics) (quality : ℤ) : Statics :=
  if s.lastQuality ≠ quality then
    { s with
      lastQuality := quality
      quantizationTables :=
        [computeQuantTable quality stdLumQuant, computeQuantTable quality stdCromaQuant] }
  else s

/-- What is behind the symbols in a row of `m_huff_val` is never read. -/
def Statics.loadHuffman (s : Statics) : Statics :=
  if s.huffInitialized then s
  else
    { s with
      huffInitialized := true
      huff := [computeHuffmanTable dcLumBits dcLumVal, computeHuffmanTable dcChromaBits dcChromaVal,
        computeHuffmanTable acLumBits acLumVal, computeHuffmanTable acChromaBits acChromaVal]
      huffBits := [dcLumBits, dcChromaBits, acLumBits, acChromaBits]
      huffVal := [dcLumVal, dcChromaVal, acLumVal, acChromaVal] }

def Statics.table (s : Statics) (i : ℕ) : HuffTable :=
  s.huff.getD i { codes := [], codeSizes := [] }

/-! ## Headers -/

namespace Output
variable {σ : Type} (str : OutputStream σ) (o : Output σ)

def emitJfifApp0 : Output σ :=
  let o := o.emitMarker str 0xe0
  let o := o.emitWord str (2 + 4 + 1 + 2 + 1 + 2 + 2 + 1 + 1)
  let o := o.emitBytes str [0x4a, 0x46, 0x49, 0x46, 0, 1, 1, 0]
  let o := o.emitWord str 1
  let o := o.emitWord str 1
  o.emitBytes str [0, 0]

def emitDqt (numComponents : ℕ) (quantizationTables : List (List ℤ)) : Output σ :=
  (List.range (if numComponents = 3 then 2 else 1)).foldl (fun o i =>
    let o := o.emitMarker str 0xdb
    let o := o.emitWord str (64 + 1 + 2)
    let o := o.emitByte str (UInt8.ofNat i)
    o.emitBytes str ((quantizationTables.getD i []).map fun q => UInt8.ofNat q.toNat)) o

def emitSof (g : Layout) : Output σ :=
  let o := o.emitMarker str 0xc0
  let o := o.emitWord str (3 * g.numComponents + 2 + 5 + 1)
  let o := o.emitByte str 8
  let o := o.emitWord str g.imageY
  let o := o.emitWord str g.imageX
  let o := o.emitByte str (UInt8.ofNat g.numComponents)
  (List.range g.numComponents).foldl (fun o i =>
    o.emitBytes str [UInt8.ofNat (i + 1),
      UInt8.ofNat (g.compHSamp.getD i 0 <<< 4 + g.compVSamp.getD i 0),
      if i > 0 then 1 else 0]) o

def emitDht (bits val : List ℕ) (index : ℕ) (acFlag : Bool) : Output σ :=
  let o := o.emitMarker str 0xc4
  let length := ((List.range' 1 16).map fun i => bits.getD i 0).sum
  let o := o.emitWord str (length + 2 + 1 + 16)
  let o := o.emitByte str (UInt8.ofNat (index + acFlag.toNat <<< 4))
  let o := o.emitBytes str ((List.range' 1 16).map fun i => UInt8.ofNat (bits.getD i 0))
  o.emitBytes str ((List.range length).map fun i => UInt8.ofNat (val.getD i 0))

def emitDhts (numComponents : ℕ) (bits val : List (List ℕ)) : Output σ :=
  let o := o.emitDht str (bits.getD 0 []) (val.getD 0 []) 0 false
  let o := o.emitDht str (bits.getD 2 []) (val.getD 2 []) 0 true
  if numComponents = 3 then
    let o := o.emitDht str (bits.getD 1 []) (val.getD 1 []) 1 false
    o.emitDht str (bits.getD 3 []) (val.getD 3 []) 1 true
  else o

def emitSos (numComponents : ℕ) : Output σ :=
  let o := o.emitMarker str 0xda
  let o := o.emitWord str (2 * numComponents + 2 + 1 + 3)
  let o := o.emitByte str (UInt8.ofNat numComponents)
  let o := (List.range numComponents).foldl (fun o i =>
    o.emitBytes str [UInt8.ofNat (i + 1), if i = 0 then 0 else 0x11]) o
  o.emitBytes str [0, 63, 0]

end Output

/-! ## Samples -/

/-- `m_mcu_lines`. -/
abbrev McuLines := ℕ → List UInt8

def sample (lines : McuLines) (i k : ℕ) : ℤ := ((lines i).getD k 0).toNat

def loadBlock88Grey (lines : McuLines) (x : ℕ) : Block :=
  fun i j => sample lines i (x * 8 + j) - 128

def loadBlock88 (lines : McuLines) (x y c : ℕ) : Block :=
  let x := x * (8 * 3) + c
  fun i j => sample lines (y * 8 + i) (x + j * 3) - 128

/-- The roundings `a` and `b` change places with each row. -/
def loadBlock168 (lines : McuLines) (x c : ℕ) : Block :=
  let x := x * (16 * 3) + c
  fun i j =>
    let r := if (i.val + j.val) % 2 = 0 then 0 else 2
    (sample lines (2 * i) (x + 2 * j * 3) + sample lines (2 * i) (x + (2 * j + 1) * 3) +
      sample lines (2 * i + 1) (x + 2 * j * 3) + sample lines (2 * i + 1) (x + (2 * j + 1) * 3) +
      r) / 4 - 128

def loadBlock1688 (lines : McuLines) (x c : ℕ) : Block :=
  let x := x * (16 * 3) + c
  fun i j => (sample lines i (x + 2 * j * 3) + sample lines i (x + (2 * j + 1) * 3)) / 2 - 128

def clamp (i : ℤ) : UInt8 := UInt8.ofNat (if i < 0 then 0 else if i > 255 then 255 else i).toNat

def luminance (r g b : ℤ) : UInt8 :=
  UInt8.ofNat ((r * 19595 + g * 38470 + b * 7471 + 32768) / 65536).toNat

def rgbToYcc (src : List UInt8) (numPixels : ℕ) : List UInt8 :=
  (List.range numPixels).flatMap fun i =>
    let r : ℤ := (src.getD (3 * i) 0).toNat
    let g : ℤ := (src.getD (3 * i + 1) 0).toNat
    let b : ℤ := (src.getD (3 * i + 2) 0).toNat
    [luminance r g b, clamp (128 + (r * -11059 + g * -21709 + b * 32768 + 32768) / 65536),
      clamp (128 + (r * 32768 + g * -27439 + b * -5329 + 32768) / 65536)]

def rgbToY (src : List UInt8) (numPixels : ℕ) : List UInt8 :=
  (List.range numPixels).map fun i =>
    luminance (src.getD (3 * i) 0).toNat (src.getD (3 * i + 1) 0).toNat
      (src.getD (3 * i + 2) 0).toNat

def yToYcc (src : List UInt8) (numPixels : ℕ) : List UInt8 :=
  (List.range numPixels).flatMap fun i => [src.getD i 0, 128, 128]

/-! ## The encoder -/

structure Encoder (σ : Type) where
  layout : Layout
  statics : Statics
  mcuLines : McuLines
  mcuYOfs : ℕ
  lastDcVal : ℕ → ℤ
  out : Output σ
  passNum : ℕ

namespace Encoder
variable {σ : Type} (str : OutputStream σ) (e : Encoder σ)

def codeCoefficientsPassTwo (c : ℕ) (coefs : List ℤ) : Encoder σ :=
  let k := if c = 0 then 0 else 1
  let dc := coefs.headD 0
  let o := e.out.codeDc str (e.statics.table k) (dc - e.lastDcVal c)
  { e with
    lastDcVal := Function.update e.lastDcVal c dc
    out := o.codeAc str (e.statics.table (2 + k)) coefs.tail 0 }

def codeBlock (b : ℕ × Block) : Encoder σ :=
  let table := e.statics.quantizationTables.getD (if b.1 > 0 then 1 else 0) []
  e.codeCoefficientsPassTwo str b.1 (loadQuantizedCoefficients table (dct2d b.2))

/-- The components and samples of the blocks of unit `i`, in the order in which they are loaded and
coded. -/
def unitBlocks (g : Layout) (lines : McuLines) (i : ℕ) : List (ℕ × Block) :=
  let h := g.compHSamp.getD 0 0
  let v := g.compVSamp.getD 0 0
  if g.numComponents = 1 then [(0, loadBlock88Grey lines i)]
  else if h = 1 ∧ v = 1 then
    [(0, loadBlock88 lines i 0 0), (1, loadBlock88 lines i 0 1), (2, loadBlock88 lines i 0 2)]
  else if h = 2 ∧ v = 1 then
    [(0, loadBlock88 lines (i * 2) 0 0), (0, loadBlock88 lines (i * 2 + 1) 0 0),
      (1, loadBlock1688 lines i 1), (2, loadBlock1688 lines i 2)]
  else if h = 2 ∧ v = 2 then
    [(0, loadBlock88 lines (i * 2) 0 0), (0, loadBlock88 lines (i * 2 + 1) 0 0),
      (0, loadBlock88 lines (i * 2) 1 0), (0, loadBlock88 lines (i * 2 + 1) 1 0),
      (1, loadBlock168 lines i 1), (2, loadBlock168 lines i 2)]
  else []

def processMcuRow : Encoder σ :=
  ((List.range e.layout.mcusPerRow).flatMap (unitBlocks e.layout e.mcuLines)).foldl
    (codeBlock str) e

/-- `pDst` behind the conversion. -/
def convertLine (g : Layout) (src : List UInt8) : List UInt8 :=
  if g.numComponents = 1 then
    if g.imageBpp = 3 then rgbToY src g.imageX else src.take g.imageX
  else if g.imageBpp = 3 then rgbToYcc src g.imageX else yToYcc src g.imageX

/-- The line and the copies of its last pixel that fill it up. -/
def mcuLine (g : Layout) (src : List UInt8) : List UInt8 :=
  let dst := convertLine g src
  let last := g.imageBplXlt
  let pixel := if g.numComponents = 1 then [dst.getD (last - 1) 0]
    else [dst.getD (last - 3) 0, dst.getD (last - 2) 0, dst.getD (last - 1) 0]
  dst ++ (List.replicate (g.imageXMcu - g.imageX) pixel).flatten

def loadMcu (src : List UInt8) : Encoder σ :=
  let e := { e with
    mcuLines := Function.update e.mcuLines e.mcuYOfs (mcuLine e.layout src)
    mcuYOfs := e.mcuYOfs + 1 }
  if e.mcuYOfs = e.layout.mcuY then { e.processMcuRow str with mcuYOfs := 0 } else e

def processEndOfImage : Encoder σ :=
  let e := if e.mcuYOfs ≠ 0 then
    let lines := fun i => if e.mcuYOfs ≤ i ∧ i < e.layout.mcuY then e.mcuLines (e.mcuYOfs - 1)
      else e.mcuLines i
    { e with mcuLines := lines }.processMcuRow str else e
  let o := e.out.putBits str 0x7f 7
  let o := o.emitMarker str 0xd9
  let o := o.flushOutputBuffer str
  { e with out := o.write str none, passNum := e.passNum + 1 }

/-- `none` is the call with `NULL` behind the last line. -/
def processScanline (line : Option (List UInt8)) : Encoder σ × Bool :=
  if e.passNum < 1 ∨ e.passNum > 2 then (e, false)
  else
    let e := if e.out.allStreamWritesSucceeded then
      match line with
      | none => e.processEndOfImage str
      | some src => e.loadMcu str src
      else e
    (e, e.out.allStreamWritesSucceeded)

end Encoder

/-- What `init` leaves behind: the static arrays, the stream, and the encoder when it has returned
`true`. -/
structure InitResult (σ : Type) where
  statics : Statics
  stream : σ
  encoder : Option (Encoder σ)

variable {σ : Type} (str : OutputStream σ)

/-- `malloc` is what the lines hold, or `none`. -/
def jpgOpen (s : Statics) (stream : σ) (width height srcChannels : ℕ) (p : Params)
    (malloc : Option McuLines) : InitResult σ :=
  match malloc with
  | none => { statics := s, stream := stream, encoder := none }
  | some lines =>
    let g := Layout.ofSubsampling width height srcChannels p.subsampling
    let s := (s.loadQuality p.quality).loadHuffman
    let o : Output σ :=
      { stream := stream, outBuf := [], bitBuffer := 0, bitsIn := 0
        allStreamWritesSucceeded := true }
    let o := o.emitMarker str 0xd8
    let o := o.emitJfifApp0 str
    let o := o.emitDqt str g.numComponents s.quantizationTables
    let o := o.emitSof str g
    let o := o.emitDhts str g.numComponents s.huffBits s.huffVal
    let o := o.emitSos str g.numComponents
    { statics := s
      stream := o.stream
      encoder := if o.allStreamWritesSucceeded then
        some { layout := g, statics := s, mcuLines := lines, mcuYOfs := 0
               lastDcVal := fun _ => 0, out := o, passNum := 2 }
        else none }

def init (s : Statics) (stream : σ) (width height srcChannels : ℕ) (p : Params)
    (malloc : Option McuLines) : InitResult σ :=
  if width < 1 ∨ height < 1 ∨ (srcChannels ≠ 1 ∧ srcChannels ≠ 3 ∧ srcChannels ≠ 4) ∨
      p.check = false then
    { statics := s, stream := stream, encoder := none }
  else jpgOpen str s stream width height srcChannels p malloc

end EspMesh.Jpge
