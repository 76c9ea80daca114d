import Mathlib.Algebra.Group.Int.Defs
import Mathlib.Algebra.GroupWithZero.Nat
import Mathlib.Data.Fin.VecNotation
import EspMesh.Model.JpegTables

/-! # `jpge.cpp`: transform, quantisation and entropy coding

A `uint` that is never near its bounds is a natural number. The transform computes in `int32`, and
takes its factors as `int16`. The static arrays of the encoder are state that stays between two
pictures.
-/

namespace EspMesh.Jpge
set_option autoImplicit false

/-! ## Transform -/

def i16 (x : ℤ) : ℤ := Int.bmod x (2 ^ 16)

def i32 (x : ℤ) : ℤ := Int.bmod x (2 ^ 32)

scoped instance rowNeZero : NeZero 8 := ⟨Nat.succ_ne_zero 7⟩

/-- `m_sample_array`, by row and column. -/
abbrev Block := Fin 8 → Fin 8 → ℤ

def dctDescale (x : ℤ) (n : ℕ) : ℤ := i32 (x + 2 ^ (n - 1)) / 2 ^ n

def dctMul (var c : ℤ) : ℤ := i32 (i16 var * c)

def dct1d (s : Fin 8 → ℤ) : Fin 8 → ℤ :=
  let t0 := i32 (s 0 + s 7)
  let t7 := i32 (s 0 - s 7)
  let t1 := i32 (s 1 + s 6)
  let t6 := i32 (s 1 - s 6)
  let t2 := i32 (s 2 + s 5)
  let t5 := i32 (s 2 - s 5)
  let t3 := i32 (s 3 + s 4)
  let t4 := i32 (s 3 - s 4)
  let t10 := i32 (t0 + t3)
  let t13 := i32 (t0 - t3)
  let t11 := i32 (t1 + t2)
  let t12 := i32 (t1 - t2)
  let u1 := dctMul (i32 (t12 + t13)) 4433
  let s2 := i32 (u1 + dctMul t13 6270)
  let s6 := i32 (u1 + dctMul t12 (-15137))
  let u1 := i32 (t4 + t7)
  let u2 := i32 (t5 + t6)
  let u3 := i32 (t4 + t6)
  let u4 := i32 (t5 + t7)
  let z5 := dctMul (i32 (u3 + u4)) 9633
  let t4 := dctMul t4 2446
  let t5 := dctMul t5 16819
  let t6 := dctMul t6 25172
  let t7 := dctMul t7 12299
  let u1 := dctMul u1 (-7373)
  let u2 := dctMul u2 (-20995)
  let u3 := dctMul u3 (-16069)
  let u4 := dctMul u4 (-3196)
  let u3 := i32 (u3 + z5)
  let u4 := i32 (u4 + z5)
  ![i32 (t10 + t11), i32 (i32 (t7 + u1) + u4), s2, i32 (i32 (t6 + u2) + u3), i32 (t10 - t11),
    i32 (i32 (t5 + u2) + u4), s6, i32 (i32 (t4 + u1) + u3)]

/-- Outputs 0 and 4 carry no constant. -/
def dctRow (s : Fin 8 → ℤ) : Fin 8 → ℤ :=
  let d := dct1d s
  ![i32 (d 0 * 2 ^ 2), dctDescale (d 1) 11, dctDescale (d 2) 11, dctDescale (d 3) 11,
    i32 (d 4 * 2 ^ 2), dctDescale (d 5) 11, dctDescale (d 6) 11, dctDescale (d 7) 11]

def dctColumn (s : Fin 8 → ℤ) : Fin 8 → ℤ :=
  let d := dct1d s
  ![dctDescale (d 0) 5, dctDescale (d 1) 18, dctDescale (d 2) 18, dctDescale (d 3) 18,
    dctDescale (d 4) 5, dctDescale (d 5) 18, dctDescale (d 6) 18, dctDescale (d 7) 18]

def dct2d (p : Block) : Block :=
  let q := fun i => dctRow (p i)
  fun i j => dctColumn (fun k => q k j) i

/-! ## Quantisation -/

def quantize (j q : ℤ) : ℤ :=
  if j < 0 then
    let j := i32 (-j + q / 2)
    if j < q then 0 else i16 (-(j / q))
  else
    let j := i32 (j + q / 2)
    if j < q then 0 else i16 (j / q)

/-- `m_coefficient_array`. -/
def loadQuantizedCoefficients (table : List ℤ) (p : Block) : List ℤ :=
  (zag.zip table).map fun e => quantize (p (Fin.ofNat 8 (e.1 / 8)) (Fin.ofNat 8 (e.1 % 8))) e.2

def computeQuantTable (quality : ℤ) (src : List ℤ) : List ℤ :=
  let q := if quality < 50 then 5000 / quality else 200 - quality * 2
  src.map fun j => min (max ((j * q + 50) / 100) 1) 255

/-! ## Huffman tables -/

/-- A row of `m_huff_codes` and of `m_huff_code_sizes`. -/
structure HuffTable where
  codes : List ℕ
  codeSizes : List ℕ

def huffSize (bits : List ℕ) : List ℕ :=
  (List.range' 1 16).flatMap fun l => List.replicate (bits.getD l 0) l

/-- `while (huff_size[p] == si)`: the codes, the rest of `huff_size` and `code`. -/
def codesOfSize (si : ℕ) : List ℕ → ℕ → List ℕ × List ℕ × ℕ
  | [], code => ([], [], code)
  | s :: sizes, code =>
    if s = si then
      let o := codesOfSize si sizes (code + 1)
      (code :: o.1, o.2)
    else ([], s :: sizes, code)

/-- `while (huff_size[p])`, with at most `n` turns. -/
def huffCode : ℕ → ℕ → List ℕ → ℕ → List ℕ
  | 0, _, _, _ => []
  | n + 1, si, sizes, code =>
    if sizes = [] then []
    else
      let o := codesOfSize si sizes code
      o.1 ++ huffCode n (si + 1) o.2.1 (o.2.2 * 2)

def computeHuffmanTable (bits val : List ℕ) : HuffTable :=
  let sizes := huffSize bits
  let codes := huffCode 17 (sizes.headD 0) sizes 0
  let assign := fun (table : List ℕ) (l : List ℕ) =>
    (val.zip l).foldl (fun t e => t.set e.1 e.2) table
  { codes := assign (List.replicate 256 0) codes
    codeSizes := assign (List.replicate 256 0) sizes }

/-! ## Output -/

/-- `put_buf` of a class derived from `output_stream`; `none` is `NULL`. -/
structure OutputStream (σ : Type) where
  putBuf : σ → Option (List UInt8) → σ × Bool

/-- `outBuf` is `m_out_buf` up to `m_pOut_buf`. -/
structure Output (σ : Type) where
  stream : σ
  outBuf : List UInt8
  bitBuffer : ℕ
  bitsIn : ℕ
  allStreamWritesSucceeded : Bool

@[simp] def outBufSize : ℕ := 512

namespace Output
variable {σ : Type} (str : OutputStream σ) (o : Output σ)

def outBufLeft : ℕ := outBufSize - o.outBuf.length

/-- `m_all_stream_writes_succeeded && m_pStream->put_buf(...)`. -/
def write (data : Option (List UInt8)) : Output σ :=
  if o.allStreamWritesSucceeded then
    let r := str.putBuf o.stream data
    { o with stream := r.1, allStreamWritesSucceeded := r.2 }
  else o

def flushOutputBuffer : Output σ :=
  let o := if o.outBufLeft ≠ outBufSize then o.write str (some o.outBuf) else o
  { o with outBuf := [] }

def emitByte (i : UInt8) : Output σ :=
  let o := { o with outBuf := o.outBuf ++ [i] }
  if o.outBufLeft = 0 then o.flushOutputBuffer str else o

/-- `while (m_bits_in >= 8)`, with at most `n` turns. -/
def putWhole : ℕ → Output σ → Output σ
  | 0, o => o
  | n + 1, o =>
    if o.bitsIn ≥ 8 then
      let c := UInt8.ofNat (o.bitBuffer >>> 16)
      let o := o.emitByte str c
      let o := if c = 0xff then o.emitByte str 0 else o
      putWhole n { o with bitBuffer := o.bitBuffer <<< 8 % 2 ^ 32, bitsIn := o.bitsIn - 8 }
    else o

def putBits (bits len : ℕ) : Output σ :=
  let bitsIn := o.bitsIn + len
  let bitBuffer := o.bitBuffer ||| bits <<< (24 - bitsIn) % 2 ^ 32
  putWhole str bitsIn { o with bitBuffer := bitBuffer, bitsIn := bitsIn }

def emitBytes (l : List UInt8) : Output σ := l.foldl (emitByte str) o

def emitWord (i : ℕ) : Output σ := o.emitBytes str [UInt8.ofNat (i / 256), UInt8.ofNat i]

def emitMarker (marker : UInt8) : Output σ := o.emitBytes str [0xff, marker]

end Output

/-! ## Coding of a block -/

/-- `while (temp1) { nbits++; temp1 >>= 1; }`, with at most `n` turns. -/
def bitLength : ℕ → ℕ → ℕ
  | 0, _ => 0
  | n + 1, temp1 => if temp1 = 0 then 0 else bitLength n (temp1 >>> 1) + 1

/-- `temp2 & ((1 << nbits) - 1)`. -/
def lowBits (temp2 : ℤ) (nbits : ℕ) : ℕ := (temp2 % 2 ^ nbits).toNat

namespace Output
variable {σ : Type} (str : OutputStream σ)

def putCode (t : HuffTable) (j : ℕ) (o : Output σ) : Output σ :=
  o.putBits str (t.codes.getD j 0) (t.codeSizes.getD j 0)

/-- `while (run_len >= 16)`, with at most `n` turns. -/
def putRuns (t : HuffTable) : ℕ → ℕ × Output σ → ℕ × Output σ
  | 0, s => s
  | n + 1, (runLen, o) =>
    if runLen ≥ 16 then putRuns t n (runLen - 16, putCode str t 0xf0 o) else (runLen, o)

def codeDc (t : HuffTable) (temp1 : ℤ) (o : Output σ) : Output σ :=
  let temp2 := if temp1 < 0 then temp1 - 1 else temp1
  let nbits := bitLength 32 temp1.natAbs
  let o := putCode str t nbits o
  if nbits ≠ 0 then o.putBits str (lowBits temp2 nbits) nbits else o

/-- The loop over the coefficients from 1 on, and what follows it. -/
def codeAc (t : HuffTable) : List ℤ → ℕ → Output σ → Output σ
  | [], runLen, o => if runLen ≠ 0 then putCode str t 0 o else o
  | temp1 :: l, runLen, o =>
    if temp1 = 0 then codeAc t l (runLen + 1) o
    else
      let s := putRuns str t runLen (runLen, o)
      let temp2 := if temp1 < 0 then temp1 - 1 else temp1
      let nbits := 1 + bitLength 32 (temp1.natAbs >>> 1)
      let o := putCode str t (s.1 <<< 4 + nbits) s.2
      codeAc t l 0 (o.putBits str (lowBits temp2 nbits) nbits)

end Output

end EspMesh.Jpge
