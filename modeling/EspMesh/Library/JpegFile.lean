import Mathlib.Logic.Function.Basic
import EspMesh.Library.JpegBlocks

/-! # Baseline JPEG files

What a reader finds in a file with one scan: the size of the picture, how its components are sampled
and quantised, and the blocks of the scan. Each table has a segment of its own.
-/

namespace BaselineJpeg
set_option autoImplicit false
open BitString PrefixCode

/-! ## The scan -/

/-- The predictor of a component is the first coefficient of its last block. -/
def nextPred (pred : ℕ → ℤ) (i : ℕ) (b : List ℤ) : ℕ → ℤ := Function.update pred i (b.headD 0)

/-- Reads a block for each of the components. -/
def readScan (codes : ℕ → List (ℕ × List Bool) × List (ℕ × List Bool)) :
    (ℕ → ℤ) → List ℕ → List Bool → Option (List (ℕ × List ℤ) × List Bool)
  | _, [], input => some ([], input)
  | pred, i :: is, input =>
    match readBlock (codes i).1 (codes i).2 (pred i) input with
    | none => none
    | some (b, rest) =>
      (readScan codes (nextPred pred i b) is rest).map fun o => ((i, b) :: o.1, o.2)

def scanBits (c : ℕ → BlockCode) : (ℕ → ℤ) → List (ℕ × List ℤ) → List Bool
  | _, [] => []
  | pred, (i, b) :: l => blockBits (c i) (pred i) b ++ scanBits c (nextPred pred i b) l

/-- The predictors after the blocks `l`. -/
def predAfter (pred : ℕ → ℤ) (l : List (ℕ × List ℤ)) : ℕ → ℤ :=
  l.foldl (fun pred x => nextPred pred x.1 x.2) pred

theorem scanBits_concat (c : ℕ → BlockCode) (pred : ℕ → ℤ) (l : List (ℕ × List ℤ)) (i : ℕ)
    (b : List ℤ) :
    scanBits c pred (l ++ [(i, b)]) =
      scanBits c pred l ++ blockBits (c i) (predAfter pred l i) b := by
  induction l generalizing pred with
  | nil => exact List.append_nil _
  | cons x l ih =>
    rw [List.cons_append, scanBits, scanBits, ih, List.append_assoc]
    rfl

theorem predAfter_concat (pred : ℕ → ℤ) (l : List (ℕ × List ℤ)) (i : ℕ) (b : List ℤ) :
    predAfter pred (l ++ [(i, b)]) = nextPred (predAfter pred l) i b := List.foldl_append

/-- The coefficients have codes, whatever block came before. -/
structure Codable (b : List ℤ) : Prop where
  length : b.length = 64
  dc : -1024 ≤ b.headD 0 ∧ b.headD 0 ≤ 1023
  ac : ∀ v ∈ b.tail, v.natAbs < 2 ^ 10

theorem nextPred_range {pred : ℕ → ℤ} (hpred : ∀ i, -1024 ≤ pred i ∧ pred i ≤ 1023) {b : List ℤ}
    (hb : Codable b) (i j : ℕ) : -1024 ≤ nextPred pred i b j ∧ nextPred pred i b j ≤ 1023 := by
  by_cases hj : j = i
  · subst hj
    rw [nextPred, Function.update_self]
    exact hb.dc
  · rw [nextPred, Function.update_of_ne hj]
    exact hpred j

theorem predAfter_range {l : List (ℕ × List ℤ)} (h : ∀ x ∈ l, Codable x.2) (i : ℕ) :
    -1024 ≤ predAfter (fun _ => 0) l i ∧ predAfter (fun _ => 0) l i ≤ 1023 := by
  induction l using List.reverseRecOn generalizing i with
  | nil =>
    show -1024 ≤ (0 : ℤ) ∧ (0 : ℤ) ≤ 1023
    decide
  | append_singleton l x ih =>
    rw [predAfter_concat]
    exact nextPred_range (ih fun x hx => h x (List.mem_append_left _ hx))
      (h x (List.mem_append_right _ List.mem_cons_self)) _ _

theorem readScan_scanBits (c : ℕ → BlockCode) (l : List (ℕ × List ℤ)) (pred : ℕ → ℤ)
    (rest : List Bool) (hpred : ∀ i, -1024 ≤ pred i ∧ pred i ≤ 1023)
    (h : ∀ x ∈ l, Codable x.2) :
    readScan (fun i => ((c i).dc, (c i).ac)) pred (l.map Prod.fst) (scanBits c pred l ++ rest) =
      some (l, rest) := by
  induction l generalizing pred with
  | nil => rfl
  | cons x l ih =>
    obtain ⟨i, b⟩ := x
    have hb : Codable b := h (i, b) List.mem_cons_self
    have hnext := nextPred_range hpred hb i
    have hblock : readBlock (c i).dc (c i).ac (pred i)
        (blockBits (c i) (pred i) b ++ (scanBits c (nextPred pred i b) l ++ rest)) =
          some (b, scanBits c (nextPred pred i b) l ++ rest) := by
      have hlen := hb.length
      obtain ⟨v, l', rfl⟩ := List.exists_cons_of_length_pos (l := b) (by omega)
      have hdc := hb.dc
      have hp := hpred i
      rw [List.headD_cons] at hdc
      rw [List.length_cons] at hlen
      exact readBlock_blockBits _ (by omega) (by omega) hb.ac
    rw [List.map_cons, scanBits, List.append_assoc, readScan, hblock]
    simp only [ih _ hnext fun x hx => h x (List.mem_cons_of_mem _ hx), Option.map_some]

/-! ## Segments -/

def segmentBytes (m : UInt8) (p : List UInt8) : List UInt8 :=
  let n := p.length + 2
  [255, m, UInt8.ofNat (n / 256), UInt8.ofNat n] ++ p

/-- The marker and the content of the first segment, and what is behind it. -/
def segment : List UInt8 → Option (UInt8 × List UInt8 × List UInt8)
  | f :: m :: hi :: lo :: rest =>
    let n := hi.toNat * 256 + lo.toNat
    if f = 255 ∧ 2 ≤ n ∧ n ≤ rest.length + 2 then some (m, rest.take (n - 2), rest.drop (n - 2))
    else none
  | _ => none

theorem segment_bytes (m : UInt8) (p rest : List UInt8) (h : p.length + 2 < 65536) :
    segment (segmentBytes m p ++ rest) = some (m, p, rest) := by
  have hn : (p.length + 2) / 256 % 256 * 256 + (p.length + 2) % 256 = p.length + 2 := by omega
  rw [segmentBytes]
  simp only [List.cons_append, List.nil_append, segment, UInt8.toNat_ofNat', Nat.reducePow, hn,
    List.length_append]
  rw [if_pos ⟨trivial, by omega, by omega⟩, Nat.add_sub_cancel, List.take_left, List.drop_left]

/-- What the segments before the scan have said. A frame has the identifier of each component, the
byte with its sampling factors and its quantisation table. -/
structure Head where
  quant : ℕ → List ℕ
  codes : ℕ → List (ℕ × List Bool)
  width : ℕ
  height : ℕ
  frame : List (UInt8 × UInt8 × UInt8)

def Head.empty : Head :=
  { quant := fun _ => [], codes := fun _ => [], width := 0, height := 0, frame := [] }

/-- The sizes of the words, by how many have each size. -/
def wordSizes (counts : List ℕ) : List ℕ :=
  (counts.zipIdx 1).flatMap fun e => List.replicate e.1 e.2

/-- The code of a table with the number of words of each size, and their symbols. -/
def tableCode (counts : List ℕ) (values : List ℕ) : List (ℕ × List Bool) :=
  canonical 16 0 (values.zip (wordSizes counts))

def triples : List UInt8 → List (UInt8 × UInt8 × UInt8)
  | a :: b :: c :: l => (a, b, c) :: triples l
  | _ => []

def pairs : List UInt8 → List (UInt8 × UInt8)
  | a :: b :: l => (a, b) :: pairs l
  | _ => []

def Head.readQuant (h : Head) : List UInt8 → Option Head
  | i :: l =>
    if l.length = 64 then
      some { h with quant := Function.update h.quant i.toNat (l.map UInt8.toNat) }
    else none
  | [] => none

def Head.readCode (h : Head) : List UInt8 → Option Head
  | i :: l =>
    let counts := (l.take 16).map UInt8.toNat
    let values := (l.drop 16).map UInt8.toNat
    if 16 ≤ l.length ∧ values.length = counts.sum then
      some { h with codes := Function.update h.codes i.toNat (tableCode counts values) }
    else none
  | [] => none

def Head.readFrame (h : Head) : List UInt8 → Option Head
  | prec :: h1 :: h0 :: w1 :: w0 :: n :: l =>
    if prec = 8 ∧ l.length = 3 * n.toNat then
      some { h with
        height := h1.toNat * 256 + h0.toNat
        width := w1.toNat * 256 + w0.toNat
        frame := triples l }
    else none
  | _ => none

def Head.read (h : Head) (m : UInt8) (p : List UInt8) : Option Head :=
  if m = 0xe0 then some h
  else if m = 0xdb then h.readQuant p
  else if m = 0xc4 then h.readCode p
  else if m = 0xc0 then h.readFrame p
  else none

/-- The segments up to that of the scan, at most `n` of them. -/
def readHead : ℕ → Head → List UInt8 → Option (Head × List UInt8 × List UInt8)
  | 0, _, _ => none
  | n + 1, h, bytes =>
    match segment bytes with
    | none => none
    | some (m, p, rest) =>
      if m = 0xda then some (h, p, rest)
      else match h.read m p with
        | none => none
        | some h => readHead n h rest

/-- What the segments say one after another. -/
def Head.readAll : Head → List (UInt8 × List UInt8) → Option Head
  | h, [] => some h
  | h, (m, p) :: l =>
    match h.read m p with
    | none => none
    | some h => h.readAll l

theorem readHead_segments {l : List (UInt8 × List UInt8)} {n : ℕ} {h h' : Head}
    {p rest : List UInt8} (hn : l.length < n) (hread : h.readAll l = some h')
    (hlen : ∀ s ∈ l, s.2.length + 2 < 65536) (hp : p.length + 2 < 65536)
    (hm : ∀ s ∈ l, s.1 ≠ 0xda) :
    readHead n h ((l.flatMap fun s => segmentBytes s.1 s.2) ++ (segmentBytes 0xda p ++ rest)) =
      some (h', p, rest) := by
  induction l generalizing n h with
  | nil =>
    obtain ⟨n, rfl⟩ := Nat.exists_eq_succ_of_ne_zero (show n ≠ 0 by omega)
    have hsame : h = h' := Option.some.inj hread
    rw [List.flatMap_nil, List.nil_append, readHead, segment_bytes _ _ _ hp, hsame]
    rfl
  | cons s l ih =>
    obtain ⟨m, q⟩ := s
    obtain ⟨n, rfl⟩ := Nat.exists_eq_succ_of_ne_zero (show n ≠ 0 by omega)
    rw [List.length_cons] at hn
    rw [List.flatMap_cons, List.append_assoc, readHead,
      segment_bytes _ _ _ (hlen (m, q) List.mem_cons_self)]
    dsimp only
    rw [if_neg (hm (m, q) List.mem_cons_self)]
    rw [Head.readAll] at hread
    cases hseg : h.read m q with
    | none => simp [hseg] at hread
    | some h1 =>
      rw [hseg] at hread
      exact ih (by omega) hread (fun s hs => hlen s (List.mem_cons_of_mem _ hs))
        fun s hs => hm s (List.mem_cons_of_mem _ hs)

/-! ## Files -/

structure Component where
  hSamp : ℕ
  vSamp : ℕ
  quant : List ℕ

/-- The blocks come with the number of their component. -/
structure Picture where
  width : ℕ
  height : ℕ
  components : List Component
  blocks : List (ℕ × List ℤ)

/-- The components of the blocks of a unit. -/
def unitBlocks (l : List Component) : List ℕ :=
  if l.length = 1 then [0]
  else l.zipIdx.flatMap fun e => List.replicate (e.1.hSamp * e.1.vSamp) e.2

def unitSize (f : Component → ℕ) (l : List Component) : ℕ :=
  if l.length = 1 then 8 else 8 * (l.map f).foldl max 1

def unitCount (width height : ℕ) (l : List Component) : ℕ :=
  let x := unitSize Component.hSamp l
  let y := unitSize Component.vSamp l
  (width + x - 1) / x * ((height + y - 1) / y)

/-- The components of a frame, when the scan has them in the same order. -/
def Head.components (h : Head) : List Component :=
  h.frame.map fun e =>
    { hSamp := e.2.1.toNat / 16, vSamp := e.2.1.toNat % 16, quant := h.quant e.2.2.toNat }

def Head.scanCodes (h : Head) (scan : List (UInt8 × UInt8)) (i : ℕ) :
    List (ℕ × List Bool) × List (ℕ × List Bool) :=
  let b := (scan.getD i (0, 0)).2.toNat
  (h.codes (b / 16), h.codes (16 + b % 16))

/-- The scan, its padding and the end of the image. -/
def readPicture (h : Head) (p bytes : List UInt8) : Option Picture :=
  match p with
  | [] => none
  | n :: q =>
    let scan := pairs (q.take (2 * n.toNat))
    if q.drop (2 * n.toNat) = [0, 63, 0] ∧ scan.map Prod.fst = h.frame.map Prod.fst then
      let order := (List.replicate (unitCount h.width h.height h.components)
        (unitBlocks h.components)).flatten
      let data := unstuff bytes
      match readScan (h.scanCodes scan) (fun _ => 0) order (data.1.flatMap byteBits) with
      | none => none
      | some (blocks, padding) =>
        if padding = List.replicate padding.length true ∧ padding.length < 8 ∧
            data.2 = [255, 0xd9] then
          some { width := h.width, height := h.height, components := h.components,
                 blocks := blocks }
        else none
    else none

def read : List UInt8 → Option Picture
  | a :: b :: bytes =>
    if a = 255 ∧ b = 0xd8 then
      match readHead bytes.length Head.empty bytes with
      | none => none
      | some (h, p, rest) => readPicture h p rest
    else none
  | _ => none

end BaselineJpeg
