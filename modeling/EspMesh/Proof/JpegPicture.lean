import EspMesh.Proof.JpegHeader

/-! # Reading a picture back

A file that consists of the segments, the bits of blocks and the end marker is read as these blocks,
with the size, the sampling and the quantisation tables of the picture.
-/

namespace EspMesh.Jpge
set_option autoImplicit false
open BitString PrefixCode BaselineJpeg

variable {g : Layout} {sub : Subsampling} {quality : ℤ}

/-! ## The codes -/

theorem readScan_congr {f f' : ℕ → List (ℕ × List Bool) × List (ℕ × List Bool)} {is : List ℕ}
    (h : ∀ i ∈ is, f i = f' i) (pred : ℕ → ℤ) (input : List Bool) :
    readScan f pred is input = readScan f' pred is input := by
  induction is generalizing pred input with
  | nil => rfl
  | cons i is ih =>
    rw [readScan, readScan, h i List.mem_cons_self]
    cases hblock : readBlock (f' i).1 (f' i).2 (pred i) input with
    | none => rfl
    | some r =>
      obtain ⟨b, rest⟩ := r
      dsimp only
      rw [ih fun j hj => h j (List.mem_cons_of_mem i hj)]

def pictureHead (g : Layout) (quality : ℤ) (sub : Subsampling) : Head :=
  { quant := headQuant quality g.numComponents, codes := headCodes g.numComponents
    width := g.imageX, height := g.imageY, frame := frame sub }

def scanPairs (n : ℕ) : List (UInt8 × UInt8) :=
  (List.range n).map fun i => (UInt8.ofNat (i + 1), if i = 0 then 0 else 0x11)

theorem scanCodes_eq (h : Sound g sub) {i : ℕ} (hi : i < g.numComponents) :
    (pictureHead g quality sub).scanCodes (scanPairs g.numComponents) i =
      ((codes i).dc, (codes i).ac) := by
  obtain ⟨hdc, hac⟩ := headCodes_lum g.numComponents
  by_cases hi0 : i = 0
  · subst hi0
    have hbyte : ((scanPairs g.numComponents).getD 0 (0, 0)).2.toNat = 0 := by
      obtain hn | hn := h.components <;> rw [hn] <;> decide
    rw [Head.scanCodes, hbyte, codes, if_pos rfl]
    exact Prod.ext hdc hac
  · have hn : g.numComponents = 3 := by
      have := h.components
      omega
    have hbyte : ((scanPairs g.numComponents).getD i (0, 0)).2.toNat = 0x11 := by
      rw [hn] at hi ⊢
      obtain rfl | rfl : i = 1 ∨ i = 2 := by omega
      · decide
      · decide
    rw [Head.scanCodes, hbyte, codes, if_neg hi0, pictureHead, hn]
    exact Prod.ext headCodes_chroma.1 headCodes_chroma.2

theorem components_eq (h : Sound g sub) :
    (pictureHead g quality sub).components = components quality sub := by
  have hg := h.layout
  rw [Head.components, pictureHead, hg]
  cases sub <;> rfl

/-- What the start of the scan says of its components. -/
theorem sosBytes_pairs {n : ℕ} (h : n = 1 ∨ n = 3) : ∃ q, sosBytes n = UInt8.ofNat n :: q ∧
    pairs (q.take (2 * (UInt8.ofNat n).toNat)) = scanPairs n ∧
      q.drop (2 * (UInt8.ofNat n).toNat) = [0, 63, 0] := by
  obtain rfl | rfl := h
  · exact ⟨_, rfl, rfl, rfl⟩
  · exact ⟨_, rfl, rfl, rfl⟩

theorem scanPairs_frame (h : Sound g sub) :
    (scanPairs g.numComponents).map Prod.fst = (frame sub).map Prod.fst := by
  rw [h.frame_length]
  cases sub <;> rfl

/-! ## The scan -/

/-- The components of the blocks of a unit. -/
def unitComponents : Subsampling → List ℕ
  | .yOnly => [0]
  | .h1v1 => [0, 1, 2]
  | .h2v1 => [0, 0, 1, 2]
  | .h2v2 => [0, 0, 0, 0, 1, 2]

def unitRows (g : Layout) : ℕ := (g.imageY + g.mcuY - 1) / g.mcuY

/-- The components of the blocks of a picture, in their order. -/
def scanOrder (g : Layout) (sub : Subsampling) : List ℕ :=
  (List.replicate (g.mcusPerRow * unitRows g) (unitComponents sub)).flatten

theorem unitBlocks_components (quality : ℤ) (sub : Subsampling) :
    unitBlocks (components quality sub) = unitComponents sub := by
  cases sub <;> simp [unitBlocks, components, frame, unitComponents]

theorem unitCount_components (h : Sound g sub) (quality : ℤ) :
    unitCount g.imageX g.imageY (components quality sub) = g.mcusPerRow * unitRows g := by
  have hx : unitSize Component.hSamp (components quality sub) = g.mcuX := by
    rw [h.layout]
    cases sub <;> simp [unitSize, components, frame, Layout.ofSubsampling]
  have hy : unitSize Component.vSamp (components quality sub) = g.mcuY := by
    rw [h.layout]
    cases sub <;> simp [unitSize, components, frame, Layout.ofSubsampling]
  have hpos : 0 < g.mcuX := by
    rw [h.layout]
    cases sub <;> simp [Layout.ofSubsampling]
  rw [unitCount, hx, hy, Layout.mcusPerRow, Layout.imageXMcu, Nat.mul_div_cancel _ hpos]
  rfl

theorem unitComponents_lt (h : Sound g sub) : ∀ i ∈ unitComponents sub, i < g.numComponents := by
  rw [h.frame_length]
  cases sub <;> decide

theorem readPicture_scan (h : Sound g sub) {blocks : List (ℕ × List ℤ)} {whole : List UInt8}
    {n : ℕ} (hcodable : ∀ x ∈ blocks, Codable x.2)
    (horder : blocks.map Prod.fst = scanOrder g sub) (hn : n < 8)
    (hbits : whole.flatMap byteBits = scanBits codes (fun _ => 0) blocks ++
      List.replicate n true) :
    readPicture (pictureHead g quality sub) (sosBytes g.numComponents)
        (stuff whole ++ [0xff, 0xd9]) =
      some { width := g.imageX, height := g.imageY, components := components quality sub
             blocks := blocks } := by
  have hscan : readScan ((pictureHead g quality sub).scanCodes (scanPairs g.numComponents))
      (fun _ => 0) (scanOrder g sub) (whole.flatMap byteBits) =
        some (blocks, List.replicate n true) := by
    have hmem : ∀ i ∈ scanOrder g sub, i < g.numComponents := by
      intro i hi
      obtain ⟨l, hl, hil⟩ := List.mem_flatten.mp hi
      rw [List.eq_of_mem_replicate hl] at hil
      exact unitComponents_lt h i hil
    rw [readScan_congr fun i hi => scanCodes_eq h (hmem i hi), hbits, ← horder]
    exact readScan_scanBits codes blocks _ _ (fun _ => by decide) hcodable
  have hdata : unstuff (stuff whole ++ [0xff, 0xd9]) = (whole, [255, 0xd9]) :=
    unstuff_stuff whole [] (by decide)
  have hones : (List.replicate n true).length = n := List.length_replicate
  obtain ⟨q, hsos, hpairs, hdrop⟩ := sosBytes_pairs h.components
  rw [hsos, readPicture]
  dsimp only
  rw [hpairs, hdrop, if_pos ⟨rfl, scanPairs_frame h⟩, components_eq h, unitBlocks_components,
    hdata, pictureHead]
  dsimp only
  rw [unitCount_components h]
  rw [pictureHead, scanOrder] at hscan
  rw [hscan]
  dsimp only
  rw [hones, if_pos ⟨rfl, hn, rfl⟩]

/-! ## The file -/

theorem segments_small (h : Sound g sub) {s : UInt8 × List UInt8} (hs : s ∈ segments g quality) :
    s.2.length + 2 < 65536 ∧ s.1 ≠ 0xda := by
  rw [segments, List.mem_append, List.mem_append, List.mem_append, List.mem_singleton,
    List.mem_singleton] at hs
  obtain ((rfl | hdqt) | rfl) | hdht := hs
  · decide
  · obtain ⟨i, -, rfl⟩ := List.mem_map.mp hdqt
    have hlen := dqtBytes_length (quantTable_steps quality i).1 i
    exact ⟨by dsimp only; omega, show (0xdb : UInt8) ≠ 0xda by decide⟩
  · have hlen := sofBytes_length h.components
    have hn := h.components
    exact ⟨by dsimp only; omega, show (0xc0 : UInt8) ≠ 0xda by decide⟩
  · have hmarker : (0xc4 : UInt8) ≠ 0xda := by decide
    have hlen : ∀ bits val i, val.length ≤ 162 → (dhtBytes bits val i).length + 2 < 65536 := by
      intro bits val i hval
      have := dhtBytes_length bits val i
      omega
    rw [dhtSegments, List.mem_append] at hdht
    split at hdht
    · simp only [List.mem_cons, List.not_mem_nil, or_false] at hdht
      obtain (rfl | rfl) | rfl | rfl := hdht
      · exact ⟨hlen _ _ 0 (by decide +kernel), hmarker⟩
      · exact ⟨hlen _ _ 16 (by decide +kernel), hmarker⟩
      · exact ⟨hlen _ _ 1 (by decide +kernel), hmarker⟩
      · exact ⟨hlen _ _ 17 (by decide +kernel), hmarker⟩
    · simp only [List.mem_cons, List.not_mem_nil, or_false] at hdht
      obtain rfl | rfl := hdht
      · exact ⟨hlen _ _ 0 (by decide +kernel), hmarker⟩
      · exact ⟨hlen _ _ 16 (by decide +kernel), hmarker⟩

theorem segmentBytes_length (l : List (UInt8 × List UInt8)) :
    l.length ≤ (l.flatMap fun s => segmentBytes s.1 s.2).length := by
  induction l with
  | nil => exact Nat.zero_le _
  | cons s l ih =>
    rw [List.flatMap_cons, List.length_append, segmentBytes, List.length_append, List.length_cons,
      List.length_cons]
    omega

def fileBytes (g : Layout) (quality : ℤ) (whole : List UInt8) : List UInt8 :=
  headBytes g quality ++ stuff whole ++ [0xff, 0xd9]

theorem read_file (quality : ℤ) (h : Sound g sub) (hwidth : g.imageX < 65536)
    (hheight : g.imageY < 65536)
    {blocks : List (ℕ × List ℤ)} {whole : List UInt8} {n : ℕ} (hcodable : ∀ x ∈ blocks, Codable x.2)
    (horder : blocks.map Prod.fst = scanOrder g sub) (hn : n < 8)
    (hbits : whole.flatMap byteBits = scanBits codes (fun _ => 0) blocks ++
      List.replicate n true) :
    BaselineJpeg.read (fileBytes g quality whole) =
      some { width := g.imageX, height := g.imageY, components := components quality sub
             blocks := blocks } := by
  have hsos := sosBytes_length h.components
  have hcomponents := h.components
  have hsegs := segmentBytes_length (segments g quality)
  have hfile : fileBytes g quality whole = 0xff :: 0xd8 ::
      (((segments g quality).flatMap fun s => segmentBytes s.1 s.2) ++
        (segmentBytes 0xda (sosBytes g.numComponents) ++ (stuff whole ++ [0xff, 0xd9]))) := by
    rw [fileBytes, headBytes]
    simp only [List.append_assoc, List.cons_append, List.nil_append]
  have hhead : ∀ n, (segments g quality).length < n → readHead n Head.empty
      (((segments g quality).flatMap fun s => segmentBytes s.1 s.2) ++
        (segmentBytes 0xda (sosBytes g.numComponents) ++ (stuff whole ++ [0xff, 0xd9]))) =
          some (pictureHead g quality sub, sosBytes g.numComponents,
            stuff whole ++ [0xff, 0xd9]) := fun n hfuel =>
    readHead_segments hfuel (readAll_segments h hwidth hheight quality)
      (fun s hs => (segments_small h hs).1) (by omega) fun s hs => (segments_small h hs).2
  rw [hfile, BaselineJpeg.read, if_pos ⟨rfl, rfl⟩, hhead _ (by
    simp only [List.length_append, List.length_cons]
    omega)]
  exact readPicture_scan h hcodable horder hn hbits

end EspMesh.Jpge
