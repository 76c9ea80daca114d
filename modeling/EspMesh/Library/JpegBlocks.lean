import Mathlib.Data.Nat.Size
import EspMesh.Library.PrefixCode

/-! # Blocks in a baseline JPEG scan

A block is 64 coefficients in zigzag order. The first one is coded as its difference to that of
the block before it. Of the other ones those that are not zero are coded, each with the number of
zeros before it.
-/

namespace BaselineJpeg
set_option autoImplicit false
open BitString PrefixCode

/-! ## Numbers -/

/-- The bits of the size of `v`; a negative number has those of `v - 1`. -/
def magnitude (v : ℤ) : ℕ × ℕ :=
  let t := v.natAbs.size
  (t, if v < 0 then 2 ^ t - 1 - v.natAbs else v.natAbs)

def magnitudeBits (v : ℤ) : List Bool := bits (magnitude v).1 (magnitude v).2

/-- The number of size `t` whose bits are those of `x`. -/
def extend (t x : ℕ) : ℤ := if x < 2 ^ (t - 1) then x + 1 - 2 ^ t else x

def readBits (n : ℕ) (input : List Bool) : Option (ℕ × List Bool) :=
  if n ≤ input.length then some (value (input.take n), input.drop n) else none

def readNumber (t : ℕ) (input : List Bool) : Option (ℤ × List Bool) :=
  (readBits t input).map fun r => (extend t r.1, r.2)

theorem readBits_bits (n v : ℕ) (rest : List Bool) :
    readBits n (bits n v ++ rest) = some (v % 2 ^ n, rest) := by
  have htake : (bits n v ++ rest).take n = bits n v := by
    rw [List.take_append_of_le_length (by simp), List.take_of_length_le (by simp)]
  have hdrop : (bits n v ++ rest).drop n = rest := by
    rw [List.drop_append_of_le_length (by simp), List.drop_of_length_le (by simp), List.nil_append]
  rw [readBits, if_pos (by simp), htake, hdrop, value_bits]

theorem size_bounds {n : ℕ} (h : 0 < n) : 2 ^ (n.size - 1) ≤ n ∧ n < 2 ^ n.size ∧
    2 ^ n.size = 2 * 2 ^ (n.size - 1) := by
  have hpos : 0 < n.size := Nat.size_pos.mpr h
  refine ⟨Nat.lt_size.mp (by omega), Nat.lt_size_self n, ?_⟩
  rw [← pow_succ', Nat.sub_add_cancel hpos]

theorem extend_magnitude (v : ℤ) :
    (magnitude v).2 < 2 ^ (magnitude v).1 ∧ extend (magnitude v).1 (magnitude v).2 = v := by
  unfold magnitude extend
  obtain h | h := Nat.eq_zero_or_pos v.natAbs
  · have hv : v = 0 := Int.natAbs_eq_zero.mp h
    subst hv
    decide
  · obtain ⟨hlo, hhi, htwo⟩ := size_bounds h
    have hcast : (2 : ℤ) ^ v.natAbs.size = ((2 ^ v.natAbs.size : ℕ) : ℤ) := by push_cast; rfl
    dsimp only
    rw [hcast]
    split <;> split <;> omega

theorem readNumber_magnitude (v : ℤ) (rest : List Bool) :
    readNumber (magnitude v).1 (magnitudeBits v ++ rest) = some (v, rest) := by
  obtain ⟨hlt, hext⟩ := extend_magnitude v
  rw [readNumber, magnitudeBits, readBits_bits, Option.map_some, Nat.mod_eq_of_lt hlt, hext]

theorem magnitude_le {v : ℤ} {t : ℕ} (h : v.natAbs < 2 ^ t) : (magnitude v).1 ≤ t :=
  Nat.size_le.mpr h

theorem magnitude_pos {v : ℤ} (h : v ≠ 0) : 0 < (magnitude v).1 :=
  Nat.size_pos.mpr (Int.natAbs_pos.mpr h)

/-! ## Writing -/

/-- The codewords for the sizes of the first coefficients, and for the runs and sizes of the others:
all that numbers of at most eleven and ten bits need. -/
structure BlockCode where
  dc : List (ℕ × List Bool)
  ac : List (ℕ × List Bool)
  dcWord : ℕ → List Bool
  acWord : ℕ → List Bool
  dcFree : Free dc
  acFree : Free ac
  dcMem : ∀ t ≤ 11, (t, dcWord t) ∈ dc
  acMem : ∀ r < 16, ∀ s < 10, (16 * r + (s + 1), acWord (16 * r + (s + 1))) ∈ ac
  eobMem : (0, acWord 0) ∈ ac
  zrlMem : (0xf0, acWord 0xf0) ∈ ac

variable (c : BlockCode)

/-- What stands for the coefficients `l` with `run` zeros before them. -/
def acBits : ℕ → List ℤ → List Bool
  | run, [] => if run = 0 then [] else c.acWord 0
  | run, v :: l =>
    if v = 0 then acBits (run + 1) l
    else (List.replicate (run / 16) (c.acWord 0xf0)).flatten ++
      c.acWord (16 * (run % 16) + (magnitude v).1) ++ magnitudeBits v ++ acBits 0 l

def dcBits (diff : ℤ) : List Bool := c.dcWord (magnitude diff).1 ++ magnitudeBits diff

def blockBits (pred : ℤ) : List ℤ → List Bool
  | [] => []
  | v :: l => dcBits c (v - pred) ++ acBits c 0 l

/-! ## Reading -/

/-- The next `n` coefficients. -/
def readAc (words : List (ℕ × List Bool)) (n : ℕ) (input : List Bool) :
    Option (List ℤ × List Bool) :=
  if n = 0 then some ([], input)
  else match decode words input with
    | none => none
    | some (rs, rest) =>
      let r := rs / 16
      let s := rs % 16
      if s = 0 then
        if r = 0 then some (List.replicate n 0, rest)
        else if r = 15 ∧ 16 ≤ n then
          (readAc words (n - 16) rest).map fun o => (List.replicate 16 0 ++ o.1, o.2)
        else none
      else if r < n then
        match readNumber s rest with
        | none => none
        | some (v, rest) =>
          (readAc words (n - (r + 1)) rest).map fun o => (List.replicate r 0 ++ v :: o.1, o.2)
      else none
termination_by n

def readBlock (dc ac : List (ℕ × List Bool)) (pred : ℤ) (input : List Bool) :
    Option (List ℤ × List Bool) :=
  match decode dc input with
  | none => none
  | some (t, rest) =>
    match readNumber t rest with
    | none => none
    | some (diff, rest) => (readAc ac 63 rest).map fun o => ((pred + diff) :: o.1, o.2)

/-! ## Round trip -/

variable {c}

theorem readAc_zeros {n : ℕ} (k : ℕ) (rest : List Bool) (hn : 0 < n) :
    readAc c.ac (16 * k + n) ((List.replicate k (c.acWord 0xf0)).flatten ++ rest) =
      (readAc c.ac n rest).map fun o => (List.replicate (16 * k) 0 ++ o.1, o.2) := by
  induction k with
  | zero => simp
  | succ k ih =>
    rw [List.replicate_succ, List.flatten_cons, List.append_assoc, readAc, if_neg (by omega),
      decode_append c.acFree c.zrlMem]
    have hleft : 16 * (k + 1) + n - 16 = 16 * k + n := by omega
    have h16 : (16 : ℕ) * (k + 1) = 16 + 16 * k := by omega
    simp only [Nat.reduceMod, Nat.reduceDiv, if_true, hleft, ih]
    rw [if_neg (by decide), if_pos ⟨trivial, by omega⟩, Option.map_map, h16, List.replicate_add]
    simp only [Function.comp_def, List.append_assoc]

theorem readAc_number {n r : ℕ} {v : ℤ} (rest : List Bool) (hr : r < 16) (hv : v ≠ 0)
    (hsize : v.natAbs < 2 ^ 10) (hn : r < n) :
    readAc c.ac n (c.acWord (16 * r + (magnitude v).1) ++ magnitudeBits v ++ rest) =
      (readAc c.ac (n - (r + 1)) rest).map fun o => (List.replicate r 0 ++ v :: o.1, o.2) := by
  have hpos := magnitude_pos hv
  have hle := magnitude_le hsize
  have hmem := c.acMem r hr ((magnitude v).1 - 1) (by omega)
  rw [Nat.sub_add_cancel hpos] at hmem
  have hdiv : (16 * r + (magnitude v).1) / 16 = r := by omega
  have hmod : (16 * r + (magnitude v).1) % 16 = (magnitude v).1 := by omega
  rw [readAc, if_neg (by omega), List.append_assoc, decode_append c.acFree hmem]
  dsimp only
  rw [hdiv, hmod, if_neg (by omega), if_pos hn, readNumber_magnitude]

theorem readAc_acBits (l : List ℤ) (run : ℕ) (rest : List Bool)
    (hsize : ∀ v ∈ l, v.natAbs < 2 ^ 10) :
    readAc c.ac (run + l.length) (acBits c run l ++ rest) =
      some (List.replicate run 0 ++ l, rest) := by
  induction l generalizing run with
  | nil =>
    rw [acBits, List.length_nil, Nat.add_zero, List.append_nil]
    by_cases hrun : run = 0
    · subst hrun
      rw [if_pos rfl, readAc, if_pos rfl]
      rfl
    · rw [if_neg hrun, readAc, if_neg hrun, decode_append c.acFree c.eobMem]
      rfl
  | cons v l ih =>
    have htail := fun v' hv' => hsize v' (List.mem_cons_of_mem v hv')
    rw [acBits, List.length_cons]
    by_cases hv : v = 0
    · subst hv
      rw [if_pos rfl, show run + (l.length + 1) = run + 1 + l.length by omega, ih _ htail,
        List.replicate_succ', List.append_assoc]
      rfl
    · have hsum : run + (l.length + 1) = 16 * (run / 16) + (run % 16 + (l.length + 1)) := by omega
      have hleft : run % 16 + (l.length + 1) - (run % 16 + 1) = 0 + l.length := by omega
      rw [if_neg hv, hsum, List.append_assoc, List.append_assoc, List.append_assoc,
        readAc_zeros _ _ (by omega), ← List.append_assoc (c.acWord _),
        readAc_number _ (by omega) hv (hsize v List.mem_cons_self) (by omega), hleft, ih 0 htail]
      simp only [Option.map_some, List.replicate_zero, List.nil_append]
      rw [← List.append_assoc, ← List.replicate_add, Nat.div_add_mod]

theorem readBlock_blockBits {pred v : ℤ} {l : List ℤ} (rest : List Bool) (hlen : l.length = 63)
    (hdc : (v - pred).natAbs < 2 ^ 11) (hac : ∀ v ∈ l, v.natAbs < 2 ^ 10) :
    readBlock c.dc c.ac pred (blockBits c pred (v :: l) ++ rest) = some (v :: l, rest) := by
  have hmem := c.dcMem _ (magnitude_le hdc)
  have hread := readAc_acBits (c := c) l 0 rest hac
  rw [hlen] at hread
  rw [readBlock, blockBits, dcBits, List.append_assoc, List.append_assoc,
    decode_append c.dcFree hmem]
  simp only [readNumber_magnitude, hread, Option.map_some, List.replicate_zero, List.nil_append]
  rw [add_sub_cancel]

end BaselineJpeg
