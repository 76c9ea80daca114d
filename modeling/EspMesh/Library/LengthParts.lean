import EspMesh.Library.JsonText
import Mathlib.Data.List.TakeWhile

/-! # Parts that tell their length

A part is a text, the length of the content in decimal digits, another text, the content, and a
boundary. A reader that goes by the lengths finds all contents, whatever is in them, and takes
nothing for a part that is not there to its end.
-/

namespace LengthParts
set_option autoImplicit false
open JsonText

/-- The digits end where `close` begins. -/
structure Format where
  head : List UInt8
  close : List UInt8
  boundary : List UInt8
  closes : ∃ b bs, close = b :: bs ∧ ¬ IsDigit b

def digitsValue (ds : List UInt8) : ℕ := ds.foldl (fun n d => 10 * n + (d.toNat - 48)) 0

def part (f : Format) (ds content : List UInt8) : List UInt8 :=
  f.head ++ (ds ++ (f.close ++ (content ++ f.boundary)))

/-- What is behind a text. -/
def after (text s : List UInt8) : Option (List UInt8) :=
  if s.take text.length = text then some (s.drop text.length) else none

/-- The content of the first part, and what is behind the part. -/
def readPart (f : Format) (s : List UInt8) : Option (List UInt8 × List UInt8) := do
  let s ← after f.head s
  let n := digitsValue (s.takeWhile fun d => decide (IsDigit d))
  let s ← after f.close (s.dropWhile fun d => decide (IsDigit d))
  if s.length < n then none
  else do
    let rest ← after f.boundary (s.drop n)
    some (s.take n, rest)

def readParts (f : Format) : ℕ → List UInt8 → List (List UInt8)
  | 0, _ => []
  | fuel + 1, s =>
    match readPart f s with
    | none => []
    | some (content, rest) => content :: readParts f fuel rest

/-- No part is empty. -/
def read (f : Format) (s : List UInt8) : List (List UInt8) := readParts f s.length s

/-! ## One part -/

variable {f : Format} {ds content s rest : List UInt8}

theorem after_eq_some {text : List UInt8} : after text s = some rest ↔ s = text ++ rest := by
  constructor
  · intro h
    rw [after] at h
    split at h
    · next htake =>
      rw [← Option.some.inj h, ← List.take_append_drop text.length s, htake, List.drop_left]
    · cases h
  · rintro rfl
    rw [after, List.take_left, if_pos rfl, List.drop_left]

theorem takeWhile_digits (hds : ∀ d ∈ ds, IsDigit d) (bs : List UInt8) :
    (ds ++ (f.close ++ bs)).takeWhile (fun d => decide (IsDigit d)) = ds ∧
      (ds ++ (f.close ++ bs)).dropWhile (fun d => decide (IsDigit d)) = f.close ++ bs := by
  obtain ⟨b, close, hclose, hb⟩ := f.closes
  have hdigits : ∀ d ∈ ds, decide (IsDigit d) = true := fun d hd => decide_eq_true (hds d hd)
  rw [List.takeWhile_append_of_pos hdigits, List.dropWhile_append_of_pos hdigits, hclose,
    List.cons_append, List.takeWhile_cons_of_neg (by simpa using hb),
    List.dropWhile_cons_of_neg (by simpa using hb), List.append_nil]
  exact ⟨rfl, rfl⟩

/-- What is read is a part. -/
theorem readPart_eq_some : readPart f s = some (content, rest) ↔
    ∃ ds, (∀ d ∈ ds, IsDigit d) ∧ digitsValue ds = content.length ∧
      s = part f ds content ++ rest := by
  constructor
  · intro h
    simp only [readPart, Option.bind_eq_bind, Option.bind_eq_some_iff] at h
    obtain ⟨s₁, hhead, s₂, hclose, h⟩ := h
    split at h
    · cases h
    · next hlen =>
      obtain ⟨rest', hboundary, h⟩ := Option.bind_eq_some_iff.mp h
      obtain ⟨rfl, rfl⟩ := Prod.mk.inj (Option.some.inj h)
      refine ⟨s₁.takeWhile fun d => decide (IsDigit d), ?_, ?_, ?_⟩
      · intro d hd
        exact of_decide_eq_true (List.mem_takeWhile_imp (p := fun d => decide (IsDigit d)) hd)
      · rw [List.length_take, Nat.min_eq_left (Nat.le_of_not_lt hlen)]
      · have hdrop := after_eq_some.mp hboundary
        have hsplit := List.takeWhile_append_dropWhile (p := fun d => decide (IsDigit d)) (l := s₁)
        rw [after_eq_some.mp hclose] at hsplit
        rw [after_eq_some.mp hhead]
        generalize digitsValue (s₁.takeWhile fun d => decide (IsDigit d)) = n at *
        conv_lhs => rw [← hsplit, ← List.take_append_drop n s₂, hdrop]
        simp only [part, List.append_assoc]
  · rintro ⟨ds, hds, hvalue, rfl⟩
    have hspan := takeWhile_digits (f := f) hds (content ++ (f.boundary ++ rest))
    have hpart : part f ds content ++ rest =
        f.head ++ (ds ++ (f.close ++ (content ++ (f.boundary ++ rest)))) := by
      simp only [part, List.append_assoc]
    rw [hpart, readPart, after_eq_some.mpr rfl, Option.bind_eq_bind, Option.bind_some, hspan.1,
      hspan.2, after_eq_some.mpr rfl, hvalue]
    dsimp only
    rw [Option.bind_some, if_neg (by simp), List.drop_left, List.take_left, after_eq_some.mpr rfl]
    rfl

theorem readPart_part (hds : ∀ d ∈ ds, IsDigit d) (hvalue : digitsValue ds = content.length)
    (rest : List UInt8) : readPart f (part f ds content ++ rest) = some (content, rest) :=
  readPart_eq_some.mpr ⟨ds, hds, hvalue, rfl⟩

/-- A part of which the end is missing is not read. -/
theorem readPart_unfinished {t u : List UInt8} (hds : ∀ d ∈ ds, IsDigit d)
    (hvalue : digitsValue ds = content.length) (hpart : t ++ u = part f ds content)
    (hu : u ≠ []) : readPart f t = none := by
  cases hread : readPart f t with
  | none => rfl
  | some r =>
    obtain ⟨ds', hds', hvalue', rfl⟩ := readPart_eq_some.mp hread
    have hwhole := readPart_part (f := f) hds hvalue []
    have hlonger := readPart_part (f := f) hds' hvalue' (r.2 ++ u)
    rw [List.append_nil, ← hpart, List.append_assoc, hlonger] at hwhole
    have hrest : r.2 ++ u = [] := (Prod.mk.inj (Option.some.inj hwhole)).2
    exact absurd (List.append_eq_nil_iff.mp hrest).2 hu

/-! ## Many parts -/

/-- The parts of some contents, with lengths as `print` has them. -/
def parts (f : Format) (print : ℕ → List UInt8) (contents : List (List UInt8)) : List UInt8 :=
  contents.flatMap fun content => part f (print content.length) content

theorem part_pos (f : Format) (ds content : List UInt8) : 0 < (part f ds content).length := by
  obtain ⟨b, bs, hclose, -⟩ := f.closes
  simp only [part, hclose, List.length_append, List.length_cons]
  omega

variable {print : ℕ → List UInt8}

theorem length_le_parts (contents : List (List UInt8)) :
    contents.length ≤ (parts f print contents).length := by
  induction contents with
  | nil => exact Nat.zero_le 0
  | cons content contents ih =>
    have hpos := part_pos f (print content.length) content
    have hcons : parts f print (content :: contents) =
        part f (print content.length) content ++ parts f print contents := List.flatMap_cons
    rw [hcons, List.length_append, List.length_cons]
    omega

theorem readParts_parts (hprint : ∀ n, (∀ d ∈ print n, IsDigit d) ∧ digitsValue (print n) = n)
    {t : List UInt8} (ht : readPart f t = none) {contents : List (List UInt8)} {fuel : ℕ}
    (hfuel : contents.length ≤ fuel) :
    readParts f fuel (parts f print contents ++ t) = contents := by
  induction contents generalizing fuel with
  | nil =>
    cases fuel with
    | zero => rfl
    | succ fuel =>
      show readParts f (fuel + 1) t = []
      rw [readParts, ht]
  | cons content contents ih =>
    obtain ⟨fuel, rfl⟩ := Nat.exists_eq_add_of_lt hfuel
    have hcons : parts f print (content :: contents) =
        part f (print content.length) content ++ parts f print contents := List.flatMap_cons
    have hread := readPart_part (f := f) (hprint content.length).1 (hprint content.length).2
      (parts f print contents ++ t)
    rw [hcons, List.append_assoc, readParts, hread]
    exact congrArg (content :: ·) (ih (Nat.le_add_right _ _))

/-- **The contents are read**, but for that of a part which is not there to its end. -/
theorem read_parts (hprint : ∀ n, (∀ d ∈ print n, IsDigit d) ∧ digitsValue (print n) = n)
    {t : List UInt8} (ht : readPart f t = none) (contents : List (List UInt8)) :
    read f (parts f print contents ++ t) = contents := by
  apply readParts_parts hprint ht
  rw [List.length_append]
  exact (length_le_parts contents).trans (Nat.le_add_right _ _)

end LengthParts
