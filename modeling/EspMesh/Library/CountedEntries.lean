import EspMesh.Library.ByteMem

/-! # Lists of entries behind a count of one byte

Entries of one length behind each other, in front of them a byte with their number. The byte has
the number modulo 256, so a reader gets the list back when it has fewer than 256 entries, and a
list of 256 looks empty.
-/

namespace CountedEntries
set_option autoImplicit false
open ByteMem

variable {n : ℕ}

def countedEntries (xs : List (Bytes n)) : List UInt8 :=
  UInt8.ofNat xs.length :: xs.flatMap (·.val)

def readEntries (n : ℕ) : ℕ → List UInt8 → List (Bytes n)
  | 0, _ => []
  | k + 1, bs => field bs 0 n :: readEntries n k (bs.drop n)

/-- The list in front of a byte string, with the rest; a string that is too short has none. -/
def readCounted (n : ℕ) : List UInt8 → Option (List (Bytes n) × List UInt8)
  | [] => none
  | count :: bs =>
    if n * count.toNat ≤ bs.length then
      some (readEntries n count.toNat bs, bs.drop (n * count.toNat))
    else none

theorem readEntries_flatMap (xs : List (Bytes n)) (rest : List UInt8) :
    readEntries n xs.length (xs.flatMap (·.val) ++ rest) = xs := by
  induction xs with
  | nil => rfl
  | cons x xs ih =>
    rw [List.length_cons, readEntries, List.flatMap_cons, List.append_assoc]
    rw [List.drop_left' x.2, ih]
    have hfield := field_eq [] (xs.flatMap (·.val) ++ rest) x
    rw [List.nil_append, List.length_nil] at hfield
    rw [hfield]

/-- A list of fewer than 256 entries is read back, and what is behind it is left. -/
theorem readCounted_countedEntries (xs : List (Bytes n)) (rest : List UInt8)
    (h : xs.length < 256) : readCounted n (countedEntries xs ++ rest) = some (xs, rest) := by
  have hcount : (UInt8.ofNat xs.length).toNat = xs.length := by
    rw [UInt8.toNat_ofNat']
    exact Nat.mod_eq_of_lt h
  rw [countedEntries, List.cons_append, readCounted, hcount, List.length_append,
    flatMap_val_length, if_pos (Nat.le_add_right _ _), readEntries_flatMap,
    List.drop_left' (flatMap_val_length xs)]

end CountedEntries
