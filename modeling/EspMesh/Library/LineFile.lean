import Mathlib.Data.List.Count
import Mathlib.Data.List.Infix

/-! # Text files, line by line

A file as its bytes, read with a buffer of bounded size as `fgets` does: a call takes one line
with its newline, or as much of it as the buffer has room for.

* `ofLines ls`: the file of the lines `ls`.
* `fgets n file`: what a buffer with room for `n` bytes takes from the file, and the rest.
-/

namespace LineFile
set_option autoImplicit false

def newline : UInt8 := 10

def ofString (s : String) : List UInt8 := s.toUTF8.data.toList

def ofLines (ls : List (List UInt8)) : List UInt8 := ls.flatMap fun l => l ++ [newline]

@[simp] theorem ofLines_nil : ofLines [] = [] := rfl

@[simp] theorem ofLines_cons (l : List UInt8) (ls : List (List UInt8)) :
    ofLines (l :: ls) = l ++ [newline] ++ ofLines ls := rfl

/-- A file has a newline for each line, and those in the lines. -/
theorem count_ofLines (ls : List (List UInt8)) :
    (ofLines ls).count newline = ls.length + ls.flatten.count newline := by
  induction ls with
  | nil => rfl
  | cons l ls ih =>
    rw [ofLines_cons, List.count_append, List.count_append, List.count_singleton_self, ih,
      List.length_cons, List.flatten_cons, List.count_append]
    omega

def fgets : ℕ → List UInt8 → List UInt8 × List UInt8
  | 0, file => ([], file)
  | _ + 1, [] => ([], [])
  | n + 1, b :: file =>
    if b = newline then ([b], file) else (b :: (fgets n file).1, (fgets n file).2)

theorem fgets_line {n : ℕ} {l : List UInt8} (hl : newline ∉ l) (hn : l.length < n)
    (rest : List UInt8) : fgets n (l ++ [newline] ++ rest) = (l ++ [newline], rest) := by
  induction l generalizing n with
  | nil =>
    obtain ⟨k, rfl⟩ := Nat.exists_eq_succ_of_ne_zero (by omega : n ≠ 0)
    rfl
  | cons b l ih =>
    obtain ⟨k, rfl⟩ := Nat.exists_eq_succ_of_ne_zero (by omega : n ≠ 0)
    have hb : b ≠ newline := fun h => hl (h ▸ List.mem_cons_self ..)
    have hrest := ih (fun h => hl (List.mem_cons_of_mem _ h)) (Nat.lt_of_succ_lt_succ hn)
    rw [List.cons_append, List.cons_append, fgets, if_neg hb, hrest]

end LineFile
