import EspMesh.Library.ByteMem
import Mathlib.Data.List.Infix

/-! # Records of a fixed key and a NUL-terminated string

The format without lengths: each record is a key of `k` bytes, the bytes of a string and a NUL,
and records follow one another without gaps. `decode_iff` is the criterion for reading a byte
string back: it decodes to the records exactly when it starts with their encoding.
-/

namespace NulRecords
set_option autoImplicit false
open ByteMem

variable {k : ℕ}

abbrev Record (k : ℕ) := Bytes k × List UInt8

/-- The string can be stored: it has no NUL inside. -/
def Clean (r : Record k) : Prop := ∀ b ∈ r.2, b ≠ 0

def encode (rs : List (Record k)) : List UInt8 := rs.flatMap fun r => r.1.val ++ r.2 ++ [0]

/-- Reading `n` records; bytes past the end read as zero. -/
def decode (k : ℕ) : ℕ → List UInt8 → List (Record k)
  | 0, _ => []
  | n + 1, bs =>
    let s := cstr (bs.drop k)
    (field bs 0 k, s) :: decode k n (bs.drop (k + s.length + 1))

theorem encode_cons (r : Record k) (rs : List (Record k)) :
    encode (r :: rs) = r.1.val ++ r.2 ++ 0 :: encode rs := by
  simp [encode]

theorem encode_cons_length (r : Record k) (rs : List (Record k)) :
    (encode (r :: rs)).length = k + r.2.length + 1 + (encode rs).length := by
  rw [encode_cons]
  simp only [List.length_append, List.length_cons, r.1.2]
  omega

theorem cstr_split {bs : List UInt8} (h : (cstr bs).length < bs.length) :
    bs = cstr bs ++ 0 :: bs.drop ((cstr bs).length + 1) := by
  induction bs with
  | nil => exact absurd h (Nat.not_lt_zero _)
  | cons b bs ih =>
    by_cases hb : b = 0
    · subst hb
      simp [cstr]
    · have hcons : cstr (b :: bs) = b :: cstr bs := by simp [cstr, hb]
      rw [hcons, List.length_cons, List.length_cons] at h
      rw [hcons, List.length_cons, List.cons_append, List.drop_succ_cons]
      exact congrArg (b :: ·) (ih (by omega))

theorem decode_append (rs : List (Record k)) (hclean : ∀ r ∈ rs, Clean r) (rest : List UInt8) :
    decode k rs.length (encode rs ++ rest) = rs := by
  induction rs with
  | nil => rfl
  | cons r rs ih =>
    have hbytes : encode (r :: rs) ++ rest = r.1.val ++ (r.2 ++ 0 :: (encode rs ++ rest)) := by
      rw [encode_cons]
      simp
    have hdrop : (encode (r :: rs) ++ rest).drop k = r.2 ++ 0 :: (encode rs ++ rest) := by
      rw [hbytes, List.drop_left' r.1.2]
    have hstr : cstr ((encode (r :: rs) ++ rest).drop k) = r.2 := by
      rw [hdrop, cstr_append_nul (hclean r (List.mem_cons_self ..))]
    have hkey : field (encode (r :: rs) ++ rest) 0 k = r.1 := by
      rw [hbytes]
      exact field_eq [] _ r.1
    have hrest : (encode (r :: rs) ++ rest).drop (k + r.2.length + 1) = encode rs ++ rest := by
      rw [Nat.add_assoc, ← List.drop_drop, hdrop, List.append_cons, List.drop_left' (by simp)]
    have htail := ih fun r' h => hclean r' (List.mem_cons_of_mem _ h)
    rw [List.length_cons, decode, hstr, hkey, hrest, htail]

theorem prefix_of_decode (rs : List (Record k)) (bs : List UInt8)
    (hlen : (encode rs).length ≤ bs.length) (h : decode k rs.length bs = rs) :
    encode rs <+: bs := by
  induction rs generalizing bs with
  | nil => exact List.nil_prefix
  | cons r rs ih =>
    rw [encode_cons_length] at hlen
    rw [List.length_cons, decode] at h
    obtain ⟨hr, hrs⟩ := List.cons.inj h
    have hkey : field bs 0 k = r.1 := congrArg Prod.fst hr
    have hstr : cstr (bs.drop k) = r.2 := congrArg Prod.snd hr
    rw [hstr] at hrs
    have hlt : (cstr (bs.drop k)).length < (bs.drop k).length := by
      rw [hstr, List.length_drop]
      omega
    have hsplit := cstr_split hlt
    rw [hstr, List.drop_drop] at hsplit
    obtain ⟨rest, hrest⟩ := ih (bs.drop (k + r.2.length + 1)) (by rw [List.length_drop]; omega) hrs
    have htake : bs.take k = r.1.val := by
      rw [← hkey, field_val bs 0 k (by omega), List.drop_zero]
    refine ⟨rest, ?_⟩
    rw [encode_cons]
    conv_rhs => rw [← List.take_append_drop k bs, htake, hsplit, ← Nat.add_assoc, ← hrest]
    simp

/-- **Reading back.** Enough bytes decode to the records exactly when they start with the
records' encoding. -/
theorem decode_iff (rs : List (Record k)) (hclean : ∀ r ∈ rs, Clean r) (bs : List UInt8)
    (hlen : (encode rs).length ≤ bs.length) : decode k rs.length bs = rs ↔ encode rs <+: bs := by
  constructor
  · exact prefix_of_decode rs bs hlen
  · rintro ⟨rest, rfl⟩
    exact decode_append rs hclean rest

end NulRecords
