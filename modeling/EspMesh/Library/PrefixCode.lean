import EspMesh.Library.BitString

/-! # Prefix codes

A codeword of size `s` covers `2 ^ (m - s)` of the `2 ^ m` strings of size `m`. The words of a
canonical code are given out by size, each where the one before it ends, and while there is room
for all of them none is a prefix of another.
-/

namespace PrefixCode
set_option autoImplicit false
open BitString

variable {α : Type}

/-- No word is a prefix of another one. -/
def Free (words : List (α × List Bool)) : Prop :=
  words.Pairwise fun a b => ¬ a.2 <+: b.2 ∧ ¬ b.2 <+: a.2

/-- The symbol of the word that `input` begins with, and what follows the word. -/
def decode (words : List (α × List Bool)) (input : List Bool) : Option (α × List Bool) :=
  (words.find? fun e => e.2.isPrefixOf input).map fun e => (e.1, input.drop e.2.length)

theorem decode_append {words : List (α × List Bool)} (hfree : Free words) {a : α} {w : List Bool}
    (h : (a, w) ∈ words) (rest : List Bool) : decode words (w ++ rest) = some (a, rest) := by
  have hfind : words.find? (fun e => e.2.isPrefixOf (w ++ rest)) = some (a, w) := by
    induction words with
    | nil => simp at h
    | cons e words ih =>
      obtain ⟨hhead, htail⟩ := List.pairwise_cons.mp hfree
      rw [List.find?_cons]
      obtain rfl | hmem := List.mem_cons.mp h
      · have hself : w.isPrefixOf (w ++ rest) = true :=
          List.isPrefixOf_iff_prefix.mpr (List.prefix_append w rest)
        simp only [hself]
      · have hoff : e.2.isPrefixOf (w ++ rest) = false := by
          apply Bool.eq_false_iff.mpr
          intro hpre
          have hpre := List.isPrefixOf_iff_prefix.mp hpre
          obtain ⟨hew, hwe⟩ := hhead (a, w) hmem
          obtain h | h := List.prefix_or_prefix_of_prefix hpre (List.prefix_append w rest)
          · exact hew h
          · exact hwe h
        simp only [hoff]
        exact ih htail hmem
  rw [decode, hfind, Option.map_some, List.drop_left]

/-- The symbols of the first `n` words. -/
def decodeMany (words : List (α × List Bool)) : ℕ → List Bool → Option (List α × List Bool)
  | 0, input => some ([], input)
  | n + 1, input =>
    match decode words input with
    | none => none
    | some (a, rest) => (decodeMany words n rest).map fun o => (a :: o.1, o.2)

theorem decodeMany_append {words : List (α × List Bool)} (hfree : Free words)
    {l : List (α × List Bool)} (h : ∀ e ∈ l, e ∈ words) (rest : List Bool) :
    decodeMany words l.length (l.flatMap Prod.snd ++ rest) = some (l.map Prod.fst, rest) := by
  induction l with
  | nil => rfl
  | cons e l ih =>
    rw [List.forall_mem_cons] at h
    rw [List.flatMap_cons, List.append_assoc, List.length_cons, decodeMany,
      decode_append hfree h.1]
    dsimp only
    rw [ih h.2]
    rfl

/-! ## Canonical codes -/

/-- The words for symbols with their sizes, from string `p` of the `2 ^ m` on. -/
def canonical (m : ℕ) : ℕ → List (α × ℕ) → List (α × List Bool)
  | _, [] => []
  | p, (a, s) :: l => (a, bits s (p / 2 ^ (m - s))) :: canonical m (p + 2 ^ (m - s)) l

/-- How many of the strings the words cover. -/
def covered (m : ℕ) (l : List (α × ℕ)) : ℕ := (l.map fun e => 2 ^ (m - e.2)).sum

/-- The symbols are ordered by size, the strings from `p` on can be cut into words of each size, and
there are enough of them. -/
structure Room (m p : ℕ) (l : List (α × ℕ)) : Prop where
  sorted : (l.map Prod.snd).Pairwise (· ≤ ·)
  size : ∀ e ∈ l, e.2 ≤ m
  aligned : ∀ e ∈ l, 2 ^ (m - e.2) ∣ p
  room : p + covered m l ≤ 2 ^ m

variable {m p : ℕ} {l : List (α × ℕ)}

theorem covered_cons (a : α) (s : ℕ) :
    covered m ((a, s) :: l) = 2 ^ (m - s) + covered m l := by
  rw [covered, List.map_cons, List.sum_cons]
  rfl

theorem Room.next {a : α} {s : ℕ} (h : Room m p ((a, s) :: l)) :
    Room m (p + 2 ^ (m - s)) l where
  sorted := (List.pairwise_cons.mp h.sorted).2
  size e' he' := h.size e' (List.mem_cons_of_mem _ he')
  aligned e' he' := by
    have hle : s ≤ e'.2 := (List.pairwise_cons.mp h.sorted).1 e'.2 (List.mem_map_of_mem he')
    exact Nat.dvd_add (h.aligned e' (List.mem_cons_of_mem _ he'))
      (Nat.pow_dvd_pow 2 (by omega))
  room := by
    have hroom := h.room
    rw [covered_cons] at hroom
    omega

theorem Room.first_lt {a : α} {s : ℕ} (h : Room m p ((a, s) :: l)) :
    p / 2 ^ (m - s) < 2 ^ s := by
  have hs : s ≤ m := h.size (a, s) List.mem_cons_self
  have hroom := h.room
  rw [covered_cons] at hroom
  apply Nat.div_lt_of_lt_mul
  rw [← pow_add, Nat.sub_add_cancel hs]
  have := Nat.two_pow_pos (m - s)
  omega

theorem Room.value_first {a : α} {s : ℕ} (h : Room m p ((a, s) :: l)) :
    value (bits s (p / 2 ^ (m - s))) * 2 ^ (m - s) = p := by
  rw [value_bits, Nat.mod_eq_of_lt h.first_lt]
  exact Nat.div_mul_cancel (h.aligned (a, s) List.mem_cons_self)

/-- The words from `p` on cover strings from `p` to `p + covered m l`. -/
theorem canonical_span (hroom : Room m p l) {a : α} {w : List Bool}
    (h : (a, w) ∈ canonical m p l) :
    (a, w.length) ∈ l ∧ p ≤ value w * 2 ^ (m - w.length) ∧
      (value w + 1) * 2 ^ (m - w.length) ≤ p + covered m l := by
  induction l generalizing p with
  | nil => simp [canonical] at h
  | cons e l ih =>
    obtain ⟨b, s⟩ := e
    rw [covered_cons]
    obtain heq | hmem := List.mem_cons.mp h
    · obtain ⟨rfl, rfl⟩ := Prod.mk.injEq .. ▸ heq
      rw [bits_length, Nat.add_mul, Nat.one_mul, hroom.value_first]
      exact ⟨List.mem_cons_self, le_refl p, by omega⟩
    · obtain ⟨hin, hlo, hhi⟩ := ih hroom.next hmem
      have hpos := Nat.two_pow_pos (m - s)
      exact ⟨List.mem_cons_of_mem _ hin, by omega, by omega⟩

/-- A word covers a part of what its prefixes cover. -/
theorem prefix_span (m : ℕ) {u w : List Bool} (h : u <+: w) (hw : w.length ≤ m) :
    value u * 2 ^ (m - u.length) ≤ value w * 2 ^ (m - w.length) ∧
      (value w + 1) * 2 ^ (m - w.length) ≤ (value u + 1) * 2 ^ (m - u.length) := by
  obtain ⟨v, rfl⟩ := h
  rw [List.length_append] at hw
  have hlen : m - u.length = v.length + (m - (u ++ v).length) := by
    rw [List.length_append]
    omega
  rw [hlen, pow_add, ← Nat.mul_assoc, ← Nat.mul_assoc, value_append]
  have hv := value_lt v
  constructor
  · exact Nat.mul_le_mul_right _ (by omega)
  · apply Nat.mul_le_mul_right
    rw [Nat.add_mul, Nat.one_mul]
    omega

theorem canonical_free (h : Room m p l) : Free (canonical m p l) := by
  induction l generalizing p with
  | nil => exact List.Pairwise.nil
  | cons e l ih =>
    obtain ⟨a, s⟩ := e
    apply List.pairwise_cons.mpr
    refine ⟨?_, ih h.next⟩
    intro x hx
    obtain ⟨b, w⟩ := x
    obtain ⟨hin, hlo, -⟩ := canonical_span h.next hx
    show ¬ bits s _ <+: w ∧ ¬ w <+: bits s _
    have hw : w.length ≤ m := h.next.size _ hin
    have hs : s ≤ m := h.size (a, s) List.mem_cons_self
    have hfirst := h.value_first
    have hpos := Nat.two_pow_pos (m - s)
    have hposw := Nat.two_pow_pos (m - w.length)
    constructor
    · intro hpre
      have hspan := (prefix_span m hpre hw).2
      rw [bits_length, Nat.add_mul, Nat.add_mul, Nat.one_mul, Nat.one_mul, hfirst] at hspan
      omega
    · intro hpre
      have hspan := (prefix_span m hpre (by rwa [bits_length])).1
      rw [bits_length, hfirst] at hspan
      omega

/-- While a string is left over, no word has ones only. -/
theorem canonical_not_ones (h : Room m p l) (hleft : p + covered m l < 2 ^ m) {a : α} {n : ℕ} :
    (a, List.replicate n true) ∉ canonical m p l := by
  intro hmem
  obtain ⟨hin, -, hhi⟩ := canonical_span h hmem
  have hn : n ≤ m := by
    have := h.size _ hin
    rwa [List.length_replicate] at this
  rw [value_ones, List.length_replicate, ← pow_add, Nat.add_sub_cancel' hn] at hhi
  omega

/-- The words as numbers. -/
def codeNumbers (m : ℕ) : ℕ → List ℕ → List ℕ
  | _, [] => []
  | p, s :: l => p / 2 ^ (m - s) :: codeNumbers m (p + 2 ^ (m - s)) l

theorem canonical_zip (m p : ℕ) (symbols : List α) (sizes : List ℕ) :
    canonical m p (symbols.zip sizes) =
      (symbols.zip (sizes.zip (codeNumbers m p sizes))).map fun e => (e.1, bits e.2.1 e.2.2) := by
  induction sizes generalizing p symbols with
  | nil => simp [canonical]
  | cons s sizes ih =>
    cases symbols with
    | nil => rfl
    | cons a symbols =>
      rw [List.zip_cons_cons, canonical, codeNumbers, List.zip_cons_cons, List.zip_cons_cons,
        List.map_cons, ih]

theorem codeNumbers_lt (h : Room m p l) {s x : ℕ}
    (hx : (s, x) ∈ (l.map Prod.snd).zip (codeNumbers m p (l.map Prod.snd))) : x < 2 ^ s := by
  induction l generalizing p with
  | nil => simp at hx
  | cons e l ih =>
    obtain ⟨a, t⟩ := e
    obtain heq | hmem := List.mem_cons.mp hx
    · obtain ⟨rfl, rfl⟩ := Prod.mk.injEq .. ▸ heq
      exact h.first_lt
    · exact ih h.next hmem

theorem covered_zip {symbols : List α} {sizes : List ℕ} (h : sizes.length ≤ symbols.length) :
    covered m (symbols.zip sizes) = (sizes.map fun s => 2 ^ (m - s)).sum := by
  have hsnd := congrArg (List.map fun s => 2 ^ (m - s)) (List.map_snd_zip h)
  rw [List.map_map] at hsnd
  exact congrArg List.sum hsnd

end PrefixCode
