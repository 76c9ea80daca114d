import Mathlib.Data.List.GetD
import Mathlib.Data.List.TakeWhile
import Mathlib.Order.Basic

/-! # Byte-addressed memory with a record of what was stored

A C buffer as a total function from addresses to bytes, so that a store past the end of the
buffer is an ordinary store whose address is simply too large. Every store also records the
span it wrote; "no write leaves the buffer" is a statement about the spans and holds or fails
whatever bytes happen to be there already.

* `store`, `fill`, `load` are `memcpy` into, `memset` of and `memcpy` out of the memory.
* `SameBelow p m m'`: the two memories agree on every address below `p`.
* `Inside lo hi m`: every span recorded lies in `[lo, hi)`.
* `copyForward` is a `memcpy` byte by byte, for spans that may overlap.
-/

namespace ByteMem
set_option autoImplicit false

abbrev Bytes (n : ℕ) := { bs : List UInt8 // bs.length = n }

def Bytes.const (n : ℕ) (b : UInt8) : Bytes n := ⟨List.replicate n b, List.length_replicate⟩

/-! ## Entries of one length behind each other -/

theorem flatMap_val_length {n : ℕ} (xs : List (Bytes n)) :
    (xs.flatMap (·.val)).length = n * xs.length := by
  induction xs with
  | nil => rfl
  | cons x xs ih =>
    rw [List.flatMap_cons, List.length_append, x.2, ih, List.length_cons, Nat.mul_succ,
      Nat.add_comm]

theorem flatMap_val_inj {n : ℕ} (hn : 0 < n) {xs ys : List (Bytes n)}
    (h : xs.flatMap (·.val) = ys.flatMap (·.val)) : xs = ys := by
  have hlen : xs.length = ys.length := by
    have hbytes := congrArg List.length h
    rw [flatMap_val_length, flatMap_val_length] at hbytes
    exact Nat.eq_of_mul_eq_mul_left hn hbytes
  induction xs generalizing ys with
  | nil => exact (List.length_eq_zero_iff.mp hlen.symm).symm
  | cons x xs ih =>
    cases ys with
    | nil => simp at hlen
    | cons y ys =>
      rw [List.flatMap_cons, List.flatMap_cons] at h
      obtain ⟨hhead, htail⟩ := List.append_inj h (x.2.trans y.2.symm)
      rw [Subtype.ext hhead, ih htail (by simpa using hlen)]

/-! ## The memory -/

structure Mem where
  byte : ℕ → UInt8
  /-- The spans (address, length) stored to, the latest first. -/
  spans : List (ℕ × ℕ)

namespace Mem

def store (m : Mem) (a : ℕ) (bs : List UInt8) : Mem where
  byte := fun i => if a ≤ i ∧ i < a + bs.length then bs.getD (i - a) 0 else m.byte i
  spans := (a, bs.length) :: m.spans

def fill (m : Mem) (a : ℕ) (b : UInt8) (n : ℕ) : Mem := m.store a (List.replicate n b)

def loadBytes (m : Mem) (a n : ℕ) : Bytes n :=
  ⟨(List.range n).map fun i => m.byte (a + i), by simp⟩

def load (m : Mem) (a n : ℕ) : List UInt8 := (m.loadBytes a n).val

/-! ## Single bytes -/

theorem store_byte (m : Mem) (a i : ℕ) (bs : List UInt8) :
    (m.store a bs).byte i =
      if a ≤ i ∧ i < a + bs.length then bs.getD (i - a) 0 else m.byte i := rfl

theorem store_byte_off (m : Mem) (a i : ℕ) (bs : List UInt8) (h : i < a ∨ a + bs.length ≤ i) :
    (m.store a bs).byte i = m.byte i := by
  rw [store_byte, if_neg (by omega)]

theorem store_byte_at (m : Mem) (a j : ℕ) (bs : List UInt8) (h : j < bs.length) :
    (m.store a bs).byte (a + j) = bs.getD j 0 := by
  rw [store_byte, if_pos (by omega), Nat.add_sub_cancel_left]

theorem fill_byte (m : Mem) (a i n : ℕ) (b : UInt8) :
    (m.fill a b n).byte i = if a ≤ i ∧ i < a + n then b else m.byte i := by
  unfold fill
  rw [store_byte, List.length_replicate]
  by_cases h : a ≤ i ∧ i < a + n
  · rw [if_pos h, if_pos h, List.getD_eq_getElem _ _ (by simp; omega), List.getElem_replicate]
  · rw [if_neg h, if_neg h]

/-! ## Loads -/

@[simp] theorem load_length (m : Mem) (a n : ℕ) : (m.load a n).length = n := (m.loadBytes a n).2

theorem load_eq_map (m : Mem) (a n : ℕ) :
    m.load a n = (List.range n).map fun i => m.byte (a + i) := rfl

theorem load_getElem (m : Mem) (a n i : ℕ) (h : i < (m.load a n).length) :
    (m.load a n)[i] = m.byte (a + i) := by
  simp [load_eq_map]

theorem load_getD (m : Mem) (a n i : ℕ) (h : i < n) : (m.load a n).getD i 0 = m.byte (a + i) := by
  rw [List.getD_eq_getElem _ _ (by simpa using h), load_getElem]

theorem load_eq_iff (m m' : Mem) (a a' n : ℕ) :
    m.load a n = m'.load a' n ↔ ∀ i < n, m.byte (a + i) = m'.byte (a' + i) := by
  constructor
  · intro h i hi
    rw [← load_getD m a n i hi, h, load_getD m' a' n i hi]
  · intro h
    rw [load_eq_map, load_eq_map]
    exact List.map_congr_left fun i hi => h i (List.mem_range.mp hi)

theorem load_eq_list (m : Mem) (a : ℕ) (bs : List UInt8) :
    m.load a bs.length = bs ↔ ∀ i < bs.length, m.byte (a + i) = bs.getD i 0 := by
  constructor
  · intro h i hi
    rw [← load_getD m a bs.length i hi, h]
  · intro h
    apply List.ext_getElem (by simp)
    intro i h1 h2
    rw [load_getElem, h i h2, List.getD_eq_getElem _ _ h2]

theorem load_append (m : Mem) (a n k : ℕ) :
    m.load a (n + k) = m.load a n ++ m.load (a + n) k := by
  simp only [load_eq_map, List.range_add, List.map_append, List.map_map, Nat.add_assoc]
  rfl

theorem load_take (m : Mem) (a n k : ℕ) (h : k ≤ n) : (m.load a n).take k = m.load a k := by
  obtain ⟨d, rfl⟩ := Nat.exists_eq_add_of_le h
  rw [load_append, List.take_left' (load_length m a k)]

theorem load_drop (m : Mem) (a n k : ℕ) (h : k ≤ n) :
    (m.load a n).drop k = m.load (a + k) (n - k) := by
  obtain ⟨d, rfl⟩ := Nat.exists_eq_add_of_le h
  rw [load_append, List.drop_left' (load_length m a k), Nat.add_sub_cancel_left]

theorem load_store_self (m : Mem) (a : ℕ) (bs : List UInt8) :
    (m.store a bs).load a bs.length = bs :=
  (load_eq_list _ a bs).mpr fun i hi => store_byte_at m a i bs hi

theorem load_store_off (m : Mem) (a b n : ℕ) (bs : List UInt8)
    (h : b + n ≤ a ∨ a + bs.length ≤ b) : (m.store a bs).load b n = m.load b n :=
  (load_eq_iff _ _ _ _ _).mpr fun i hi => store_byte_off m a (b + i) bs (by omega)

/-- A store right behind bytes that are known. -/
theorem load_store_next {m : Mem} {a n : ℕ} {pre : List UInt8} (h : m.load a n = pre) (b k : ℕ)
    (bs : List UInt8) (hb : b = a + n) (hk : k = n + bs.length) :
    (m.store b bs).load a k = pre ++ bs := by
  rw [hb, hk, load_append, load_store_self, load_store_off _ _ _ _ _ (.inl (le_refl _)), h]

theorem load_fill_self (m : Mem) (a n : ℕ) (b : UInt8) :
    (m.fill a b n).load a n = List.replicate n b := by
  have h := load_store_self m a (List.replicate n b)
  rwa [List.length_replicate] at h

/-- Entries of one length, behind each other. -/
theorem load_flatMap_iff {n : ℕ} (m : Mem) (a : ℕ) (xs : List (Bytes n)) :
    m.load a (n * xs.length) = xs.flatMap (·.val) ↔
      ∀ i x, xs[i]? = some x → m.loadBytes (a + n * i) n = x := by
  induction xs generalizing a with
  | nil => simp [load_eq_map]
  | cons x xs ih =>
    have hsplit : m.load a (n * (x :: xs).length) =
        m.load a n ++ m.load (a + n) (n * xs.length) := by
      rw [List.length_cons, Nat.mul_succ, Nat.add_comm, load_append]
    have hnext (i : ℕ) : a + n * (i + 1) = a + n + n * i := by rw [Nat.mul_succ]; omega
    rw [hsplit, List.flatMap_cons]
    constructor
    · intro h i y hy
      obtain ⟨hhead, htail⟩ := List.append_inj h (by rw [load_length, x.2])
      cases i with
      | zero =>
        cases hy
        exact Subtype.ext hhead
      | succ i =>
        rw [hnext]
        exact (ih _).mp htail i y hy
    · intro h
      congr 1
      · exact congrArg Subtype.val (h 0 x rfl)
      · refine (ih _).mpr fun i y hy => ?_
        rw [← hnext]
        exact h (i + 1) y hy

/-! ## Frames -/

def SameBelow (p : ℕ) (m m' : Mem) : Prop := ∀ i < p, m'.byte i = m.byte i

theorem SameBelow.refl (p : ℕ) (m : Mem) : SameBelow p m m := fun _ _ => rfl

theorem SameBelow.trans {p : ℕ} {a b c : Mem} (h : SameBelow p a b) (k : SameBelow p b c) :
    SameBelow p a c := fun i hi => (k i hi).trans (h i hi)

theorem SameBelow.mono {p q : ℕ} {a b : Mem} (h : SameBelow p a b) (hq : q ≤ p) :
    SameBelow q a b := fun i hi => h i (hi.trans_le hq)

theorem SameBelow.store {p a : ℕ} {m m' : Mem} (h : SameBelow p m m') (bs : List UInt8)
    (ha : p ≤ a) : SameBelow p m (m'.store a bs) := fun i hi => by
  rw [store_byte_off m' a i bs (by omega)]
  exact h i hi

theorem SameBelow.fill {p a : ℕ} {m m' : Mem} (h : SameBelow p m m') (b : UInt8) (n : ℕ)
    (ha : p ≤ a) : SameBelow p m (m'.fill a b n) := h.store _ ha

theorem SameBelow.load {p a n : ℕ} {m m' : Mem} (h : SameBelow p m m') (ha : a + n ≤ p) :
    m'.load a n = m.load a n :=
  (load_eq_iff _ _ _ _ _).mpr fun i hi => h (a + i) (by omega)

def Inside (lo hi : ℕ) (m : Mem) : Prop := ∀ s ∈ m.spans, lo ≤ s.1 ∧ s.1 + s.2 ≤ hi

theorem inside_store (lo hi a : ℕ) (m : Mem) (bs : List UInt8) :
    Inside lo hi (m.store a bs) ↔ (lo ≤ a ∧ a + bs.length ≤ hi) ∧ Inside lo hi m := by
  simp [Inside, store]

theorem inside_fill (lo hi a n : ℕ) (m : Mem) (b : UInt8) :
    Inside lo hi (m.fill a b n) ↔ (lo ≤ a ∧ a + n ≤ hi) ∧ Inside lo hi m := by
  simp [fill, inside_store]

/-! ## A copy from the lowest byte upwards -/

/-- `n` bytes from `src` to `dst`, one after the other; each is read when its turn comes. -/
def copyForward (m : Mem) (dst src : ℕ) : ℕ → Mem
  | 0 => m
  | n + 1 => (m.copyForward dst src n).store (dst + n) [(m.copyForward dst src n).byte (src + n)]

/-- A move downwards is right even where the two spans overlap: the byte that is read next lies
above everything written so far. -/
theorem copyForward_byte (m : Mem) (dst src n i : ℕ) (h : dst ≤ src) :
    (m.copyForward dst src n).byte i =
      if dst ≤ i ∧ i < dst + n then m.byte (src + (i - dst)) else m.byte i := by
  induction n generalizing i with
  | zero => rw [copyForward, if_neg (by omega)]
  | succ n ih =>
    have hread : (m.copyForward dst src n).byte (src + n) = m.byte (src + n) := by
      rw [ih, if_neg (by omega)]
    rw [copyForward, hread]
    by_cases hi : i = dst + n
    · rw [hi, store_byte, if_pos (by simp), if_pos (by omega), Nat.sub_self,
        Nat.add_sub_cancel_left, List.getD_cons_zero]
    · rw [store_byte_off _ _ _ _ (by rw [List.length_singleton]; omega), ih]
      by_cases hin : dst ≤ i ∧ i < dst + n
      · rw [if_pos hin, if_pos (by omega)]
      · rw [if_neg hin, if_neg (by omega)]

theorem copyForward_eq_store (m : Mem) (dst src n : ℕ) (h : dst ≤ src) :
    (m.copyForward dst src n).byte = (m.store dst (m.load src n)).byte := by
  funext i
  rw [copyForward_byte m dst src n i h, store_byte, load_length]
  split
  · rw [load_getD _ _ _ _ (by omega)]
  · rfl

theorem inside_copyForward {lo hi dst src n : ℕ} {m : Mem} (h : Inside lo hi m) (hlo : lo ≤ dst)
    (hhi : dst + n ≤ hi) : Inside lo hi (m.copyForward dst src n) := by
  induction n with
  | zero => exact h
  | succ n ih =>
    refine (inside_store lo hi _ _ _).mpr ⟨⟨by omega, ?_⟩, ih (by omega)⟩
    rw [List.length_singleton]
    omega

end Mem

/-! ## Fields of a byte string -/

/-- The field of `n` bytes at offset `a`; bytes past the end read as zero. -/
def field (bs : List UInt8) (a n : ℕ) : Bytes n :=
  ⟨(List.range n).map fun i => bs.getD (a + i) 0, by simp⟩

theorem field_val (bs : List UInt8) (a n : ℕ) (h : a + n ≤ bs.length) :
    (field bs a n).val = (bs.drop a).take n := by
  apply List.ext_getElem (by simp [field]; omega)
  intro i h1 h2
  simp only [field, List.getElem_map, List.getElem_range, List.getElem_take, List.getElem_drop]
  exact List.getD_eq_getElem _ _ (by simp [field] at h1; omega)

theorem field_getD (bs : List UInt8) (a n i : ℕ) (h : i < n) :
    (field bs a n).val.getD i 0 = bs.getD (a + i) 0 := by
  rw [List.getD_eq_getElem _ _ (by rwa [(field bs a n).2])]
  simp [field]

theorem field_eq {n : ℕ} (pre rest : List UInt8) (f : Bytes n) :
    field (pre ++ f.val ++ rest) pre.length n = f := by
  apply Subtype.ext
  rw [field_val _ _ _ (by simp [f.2]), List.append_assoc, List.drop_left,
    List.take_left' f.2]

/-! ## Byte arrays -/

theorem toList_loop_length (bs : ByteArray) (i : ℕ) (r : List UInt8) :
    (ByteArray.toList.loop bs i r).length = r.length + (bs.size - i) := by
  induction i, r using ByteArray.toList.loop.induct bs with
  | case1 i r h ih =>
    rw [ByteArray.toList.loop, if_pos h, ih, List.length_cons]
    omega
  | case2 i r h =>
    rw [ByteArray.toList.loop, if_neg h, List.length_reverse]
    omega

theorem toList_length (bs : ByteArray) : bs.toList.length = bs.size := by
  rw [ByteArray.toList, toList_loop_length, List.length_nil]
  omega

/-! ## Little-endian 16-bit words and C strings -/

def Mem.load16 (m : Mem) (a : ℕ) : ℕ := (m.byte a).toNat + 256 * (m.byte (a + 1)).toNat

def word16 (n : ℕ) : List UInt8 := [UInt8.ofNat n, UInt8.ofNat (n / 256)]

@[simp] theorem word16_length (n : ℕ) : (word16 n).length = 2 := rfl

theorem load16_word (m : Mem) (a n : ℕ) (h : m.load a 2 = word16 n) (hn : n < 65536) :
    m.load16 a = n := by
  have h0 := Mem.load_getD m a 2 0 (by omega)
  have h1 := Mem.load_getD m a 2 1 (by omega)
  rw [h] at h0 h1
  rw [Mem.load16, ← h1, ← Nat.add_zero a, ← h0]
  simp only [word16, List.getD_cons_zero, List.getD_cons_succ, UInt8.toNat_ofNat']
  omega

/-- The C string that starts a byte string: everything before its first NUL. -/
def cstr (bs : List UInt8) : List UInt8 := bs.takeWhile fun b => b != 0

theorem cstr_append_nul {v : List UInt8} (hv : ∀ b ∈ v, b ≠ 0) (rest : List UInt8) :
    cstr (v ++ 0 :: rest) = v := by
  unfold cstr
  rw [List.takeWhile_append_of_pos fun b hb => by simpa using hv b hb]
  simp

theorem cstr_append_of_mem {v : List UInt8} (h : 0 ∈ v) (rest : List UInt8) :
    cstr (v ++ rest) = cstr v := by
  induction v with
  | nil => cases h
  | cons b v ih =>
    by_cases hb : b = 0
    · simp [cstr, hb]
    · have hv : 0 ∈ v := (List.mem_cons.mp h).resolve_left (Ne.symm hb)
      simpa [cstr, hb] using ih hv

theorem cstr_length_lt {v : List UInt8} (h : 0 ∈ v) : (cstr v).length < v.length := by
  induction v with
  | nil => cases h
  | cons b v ih =>
    by_cases hb : b = 0
    · simp [cstr, hb]
    · have hv : 0 ∈ v := (List.mem_cons.mp h).resolve_left (Ne.symm hb)
      simpa [cstr, hb] using ih hv

theorem cstr_no_nul (bs : List UInt8) : ∀ b ∈ cstr bs, b ≠ 0 := fun b hb => by
  simpa using List.mem_takeWhile_imp hb

end ByteMem
