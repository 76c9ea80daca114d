import EspMesh.Library.BitString
import EspMesh.Model.JpegEncoder

/-! # The bytes and bits the encoder puts out

The bit buffer holds the bits that do not fill a byte yet. All bytes before them are in the output
buffer or in the stream, with a zero behind each 255 of the scan.
-/

namespace EspMesh.Jpge
set_option autoImplicit false
open BitString

variable {σ : Type} {str : OutputStream σ} {o : Output σ}

/-! ## Bytes -/

/-- No bits wait. -/
def Output.blank (o : Output σ) : Output σ := { o with bitBuffer := 0, bitsIn := 0 }

/-- The encoder has sent out the bytes `l` since it was in state `o₀`. -/
def Emitted (str : OutputStream σ) (o₀ : Output σ) (l : List UInt8) (o : Output σ) : Prop :=
  o.blank = o₀.blank.emitBytes str l

namespace Output
variable (str)

@[simp] theorem write_bits (o : Output σ) (d : Option (List UInt8)) :
    (o.write str d).bitBuffer = o.bitBuffer ∧ (o.write str d).bitsIn = o.bitsIn := by
  unfold write
  split <;> simp

@[simp] theorem emitByte_bits (o : Output σ) (i : UInt8) :
    (o.emitByte str i).bitBuffer = o.bitBuffer ∧ (o.emitByte str i).bitsIn = o.bitsIn := by
  unfold emitByte flushOutputBuffer
  dsimp only
  split
  · split <;> simp
  · simp

theorem write_blank (o : Output σ) (d : Option (List UInt8)) :
    (o.write str d).blank = o.blank.write str d := by
  unfold write blank
  split <;> rfl

theorem flush_blank (o : Output σ) :
    (o.flushOutputBuffer str).blank = o.blank.flushOutputBuffer str := by
  have hleft : o.blank.outBufLeft = o.outBufLeft := rfl
  unfold flushOutputBuffer
  dsimp only
  rw [hleft]
  split
  · have hw := write_blank str o (some o.outBuf)
    show { (o.write str (some o.outBuf)).blank with outBuf := [] } = _
    rw [hw]
    rfl
  · rfl

theorem emitByte_blank (o : Output σ) (i : UInt8) :
    (o.emitByte str i).blank = o.blank.emitByte str i := by
  unfold emitByte
  dsimp only
  have hleft : ({ o with outBuf := o.outBuf ++ [i] } : Output σ).blank.outBufLeft =
      ({ o with outBuf := o.outBuf ++ [i] } : Output σ).outBufLeft := rfl
  have heq : ({ o with outBuf := o.outBuf ++ [i] } : Output σ).blank =
      { o.blank with outBuf := o.blank.outBuf ++ [i] } := rfl
  rw [← heq, hleft]
  split
  · exact flush_blank str _
  · rfl

theorem emitBytes_bits (o : Output σ) (l : List UInt8) :
    (o.emitBytes str l).bitBuffer = o.bitBuffer ∧ (o.emitBytes str l).bitsIn = o.bitsIn := by
  induction l generalizing o with
  | nil => exact ⟨rfl, rfl⟩
  | cons b l ih =>
    have hstep := emitByte_bits str o b
    have hrest := ih (o.emitByte str b)
    exact ⟨hrest.1.trans hstep.1, hrest.2.trans hstep.2⟩

theorem emitBytes_append (o : Output σ) (l l' : List UInt8) :
    o.emitBytes str (l ++ l') = (o.emitBytes str l).emitBytes str l' := List.foldl_append

end Output

theorem Emitted.refl (o : Output σ) : Emitted str o [] o := rfl

theorem Emitted.byte {o₀ : Output σ} {l : List UInt8} (h : Emitted str o₀ l o) (b : UInt8) :
    Emitted str o₀ (l ++ [b]) (o.emitByte str b) := by
  rw [Emitted, Output.emitByte_blank, h, Output.emitBytes_append]
  rfl

theorem Emitted.bytes {o₀ : Output σ} {l : List UInt8} (h : Emitted str o₀ l o)
    (l' : List UInt8) : Emitted str o₀ (l ++ l') (o.emitBytes str l') := by
  induction l' generalizing l o with
  | nil => rwa [List.append_nil]
  | cons b l' ih =>
    rw [List.append_cons]
    exact ih (h.byte b)

/-! ## Bits -/

/-- After the bytes of `head` the bits `b` have been put; `pend` are those that wait. -/
structure Coded (str : OutputStream σ) (o₀ : Output σ) (head : List UInt8) (b : List Bool)
    (pend : List Bool) (o : Output σ) : Prop where
  emitted : ∃ whole, b = whole.flatMap byteBits ++ pend ∧ Emitted str o₀ (head ++ stuff whole) o
  bitsIn : o.bitsIn = pend.length
  buffer : o.bitBuffer % 2 ^ 24 = value pend * 2 ^ (24 - pend.length)

/-- Less than a byte waits. -/
def Coding (str : OutputStream σ) (o₀ : Output σ) (head : List UInt8) (b : List Bool)
    (o : Output σ) : Prop :=
  ∃ pend, Coded str o₀ head b pend o ∧ pend.length < 8

variable {o₀ : Output σ} {head : List UInt8} {b pend : List Bool}

theorem Coding.start (h : Emitted str o₀ head o) (hbuf : o.bitBuffer = 0) (hin : o.bitsIn = 0) :
    Coding str o₀ head [] o :=
  ⟨[], { emitted := ⟨[], rfl, by rwa [stuff, List.append_nil]⟩
         bitsIn := hin
         buffer := by rw [hbuf]; rfl }, by decide⟩

/-- The first byte of the buffer, and what is behind it. -/
theorem buffer_byte {buffer k : ℕ} {c : UInt8} {rest : List Bool} (hk : 8 + rest.length = k)
    (hle : k ≤ 24) (h : buffer % 2 ^ 24 = value (byteBits c ++ rest) * 2 ^ (24 - k)) :
    UInt8.ofNat (buffer >>> 16) = c ∧
      buffer <<< 8 % 2 ^ 32 % 2 ^ 24 = value rest * 2 ^ (24 - rest.length) := by
  have hrest := value_lt rest
  have hpow : (2 : ℕ) ^ rest.length * 2 ^ (24 - k) = 2 ^ 16 := by
    rw [← pow_add, show rest.length + (24 - k) = 16 by omega]
  have hlow : value rest * 2 ^ (24 - k) < 2 ^ 16 := by
    rw [← hpow]
    exact Nat.mul_lt_mul_of_pos_right hrest (Nat.two_pow_pos _)
  have hnext : (2 : ℕ) ^ (24 - rest.length) = 2 ^ (24 - k) * 2 ^ 8 := by
    rw [← pow_add, show 24 - rest.length = 24 - k + 8 by omega]
  have hc : c.toNat % 2 ^ 8 = c.toNat := Nat.mod_eq_of_lt c.toNat_lt
  rw [value_append, byteBits, value_bits, hc, Nat.add_mul, Nat.mul_assoc, hpow] at h
  rw [hnext, ← Nat.mul_assoc]
  generalize value rest * 2 ^ (24 - k) = low at *
  rw [Nat.shiftRight_eq_div_pow, Nat.shiftLeft_eq]
  constructor
  · apply UInt8.toNat_inj.mp
    rw [UInt8.toNat_ofNat']
    have := c.toNat_lt
    omega
  · omega

theorem Coded.byte {c : UInt8} {rest : List Bool}
    (h : Coded str o₀ head b (byteBits c ++ rest) o) (hle : 8 + rest.length ≤ 24) :
    let o' := if c = 0xff then (o.emitByte str c).emitByte str 0 else o.emitByte str c
    Coded str o₀ head b rest
      { o' with bitBuffer := o'.bitBuffer <<< 8 % 2 ^ 32, bitsIn := o'.bitsIn - 8 } := by
  intro o'
  obtain ⟨whole, hb, hemit⟩ := h.emitted
  have hbuffer := h.buffer
  have hbitsIn := h.bitsIn
  rw [List.length_append, byteBits_length] at hbuffer hbitsIn
  have hsame : o'.bitBuffer = o.bitBuffer ∧ o'.bitsIn = o.bitsIn := by
    unfold o'
    split <;> simp
  have hemit' : Emitted str o₀ (head ++ stuff (whole ++ [c])) o' := by
    rw [stuff_append, ← List.append_assoc]
    unfold o'
    by_cases hc : c = 0xff
    · rw [if_pos hc, stuff, if_pos hc, ← List.singleton_append, ← List.append_assoc]
      exact (hemit.byte c).byte 0
    · rw [if_neg hc, stuff, if_neg hc]
      exact hemit.byte c
  constructor
  · refine ⟨whole ++ [c], ?_, hemit'⟩
    rw [hb, List.flatMap_append, List.flatMap_singleton, List.append_assoc]
  · show o'.bitsIn - 8 = rest.length
    omega
  · show o'.bitBuffer <<< 8 % 2 ^ 32 % 2 ^ 24 = _
    rw [hsame.1]
    exact (buffer_byte rfl hle hbuffer).2

/-- Eight bits are those of a byte. -/
theorem exists_byte {l : List Bool} (h : 8 ≤ l.length) :
    ∃ c rest, l = byteBits c ++ rest ∧ l.length = 8 + rest.length := by
  refine ⟨UInt8.ofNat (value (l.take 8)), l.drop 8, ?_, by rw [List.length_drop]; omega⟩
  have hlen : (l.take 8).length = 8 := by rw [List.length_take]; omega
  have hlt := value_lt (l.take 8)
  rw [hlen] at hlt
  have hvalue := bits_value (l.take 8)
  rw [hlen] at hvalue
  rw [byteBits, UInt8.toNat_ofNat', Nat.mod_eq_of_lt hlt, hvalue, List.take_append_drop]

theorem Coded.whole {n : ℕ} (h : Coded str o₀ head b pend o) (hn : pend.length ≤ n)
    (hle : pend.length ≤ 24) : Coding str o₀ head b (Output.putWhole str n o) := by
  induction n generalizing pend o with
  | zero => exact ⟨pend, h, by omega⟩
  | succ n ih =>
    rw [Output.putWhole, h.bitsIn]
    by_cases hfull : pend.length ≥ 8
    · obtain ⟨c, rest, rfl, hlen⟩ := exists_byte hfull
      have hbuffer := h.buffer
      rw [hlen] at hbuffer hn hle
      obtain ⟨hc, -⟩ := buffer_byte rfl hle hbuffer
      rw [if_pos hfull, hc]
      have hin : o.bitsIn = (if c = 0xff then (o.emitByte str c).emitByte str 0
          else o.emitByte str c).bitsIn := by
        split <;> simp
      have hnext := h.byte hle
      exact ih hnext (by omega) (by omega)
    · rw [if_neg hfull]
      exact ⟨pend, h, by omega⟩

/-- The buffer is a disjoint union. -/
theorem buffer_put {buffer v len : ℕ} (hv : v < 2 ^ len) (hle : pend.length + len ≤ 24)
    (h : buffer % 2 ^ 24 = value pend * 2 ^ (24 - pend.length)) :
    (buffer ||| v <<< (24 - (pend.length + len)) % 2 ^ 32) % 2 ^ 24 =
      value (pend ++ bits len v) * 2 ^ (24 - (pend ++ bits len v).length) := by
  have hpow : (2 : ℕ) ^ (24 - pend.length) = 2 ^ len * 2 ^ (24 - (pend.length + len)) := by
    rw [← pow_add, show 24 - pend.length = len + (24 - (pend.length + len)) by omega]
  have hlt : v <<< (24 - (pend.length + len)) < 2 ^ (24 - pend.length) := by
    rw [Nat.shiftLeft_eq, hpow]
    exact Nat.mul_lt_mul_of_pos_right hv (Nat.two_pow_pos _)
  have h24 : (2 : ℕ) ^ (24 - pend.length) ≤ 2 ^ 24 := Nat.pow_le_pow_right (by omega) (by omega)
  have h32 : v <<< (24 - (pend.length + len)) % 2 ^ 32 = v <<< (24 - (pend.length + len)) :=
    Nat.mod_eq_of_lt (by omega)
  have hmod : v <<< (24 - (pend.length + len)) % 2 ^ 24 = v <<< (24 - (pend.length + len)) :=
    Nat.mod_eq_of_lt (by omega)
  rw [h32, Nat.or_mod_two_pow, hmod, h, ← Nat.shiftLeft_eq (value pend),
    ← Nat.shiftLeft_add_eq_or_of_lt hlt, Nat.shiftLeft_eq, Nat.shiftLeft_eq, value_append,
    value_bits, Nat.mod_eq_of_lt hv, List.length_append, bits_length, hpow]
  ring

/-- `put_bits` puts the bits of a number. -/
theorem Coding.put (h : Coding str o₀ head b o) {v len : ℕ} (hv : v < 2 ^ len) (hlen : len ≤ 16) :
    Coding str o₀ head (b ++ bits len v) (o.putBits str v len) := by
  obtain ⟨pend, h, hpend⟩ := h
  have hput : Coded str o₀ head (b ++ bits len v) (pend ++ bits len v)
      { o with bitBuffer := o.bitBuffer ||| v <<< (24 - (o.bitsIn + len)) % 2 ^ 32
               bitsIn := o.bitsIn + len } := by
    obtain ⟨whole, hb, hemit⟩ := h.emitted
    constructor
    · exact ⟨whole, by rw [hb, List.append_assoc], hemit⟩
    · show o.bitsIn + len = _
      rw [h.bitsIn, List.length_append, bits_length]
    · show (o.bitBuffer ||| v <<< (24 - (o.bitsIn + len)) % 2 ^ 32) % 2 ^ 24 = _
      rw [h.bitsIn]
      exact buffer_put hv (by omega) h.buffer
  have hle : (pend ++ bits len v).length = o.bitsIn + len := by
    rw [h.bitsIn, List.length_append, bits_length]
  exact hput.whole (by omega) (by rw [List.length_append, bits_length]; omega)

/-- Seven ones fill the last byte. -/
theorem Coding.finish (h : Coding str o₀ head b o) :
    ∃ whole n, Emitted str o₀ (head ++ stuff whole) (o.putBits str 0x7f 7) ∧ n < 8 ∧
      whole.flatMap byteBits = b ++ List.replicate n true := by
  have hput : Coding str o₀ head (b ++ bits 7 0x7f) (o.putBits str 0x7f 7) :=
    h.put (by decide) (by decide)
  obtain ⟨pend, hpend, hlt⟩ := hput
  obtain ⟨whole, hb, hemit⟩ := hpend.emitted
  have hones : bits 7 0x7f = List.replicate 7 true := by decide
  rw [hones] at hb
  have hle : pend.length ≤ 7 := by omega
  have hsuffix : pend = List.replicate pend.length true := by
    have hdrop := congrArg List.reverse hb
    rw [List.reverse_append, List.reverse_append, List.reverse_replicate] at hdrop
    have htake := congrArg (List.take pend.length) hdrop
    rw [List.take_append_of_le_length (by simpa using hle), List.take_replicate,
      Nat.min_eq_left hle, List.take_left' (by simp)] at htake
    have hrev := congrArg List.reverse htake
    rwa [List.reverse_reverse, List.reverse_replicate, eq_comm] at hrev
  refine ⟨whole, 7 - pend.length, hemit, by omega, ?_⟩
  have hsplit : List.replicate 7 true =
      List.replicate (7 - pend.length) true ++ List.replicate pend.length true := by
    rw [← List.replicate_add, Nat.sub_add_cancel hle]
  rw [hsplit, ← List.append_assoc, ← hsuffix] at hb
  exact (List.append_cancel_right hb).symm

end EspMesh.Jpge
