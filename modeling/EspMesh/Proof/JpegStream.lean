import EspMesh.Model.ToJpg
import EspMesh.Proof.JpegOutput

/-! # Streams

A stream that takes everything gets a file in pieces, and then the end. The memory stream keeps what
there is room for.
-/

namespace EspMesh.Jpge
set_option autoImplicit false

variable {σ : Type} {str : OutputStream σ}

/-! ## Pieces -/

def Accepts (str : OutputStream σ) : Prop := ∀ s d, (str.putBuf s d).2 = true

/-- The output when a picture begins. -/
def startOutput (s : σ) : Output σ :=
  { stream := s, outBuf := [], bitBuffer := 0, bitsIn := 0, allStreamWritesSucceeded := true }

/-- What the stream becomes by taking pieces. -/
def takePieces (str : OutputStream σ) (s : σ) (pieces : List (List UInt8)) : σ :=
  pieces.foldl (fun s c => (str.putBuf s (some c)).1) s

/-- The end of a file, behind the bytes of `file`. -/
def sendFile (str : OutputStream σ) (s : σ) (file : List UInt8) : σ :=
  ((((startOutput s).emitBytes str file).flushOutputBuffer str).write str none).stream

/-- The stream has all but what is in the buffer. -/
structure Sent (str : OutputStream σ) (s : σ) (l : List UInt8) (pieces : List (List UInt8))
    (o : Output σ) : Prop where
  all : pieces.flatten ++ o.outBuf = l
  full : ∀ c ∈ pieces, c.length = outBufSize
  room : o.outBuf.length < outBufSize
  stream : o.stream = takePieces str s pieces
  ok : o.allStreamWritesSucceeded = true

variable {s : σ} {l : List UInt8} {pieces : List (List UInt8)} {o : Output σ}

theorem Output.write_ok (hacc : Accepts str) (hok : o.allStreamWritesSucceeded = true)
    (d : Option (List UInt8)) :
    o.write str d = { o with stream := (str.putBuf o.stream d).1 } := by
  rw [Output.write, if_pos hok]
  dsimp only
  rw [hacc, hok]

theorem Output.flush_ok (hacc : Accepts str) (hok : o.allStreamWritesSucceeded = true)
    (hne : o.outBuf ≠ []) (hle : o.outBuf.length ≤ outBufSize) :
    o.flushOutputBuffer str =
      { o with stream := (str.putBuf o.stream (some o.outBuf)).1, outBuf := [] } := by
  have hpos := List.length_pos_iff.mpr hne
  have hleft : o.outBufLeft ≠ outBufSize := by
    rw [outBufSize] at hle
    rw [Output.outBufLeft, outBufSize]
    omega
  rw [Output.flushOutputBuffer, if_pos hleft, Output.write_ok hacc hok]

theorem Output.flush_empty (hnil : o.outBuf = []) : o.flushOutputBuffer str = o := by
  have hleft : o.outBufLeft = outBufSize := by rw [Output.outBufLeft, hnil]; rfl
  rw [Output.flushOutputBuffer, if_neg (not_not.mpr hleft), ← hnil]

theorem Output.write_flush_ok (hacc : Accepts str) (hok : o.allStreamWritesSucceeded = true)
    (d : Option (List UInt8)) :
    ((o.flushOutputBuffer str).write str d).allStreamWritesSucceeded = true := by
  have hflush : (o.flushOutputBuffer str).allStreamWritesSucceeded = true := by
    unfold Output.flushOutputBuffer
    dsimp only
    split
    · rw [Output.write_ok hacc hok]
      exact hok
    · exact hok
  rw [Output.write_ok hacc hflush]
  exact hflush

theorem takePieces_concat (c : List UInt8) :
    takePieces str s (pieces ++ [c]) =
      (str.putBuf (takePieces str s pieces) (some c)).1 := by
  rw [takePieces, List.foldl_append]
  rfl

theorem Sent.byte (hacc : Accepts str) (h : Sent str s l pieces o) (b : UInt8) :
    ∃ pieces', Sent str s (l ++ [b]) pieces' (o.emitByte str b) := by
  have hroom := h.room
  have hall := h.all
  rw [outBufSize] at hroom
  unfold Output.emitByte
  dsimp only
  by_cases hfull : o.outBuf.length = 511
  · have hlen : (o.outBuf ++ [b]).length = outBufSize := by
      rw [List.length_append, hfull]
      rfl
    have hleft : ({ o with outBuf := o.outBuf ++ [b] } : Output σ).outBufLeft = 0 := by
      rw [Output.outBufLeft, hlen]
      rfl
    have hflush := Output.flush_ok (o := { o with outBuf := o.outBuf ++ [b] }) hacc h.ok (by simp)
      (le_of_eq hlen)
    rw [if_pos hleft, hflush]
    refine ⟨pieces ++ [o.outBuf ++ [b]], ?_, ?_, Nat.zero_lt_succ 511, ?_, h.ok⟩
    · rw [List.flatten_append, List.append_nil, ← hall]
      simp only [List.flatten_cons, List.flatten_nil, List.append_nil, List.append_assoc]
    · intro c hc
      obtain hc | hc := List.mem_append.mp hc
      · exact h.full c hc
      · rw [List.mem_singleton.mp hc, hlen]
    · rw [takePieces_concat, ← h.stream]
  · have hleft : ({ o with outBuf := o.outBuf ++ [b] } : Output σ).outBufLeft ≠ 0 := by
      rw [Output.outBufLeft, List.length_append, List.length_singleton, outBufSize]
      omega
    rw [if_neg hleft]
    refine ⟨pieces, ?_, h.full, ?_, h.stream, h.ok⟩
    · rw [← hall, List.append_assoc]
    · rw [List.length_append, List.length_singleton, outBufSize]
      omega

theorem Sent.bytes (hacc : Accepts str) (l' : List UInt8) (h : Sent str s l pieces o) :
    ∃ pieces', Sent str s (l ++ l') pieces' (o.emitBytes str l') := by
  induction l' generalizing l pieces o with
  | nil => exact ⟨pieces, by rwa [List.append_nil]⟩
  | cons b l' ih =>
    obtain ⟨pieces', h'⟩ := h.byte hacc b
    rw [List.append_cons]
    exact ih h'

theorem sent_start (str : OutputStream σ) (s : σ) : Sent str s [] [] (startOutput s) where
  all := rfl
  full _ hc := absurd hc List.not_mem_nil
  room := Nat.zero_lt_succ 511
  stream := rfl
  ok := rfl

/-- A file reaches a stream in pieces of at most 512 bytes, in their order and before the end. -/
theorem sendFile_pieces (hacc : Accepts str) (s : σ) (file : List UInt8) :
    ∃ pieces : List (List UInt8), pieces.flatten = file ∧
      (∀ c ∈ pieces, c ≠ [] ∧ c.length ≤ outBufSize) ∧
      sendFile str s file = (str.putBuf (takePieces str s pieces) none).1 := by
  obtain ⟨pieces, h⟩ := (sent_start str s).bytes hacc file
  rw [List.nil_append] at h
  have hfull : ∀ c ∈ pieces, c ≠ [] ∧ c.length ≤ outBufSize := by
    intro c hc
    have hlen := h.full c hc
    refine ⟨?_, le_of_eq hlen⟩
    intro hnil
    rw [hnil] at hlen
    exact absurd hlen (by decide)
  unfold sendFile
  generalize (startOutput s).emitBytes str file = o at *
  by_cases hnil : o.outBuf = []
  · refine ⟨pieces, ?_, hfull, ?_⟩
    · rw [← h.all, hnil, List.append_nil]
    · rw [Output.flush_empty hnil, Output.write_ok hacc h.ok, h.stream]
  · refine ⟨pieces ++ [o.outBuf], ?_, ?_, ?_⟩
    · rw [← h.all, List.flatten_append, List.flatten_singleton]
    · intro c hc
      obtain hc | hc := List.mem_append.mp hc
      · exact hfull c hc
      · rw [List.mem_singleton.mp hc]
        exact ⟨hnil, le_of_lt h.room⟩
    · have hwrite := Output.write_ok (o :=
        { o with stream := (str.putBuf o.stream (some o.outBuf)).1, outBuf := [] }) hacc h.ok none
      rw [Output.flush_ok hacc h.ok hnil (le_of_lt h.room), hwrite, takePieces_concat, ← h.stream]

/-! ## The streams of `to_jpg.cpp` -/

theorem memoryStream_accepts : Accepts memoryStream := by
  intro s d
  cases d <;> rfl

theorem callbackStream_accepts {τ : Type} (ocb : τ → ℕ → Option (List UInt8) → τ × ℕ) :
    Accepts (callbackStream ocb) := fun _ _ => rfl

theorem memoryStream_put (s : MemoryStream) (buf : List UInt8)
    (h : s.outBuf.length ≤ s.maxLen) :
    (memoryStream.putBuf s (some buf)).1 =
      { s with outBuf := (s.outBuf ++ buf).take s.maxLen } := by
  have htake : (s.outBuf ++ buf).take s.maxLen =
      s.outBuf ++ buf.take (s.maxLen - s.outBuf.length) := by
    rw [List.take_append, List.take_of_length_le h]
  rw [htake, memoryStream]
  dsimp only
  by_cases hlong : buf.length > s.maxLen - s.outBuf.length
  · rw [if_pos hlong]
  · rw [if_neg hlong, List.take_of_length_le (le_refl _), List.take_of_length_le (by omega)]

theorem memoryStream_pieces (pieces : List (List UInt8)) (s : MemoryStream)
    (h : s.outBuf.length ≤ s.maxLen) :
    takePieces memoryStream s pieces =
      { s with outBuf := (s.outBuf ++ pieces.flatten).take s.maxLen } := by
  induction pieces generalizing s with
  | nil =>
    show s = _
    rw [List.flatten_nil, List.append_nil, List.take_of_length_le h]
  | cons c pieces ih =>
    have hput := memoryStream_put s c h
    rw [takePieces, List.foldl_cons, hput]
    have hrest := ih { s with outBuf := (s.outBuf ++ c).take s.maxLen }
      (by rw [List.length_take]; exact Nat.min_le_left _ _)
    rw [takePieces] at hrest
    rw [hrest, List.flatten_cons, ← List.append_assoc]
    simp only [MemoryStream.mk.injEq, and_true]
    generalize s.outBuf ++ c = a
    rw [List.take_append, List.take_append, List.take_take, Nat.min_self, List.length_take]
    congr 2
    omega

/-- The memory holds the file, up to its size. -/
theorem memoryStream_file (n : ℕ) (file : List UInt8) :
    sendFile memoryStream { outBuf := [], maxLen := n } file =
      { outBuf := file.take n, maxLen := n } := by
  obtain ⟨pieces, hfile, -, hsend⟩ :=
    sendFile_pieces memoryStream_accepts { outBuf := [], maxLen := n } file
  rw [hsend, memoryStream_pieces _ _ (Nat.zero_le _), hfile]
  rfl

/-- The length of the pieces that are sent, when `n` chunks were given before. -/
def sentLength (sendOk : ℕ → Bool) (pieces : List (List UInt8)) (n : ℕ) : ℕ :=
  (((pieces.zipIdx n).filter fun c => sendOk c.2).map fun c => c.1.length).sum

/-- `index` and `len` of the request never differ. -/
theorem jpgEncodeStream_eq (sendOk : ℕ → Bool) (chunks : List (Option (List UInt8))) (n : ℕ)
    (data : Option (List UInt8)) :
    let sent := if sendOk chunks.length then (data.getD []).length else 0
    jpgEncodeStream sendOk ⟨chunks, n⟩ n data = (⟨chunks ++ [data], n + sent⟩, sent) := by
  have hlen : (if n = 0 then { chunks := chunks, len := 0 } else ⟨chunks, n⟩ : JpgChunking) =
      ⟨chunks, n⟩ := by
    split
    · rename_i hzero
      rw [hzero]
    · rfl
  unfold jpgEncodeStream
  dsimp only
  rw [hlen]
  cases sendOk chunks.length <;> rfl

theorem encodeStream_pieces (sendOk : ℕ → Bool) (pieces : List (List UInt8))
    (chunks : List (Option (List UInt8))) (n : ℕ) :
    takePieces (callbackStream (jpgEncodeStream sendOk)) (⟨chunks, n⟩, n) pieces =
      (⟨chunks ++ pieces.map some, n + sentLength sendOk pieces chunks.length⟩,
        n + sentLength sendOk pieces chunks.length) := by
  induction pieces generalizing chunks n with
  | nil =>
    rw [List.map_nil, List.append_nil]
    rfl
  | cons c pieces ih =>
    have hsum : sentLength sendOk (c :: pieces) chunks.length =
        (if sendOk chunks.length then c.length else 0) +
          sentLength sendOk pieces (chunks.length + 1) := by
      rw [sentLength, List.zipIdx_cons, List.filter_cons]
      dsimp only
      split
      · rfl
      · rw [Nat.zero_add]
        rfl
    have hput : ((callbackStream (jpgEncodeStream sendOk)).putBuf (⟨chunks, n⟩, n) (some c)).1 =
        (⟨chunks ++ [some c], n + if sendOk chunks.length then c.length else 0⟩,
          n + if sendOk chunks.length then c.length else 0) := by
      unfold callbackStream
      dsimp only
      rw [jpgEncodeStream_eq]
      rfl
    have hrest := ih (chunks ++ [some c]) (n + if sendOk chunks.length then c.length else 0)
    rw [takePieces] at hrest
    rw [takePieces, List.foldl_cons, hput, hrest, hsum, List.length_append, List.length_singleton,
      List.map_cons, List.append_assoc, List.singleton_append, Nat.add_assoc]

end EspMesh.Jpge
