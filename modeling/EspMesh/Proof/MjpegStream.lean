import EspMesh.Library.LengthParts
import EspMesh.Model.MjpegStream
import EspMesh.Proof.StatusPage
import EspMesh.Proof.ToJpg

/-! # The stream of pictures

The response of `stream_handler` is parts that tell their length. So a client reads the pictures of
all frames that were sent to the end of their part, and nothing else.
-/

namespace EspMesh.Jpge
set_option autoImplicit false
open BaselineJpeg JsonText LengthParts StepRuns

/-! ## Parts -/

def mjpegFormat : LengthParts.Format where
  head := streamPartHead
  close := streamPartClose
  boundary := streamBoundary
  closes := ⟨13, [10, 13, 10], rfl, by decide⟩

theorem digitsValue_append (ds : List UInt8) (d : UInt8) :
    digitsValue (ds ++ [d]) = 10 * digitsValue ds + (d.toNat - 48) := by
  rw [digitsValue, List.foldl_append]
  rfl

theorem printUnsigned_value (n : ℕ) : digitsValue (printUnsigned n) = n := by
  have hdigit : ∀ m < 10, (UInt8.ofNat (48 + m)).toNat - 48 = m := by decide
  fun_induction printUnsigned n with
  | case1 n hn =>
    have happend := digitsValue_append [] (UInt8.ofNat (48 + n))
    rw [List.nil_append, hdigit n hn] at happend
    exact happend.trans (Nat.zero_add n)
  | case2 n hn ih =>
    rw [digitsValue_append, ih, hdigit _ (Nat.mod_lt n (by decide)), Nat.div_add_mod]

theorem printUnsigned_reads (n : ℕ) :
    (∀ d ∈ printUnsigned n, IsDigit d) ∧ digitsValue (printUnsigned n) = n :=
  ⟨(printUnsigned_digits n).2, printUnsigned_value n⟩

/-- The chunks of a part. -/
def partChunks (jpg : List UInt8) : List (List UInt8) :=
  [streamPart jpg.length, jpg, streamBoundary]

theorem partChunks_flatten (jpg : List UInt8) :
    (partChunks jpg).flatten = part mjpegFormat (printUnsigned jpg.length) jpg := by
  simp [partChunks, part, mjpegFormat, streamPart]

theorem streamPart_ne_nil (len : ℕ) : streamPart len ≠ [] := by
  have hne : streamPartHead ≠ [] := by decide
  exact List.append_ne_nil_of_left_ne_nil hne _

theorem streamBoundary_ne_nil : streamBoundary ≠ [] := List.cons_ne_nil _ _

/-- Chunks of which no part is read. -/
structure Unfinished (chunks : List (List UInt8)) : Prop where
  full : ∀ c ∈ chunks, c ≠ []
  unread : readPart mjpegFormat chunks.flatten = none

theorem partChunks_full {jpg : List UInt8} (hjpg : jpg ≠ []) : ∀ c ∈ partChunks jpg, c ≠ [] := by
  intro c hc
  simp only [partChunks, List.mem_cons, List.not_mem_nil, or_false] at hc
  obtain rfl | rfl | rfl := hc
  · exact streamPart_ne_nil _
  · exact hjpg
  · exact streamBoundary_ne_nil

theorem unfinished_of (jpg : List UInt8) (chunks more : List (List UInt8))
    (h : partChunks jpg = chunks ++ more) (hjpg : jpg ≠ []) (hmore : more ≠ []) :
    Unfinished chunks := by
  have hfull : ∀ c ∈ chunks ++ more, c ≠ [] := by
    rw [← h]
    exact partChunks_full hjpg
  have hflat : chunks.flatten ++ more.flatten =
      part mjpegFormat (printUnsigned jpg.length) jpg := by
    rw [← List.flatten_append, ← h, partChunks_flatten]
  have hne : more.flatten ≠ [] := by
    obtain ⟨c, cs, rfl⟩ := List.exists_cons_of_ne_nil hmore
    have hc := hfull c (List.mem_append_right _ List.mem_cons_self)
    rw [List.flatten_cons]
    exact List.append_ne_nil_of_left_ne_nil hc _
  obtain ⟨hdigits, hvalue⟩ := printUnsigned_reads jpg.length
  exact ⟨fun c hc => hfull c (List.mem_append_left _ hc),
    readPart_unfinished hdigits hvalue hflat hne⟩

theorem unfinished_nil : Unfinished [] :=
  unfinished_of [0] [] (partChunks [0]) rfl (List.cons_ne_nil _ _) (List.cons_ne_nil _ _)

/-! ## Pictures -/

def MjpegFrame.Sound (fb : MjpegFrame) : Prop :=
  if fb.format = .jpeg then 0 < fb.len
  else (0 < fb.width ∧ fb.width < 65536) ∧ (0 < fb.height ∧ fb.height < 65536) ∧
    Convertible fb.width fb.format

/-- The picture of a frame: the frame itself, or the first 64 KiB of a file that is read as it. -/
def MjpegFrame.Shows (fb : MjpegFrame) (jpg : List UInt8) : Prop :=
  if fb.format = .jpeg then jpg = (List.range fb.len).map fb.buf
  else ∃ file, BaselineJpeg.read file =
      some (framePicture fb.buf fb.width fb.height fb.format 80) ∧ jpg = file.take jpgBufLen

namespace MjpegTurn

/-- Memory is there for the picture. -/
def allocates (t : MjpegTurn) (fb : MjpegFrame) : Bool :=
  fb.format = .jpeg || t.jpgBuf && t.mallocs.mcuLines.isSome && t.mallocs.line.isSome

/-- The frame, when its part is sent to the end. -/
def shown (t : MjpegTurn) : Option MjpegFrame :=
  t.frame.filter fun fb => t.allocates fb && t.partOk && t.bufOk && t.boundaryOk

end MjpegTurn

/-- The frames in front of the first that is not sent. -/
def shownFrames : List MjpegTurn → List MjpegFrame
  | [] => []
  | t :: ts =>
    match t.shown with
    | none => []
    | some fb => fb :: shownFrames ts

theorem fmt2jpg_fails (s : Statics) (src : ℕ → UInt8) (width height : ℕ) (format : PixFormat)
    (quality : ℕ) {jpgBuf : Bool} {m : Mallocs}
    (h : (jpgBuf && m.mcuLines.isSome && m.line.isSome) = false) :
    (fmt2jpg s src width height format quality jpgBuf m).2 = none := by
  rw [fmt2jpg]
  cases jpgBuf with
  | false => rfl
  | true =>
    have hm : m.mcuLines = none ∨ m.line = none := by
      rwa [Bool.true_and, Bool.and_eq_false_iff, Option.isSome_eq_false_iff,
        Option.isSome_eq_false_iff, Option.isNone_iff_eq_none, Option.isNone_iff_eq_none] at h
    have hok := convertImage_fails memoryStream s src width height format quality
      { outBuf := [], maxLen := jpgBufLen } hm
    rw [if_pos rfl]
    dsimp only
    rw [hok, if_neg Bool.false_ne_true]

variable {statics : Statics} {fb : MjpegFrame} {t : MjpegTurn}

theorem jpg_kept (hs : Kept statics) (t : MjpegTurn) (fb : MjpegFrame) :
    Kept (MjpegStream.jpg t statics fb).1 := by
  unfold MjpegStream.jpg
  split
  · exact hs.fmt2jpg _ _ _ _ _ _ _
  · exact hs

theorem shows_frame (h : fb.format = .jpeg) : fb.Shows ((List.range fb.len).map fb.buf) := by
  rw [MjpegFrame.Shows, if_pos h]

theorem shows_file (h : fb.format ≠ .jpeg) {file : List UInt8} (hread : BaselineJpeg.read file =
    some (framePicture fb.buf fb.width fb.height fb.format 80)) :
    fb.Shows (file.take jpgBufLen) := by
  rw [MjpegFrame.Shows, if_neg h]
  exact ⟨file, hread, rfl⟩

/-- There is a picture exactly when there is memory for it. -/
theorem jpg_cases (hs : Kept statics) (hfb : fb.Sound) (t : MjpegTurn) :
    (t.allocates fb = true ∧ ∃ jpg, (MjpegStream.jpg t statics fb).2 = some jpg ∧ fb.Shows jpg ∧
      jpg ≠ []) ∨ (t.allocates fb = false ∧ (MjpegStream.jpg t statics fb).2 = none) := by
  rw [MjpegFrame.Sound] at hfb
  rw [MjpegStream.jpg, MjpegTurn.allocates]
  by_cases hjpeg : fb.format = .jpeg
  · rw [if_pos hjpeg] at hfb
    left
    rw [if_neg (fun h => h hjpeg), decide_eq_true hjpeg]
    refine ⟨rfl, _, rfl, shows_frame hjpeg, fun hnil => ?_⟩
    have hlen := congrArg List.length hnil
    rw [List.length_map, List.length_range, List.length_nil] at hlen
    omega
  · rw [if_neg hjpeg] at hfb
    obtain ⟨hwidth, hheight, hformat⟩ := hfb
    rw [if_pos hjpeg, decide_eq_false hjpeg, Bool.false_or]
    cases halloc : t.jpgBuf && t.mallocs.mcuLines.isSome && t.mallocs.line.isSome with
    | false => exact Or.inr ⟨rfl, fmt2jpg_fails statics _ _ _ _ _ halloc⟩
    | true =>
      left
      simp only [Bool.and_eq_true, Option.isSome_iff_exists] at halloc
      obtain ⟨⟨hbuf, lines, hlines⟩, line, hline⟩ := halloc
      have hmallocs : t.mallocs = ⟨some lines, some line⟩ := by rw [← hlines, ← hline]
      obtain ⟨file, hread, hjpg⟩ := fmt2jpg_file hs fb.buf hwidth hheight hformat 80 lines line
      rw [hbuf, hmallocs]
      refine ⟨rfl, _, hjpg, shows_file hjpeg hread, fun hnil => ?_⟩
      have hfile : file = [] := (List.take_eq_nil_iff.mp hnil).resolve_left (by decide)
      have hempty : BaselineJpeg.read [] = none := rfl
      rw [hfile, hempty] at hread
      cases hread

/-! ## Turns -/

theorem turn_failed {chunks : List (List UInt8)} (hframe : t.frame = some fb)
    (hjpg : (MjpegStream.jpg t statics fb).2 = none) :
    MjpegStream.turn ⟨statics, true, chunks⟩ t =
      ⟨(MjpegStream.jpg t statics fb).1, false, chunks⟩ := by
  rw [MjpegStream.turn, if_pos rfl, hframe]
  dsimp only
  rw [hjpg]

/-- The chunks of a part that are sent. -/
def MjpegTurn.sent (t : MjpegTurn) (jpg : List UInt8) : List (List UInt8) :=
  if t.partOk then
    if t.bufOk then
      if t.boundaryOk then partChunks jpg else [streamPart jpg.length, jpg]
    else [streamPart jpg.length]
  else []

theorem turn_sent {chunks : List (List UInt8)} {jpg : List UInt8} (hframe : t.frame = some fb)
    (hjpg : (MjpegStream.jpg t statics fb).2 = some jpg) :
    MjpegStream.turn ⟨statics, true, chunks⟩ t =
      ⟨(MjpegStream.jpg t statics fb).1, t.partOk && t.bufOk && t.boundaryOk,
        chunks ++ t.sent jpg⟩ := by
  rw [MjpegStream.turn, if_pos rfl, hframe]
  dsimp only
  rw [hjpg, MjpegTurn.sent]
  cases t.partOk <;> cases t.bufOk <;> cases t.boundaryOk <;>
    simp [MjpegStream.sendChunk, partChunks]

theorem sent_unfinished {jpg : List UInt8} (hjpg : jpg ≠ [])
    (h : (t.partOk && t.bufOk && t.boundaryOk) = false) : Unfinished (t.sent jpg) := by
  rw [MjpegTurn.sent]
  split
  · next hpart =>
    split
    · next hbuf =>
      rw [hpart, hbuf, Bool.and_self, Bool.true_and] at h
      rw [if_neg (Bool.eq_false_iff.mp h)]
      exact unfinished_of jpg _ [streamBoundary] rfl hjpg (List.cons_ne_nil _ _)
    · exact unfinished_of jpg _ [jpg, streamBoundary] rfl hjpg (List.cons_ne_nil _ _)
  · exact unfinished_nil

/-- A turn sends a part, or is the last one. -/
theorem turn_cases (chunks : List (List UInt8)) (hs : Kept statics)
    (ht : ∀ fb, t.frame = some fb → fb.Sound) :
    ∃ statics', Kept statics' ∧
      ((∃ fb jpg, t.shown = some fb ∧ fb.Shows jpg ∧ jpg ≠ [] ∧
        MjpegStream.turn ⟨statics, true, chunks⟩ t = ⟨statics', true, chunks ++ partChunks jpg⟩) ∨
      (∃ sent, t.shown = none ∧ Unfinished sent ∧
        MjpegStream.turn ⟨statics, true, chunks⟩ t = ⟨statics', false, chunks ++ sent⟩)) := by
  cases hframe : t.frame with
  | none =>
    refine ⟨statics, hs, Or.inr ⟨[], ?_, unfinished_nil, ?_⟩⟩
    · rw [MjpegTurn.shown, hframe]
      rfl
    · rw [MjpegStream.turn, if_pos rfl, hframe, List.append_nil]
  | some fb =>
    refine ⟨_, jpg_kept hs t fb, ?_⟩
    have hshown : t.shown = if t.allocates fb && t.partOk && t.bufOk && t.boundaryOk then some fb
        else none := by
      rw [MjpegTurn.shown, hframe, Option.filter_some]
    obtain ⟨halloc, jpg, hjpg, hshows, hne⟩ | ⟨halloc, hjpg⟩ := jpg_cases hs (ht fb hframe) t
    · rw [halloc, Bool.true_and] at hshown
      rw [turn_sent hframe hjpg]
      cases hok : t.partOk && t.bufOk && t.boundaryOk with
      | true =>
        left
        refine ⟨fb, jpg, ?_, hshows, hne, ?_⟩
        · rw [hshown, hok, if_pos rfl]
        · simp only [Bool.and_eq_true] at hok
          rw [MjpegTurn.sent, if_pos hok.1.1, if_pos hok.1.2, if_pos hok.2]
      | false =>
        right
        refine ⟨t.sent jpg, ?_, sent_unfinished hne hok, rfl⟩
        rw [hshown, hok, if_neg Bool.false_ne_true]
    · right
      refine ⟨[], ?_, unfinished_nil, ?_⟩
      · rw [hshown, halloc, Bool.false_and, Bool.false_and, Bool.false_and,
          if_neg Bool.false_ne_true]
      · rw [turn_failed hframe hjpg, List.append_nil]

/-! ## The response -/

theorem run_stopped {s : MjpegStream} (h : s.ok = false) (ts : List MjpegTurn) :
    run MjpegStream.turn s ts = s := by
  induction ts with
  | nil => rfl
  | cons t ts ih =>
    have hturn : s.turn t = s := by rw [MjpegStream.turn, if_neg (Bool.eq_false_iff.mp h)]
    rw [run_cons, hturn, ih]

theorem run_chunks (chunks : List (List UInt8)) (hs : Kept statics) {ts : List MjpegTurn}
    (hts : ∀ t ∈ ts, ∀ fb, t.frame = some fb → fb.Sound) :
    ∃ jpgs sent, List.Forall₂ MjpegFrame.Shows (shownFrames ts) jpgs ∧ (∀ jpg ∈ jpgs, jpg ≠ []) ∧
      Unfinished sent ∧ (run MjpegStream.turn ⟨statics, true, chunks⟩ ts).chunks =
        chunks ++ jpgs.flatMap partChunks ++ sent := by
  induction ts generalizing statics chunks with
  | nil => exact ⟨[], [], List.Forall₂.nil, by simp, unfinished_nil, by simp⟩
  | cons t ts ih =>
    obtain ⟨ht, hts⟩ := List.forall_mem_cons.mp hts
    obtain ⟨statics', hs', hturn⟩ := turn_cases chunks hs ht
    obtain ⟨fb, jpg, hshown, hshows, hne, hturn⟩ | ⟨sent, hshown, hsent, hturn⟩ := hturn
    · obtain ⟨jpgs, sent, hall, hfull, hsent, hchunks⟩ :=
        ih (chunks ++ partChunks jpg) hs' hts
      refine ⟨jpg :: jpgs, sent, ?_, List.forall_mem_cons.mpr ⟨hne, hfull⟩, hsent, ?_⟩
      · rw [shownFrames, hshown]
        exact List.Forall₂.cons hshows hall
      · rw [run_cons, hturn, hchunks, List.flatMap_cons, List.append_assoc chunks]
    · refine ⟨[], sent, ?_, by simp, hsent, ?_⟩
      · rw [shownFrames, hshown]
        exact List.Forall₂.nil
      · rw [run_cons, hturn, run_stopped rfl, List.flatMap_nil, List.append_nil]

theorem flatten_partChunks (jpgs : List (List UInt8)) :
    (jpgs.flatMap partChunks).flatten = parts mjpegFormat printUnsigned jpgs := by
  induction jpgs with
  | nil => rfl
  | cons jpg jpgs ih =>
    rw [List.flatMap_cons, List.flatten_append, partChunks_flatten, ih]
    rfl

/-- **The pictures of the stream are read**: those of the frames whose parts were sent, in their
order. -/
theorem stream_reads {s : Statics} (hs : Called s) {ts : List MjpegTurn}
    (hts : ∀ t ∈ ts, ∀ fb, t.frame = some fb → fb.Sound) :
    List.Forall₂ MjpegFrame.Shows (shownFrames ts)
      (LengthParts.read mjpegFormat (run MjpegStream.turn ⟨s, true, []⟩ ts).body) := by
  obtain ⟨jpgs, sent, hall, hfull, hsent, hchunks⟩ := run_chunks [] hs.kept hts
  have hne : ∀ c ∈ jpgs.flatMap partChunks ++ sent, (!c.isEmpty) = true := by
    intro c hc
    rw [Bool.not_eq_true', List.isEmpty_eq_false_iff]
    obtain hc | hc := List.mem_append.mp hc
    · obtain ⟨jpg, hjpg, hc⟩ := List.mem_flatMap.mp hc
      exact partChunks_full (hfull jpg hjpg) c hc
    · exact hsent.full c hc
  rw [List.nil_append] at hchunks
  rw [MjpegStream.body, hchunks, List.takeWhile_eq_self_iff.mpr hne, List.flatten_append,
    flatten_partChunks, read_parts printUnsigned_reads hsent.unread]
  exact hall

/-- Two pixels are sent, then the frame of a camera that encodes itself. The third part is lost in
the middle. -/
theorem stream_reads_pair :
    let pixels : MjpegFrame := ⟨fun i => UInt8.ofNat (40 * i), 4, 2, 1, .yuv422⟩
    let encoded : MjpegFrame := ⟨fun i => UInt8.ofNat i, 300, 160, 120, .jpeg⟩
    let mallocs : Mallocs := ⟨some fun _ => [], some []⟩
    let turns : List MjpegTurn :=
      [⟨some pixels, true, mallocs, true, true, true⟩,
        ⟨some encoded, true, mallocs, true, true, true⟩,
        ⟨some pixels, true, mallocs, true, false, true⟩]
    List.Forall₂ MjpegFrame.Shows [pixels, encoded]
      (LengthParts.read mjpegFormat
        (run MjpegStream.turn ⟨Statics.start, true, []⟩ turns).body) := by
  intro pixels encoded mallocs turns
  have hpixels : pixels.Sound := by
    rw [MjpegFrame.Sound]
    decide
  have hencoded : encoded.Sound := by
    rw [MjpegFrame.Sound]
    decide
  show List.Forall₂ MjpegFrame.Shows (shownFrames turns) _
  refine stream_reads Called.start fun t ht fb hfb => ?_
  simp only [turns, List.mem_cons, List.not_mem_nil, or_false] at ht
  obtain rfl | rfl | rfl := ht
  · rwa [← Option.some.inj hfb]
  · rwa [← Option.some.inj hfb]
  · rwa [← Option.some.inj hfb]

end EspMesh.Jpge
