import EspMesh.Proof.CameraQueue

/-! # The picture in a frame

What the filter task takes from its queue goes into the frame where the queue has it. As long as
the task keeps up, no frame mixes the pieces of two pictures or leaves one out.
-/

namespace EspMesh
set_option autoImplicit false
open ByteMem Mem StepRuns CameraDriver

/-! ## A piece comes to the frame -/

section Pieces
variable {c : CameraConf} {s : Sensor} {d : CameraDriver} {idx : ℕ}

theorem frame_setFrame (f : FrameBuffer) : (d.setFrame d.fb f).frame = f :=
  Function.update_self _ _ _

theorem sig_eq_iff (m : Mem) : sig m = 0xffd8ff ↔ m.load 0 3 = [0xff, 0xd8, 0xff] := by
  have hbytes : m.load 0 3 = [m.byte 0, m.byte 1, m.byte 2] := rfl
  have h0 := (m.byte 0).toNat_lt
  have h1 := (m.byte 1).toNat_lt
  have h2 := (m.byte 2).toNat_lt
  rw [hbytes]
  unfold sig
  simp only [List.cons.injEq, and_true, ← UInt8.toNat_inj, UInt8.reduceToNat]
  omega

theorem no_room_iff (hfits : Fits c) (n : ℕ) :
    n * c.bufLen > (c.fbSize + 4294967296 - c.bufLen) % 4294967296 ↔
      c.fbSize < (n + 1) * c.bufLen := by
  have hroom := hfits.room
  have hword := hfits.word
  have hheader := hfits.header
  rw [Nat.succ_mul]
  omega

theorem load_starts (hfits : Fits c) (m : Mem) (x : Piece) :
    (m.store 0 (pieceBytes c x)).load 0 3 = (pieceBytes c x).take 3 := by
  have hlen : (pieceBytes c x).length = c.bufLen := hfits.piece x
  have hheader := hfits.header
  rw [← load_take _ 0 (pieceBytes c x).length 3 (by omega), load_store_self]

theorem dmaFilterBuffer_out (h : d.frame.ref = true ∨ d.frame.bad = true) :
    dmaFilterBuffer c d idx = d := by
  unfold dmaFilterBuffer
  rw [if_pos (Bool.or_eq_true_iff.mpr h)]

theorem dmaFilterBuffer_rest (c : CameraConf) (d : CameraDriver) (idx : ℕ) :
    (dmaFilterBuffer c d idx).dataReady = d.dataReady ∧
      (dmaFilterBuffer c d idx).dmaReceivedCount = d.dmaReceivedCount ∧
      (dmaFilterBuffer c d idx).dmaBuf = d.dmaBuf := by
  unfold dmaFilterBuffer
  dsimp only
  split
  · exact ⟨rfl, rfl, rfl⟩
  · split
    · exact ⟨rfl, rfl, rfl⟩
    · split
      · split <;> exact ⟨rfl, rfl, rfl⟩
      · exact ⟨rfl, rfl, rfl⟩

theorem not_out (href : d.frame.ref = false) (hbad : d.frame.bad = false) :
    ¬ (d.frame.ref || d.frame.bad) = true := by
  rw [href, hbad]
  exact Bool.false_ne_true

theorem room_one (hfits : Fits c) : ¬ c.fbSize < (0 + 1) * c.bufLen := by
  rw [Nat.zero_add, Nat.one_mul]
  exact Nat.not_lt.mpr hfits.room

/-- The frame with the piece behind those that it has. -/
def stored (c : CameraConf) (d : CameraDriver) (idx : ℕ) : FrameBuffer :=
  { d.frame with
    buf := d.frame.buf.store (d.dmaFilteredCount * c.bufLen) (pieceBytes c (d.dmaBuf idx)) }

section
variable (hfits : Fits c)
include hfits

/-- A frame without room for the piece stays as it is. -/
theorem dmaFilterBuffer_full (href : d.frame.ref = false) (hbad : d.frame.bad = false)
    (hfull : c.fbSize < (d.dmaFilteredCount + 1) * c.bufLen) : dmaFilterBuffer c d idx = d := by
  unfold dmaFilterBuffer
  rw [if_neg (not_out href hbad)]
  dsimp only
  rw [if_pos ((no_room_iff hfits _).mpr hfull)]

theorem dmaFilterBuffer_bad (hjpeg : c.pixelFormat = .jpeg) (href : d.frame.ref = false)
    (hbad : d.frame.bad = false) (hzero : d.dmaFilteredCount = 0)
    (hstarts : ¬ BeginsJpeg c (d.dmaBuf idx)) :
    dmaFilterBuffer c d idx = d.setFrame d.fb { stored c d idx with bad := true } := by
  have hload := load_starts hfits d.frame.buf (d.dmaBuf idx)
  have hsig : sig (stored c d idx).buf ≠ 0xffd8ff := by
    unfold stored
    dsimp only
    rw [hzero, Nat.zero_mul, Ne, sig_eq_iff, hload]
    exact hstarts
  unfold dmaFilterBuffer
  rw [if_neg (not_out href hbad)]
  dsimp only
  rw [if_neg ((no_room_iff hfits _).not.mpr (by rw [hzero]; exact room_one hfits)), if_pos hzero,
    if_pos ⟨hjpeg, hsig⟩]
  rfl

theorem dmaFilterBuffer_first (hjpeg : c.pixelFormat = .jpeg) (href : d.frame.ref = false)
    (hbad : d.frame.bad = false) (hzero : d.dmaFilteredCount = 0)
    (hstarts : BeginsJpeg c (d.dmaBuf idx)) :
    dmaFilterBuffer c d idx = { d.setFrame d.fb { stored c d idx with
        width := c.resolution.1
        height := c.resolution.2
        format := .jpeg } with
      dmaFilteredCount := 1 } := by
  have hload := load_starts hfits d.frame.buf (d.dmaBuf idx)
  have hsig : sig (stored c d idx).buf = 0xffd8ff := by
    unfold stored
    dsimp only
    rw [hzero, Nat.zero_mul, sig_eq_iff, hload]
    exact hstarts
  unfold dmaFilterBuffer
  rw [if_neg (not_out href hbad)]
  dsimp only
  rw [if_neg ((no_room_iff hfits _).not.mpr (by rw [hzero]; exact room_one hfits)), if_pos hzero,
    if_neg fun h => h.2 hsig, hjpeg]
  rfl

theorem dmaFilterBuffer_next (href : d.frame.ref = false) (hbad : d.frame.bad = false)
    (hsome : 0 < d.dmaFilteredCount) (hroom : (d.dmaFilteredCount + 1) * c.bufLen ≤ c.fbSize) :
    dmaFilterBuffer c d idx = { d.setFrame d.fb (stored c d idx) with
      dmaFilteredCount := d.dmaFilteredCount + 1 } := by
  unfold dmaFilterBuffer
  rw [if_neg (not_out href hbad)]
  dsimp only
  rw [if_neg ((no_room_iff hfits _).not.mpr (Nat.not_lt.mpr hroom)), if_neg (Nat.ne_of_gt hsome)]
  rfl

/-- One more piece of a picture is in the frame. -/
theorem Filling.next {seen : List Piece} (h : Filling c d seen) (idx : ℕ)
    (hroom : (d.dmaFilteredCount + 1) * c.bufLen ≤ c.fbSize) :
    Filled c (seen ++ [d.dmaBuf idx]) (d.dmaFilteredCount + 1) (stored c d idx) ∧
      d.dmaFilteredCount = seen.length := by
  have hcount : d.dmaFilteredCount = seen.length :=
    h.all.resolve_right (Nat.not_lt.mpr hroom)
  have hlen : (pieceBytes c (d.dmaBuf idx)).length = c.bufLen := hfits.piece _
  have hheader := hfits.header
  have hsome : c.bufLen ≤ d.dmaFilteredCount * c.bufLen := Nat.le_mul_of_pos_left _ h.filled.some
  refine ⟨⟨Nat.succ_pos _, ?_, ?_, ?_, h.filled.format, h.filled.size, hroom⟩, hcount⟩
  · rw [List.length_append, List.length_singleton, hcount]
  · have hbytes := load_store_next h.filled.bytes (d.dmaFilteredCount * c.bufLen)
      ((d.dmaFilteredCount + 1) * c.bufLen) (pieceBytes c (d.dmaBuf idx))
      (Nat.zero_add _).symm (by rw [Nat.succ_mul, hlen])
    refine hbytes.trans ?_
    rw [hcount, List.take_length, List.take_of_length_le
      (by rw [List.length_append, List.length_singleton]), List.flatMap_append,
      List.flatMap_singleton]
  · unfold stored
    dsimp only
    rw [load_store_off _ _ _ _ _ (.inl (by omega))]
    exact h.filled.starts

theorem Filled.first (hstarts : BeginsJpeg c (d.dmaBuf idx)) (hzero : d.dmaFilteredCount = 0) :
    Filled c [d.dmaBuf idx] 1 { stored c d idx with
      width := c.resolution.1
      height := c.resolution.2
      format := .jpeg } := by
  have hlen : (pieceBytes c (d.dmaBuf idx)).length = c.bufLen := hfits.piece _
  have hbytes := load_store_self d.frame.buf 0 (pieceBytes c (d.dmaBuf idx))
  have hload := load_starts hfits d.frame.buf (d.dmaBuf idx)
  refine ⟨Nat.one_pos, le_refl 1, ?_, ?_, rfl, rfl, ?_⟩
  · unfold stored
    dsimp only
    rw [hzero, Nat.zero_mul, Nat.one_mul, ← hlen, hbytes]
    exact (List.flatMap_singleton _ _).symm
  · unfold stored
    dsimp only
    rw [hzero, Nat.zero_mul, hload]
    exact hstarts
  · rw [Nat.one_mul]
    exact hfits.room

/-- What the queue says about the next piece is what the filter task does with it. -/
theorem piece_phase (hjpeg : c.pixelFormat = .jpeg) {p : Phase} (h : InPhase c d p)
    (hready : d.pc = .ready) :
    InPhase c (dmaFilterBuffer c d idx) (p.next c (d.dmaBuf idx)) := by
  cases h with
  | between h => exact absurd hready h
  | drops hpc h =>
    rw [dmaFilterBuffer_out h]
    exact .drops hpc h
  | starts hpc href hbad hzero =>
    rw [Phase.next]
    by_cases hstarts : BeginsJpeg c (d.dmaBuf idx)
    · rw [if_pos hstarts, dmaFilterBuffer_first hfits hjpeg href hbad hzero hstarts]
      refine .follows _ hpc ?_ ?_ ⟨?_, .inl rfl⟩
      · exact (congrArg FrameBuffer.ref (frame_setFrame _)).trans href
      · exact (congrArg FrameBuffer.bad (frame_setFrame _)).trans hbad
      · exact (congrArg (Filled c _ 1) (frame_setFrame (d := d) _)).mpr
          (Filled.first hfits hstarts hzero)
    · rw [if_neg hstarts, dmaFilterBuffer_bad hfits hjpeg href hbad hzero hstarts]
      exact .drops hpc (.inr (congrArg FrameBuffer.bad (frame_setFrame _)))
  | follows seen hpc href hbad h =>
    rw [Phase.next]
    by_cases hfull : c.fbSize < (d.dmaFilteredCount + 1) * c.bufLen
    · rw [dmaFilterBuffer_full hfits href hbad hfull]
      exact .follows _ hpc href hbad ⟨h.filled.longer (List.prefix_append _ _), .inr hfull⟩
    · have hroom := Nat.not_lt.mp hfull
      obtain ⟨hfilled, hcount⟩ := h.next hfits idx hroom
      rw [dmaFilterBuffer_next hfits href hbad h.filled.some hroom]
      refine .follows _ hpc ?_ ?_ ⟨?_, .inl ?_⟩
      · exact (congrArg FrameBuffer.ref (frame_setFrame _)).trans href
      · exact (congrArg FrameBuffer.bad (frame_setFrame _)).trans hbad
      · exact (congrArg (Filled c _ _) (frame_setFrame (d := d) _)).mpr hfilled
      · rw [List.length_append, List.length_singleton, hcount]

end

end Pieces

/-! ## The end of a picture -/

section Ends
variable {c : CameraConf} {s : Sensor} {d : CameraDriver} {i : ℕ}

/-- What is seen of a picture is in the frame that is finished. -/
theorem Filling.shot {seen : List Piece} {f : FrameBuffer} (h : Filling c d seen)
    (hends : (Phase.follows seen).Ends s) (hbuf : f.buf = d.frame.buf)
    (hformat : f.format = d.frame.format) (hwidth : f.width = d.frame.width)
    (hheight : f.height = d.frame.height)
    (hlen : f.len = jpegLen f.buf (d.dmaFilteredCount * c.bufLen)) : Shot c s f := by
  obtain ⟨⟨picture, hpicture, hprefix⟩, hdone⟩ := hends
  have hfilled : Filled c seen d.dmaFilteredCount f := by
    have hfilled := h.filled
    refine ⟨hfilled.some, hfilled.enough, ?_, ?_, ?_, ?_, hfilled.inside⟩
    · rw [hbuf]
      exact hfilled.bytes
    · rw [hbuf]
      exact hfilled.starts
    · rw [hformat]
      exact hfilled.format
    · rw [hwidth, hheight]
      exact hfilled.size
  cases hcut : s.cut with
  | false =>
    exact ⟨seen, List.mem_cons_of_mem _ (hdone hcut), _, hfilled, hlen,
      fun _ => ⟨hdone hcut, h.all⟩⟩
  | true =>
    exact ⟨picture, hpicture, _, hfilled.longer hprefix, hlen,
      fun h => absurd (hcut.symm.trans h) nofun⟩

/-- A frame in work without a reference is changed; those with one are not. -/
theorem setFrame_kept {f : FrameBuffer} (hf : f.ref = false)
    (hi : ((d.setFrame d.fb f).frames i).ref = true) :
    (d.setFrame d.fb f).frames i = d.frames i := by
  apply setFrame_of_ne
  intro hcur
  subst hcur
  rw [setFrame_self, hf] at hi
  cases hi

section Several
variable (hc : 1 < c.fbCount)
include hc

theorem cameraFbDone_between (d : CameraDriver) : (cameraFbDone c d).pc ≠ .ready := by
  unfold cameraFbDone
  rw [if_neg hc.ne']
  split <;> exact nofun

theorem cameraFbDone_rest (d : CameraDriver) :
    (cameraFbDone c d).dataReady = d.dataReady ∧
      (cameraFbDone c d).dmaReceivedCount = d.dmaReceivedCount ∧
      (cameraFbDone c d).dmaBuf = d.dmaBuf := by
  unfold cameraFbDone
  rw [if_neg hc.ne']
  split <;> exact ⟨rfl, rfl, rfl⟩

/-- A frame that gets a reference here is the one that was filled. -/
theorem cameraFbDone_frames (hi : ((cameraFbDone c d).frames i).ref = true) :
    (cameraFbDone c d).frames i = d.frames i ∨
      d.frame.ref = false ∧ (cameraFbDone c d).frames i = { d.frame with ref := true } := by
  revert hi
  unfold cameraFbDone
  rw [if_neg hc.ne']
  split
  · rename_i hfilled
    rw [Bool.and_eq_true, Bool.not_eq_true'] at hfilled
    intro hi
    by_cases hcur : i = d.fb
    · subst hcur
      exact .inr ⟨hfilled.1, setFrame_self _⟩
    · exact .inl (setFrame_of_ne _ hcur)
  · exact fun _ => .inl rfl

/-- Behind `camera_fb_done` the next picture starts. -/
theorem done_imaged {d' : CameraDriver}
    (hfeeds : Feeds c s d'.dmaReceivedCount d'.dmaBuf .starts d'.dataReady)
    (hshots : ∀ i, ((cameraFbDone c d').frames i).ref = true →
      Shot c s ((cameraFbDone c d').frames i)) : Imaged c (cameraFbDone c d') s := by
  obtain ⟨hready, hreceived, hbuf⟩ := cameraFbDone_rest hc d'
  refine ⟨⟨.starts, .between (cameraFbDone_between hc _), ?_⟩, hshots⟩
  rw [hready, hreceived, hbuf]
  exact hfeeds

/-- The frame in work has a length. -/
theorem filled_imaged {p : Phase} (hphase : InPhase c d p) (hpc : d.pc = .ready)
    (hends : p.Ends s) (hfeeds : Feeds c s d.dmaReceivedCount d.dmaBuf .starts d.dataReady)
    (hshots : ∀ i, (d.frames i).ref = true → Shot c s (d.frames i))
    (href : d.frame.ref = false) (hbad : d.frame.bad = false)
    (hlen : d.dmaFilteredCount * c.bufLen ≠ 0) :
    Imaged c (cameraFbDone c (d.setFrame d.fb { d.frame with
      len := if d.frame.format = .jpeg then jpegLen d.frame.buf (d.dmaFilteredCount * c.bufLen)
        else d.dmaFilteredCount * c.bufLen })) s := by
  refine done_imaged hc hfeeds fun i hi => ?_
  cases hphase with
  | between h => exact absurd hpc h
  | drops _ h => exact absurd h (by rw [href, hbad]; exact fun h => h.elim nofun nofun)
  | starts _ _ _ hzero => exact absurd (by rw [hzero, Nat.zero_mul]) hlen
  | follows seen _ _ _ hfilling =>
    obtain hold | ⟨-, hnew⟩ := cameraFbDone_frames hc hi
    · rw [hold] at hi ⊢
      have hsame := setFrame_kept (by exact href) hi
      rw [hsame] at hi ⊢
      exact hshots i hi
    · rw [hnew, frame_setFrame]
      refine hfilling.shot hends rfl rfl rfl rfl ?_
      dsimp only
      rw [if_pos hfilling.filled.format]

theorem finish_imaged {p : Phase} {q : List (Option ℕ)} (hpc : d.pc = .ready)
    (hphase : InPhase c d p) (hends : p.Ends s) (hqueue : d.dataReady = q)
    (hfeeds : Feeds c s d.dmaReceivedCount d.dmaBuf .starts q)
    (hshots : ∀ i, (d.frames i).ref = true → Shot c s (d.frames i)) :
    Imaged c (dmaFinishFrame c d) s := by
  subst hqueue
  unfold dmaFinishFrame
  dsimp only
  rw [if_neg hc.ne', if_neg hc.ne']
  split
  · rename_i hfree
    have href : d.frame.ref = false := by rwa [Bool.not_eq_true'] at hfree
    split
    · refine ⟨⟨.starts, .starts hpc ?_ ?_ rfl, hfeeds⟩,
        shots_of_kept hshots fun i hi => setFrame_kept href hi⟩
      · exact (congrArg FrameBuffer.ref (frame_setFrame (d := d) _)).trans href
      · exact congrArg FrameBuffer.bad (frame_setFrame (d := d) _)
    · rename_i hgood
      have hbad : d.frame.bad = false := Bool.eq_false_iff.mpr hgood
      split
      · rename_i hlen
        exact filled_imaged hc hphase hpc hends hfeeds hshots href hbad hlen
      · refine ⟨⟨.starts, .starts hpc ?_ ?_ rfl, hfeeds⟩,
          shots_of_kept hshots fun i hi => setFrame_kept (by exact href) hi⟩
        · exact (congrArg FrameBuffer.ref (frame_setFrame (d := d) _)).trans href
        · exact (congrArg FrameBuffer.bad (frame_setFrame (d := d) _)).trans hbad
  · rename_i hfree
    rw [Bool.not_eq_true', Bool.not_eq_false] at hfree
    split
    · refine done_imaged hc hfeeds (shots_of_kept hshots fun i hi => ?_)
      obtain hold | ⟨href, -⟩ := cameraFbDone_frames hc hi
      · exact hold
      · exact absurd (hfree.symm.trans href) nofun
    · exact ⟨⟨.drops, .drops hpc (.inl hfree), hfeeds.drops⟩, hshots⟩

end Several

/-- Between a frame and the next one, only references change. -/
theorem Imaged.between {d' : CameraDriver} (h : Imaged c d s)
    (hbusy : d.pc ≠ .ready) (hqueue : d'.dataReady = d.dataReady)
    (hreceived : d'.dmaReceivedCount = d.dmaReceivedCount) (hbuf : d'.dmaBuf = d.dmaBuf)
    (hphase : InPhase c d' .starts ∨ InPhase c d' .drops)
    (hkept : ∀ i, (d'.frames i).ref = true → d'.frames i = d.frames i) : Imaged c d' s := by
  obtain ⟨p, hp, hfeeds⟩ := h.feeds
  refine ⟨?_, h.shots_kept .filter hkept⟩
  cases hp with
  | between _ =>
    rw [← hqueue, ← hreceived, ← hbuf] at hfeeds
    obtain hphase | hphase := hphase
    · exact ⟨_, hphase, hfeeds⟩
    · exact ⟨_, hphase, hfeeds.drops⟩
  | drops hpc _ => exact absurd hpc hbusy
  | starts hpc _ _ _ => exact absurd hpc hbusy
  | follows _ hpc _ _ _ => exact absurd hpc hbusy

theorem freeFrame_shots (j : ℕ) (hi : ((d.freeFrame j).frames i).ref = true) :
    (d.freeFrame j).frames i = d.frames i := by
  apply freeFrame_kept
  intro hij
  subst hij
  rw [freeFrame, setFrame_self] at hi
  cases hi

theorem fresh_phase (hpc : d.pc = .ready) (hzero : d.dmaFilteredCount = 0) :
    InPhase c d .starts ∨ InPhase c d .drops := by
  cases href : d.frame.ref with
  | true => exact .inr (.drops hpc (.inl href))
  | false =>
    cases hbad : d.frame.bad with
    | true => exact .inr (.drops hpc (.inr hbad))
    | false => exact .inl (.starts hpc href hbad hzero)

theorem advance_imaged {fb : ℕ} (h : Imaged c d s) (hbusy : d.pc ≠ .ready) :
    Imaged c (advance c d fb) s := by
  unfold advance
  dsimp only
  generalize nextFree c d fb c.fbCount _ = j
  split
  · exact h.between hbusy rfl rfl rfl (fresh_phase rfl rfl) fun _ _ => rfl
  · rename_i hfree
    refine h.between hbusy rfl rfl rfl (fresh_phase rfl rfl) fun i hi => ?_
    apply setFrame_of_ne
    intro hij
    subst hij
    dsimp only at hi
    rw [setFrame_self] at hi
    exact hfree hi

section Step
variable (hfits : Fits c) (hc : 1 < c.fbCount) (hjpeg : c.pixelFormat = .jpeg)
include hfits hc hjpeg

theorem filter_imaged (h : Imaged c d s) : Imaged c (filterStep c d) s := by
  have hbusy : d.pc ≠ .ready → ∀ d' : CameraDriver, d'.dataReady = d.dataReady →
      d'.dmaReceivedCount = d.dmaReceivedCount → d'.dmaBuf = d.dmaBuf → d'.pc ≠ .ready →
      (∀ i, (d'.frames i).ref = true → d'.frames i = d.frames i) → Imaged c d' s :=
    fun hpc _ hqueue hreceived hbuf hpc' hkept =>
      h.between hpc hqueue hreceived hbuf (.inl (.between hpc')) hkept
  unfold filterStep
  split
  · rename_i hpc
    obtain ⟨p, hphase, hfeeds⟩ := h.feeds
    split
    · exact h
    · rename_i idx rest hready
      rw [hready] at hfeeds
      obtain ⟨hqueue, hreceived, hbuf⟩ := dmaFilterBuffer_rest c { d with dataReady := rest } idx
      have hsame := dmaFilterBuffer_same (d := { d with dataReady := rest }) c idx hpc
      refine ⟨⟨_, piece_phase hfits hjpeg (hphase.same rfl rfl rfl) hpc, ?_⟩,
        h.shots_kept .filter hsame.shots⟩
      rw [hqueue, hreceived, hbuf]
      exact hfeeds
    · rename_i rest hready
      rw [hready] at hfeeds
      exact finish_imaged hc (d := { d with dataReady := rest }) hpc (hphase.same rfl rfl rfl)
        hfeeds.1 rfl hfeeds.2 h.shots
  · rename_i hpc
    refine hbusy (by rw [hpc]; exact nofun) _ rfl rfl rfl ?_ fun _ _ => rfl
    dsimp only
    split <;> exact nofun
  · rename_i hpc
    have hne : d.pc ≠ .ready := by
      rw [hpc]
      exact nofun
    split
    · exact hbusy hne _ rfl rfl rfl nofun fun _ _ => rfl
    · exact hbusy hne _ rfl rfl rfl nofun fun i hi => freeFrame_shots _ hi
  · rename_i hpc
    exact hbusy (by rw [hpc]; exact nofun) _ rfl rfl rfl nofun fun _ _ => rfl
  · rename_i hpc
    have hne : d.pc ≠ .ready := by
      rw [hpc]
      exact nofun
    split
    · exact advance_imaged h hne
    · exact hbusy hne _ rfl rfl rfl hne fun i hi => freeFrame_shots _ hi

theorem imaged_step (hrun : Running d) (h : Imaged c d s)
    (e : CameraEvent) (hup : KeepsUp d e) (hfirst : OnlyFirstStarts c s e) :
    Imaged c (d.step c e) (s.note d e) := by
  cases e with
  | filter => exact filter_imaged hfits hc hjpeg h
  | dma data => exact dma_imaged hjpeg hrun h data hup hfirst
  | vsync data => exact vsync_imaged hc hjpeg hrun h data hup hfirst
  | timeout => exact timeout_imaged hc h hup
  | call =>
    unfold step
    dsimp only
    rw [if_pos hrun.started]
    exact h
  | start =>
    unfold step
    dsimp only
    rw [if_pos hrun.nobody]
    exact h
  | noVsync =>
    obtain ⟨p, hphase, hfeeds⟩ := h.feeds
    exact ⟨⟨p, hphase.same rfl rfl rfl, hfeeds⟩, h.shots⟩
  | get =>
    obtain ⟨p, hphase, hfeeds⟩ := h.feeds
    unfold step espCameraFbGet
    dsimp only
    rw [if_neg hc.ne']
    split
    · exact h
    · exact ⟨⟨p, hphase.same rfl rfl rfl, hfeeds⟩, h.shots⟩
  | giveBack fb =>
    obtain ⟨p, hphase, hfeeds⟩ := h.feeds
    unfold step espCameraFbReturn
    dsimp only
    rw [if_neg hc.ne']
    split
    · exact ⟨⟨p, hphase.same rfl rfl rfl, hfeeds⟩, h.shots⟩
    · exact h

end Step

theorem init_imaged (c : CameraConf) : Imaged c c.init .start :=
  ⟨⟨.starts, .starts rfl rfl rfl rfl, trivial⟩, nofun⟩

end Ends

/-! ## Main result -/

theorem cameraInit_jpeg {s : CameraConfig} {c : CameraConf} (h : s.cameraInit = some c)
    (hjpeg : s.pixelFormat = .jpeg) : c.pixelFormat = .jpeg ∧ c.fbCount = s.fbCount := by
  have hsizes := (Option.filter_eq_some_iff.mp h).1
  unfold CameraConfig.sizes at hsizes
  rw [hjpeg] at hsizes
  dsimp only at hsizes
  split at hsizes
  · cases hsizes
  · rw [← Option.some.inj hsizes]
    exact ⟨hjpeg, rfl⟩

def smallConfig : CameraConfig where
  pid := .ov2640
  xclkFreqHz := 20000000
  pixelFormat := .jpeg
  frameSize := .qqvga2
  jpegQuality := 10
  fbCount := 2

def smallConf : CameraConf :=
  smallConfig.dmaDescInit 2 4 2 (smallConfig.width * smallConfig.height * 2 / 10) dmaFilterJpeg

def pieceOf (bytes : ℕ → UInt8) : Piece := fun i => ⟨0, 0, bytes i, 0⟩

def firstPiece : Piece := pieceOf fun i => if i = 0 ∨ i = 2 then 0xff else if i = 1 then 0xd8 else 1

def lastPiece : Piece := pieceOf fun i => if i = 252 then 0xff else if i = 253 then 0xd9 else 0

/-- The filter task takes each piece, ends the frame and sends it, and a user takes it. -/
def twoPieces : List CameraEvent :=
  [.dma firstPiece, .filter, .vsync lastPiece, .filter, .filter, .filter, .filter, .get]

def smallRun : CameraDriver × Sensor :=
  run (observe (step smallConf) Sensor.note) (smallConf.init, .start) twoPieces

end EspMesh
