import EspMesh.Library.Ownership
import EspMesh.Library.StepRuns
import EspMesh.Model.CameraFrames
import EspMesh.Proof.NodePhoto
import EspMesh.Proof.RootStep

/-! # Every camera frame is given back

A handler is followed through its trace with what it holds. `stream_handler` holds, behind its
camera, one frame, one converted buffer or nothing, and its two pointers say which; with nothing
it has failed, so that nothing is read. The frame `root_send_photo` does not get is the only one
used all the same.
-/

namespace EspMesh
set_option autoImplicit false
open ByteMem Ownership StepRuns

def CameraOp.access : CameraOp → Option (Access CameraObject)
  | .espCameraFbGet fb => fb.map fun n => .acquire (.frame n)
  | .deref fb => some (.use (fb.map .frame))
  | .read buf _ => some (.use buf)
  | .frame2jpg out => out.map fun n => .acquire (.jpg n)
  | .espCameraFbReturn fb => some (.release (fb.map .frame))
  | .free buf => some (.release buf)

/-- No NULL is used; each frame and each converted buffer is used only while it is held, and
given back once; `free` gets no bytes of the camera. -/
structure FramesKept (ops : List CameraOp) : Prop where
  disciplined : Disciplined (ops.filterMap CameraOp.access)
  no_frame_freed : ∀ n, .free (some (.frame n)) ∉ ops

/-! ## Following a trace -/

structure Keeps (ops : List CameraOp) (held : List CameraObject) : Prop where
  holds : Custody (ops.filterMap CameraOp.access) held
  no_frame_freed : ∀ n, .free (some (.frame n)) ∉ ops

section Rules
variable {ops : List CameraOp} {held : List CameraObject} {n : ℕ}

theorem Keeps.framesKept (h : Keeps ops []) : FramesKept ops :=
  ⟨h.holds.disciplined, h.no_frame_freed⟩

theorem Keeps.nil : Keeps [] [] := ⟨.nil, fun _ => List.not_mem_nil⟩

theorem acquire_frame_iff :
    .acquire (.frame n) ∈ ops.filterMap CameraOp.access ↔ .espCameraFbGet (some n) ∈ ops := by
  rw [List.mem_filterMap]
  constructor
  · rintro ⟨op, hop, haccess⟩
    cases op with
    | espCameraFbGet fb =>
      obtain ⟨k, rfl, hk⟩ := Option.map_eq_some_iff.mp haccess
      cases hk
      exact hop
    | frame2jpg out =>
      obtain ⟨k, rfl, hk⟩ := Option.map_eq_some_iff.mp haccess
      cases hk
    | _ => cases haccess
  · exact fun h => ⟨_, h, rfl⟩

theorem acquire_jpg_iff :
    .acquire (.jpg n) ∈ ops.filterMap CameraOp.access ↔ .frame2jpg (some n) ∈ ops := by
  rw [List.mem_filterMap]
  constructor
  · rintro ⟨op, hop, haccess⟩
    cases op with
    | espCameraFbGet fb =>
      obtain ⟨k, rfl, hk⟩ := Option.map_eq_some_iff.mp haccess
      cases hk
    | frame2jpg out =>
      obtain ⟨k, rfl, hk⟩ := Option.map_eq_some_iff.mp haccess
      cases hk
      exact hop
    | _ => cases haccess
  · exact fun h => ⟨_, h, rfl⟩

theorem Keeps.get (h : Keeps ops held) (hnew : .espCameraFbGet (some n) ∉ ops) :
    Keeps (.espCameraFbGet (some n) :: ops) (.frame n :: held) :=
  ⟨.acquire h.holds (mt acquire_frame_iff.mp hnew), by simpa using h.no_frame_freed⟩

theorem Keeps.getFailed (h : Keeps ops held) : Keeps (.espCameraFbGet none :: ops) held :=
  ⟨h.holds, by simpa using h.no_frame_freed⟩

theorem Keeps.deref (h : Keeps ops held) (hr : .frame n ∈ held) :
    Keeps (.deref (some n) :: ops) held :=
  ⟨.use h.holds hr, by simpa using h.no_frame_freed⟩

theorem Keeps.read (h : Keeps ops held) {r : CameraObject} (hr : r ∈ held) (len : ℕ) :
    Keeps (.read (some r) len :: ops) held :=
  ⟨.use h.holds hr, by simpa using h.no_frame_freed⟩

theorem Keeps.convert (h : Keeps ops held) (hnew : .frame2jpg (some n) ∉ ops) :
    Keeps (.frame2jpg (some n) :: ops) (.jpg n :: held) :=
  ⟨.acquire h.holds (mt acquire_jpg_iff.mp hnew), by simpa using h.no_frame_freed⟩

theorem Keeps.convertFailed (h : Keeps ops held) : Keeps (.frame2jpg none :: ops) held :=
  ⟨h.holds, by simpa using h.no_frame_freed⟩

theorem Keeps.fbReturn (h : Keeps ops held) (hr : .frame n ∈ held) :
    Keeps (.espCameraFbReturn (some n) :: ops) (held.erase (.frame n)) :=
  ⟨.release h.holds hr, by simpa using h.no_frame_freed⟩

theorem Keeps.free (h : Keeps ops held) (hr : .jpg n ∈ held) :
    Keeps (.free (some (.jpg n)) :: ops) (held.erase (.jpg n)) :=
  ⟨.release h.holds hr, by simpa using h.no_frame_freed⟩

theorem opened_keeps (io : Io) : Keeps (CameraIo.opened io).ops [.frame 0] :=
  have hget : Keeps [.espCameraFbGet (some 0)] [.frame 0] := Keeps.nil.get List.not_mem_nil
  (hget.deref List.mem_cons_self).deref List.mem_cons_self

theorem Keeps.close (h : Keeps ops [.frame n]) :
    FramesKept (.espCameraFbReturn (some n) :: ops) := by
  have hreturn := h.fbReturn List.mem_cons_self
  rw [List.erase_cons_head] at hreturn
  exact hreturn.framesKept

end Rules

theorem captureHandler_kept (e : CaptureEnv) : FramesKept (captureHandler e).1 := by
  have hget : Keeps [.espCameraFbGet (some 0)] [.frame 0] := Keeps.nil.get List.not_mem_nil
  unfold captureHandler
  split
  · exact Keeps.nil.getFailed.framesKept
  · have hformat := hget.deref List.mem_cons_self
    dsimp only
    split
    · have hfields := ((hformat.deref List.mem_cons_self).deref List.mem_cons_self).deref
        List.mem_cons_self
      exact (hfields.read List.mem_cons_self _).close
    · exact ((hformat.deref List.mem_cons_self).read List.mem_cons_self _).close

/-! ## `stream_handler` -/

/-- The numbers of what has been obtained lie below the counters. -/
structure Numbered (ops : List CameraOp) (frames jpgs : ℕ) : Prop where
  frames : ∀ n, .espCameraFbGet (some n) ∈ ops → n < frames
  jpgs : ∀ n, .frame2jpg (some n) ∈ ops → n < jpgs

section Numbers
variable {ops : List CameraOp} {frames jpgs : ℕ}

theorem Numbered.get (h : Numbered ops frames jpgs) :
    Numbered (.espCameraFbGet (some frames) :: ops) (frames + 1) jpgs where
  frames := fun n hn => by
    rcases List.mem_cons.mp hn with hnew | hold
    · cases hnew
      exact Nat.lt_succ_self _
    · exact Nat.lt_succ_of_lt (h.frames n hold)
  jpgs := fun n hn => h.jpgs n (by simpa using hn)

theorem Numbered.convert (h : Numbered ops frames jpgs) :
    Numbered (.frame2jpg (some jpgs) :: ops) frames (jpgs + 1) where
  frames := fun n hn => h.frames n (by simpa using hn)
  jpgs := fun n hn => by
    rcases List.mem_cons.mp hn with hnew | hold
    · cases hnew
      exact Nat.lt_succ_self _
    · exact Nat.lt_succ_of_lt (h.jpgs n hold)

/-- An operation that obtains nothing. -/
theorem Numbered.other (h : Numbered ops frames jpgs) {op : CameraOp}
    (hget : ∀ n, op ≠ .espCameraFbGet (some n)) (hconvert : ∀ n, op ≠ .frame2jpg (some n)) :
    Numbered (op :: ops) frames jpgs where
  frames := fun n hn => h.frames n ((List.mem_cons.mp hn).resolve_left (hget n).symm)
  jpgs := fun n hn => h.jpgs n ((List.mem_cons.mp hn).resolve_left (hconvert n).symm)

theorem Numbered.deref (h : Numbered ops frames jpgs) (fb : Option ℕ) :
    Numbered (.deref fb :: ops) frames jpgs := h.other (by simp) (by simp)

theorem Numbered.read (h : Numbered ops frames jpgs) (buf : Option CameraObject) (len : ℕ) :
    Numbered (.read buf len :: ops) frames jpgs := h.other (by simp) (by simp)

theorem Numbered.fbReturn (h : Numbered ops frames jpgs) (fb : Option ℕ) :
    Numbered (.espCameraFbReturn fb :: ops) frames jpgs := h.other (by simp) (by simp)

end Numbers

namespace Stream

/-- What is held behind the camera, as the pointers say it. -/
inductive Owns (s : Stream) : Prop
  | frame (n : ℕ) (hfb : s.fb = some n) (hbuf : s.jpgBuf = some (.frame n))
      (h : Keeps s.ops [.frame n])
  | jpg (n : ℕ) (hfb : s.fb = none) (hbuf : s.jpgBuf = some (.jpg n)) (h : Keeps s.ops [.jpg n])
  | nothing (hfb : s.fb = none) (hbuf : s.jpgBuf = none) (hok : s.ok = false)
      (h : Keeps s.ops [])

def Counted (s : Stream) : Prop := Numbered s.ops s.frames s.jpgs

/-- In front of an iteration and at the end. -/
structure Clear (s : Stream) : Prop where
  counted : s.Counted
  fb : s.fb = none
  jpgBuf : s.jpgBuf = none
  keeps : Keeps s.ops []

section Turn
variable {s : Stream} (t : StreamTurn)

theorem fbGet_owns (h : s.Clear) : (s.fbGet t).Owns ∧ (s.fbGet t).Counted := by
  unfold fbGet Counted
  split
  · exact ⟨.nothing rfl h.jpgBuf rfl h.keeps.getFailed, h.counted.other (by simp) (by simp)⟩
  · rename_i format len hframe
    have hget := h.keeps.get fun hold => absurd (h.counted.frames s.frames hold) (lt_irrefl _)
    have hformat := hget.deref List.mem_cons_self
    have hcounted := h.counted.get.deref (some s.frames)
    dsimp only
    split
    · have hread := (hformat.deref List.mem_cons_self).read List.mem_cons_self len
      have hcounted := (hcounted.deref (some s.frames)).read (some (.frame s.frames)) len
      split
      · -- the frame goes back as soon as it is converted
        have hconvert := hread.convert fun hold =>
          absurd (hcounted.jpgs s.jpgs hold) (lt_irrefl _)
        have hreturn := hconvert.fbReturn (List.mem_cons_of_mem _ List.mem_cons_self)
        rw [List.erase_cons_tail (by simp), List.erase_cons_head] at hreturn
        exact ⟨.jpg s.jpgs rfl rfl hreturn, hcounted.convert.fbReturn _⟩
      · have hreturn := hread.convertFailed.fbReturn List.mem_cons_self
        rw [List.erase_cons_head] at hreturn
        exact ⟨.nothing rfl h.jpgBuf rfl hreturn,
          (hcounted.other (by simp) (by simp)).fbReturn _⟩
    · have hfields := (hformat.deref List.mem_cons_self).deref List.mem_cons_self
      exact ⟨.frame s.frames rfl rfl hfields,
        (hcounted.deref (some s.frames)).deref (some s.frames)⟩

/-- As long as nothing has failed something is held, and stays so whatever a send returns. -/
theorem Owns.sent (h : s.Owns) (hok : s.ok = true) (ok : Bool) : Owns { s with ok := ok } := by
  rcases h with ⟨n, hfb, hbuf, hkeeps⟩ | ⟨n, hfb, hbuf, hkeeps⟩ | ⟨-, -, hfailed, -⟩
  · exact .frame n hfb hbuf hkeeps
  · exact .jpg n hfb hbuf hkeeps
  · exact absurd (hok.symm.trans hfailed) (by decide)

/-- The bytes sent are those of what is held. -/
theorem Owns.readBuf (h : s.Owns) (hok : s.ok = true) :
    Owns { s with ops := .read s.jpgBuf s.jpgBufLen :: s.ops } := by
  rcases h with ⟨n, hfb, hbuf, hkeeps⟩ | ⟨n, hfb, hbuf, hkeeps⟩ | ⟨-, -, hfailed, -⟩
  · refine .frame n hfb hbuf ?_
    rw [hbuf]
    exact hkeeps.read List.mem_cons_self _
  · refine .jpg n hfb hbuf ?_
    rw [hbuf]
    exact hkeeps.read List.mem_cons_self _
  · exact absurd (hok.symm.trans hfailed) (by decide)

theorem sendPart_owns (h : s.Owns ∧ s.Counted) : (s.sendPart t).Owns ∧ (s.sendPart t).Counted := by
  unfold sendPart
  split
  · rename_i hok
    exact ⟨h.1.sent hok t.partOk, h.2⟩
  · exact h

theorem sendBuf_owns (h : s.Owns ∧ s.Counted) : (s.sendBuf t).Owns ∧ (s.sendBuf t).Counted := by
  unfold sendBuf
  split
  · rename_i hok
    exact ⟨(h.1.readBuf hok).sent hok t.bufOk, h.2.read s.jpgBuf s.jpgBufLen⟩
  · exact h

theorem sendBoundary_owns (h : s.Owns ∧ s.Counted) :
    (s.sendBoundary t).Owns ∧ (s.sendBoundary t).Counted := by
  unfold sendBoundary
  split
  · rename_i hok
    exact ⟨h.1.sent hok t.boundaryOk, h.2⟩
  · exact h

theorem giveBack_clear (h : s.Owns ∧ s.Counted) : s.giveBack.Clear := by
  unfold giveBack
  rcases h.1 with ⟨n, hfb, hbuf, hkeeps⟩ | ⟨n, hfb, hbuf, hkeeps⟩ | ⟨hfb, hbuf, -, hkeeps⟩
  · have hreturn := hkeeps.fbReturn List.mem_cons_self
    rw [List.erase_cons_head] at hreturn
    rw [if_pos (by rw [hfb]; exact Option.some_ne_none n), hfb]
    exact ⟨h.2.fbReturn (some n), rfl, rfl, hreturn⟩
  · have hfree := hkeeps.free List.mem_cons_self
    rw [List.erase_cons_head] at hfree
    rw [if_neg (not_not.mpr hfb), if_pos (by rw [hbuf]; exact Option.some_ne_none _), hbuf]
    exact ⟨h.2.other (by simp) (by simp), hfb, rfl, hfree⟩
  · rw [if_neg (not_not.mpr hfb), if_neg (not_not.mpr hbuf)]
    exact ⟨h.2, hfb, hbuf, hkeeps⟩

theorem turn_clear (h : s.Clear) : (s.turn t).Clear := by
  unfold turn
  split
  · have hback := giveBack_clear <| sendBoundary_owns t <| sendBuf_owns t <| sendPart_owns t <|
      fbGet_owns t h
    exact ⟨hback.counted, hback.fb, hback.jpgBuf, hback.keeps⟩
  · exact h

end Turn
end Stream

/-- After any number of iterations. -/
theorem streamHandler_kept (setTypeOk : Bool) (turns : List StreamTurn) :
    FramesKept (run Stream.turn (streamHandler setTypeOk) turns).ops := by
  have hstart : (streamHandler setTypeOk).Clear :=
    ⟨⟨fun _ h => absurd h List.not_mem_nil, fun _ h => absurd h List.not_mem_nil⟩, rfl, rfl, .nil⟩
  exact (run_invariant (fun _ t h => Stream.turn_clear t h) hstart turns).keeps.framesKept

/-! ## `node_send_pic` -/

section Node
variable (fb : CameraFb) (writeOk : ℕ → Bool)

theorem nodePhotoLoopOps_io (n i size : ℕ) (s : CameraIo) :
    ((nodePhotoLoopOps fb writeOk n i size s).1.io, (nodePhotoLoopOps fb writeOk n i size s).2) =
      nodePhotoLoop fb writeOk n i size s.io := by
  induction n generalizing i size s with
  | zero => rfl
  | succ n ih =>
    rw [nodePhotoLoop, nodePhotoLoopOps]
    by_cases hok : writeOk i = true
    · simp only [if_pos hok]
      exact ih ..
    · simp only [if_neg hok]
      rfl

theorem nodePhotoLoopOps_keeps (n i size : ℕ) (s : CameraIo) (h : Keeps s.ops [.frame 0]) :
    Keeps (nodePhotoLoopOps fb writeOk n i size s).1.ops [.frame 0] := by
  induction n generalizing i size s with
  | zero => exact h
  | succ n ih =>
    have hread := h.read List.mem_cons_self packetBodyLen
    rw [nodePhotoLoopOps]
    split
    · exact ih _ _ _ hread
    · exact hread

theorem nodePhotoLastOps_io (r : CameraIo × Option (ℕ × ℕ)) :
    ((nodePhotoLastOps fb writeOk r).1.io, (nodePhotoLastOps fb writeOk r).2) =
      nodePhotoLast fb writeOk (r.1.io, r.2) := by
  obtain ⟨s, left⟩ := r
  cases left with
  | none => rfl
  | some left =>
    simp only [nodePhotoLastOps, nodePhotoLast]
    split <;> rfl

theorem nodePhotoLastOps_keeps (r : CameraIo × Option (ℕ × ℕ)) (h : Keeps r.1.ops [.frame 0]) :
    Keeps (nodePhotoLastOps fb writeOk r).1.ops [.frame 0] := by
  obtain ⟨s, left⟩ := r
  cases left with
  | none => exact h
  | some left =>
    have hread := h.read List.mem_cons_self (left.2 % 65536)
    simp only [nodePhotoLastOps]
    split
    · exact hread.deref List.mem_cons_self
    · exact hread

end Node

/-- The function is the one that sends the packets. -/
theorem nodeSendPicOps_io (fb : Option CameraFb) (writeOk : ℕ → Bool) (io : Io) :
    ((nodeSendPicOps fb writeOk io).1.io, (nodeSendPicOps fb writeOk io).2) =
      nodeSendPic fb writeOk io := by
  cases fb with
  | none => rfl
  | some fb =>
    rw [nodeSendPic_some, nodeSendPicOps]
    generalize (picMaxCount fb.len + 65535) % 65536 = n
    rw [Prod.map_fst, Prod.map_snd, CameraIo.op_io, id, nodePhotoLastOps_io, nodePhotoLoopOps_io]
    rfl

theorem nodeSendPicOps_kept (fb : Option CameraFb) (writeOk : ℕ → Bool) (io : Io) :
    FramesKept (nodeSendPicOps fb writeOk io).1.ops := by
  cases fb with
  | none => exact Keeps.nil.getFailed.framesKept
  | some fb =>
    rw [nodeSendPicOps]
    generalize (picMaxCount fb.len + 65535) % 65536 = n
    have hloop := nodePhotoLoopOps_keeps fb writeOk n 0 fb.len _ (opened_keeps
      (io.modify fun m => m.store u16MaxCount (word16 (picMaxCount fb.len))
        |>.store u16DataLen (word16 packetBodyLen)))
    rw [Prod.map_fst, CameraIo.op_ops]
    exact (nodePhotoLastOps_keeps fb writeOk _ hloop).close

/-! ## `root_send_photo` -/

section Root
variable (fb : CameraFb) (p maxCount : ℕ) (sendOk : ℕ → Bool)

theorem rootPhotoLoopOps_io (n count size : ℕ) (s : CameraIo) :
    ((rootPhotoLoopOps fb p maxCount sendOk n count size s).1.io,
        (rootPhotoLoopOps fb p maxCount sendOk n count size s).2) =
      rootPhotoLoop fb p maxCount sendOk n count size s.io := by
  induction n generalizing count size s with
  | zero => rfl
  | succ n ih =>
    rw [rootPhotoLoop, rootPhotoLoopOps]
    by_cases hok : sendOk count = true
    · simp only [if_pos hok]
      exact ih ..
    · simp only [if_neg hok]
      rfl

theorem rootPhotoLoopOps_keeps (n count size : ℕ) (s : CameraIo) (h : Keeps s.ops [.frame 0]) :
    Keeps (rootPhotoLoopOps fb p maxCount sendOk n count size s).1.ops [.frame 0] := by
  induction n generalizing count size s with
  | zero => exact h
  | succ n ih =>
    have hread := h.read List.mem_cons_self packetBodyLen
    rw [rootPhotoLoopOps]
    split
    · exact ih _ _ _ hread
    · exact hread

end Root

section Photo
variable (w : World) (p : ℕ) (e : CmdEnv) (io : Io)

/-- The function is the one that sends the packets. -/
theorem rootSendPhotoOps_io : (rootSendPhotoOps w p e io).io = rootSendPhoto w p e io := by
  unfold rootSendPhotoOps rootSendPhoto
  cases w.gSockfd with
  | none => rfl
  | some fd =>
    cases e.camera with
    | none => rfl
    | some fb =>
      have hloop := rootPhotoLoopOps_io fb p (picMaxCount fb.len) e.sendOk
        (picMaxCount fb.len - 1) 1 fb.len
        (CameraIo.opened (io.modify fun m => m.store p w.gSelfMac.val))
      rcases hr : rootPhotoLoopOps fb p (picMaxCount fb.len) e.sendOk (picMaxCount fb.len - 1) 1
        fb.len (CameraIo.opened (io.modify fun m => m.store p w.gSelfMac.val)) with
        ⟨s, count, size⟩
      rw [hr] at hloop
      dsimp only [CameraIo.opened, CameraIo.op] at hr hloop ⊢
      rw [← hloop, hr]
      dsimp only
      split <;> rfl

theorem rootSendPhotoOps_null (fd : ℕ) (hsock : w.gSockfd = some fd) (hcamera : e.camera = none) :
    ¬ FramesKept (rootSendPhotoOps w p e io).ops := by
  intro h
  refine h.disciplined.never_null.1 ?_
  rw [rootSendPhotoOps, hsock, hcamera]
  exact List.mem_cons_self

theorem rootSendPhotoOps_kept_iff :
    FramesKept (rootSendPhotoOps w p e io).ops ↔ w.gSockfd = none ∨ e.camera ≠ none := by
  constructor
  · intro h
    by_contra hnone
    rw [not_or, not_not] at hnone
    obtain ⟨fd, hsock⟩ := Option.ne_none_iff_exists'.mp hnone.1
    exact rootSendPhotoOps_null w p e io fd hsock hnone.2 h
  · intro h
    unfold rootSendPhotoOps
    split
    · exact Keeps.nil.framesKept
    · rename_i hsock hcamera
      exact absurd h (by rw [hsock, hcamera]; simp)
    · rename_i fb hsock hcamera
      have hloop := rootPhotoLoopOps_keeps fb p (picMaxCount fb.len) e.sendOk
        (picMaxCount fb.len - 1) 1 fb.len _
        (opened_keeps (io.modify fun m => m.store p w.gSelfMac.val))
      dsimp only
      split
      · exact hloop.close
      · exact (hloop.read List.mem_cons_self packetBodyLen).close

end Photo

/-! ## Main result -/

/-- **Frames are given back.** The four handlers keep to it, whatever the camera, the conversion
and the sends return, exactly when `root_send_photo` gets its frame or has no socket to send it
to. -/
theorem frames_kept_iff (setTypeOk : Bool) (turns : List StreamTurn) (capture : CaptureEnv)
    (camera : Option CameraFb) (writeOk : ℕ → Bool) (nodeIo : Io) (w : World) (p : ℕ) (e : CmdEnv)
    (rootIo : Io) :
    (FramesKept (run Stream.turn (streamHandler setTypeOk) turns).ops ∧
      FramesKept (captureHandler capture).1 ∧
      FramesKept (nodeSendPicOps camera writeOk nodeIo).1.ops ∧
      FramesKept (rootSendPhotoOps w p e rootIo).ops) ↔
    w.gSockfd = none ∨ e.camera ≠ none := by
  rw [← rootSendPhotoOps_kept_iff w p e rootIo]
  exact ⟨fun h => h.2.2.2, fun h => ⟨streamHandler_kept setTypeOk turns,
    captureHandler_kept capture, nodeSendPicOps_kept camera writeOk nodeIo, h⟩⟩

/-- A root with an open socket and no camera. -/
theorem no_camera_null_frame :
    let w : World := ⟨macOf 2, some 3, [], 0, serverQueueCreate, [], .boot⟩
    ¬ FramesKept (rootSendPhotoOps w 0 idleCmd ⟨⟨fun _ => 0, []⟩, []⟩).ops :=
  rootSendPhotoOps_null _ 0 idleCmd _ 3 rfl rfl

end EspMesh
