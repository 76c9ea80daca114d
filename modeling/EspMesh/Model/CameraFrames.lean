import EspMesh.Model.NodeTask
import EspMesh.Model.RootCommand

/-! # What is done to camera frames

`capture_handler` and `stream_handler` of `app_httpd.c`, and `node_send_pic` and
`root_send_photo`, each with a trace of what it does to the frames of the camera and to the
buffers `frame2jpg` allocates. The frames one call gets are numbered from zero, and so are the
buffers.
-/

namespace EspMesh
set_option autoImplicit false
open ByteMem

/-- `pixformat_t` -/
inductive PixFormat
  | rgb565 | yuv422 | grayscale | jpeg | rgb888 | raw | rgb444 | rgb555
  deriving DecidableEq

/-- What a pointer to bytes points to: the bytes of a frame, which are the camera's, or a block
that `frame2jpg` has allocated. -/
inductive CameraObject
  | frame (n : ℕ)
  | jpg (n : ℕ)
  deriving DecidableEq

/-- `none` is NULL. A field of a `camera_fb_t` is read, or `len` bytes at a pointer. -/
inductive CameraOp
  | espCameraFbGet (fb : Option ℕ)
  | deref (fb : Option ℕ)
  | read (buf : Option CameraObject) (len : ℕ)
  | frame2jpg (out : Option ℕ)
  | espCameraFbReturn (fb : Option ℕ)
  | free (buf : Option CameraObject)
  deriving DecidableEq

/-! ## `capture_handler` -/

/-- What the calls return: a frame with its format and length, `httpd_resp_send` of it, or
`frame2jpg_cb`. -/
structure CaptureEnv where
  frame : Option (PixFormat × ℕ)
  sendOk : Bool
  convertOk : Bool

/-- The trace, the latest first, and whether the result is `ESP_OK`. -/
def captureHandler (e : CaptureEnv) : List CameraOp × Bool :=
  match e.frame with
  | none => ([.espCameraFbGet none], false)
  | some (format, len) =>
    let fb : Option ℕ := some 0
    let ops := [.deref fb, .espCameraFbGet fb]
    if format = .jpeg then
      -- `fb->len` twice and `fb->buf`
      (.espCameraFbReturn fb :: .read (some (.frame 0)) len ::
        .deref fb :: .deref fb :: .deref fb :: ops, e.sendOk)
    else (.espCameraFbReturn fb :: .read (some (.frame 0)) len :: .deref fb :: ops, e.convertOk)

/-! ## `stream_handler` -/

/-- The locals; `ok` is `res == ESP_OK`. `frames` and `jpgs` count what was obtained. -/
structure Stream where
  fb : Option ℕ
  jpgBuf : Option CameraObject
  jpgBufLen : ℕ
  ok : Bool
  running : Bool
  frames : ℕ
  jpgs : ℕ
  ops : List CameraOp

/-- What the calls of one iteration return: a frame with its format and length, `frame2jpg` with
the length of its output, and the three `httpd_resp_send_chunk`. -/
structure StreamTurn where
  frame : Option (PixFormat × ℕ)
  frame2jpg : Option ℕ
  partOk : Bool
  bufOk : Bool
  boundaryOk : Bool

namespace Stream
variable (t : StreamTurn) (s : Stream)

def fbGet : Stream :=
  match t.frame with
  | none => { s with fb := none, ok := false, ops := .espCameraFbGet none :: s.ops }
  | some (format, len) =>
    let fb := some s.frames
    let s := { s with
      fb := fb
      frames := s.frames + 1
      ops := .deref fb :: .espCameraFbGet fb :: s.ops }
    if format ≠ .jpeg then
      -- `frame2jpg` reads the frame, and sets its outputs when it succeeds.
      let ops := .read (fb.map .frame) len :: .deref fb :: s.ops
      match t.frame2jpg with
      | some jpgLen =>
        { s with
          fb := none
          jpgBuf := some (.jpg s.jpgs)
          jpgBufLen := jpgLen
          jpgs := s.jpgs + 1
          ops := .espCameraFbReturn fb :: .frame2jpg (some s.jpgs) :: ops }
      | none =>
        { s with
          fb := none
          ok := false
          ops := .espCameraFbReturn fb :: .frame2jpg none :: ops }
    else
      { s with
        jpgBuf := fb.map .frame
        jpgBufLen := len
        ops := .deref fb :: .deref fb :: s.ops }

def sendPart : Stream := if s.ok then { s with ok := t.partOk } else s

def sendBuf : Stream :=
  if s.ok then { s with ok := t.bufOk, ops := .read s.jpgBuf s.jpgBufLen :: s.ops } else s

def sendBoundary : Stream := if s.ok then { s with ok := t.boundaryOk } else s

def giveBack : Stream :=
  if s.fb ≠ none then
    { s with fb := none, jpgBuf := none, ops := .espCameraFbReturn s.fb :: s.ops }
  else if s.jpgBuf ≠ none then { s with jpgBuf := none, ops := .free s.jpgBuf :: s.ops }
  else s

end Stream

/-- One iteration; none follows one that ends with an error. -/
def Stream.turn (s : Stream) (t : StreamTurn) : Stream :=
  if s.running then
    let s := ((((s.fbGet t).sendPart t).sendBuf t).sendBoundary t).giveBack
    { s with running := s.ok }
  else s

/-- In front of the loop; a failed `httpd_resp_set_type` returns at once. -/
def streamHandler (setTypeOk : Bool) : Stream where
  fb := none
  jpgBuf := none
  jpgBufLen := 0
  ok := setTypeOk
  running := setTypeOk
  frames := 0
  jpgs := 0
  ops := []

/-! ## `node_send_pic` and `root_send_photo`

The functions as before, with the trace beside the packets. -/

structure CameraIo where
  io : Io
  ops : List CameraOp

def CameraIo.op (op : CameraOp) (s : CameraIo) : CameraIo := { s with ops := op :: s.ops }

@[simp] theorem CameraIo.op_io (op : CameraOp) (s : CameraIo) : (s.op op).io = s.io := rfl

@[simp] theorem CameraIo.op_ops (op : CameraOp) (s : CameraIo) : (s.op op).ops = op :: s.ops := rfl

def CameraIo.modify (f : Io → Io) (s : CameraIo) : CameraIo := { s with io := f s.io }

/-- With a frame, whose `buf` and `len` have been read. -/
def CameraIo.opened (io : Io) : CameraIo :=
  ⟨io, [.deref (some 0), .deref (some 0), .espCameraFbGet (some 0)]⟩

def nodePhotoLoopOps (fb : CameraFb) (writeOk : ℕ → Bool) :
    ℕ → ℕ → ℕ → CameraIo → CameraIo × Option (ℕ × ℕ)
  | 0, i, size, s => (s, some (i, size))
  | n + 1, i, size, s =>
    let s := (s.op (.read (some (.frame 0)) packetBodyLen)).modify fun io =>
      nodeWrite <| io.modify fun m => m.store 0 (word16 (i + 1))
        |>.store u8Data (fb.slice (packetBodyLen * i) packetBodyLen)
    if writeOk i then
      nodePhotoLoopOps fb writeOk n (i + 1) ((size + 4294967296 - packetBodyLen) % 4294967296) s
    else (s, none)

def nodePhotoLastOps (fb : CameraFb) (writeOk : ℕ → Bool) :
    CameraIo × Option (ℕ × ℕ) → CameraIo × Bool
  | (s, none) => (s, false)
  | (s, some (i, size)) =>
    let s := (s.op (.read (some (.frame 0)) (size % 65536))).modify fun io =>
      nodeWrite <| io.modify fun m => m.store 0 (word16 (i + 1))
        |>.store u16DataLen (word16 size)
        |>.store u8Data (fb.slice (packetBodyLen * i) (size % 65536))
    -- The length is logged once more when everything was sent.
    (if writeOk i then s.op (.deref (some 0)) else s, writeOk i)

def nodeSendPicOps (fb : Option CameraFb) (writeOk : ℕ → Bool) (io : Io) : CameraIo × Bool :=
  match fb with
  | none => (⟨io, [.espCameraFbGet none]⟩, false)
  | some fb =>
    let maxCount := picMaxCount fb.len
    let s := CameraIo.opened <| io.modify fun m => m.store u16MaxCount (word16 maxCount)
      |>.store u16DataLen (word16 packetBodyLen)
    (nodePhotoLastOps fb writeOk
      (nodePhotoLoopOps fb writeOk ((maxCount + 65535) % 65536) 0 fb.len s)).map
      (CameraIo.op (.espCameraFbReturn (some 0))) id

def rootPhotoLoopOps (fb : CameraFb) (p maxCount : ℕ) (sendOk : ℕ → Bool) :
    ℕ → ℕ → ℕ → CameraIo → CameraIo × ℕ × ℕ
  | 0, count, size, s => (s, count, size)
  | n + 1, count, size, s =>
    let data := fb.slice (packetBodyLen * (count - 1)) packetBodyLen
    let s := (s.op (.read (some (.frame 0)) packetBodyLen)).modify fun io =>
      sendSlot p (io.modify (picPacket (p + tNode) count maxCount packetBodyLen data))
    if sendOk count then
      rootPhotoLoopOps fb p maxCount sendOk n (count + 1) (size - packetBodyLen) s
    else (s, count, 0)

/-- `system_reboot` returns, and the NULL is dereferenced behind it. -/
def rootSendPhotoOps (w : World) (p : ℕ) (e : CmdEnv) (io : Io) : CameraIo :=
  match w.gSockfd, e.camera with
  | none, _ => ⟨io, []⟩
  | some _, none =>
    ⟨(io.emit .systemReboot).emit .nullFrame, [.deref none, .espCameraFbGet none]⟩
  | some _, some fb =>
    let maxCount := picMaxCount fb.len
    let s := CameraIo.opened <| io.modify fun m => m.store p w.gSelfMac.val
    let (s, count, size) := rootPhotoLoopOps fb p maxCount e.sendOk (maxCount - 1) 1 fb.len s
    let s := if size = 0 then s
      else
        let data := fb.slice (packetBodyLen * (count - 1)) packetBodyLen
        (s.op (.read (some (.frame 0)) packetBodyLen)).modify fun io =>
          sendSlot p (io.modify (picPacket (p + tNode) count maxCount size data))
    s.op (.espCameraFbReturn (some 0))

end EspMesh
