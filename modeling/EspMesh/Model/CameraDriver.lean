import EspMesh.Model.CameraFrames

/-! # `camera.c`: from the DMA buffers to the users of a frame

The filter task stops wherever it uses a queue, so that interrupts and users come in between; an
interrupt is one step. The frames are numbered in the order of `camera_fb_init`. What is in
`data_ready` is the index of a DMA buffer, and `none` is `SIZE_MAX`. With one frame there are no
queues of frames, and the bus is stopped behind each picture until a user wants the next one.
-/

namespace EspMesh
set_option autoImplicit false
open ByteMem

/-- One `dma_elem_t`. -/
structure DmaElem where
  sample2 : UInt8
  unused2 : UInt8
  sample1 : UInt8
  unused1 : UInt8

/-- `n` turns of the loop of a filter: `group` of the elements from `i` on, `step` of them in a
turn. -/
def filterTurns (step : ℕ) (group : ℕ → List UInt8) : ℕ → ℕ → List UInt8
  | 0, _ => []
  | n + 1, i => group i ++ filterTurns step group n (i + step)

/-- What `dma_filter_jpeg` writes behind `dst`; `length` is the one of the descriptor, in
bytes. -/
def dmaFilterJpeg (src : ℕ → DmaElem) (length : ℕ) : List UInt8 :=
  filterTurns 4 (fun i => [(src i).sample1, (src (i + 1)).sample1, (src (i + 2)).sample1,
    (src (i + 3)).sample1]) (length / 4 / 4) 0

/-! ## State -/

/-- What is set once: the configuration, the sizes computed from it, the filter, and the
resolution that the sensor has. `dmaLength` is the length of every descriptor. -/
structure CameraConf where
  fbCount : ℕ
  fbSize : ℕ
  pixelFormat : PixFormat
  width : ℕ
  height : ℕ
  fbBytesPerPixel : ℕ
  dmaPerLine : ℕ
  dmaDescCount : ℕ
  dmaLength : ℕ
  dmaFilter : (ℕ → DmaElem) → ℕ → List UInt8
  resolution : ℕ × ℕ

/-- `camera_fb_int_t` without `next` and `size`, which never change. -/
structure FrameBuffer where
  buf : Mem
  len : ℕ
  width : ℕ
  height : ℕ
  format : PixFormat
  ref : Bool
  bad : Bool

/-- Where the filter task is: at the receive from `data_ready`; in `camera_fb_done` with `fb`, at
the test of `fb_out`, at the receive from it, at the send to it, at the receive from `fb_in`. -/
inductive FilterPc
  | ready
  | test (fb : ℕ)
  | pop (fb : ℕ)
  | push (fb : ℕ)
  | drain (fb : ℕ)
  deriving DecidableEq

/-- `held` are the frames that users have got and not given back, and `starting` is how many users
wait for VSYNC in `i2s_run`. -/
structure CameraDriver where
  frames : ℕ → FrameBuffer
  fb : ℕ
  dmaReceivedCount : ℕ
  dmaFilteredCount : ℕ
  dmaDescCur : ℕ
  dmaBuf : ℕ → ℕ → DmaElem
  dataReady : List (Option ℕ)
  fbIn : List ℕ
  fbOut : List ℕ
  rxStart : Bool
  frameReady : Bool
  pc : FilterPc
  held : List ℕ
  starting : ℕ

def FrameBuffer.zero : FrameBuffer := ⟨⟨fun _ => 0, []⟩, 0, 0, 0, .rgb565, false, false⟩

/-- `*((uint32_t *)fb->buf) = 0` of an empty frame. -/
def FrameBuffer.emptied (f : FrameBuffer) : FrameBuffer :=
  { f with len := 0, buf := f.buf.fill 0 0 4 }

/-- Behind `i2s_start_bus` of the first call of `esp_camera_fb_get`. -/
def CameraConf.init (c : CameraConf) : CameraDriver where
  frames := fun _ => .zero
  fb := c.fbCount - 1
  dmaReceivedCount := 0
  dmaFilteredCount := 0
  dmaDescCur := 0
  dmaBuf := fun _ _ => ⟨0, 0, 0, 0⟩
  dataReady := []
  fbIn := []
  fbOut := []
  rxStart := true
  frameReady := false
  pc := .ready
  held := []
  starting := 0

/-- `next`: each frame is linked to the one that was made before it, the first one to the last. -/
def CameraConf.next (c : CameraConf) (i : ℕ) : ℕ := if i = 0 then c.fbCount - 1 else i - 1

/-- `buf_len` -/
def CameraConf.bufLen (c : CameraConf) : ℕ := c.width * c.fbBytesPerPixel / c.dmaPerLine

namespace CameraDriver
variable (c : CameraConf) (d : CameraDriver)

def frame : FrameBuffer := d.frames d.fb

def setFrame (i : ℕ) (f : FrameBuffer) : CameraDriver :=
  { d with frames := Function.update d.frames i f }

def freeFrame (i : ℕ) : CameraDriver :=
  d.setFrame i { d.frames i with ref := false, len := 0 }

/-! ## The bus -/

/-- `rxStart` is also whether the interrupts are enabled. -/
def i2sStartBus : CameraDriver :=
  { d with dmaDescCur := 0, dmaReceivedCount := 0, rxStart := true }

def i2sStopBus : CameraDriver := { d with rxStart := false }

/-- Up to the wait for VSYNC. The wait for a free frame is one of more than one frame, with which
the bus is never found stopped again. -/
def i2sRun : CameraDriver :=
  { d with dmaBuf := fun _ _ => ⟨0, 0, 0, 0⟩, starting := d.starting + 1 }

/-! ## `dma_filter_buffer` -/

/-- `sig`, of a little-endian machine. -/
def sig (m : Mem) : ℕ :=
  (m.byte 0).toNat + 256 * (m.byte 1).toNat + 65536 * (m.byte 2).toNat

def dmaFilterBuffer (idx : ℕ) : CameraDriver :=
  if d.frame.ref || d.frame.bad then d
  else
    let fbPos := d.dmaFilteredCount * c.bufLen
    -- the subtraction is one of `size_t`
    if fbPos > (c.fbSize + 4294967296 - c.bufLen) % 4294967296 then d
    else
      let f := { d.frame with
        buf := d.frame.buf.store fbPos (c.dmaFilter (d.dmaBuf idx) c.dmaLength) }
      if d.dmaFilteredCount = 0 then
        if c.pixelFormat = .jpeg ∧ sig f.buf ≠ 0xffd8ff then d.setFrame d.fb { f with bad := true }
        else
          { d.setFrame d.fb { f with
              width := c.resolution.1
              height := c.resolution.2
              format := c.pixelFormat } with
            dmaFilteredCount := 1 }
      else { d.setFrame d.fb f with dmaFilteredCount := d.dmaFilteredCount + 1 }

/-! ## `dma_finish_frame` and `camera_fb_done` -/

/-- The loop that looks for the end marker, from byte `i` down; where it finds it, what `dptr` is
then. -/
def endMarker (m : Mem) : ℕ → Option ℕ
  | 0 => none
  | i + 1 =>
    if m.byte (i + 1) = 0xff ∧ m.byte (i + 2) = 0xd9 ∧ m.byte (i + 3) = 0 ∧ m.byte (i + 4) = 0
    then some (i + 3)
    else endMarker m i

def jpegLen (m : Mem) (len : ℕ) : ℕ :=
  match endMarker m (len - 1) with
  | none => len
  | some end_ =>
    let len := if end_ % 512 = 0 then end_ + 1 else end_
    if len % 100 = 0 then len + 1 else len

/-- Up to the first use of a queue. -/
def cameraFbDone : CameraDriver :=
  -- nothing waits here, so `dma_finish_frame` goes on
  if c.fbCount = 1 then { d with frameReady := true, dmaFilteredCount := 0 }
  else if !d.frame.ref && d.frame.len != 0 then
    { d.setFrame d.fb { d.frame with ref := true } with pc := .test d.fb }
  else { d with pc := .drain d.fb }

def dmaFinishFrame : CameraDriver :=
  if !d.frame.ref then
    if d.frame.bad then
      let d := d.setFrame d.fb (FrameBuffer.emptied { d.frame with bad := false })
      { (if c.fbCount = 1 then d.i2sStartBus else d) with dmaFilteredCount := 0 }
    else
      let len := d.dmaFilteredCount * c.bufLen
      if len ≠ 0 then
        cameraFbDone c (d.setFrame d.fb { d.frame with
          len := if d.frame.format = .jpeg then jpegLen d.frame.buf len else len })
      else
        let d := d.setFrame d.fb { d.frame with len := 0 }
        { (if c.fbCount = 1 then d.i2sStartBus else d) with dmaFilteredCount := 0 }
  else if d.frame.len ≠ 0 then cameraFbDone c d
  else { d with dmaFilteredCount := 0 }

/-- `while(s_state->fb->ref && s_state->fb->next != fb)`, with no more turns than frames. -/
def nextFree (fb : ℕ) : ℕ → ℕ → ℕ
  | 0, i => i
  | n + 1, i => if (d.frames i).ref ∧ c.next i ≠ fb then nextFree fb n (c.next i) else i

/-- What `camera_fb_done` does behind its queues, and `dma_finish_frame` behind that. -/
def advance (fb : ℕ) : CameraDriver :=
  let i := nextFree c d fb c.fbCount (if d.frame.len ≠ 0 then c.next d.fb else d.fb)
  let d := { d with dmaFilteredCount := 0, pc := .ready }
  if (d.frames i).ref then { d with fb := fb }
  else { d.setFrame i (d.frames i).emptied with fb := i }

/-- The filter task goes on, if there is something in `data_ready`. `fb_out` has room for one
frame. -/
def filterStep : CameraDriver :=
  match d.pc with
  | .ready =>
    match d.dataReady with
    | [] => d
    | some idx :: rest => dmaFilterBuffer c { d with dataReady := rest } idx
    | none :: rest => dmaFinishFrame c { d with dataReady := rest }
  | .test fb => { d with pc := if d.fbOut = [] then .push fb else .pop fb }
  | .pop fb =>
    match d.fbOut with
    | [] => { d with pc := .drain fb }
    | fb2 :: rest => { d.freeFrame fb2 with fbOut := rest, pc := .push fb }
  | .push fb => { d with fbOut := if d.fbOut = [] then [fb] else d.fbOut, pc := .drain fb }
  | .drain fb =>
    match d.fbIn with
    | [] => advance c d fb
    | fb2 :: rest => { d.freeFrame fb2 with fbIn := rest }

/-! ## Interrupts -/

/-- `xQueueSendFromISR`; `data_ready` has room for sixteen. -/
def dataReadySend (item : Option ℕ) : CameraDriver × Bool :=
  if d.dataReady.length < 16 then ({ d with dataReady := d.dataReady ++ [item] }, true)
  else (d, false)

def i2sStop : CameraDriver :=
  let d := if c.fbCount = 1 ∧ d.frame.bad = false then d.i2sStopBus
    else { d with dmaReceivedCount := 0 }
  (d.dataReadySend none).1

def signalDmaBufReceived : CameraDriver :=
  let filled := d.dmaDescCur
  let d := { d with
    dmaDescCur := (filled + 1) % c.dmaDescCount
    dmaReceivedCount := d.dmaReceivedCount + 1 }
  if !d.frame.ref && d.frame.bad then d
  else
    let (d, sent) := d.dataReadySend (some filled)
    if !sent && !d.frame.ref then d.setFrame d.fb { d.frame with bad := true } else d

/-- The DMA has `data` in the current buffer. -/
def dmaFill (data : ℕ → DmaElem) : CameraDriver :=
  { d with dmaBuf := Function.update d.dmaBuf d.dmaDescCur data }

def i2sIsr : CameraDriver :=
  let d := signalDmaBufReceived c d
  if c.pixelFormat ≠ .jpeg ∧ d.dmaReceivedCount = c.height * c.dmaPerLine then i2sStop c d else d

/-- The first part of `vsync_isr`: if there is some data, the frame is done. -/
def vsyncFrameDone : CameraDriver :=
  if d.dmaReceivedCount > 0 then
    let d := signalDmaBufReceived c d
    if d.dmaFilteredCount > 1 ∨ d.frame.bad ∨ c.fbCount > 1 then i2sStop c d else d
  else d

/-- The pin is low. -/
def vsyncIsr : CameraDriver :=
  let d := vsyncFrameDone c d
  if c.fbCount > 1 ∨ d.dmaFilteredCount < 2 then
    { d with
      dmaDescCur := (d.dmaDescCur + 1) % c.dmaDescCount
      dmaReceivedCount := 0
      rxStart := true }
  else d

/-! ## Users -/

/-- Behind `i2s_run`, when what it waits for is there. -/
def espCameraFbGet : CameraDriver :=
  if c.fbCount = 1 then
    if d.frameReady then { d with frameReady := false, held := d.fb :: d.held } else d
  else
    match d.fbOut with
    | [] => d
    | fb :: rest => { d with fbOut := rest, held := fb :: d.held }

/-- `xQueueSend` of a frame that a user has; it waits for room. -/
def espCameraFbReturn (fb : ℕ) : CameraDriver :=
  if c.fbCount = 1 then { d with held := d.held.erase fb }
  else if fb ∈ d.held ∧ d.fbIn.length < c.fbCount then
    { d with fbIn := d.fbIn ++ [fb], held := d.held.erase fb }
  else d

end CameraDriver

/-- The filter task goes on; the DMA fills a buffer; a frame of the sensor ends, with `data` in the
buffer, which interrupts for JPEG only; a user comes to a stopped bus, sees VSYNC, sees none; a user
takes a frame that is there, has waited in vain, gives a frame back. -/
inductive CameraEvent
  | filter
  | dma (data : ℕ → DmaElem)
  | vsync (data : ℕ → DmaElem)
  | call
  | start
  | noVsync
  | get
  | timeout
  | giveBack (fb : ℕ)

open CameraDriver in
def CameraDriver.step (c : CameraConf) (d : CameraDriver) : CameraEvent → CameraDriver
  | .filter => filterStep c d
  | .dma data => if d.rxStart then i2sIsr c (d.dmaFill data) else d
  | .vsync data => if d.rxStart ∧ c.pixelFormat = .jpeg then vsyncIsr c (d.dmaFill data) else d
  | .call => if d.rxStart then d else d.i2sRun
  | .start => if d.starting = 0 then d else { d.i2sStartBus with starting := d.starting - 1 }
  | .noVsync => { d with starting := d.starting - 1 }
  | .get => espCameraFbGet c d
  | .timeout => i2sStop c d
  | .giveBack fb => espCameraFbReturn c d fb

end EspMesh
