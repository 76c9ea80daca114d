import EspMesh.Model.StatusPage
import EspMesh.Model.ToJpg

/-! # `app_httpd.c`: what `stream_handler` sends

The frames as pictures; what becomes of their memory is in `Model.CameraFrames`.
-/

namespace EspMesh.Jpge
set_option autoImplicit false
open LineFile

/-- `camera_fb_t`, with its memory from `buf` on. -/
structure MjpegFrame where
  buf : ℕ → UInt8
  len : ℕ
  width : ℕ
  height : ℕ
  format : PixFormat

/-- What the calls of one iteration find: a frame, memory for its picture, and the three
`httpd_resp_send_chunk`. -/
structure MjpegTurn where
  frame : Option MjpegFrame
  jpgBuf : Bool
  mallocs : Mallocs
  partOk : Bool
  bufOk : Bool
  boundaryOk : Bool

def crlf : List UInt8 := [13, 10]

/-- `_STREAM_PART` in front of the length, and behind it. -/
def streamPartHead : List UInt8 :=
  ofString "Content-Type: image/jpeg" ++ crlf ++ ofString "Content-Length: "

def streamPartClose : List UInt8 := crlf ++ crlf

/-- `_STREAM_BOUNDARY` -/
def streamBoundary : List UInt8 := crlf ++ ofString "--123456789000000000000987654321" ++ crlf

/-- What is printed to `part_buf`. -/
def streamPart (len : ℕ) : List UInt8 := streamPartHead ++ (printUnsigned len ++ streamPartClose)

/-- `ok` is `res == ESP_OK`, and `chunks` are those that were sent. -/
structure MjpegStream where
  statics : Statics
  ok : Bool
  chunks : List (List UInt8)

namespace MjpegStream

def sendChunk (sent : Bool) (data : List UInt8) (s : MjpegStream) : MjpegStream :=
  if s.ok then
    if sent then { s with chunks := s.chunks ++ [data] } else { s with ok := false }
  else s

/-- `frame2jpg`, or the frame itself. -/
def jpg (t : MjpegTurn) (statics : Statics) (fb : MjpegFrame) : Statics × Option (List UInt8) :=
  if fb.format ≠ .jpeg then
    fmt2jpg statics fb.buf fb.width fb.height fb.format 80 t.jpgBuf t.mallocs
  else (statics, some ((List.range fb.len).map fb.buf))

/-- One iteration; none follows one that ends with an error. -/
def turn (s : MjpegStream) (t : MjpegTurn) : MjpegStream :=
  if s.ok then
    match t.frame with
    | none => { s with ok := false }
    | some fb =>
      let r := jpg t s.statics fb
      let s := { s with statics := r.1 }
      match r.2 with
      | none => { s with ok := false }
      | some jpgBuf =>
        ((s.sendChunk t.partOk (streamPart jpgBuf.length)).sendChunk t.bufOk jpgBuf).sendChunk
          t.boundaryOk streamBoundary
  else s

/-- What the client gets of the response. A chunk without a byte is its end. -/
def body (s : MjpegStream) : List UInt8 := (s.chunks.takeWhile fun c => !c.isEmpty).flatten

end MjpegStream

end EspMesh.Jpge
