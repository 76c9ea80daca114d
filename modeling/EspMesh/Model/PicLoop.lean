import EspMesh.Library.WhileLoop
import EspMesh.Model.NodeTask
import EspMesh.Model.RootCommand

/-! # The two loops over a picture, as they are written

`node_send_pic` goes on while `count != maxCount`, `root_send_photo` while `count < maxCount`.
Here `count` is a `uint16_t` and `size` a `size_t`; `buffer` is where the pointer is in the
picture.
-/

namespace EspMesh
set_option autoImplicit false
open ByteMem WhileLoop

structure PicLocals where
  io : Io
  size : UInt32
  buffer : ℕ
  count : UInt16

/-- The locals behind a packet that has been sent. -/
def PicLocals.next (s : PicLocals) (io : Io) : PicLocals :=
  ⟨io, s.size - UInt32.ofNat packetBodyLen, s.buffer + packetBodyLen, s.count + 1⟩

/-! ## `node_send_pic` -/

/-- A failed write goes to `FREE_MEM`. The writes are numbered from zero. -/
def nodePicTurn (fb : CameraFb) (writeOk : ℕ → Bool) (s : PicLocals) : PicLocals × Bool :=
  let io := nodeWrite <| s.io.modify fun m => m.store 0 (word16 s.count.toNat)
    |>.store u8Data (fb.slice s.buffer packetBodyLen)
  if writeOk (s.count - 1).toNat then (s.next io, false) else ({ s with io := io }, true)

def nodePicEnd (fb : CameraFb) (writeOk : ℕ → Bool) : PicLocals × Bool → Io × Bool
  | (s, true) => (s.io, false)
  | (s, false) =>
    (nodeWrite <| s.io.modify fun m => m.store 0 (word16 s.count.toNat)
      |>.store u16DataLen (word16 s.size.toNat)
      |>.store u8Data (fb.slice s.buffer (s.size.toNat % 65536)), writeOk (s.count - 1).toNat)

/-- With this frame, `node_send_pic` returns, and `out` is what it has done. -/
def NodeSendPicEnds (fb : CameraFb) (writeOk : ℕ → Bool) (io : Io) (out : Io × Bool) : Prop :=
  let maxCount := picMaxCount fb.len
  let io := io.modify fun m => m.store u16MaxCount (word16 maxCount)
    |>.store u16DataLen (word16 packetBodyLen)
  ∃ t, Leaves (fun s => s.count != UInt16.ofNat maxCount) (nodePicTurn fb writeOk)
    ⟨io, UInt32.ofNat fb.len, 0, 1⟩ t ∧ out = nodePicEnd fb writeOk t

/-! ## `root_send_photo` -/

def rootPicTurn (fb : CameraFb) (p maxCount : ℕ) (sendOk : ℕ → Bool) (s : PicLocals) :
    PicLocals × Bool :=
  let data := fb.slice s.buffer packetBodyLen
  let io := sendSlot p
    (s.io.modify (picPacket (p + tNode) s.count.toNat maxCount packetBodyLen data))
  if sendOk s.count.toNat then (s.next io, false) else ({ s with io := io, size := 0 }, true)

def rootPicEnd (fb : CameraFb) (p maxCount : ℕ) (s : PicLocals) : Io :=
  if s.size = 0 then s.io
  else
    let data := fb.slice s.buffer packetBodyLen
    sendSlot p (s.io.modify (picPacket (p + tNode) s.count.toNat maxCount s.size.toNat data))

/-- With an open socket and this frame, `root_send_photo` returns, and `out` is what it has
done. -/
def RootSendPhotoEnds (fb : CameraFb) (gSelfMac : Mac) (p : ℕ) (sendOk : ℕ → Bool) (io out : Io) :
    Prop :=
  let maxCount := picMaxCount fb.len
  ∃ t, Leaves (fun s => decide (s.count < UInt16.ofNat maxCount))
    (rootPicTurn fb p maxCount sendOk)
    ⟨io.modify fun m => m.store p gSelfMac.val, UInt32.ofNat fb.len, 0, 1⟩ t ∧
    out = rootPicEnd fb p maxCount t.1

end EspMesh
