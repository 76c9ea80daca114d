import EspMesh.Model.Common

/-! # `do_process_image_data_from_root_or_node`

A photo packet is received where `pServerCmd` points and looked at there. The addresses are
offsets in `g_root_mesh_read_data`: slot `k` of the photo starts at `1436 * k`, and slot 0 holds
the address of the node whose photo is being assembled.
-/

namespace EspMesh
set_option autoImplicit false
open ByteMem

/-- The length of `g_root_mesh_read_data`, as `app_main` allocates it. -/
@[simp] def rootMeshReadLen : ℕ := photoPacketMaxCount * rootPacketLen

/-- The static variables of the function and the two pointers of `root_mesh_read_task`. -/
structure Cursor where
  errCount : ℕ
  bStartGetImage : Bool
  pRootMsg : ℕ
  pServerCmd : ℕ
  deriving DecidableEq

def Cursor.rewind (c : Cursor) : Cursor := { c with pRootMsg := 0, pServerCmd := tNode }

/-- One more error; more than `MAX_ERR_COUNT` of them drop the photo. -/
def Cursor.error (c : Cursor) : Cursor :=
  if c.errCount + 1 > 10 then { c.rewind with errCount := 0, bStartGetImage := false }
  else { c with errCount := c.errCount + 1 }

def Cursor.advance (c : Cursor) : Cursor :=
  { c with
    errCount := 0
    pRootMsg := c.pRootMsg + rootPacketLen
    pServerCmd := c.pRootMsg + rootPacketLen + tNode }

/-- A packet with count 1: the last photo is dropped. `pRootMsg` goes back to slot 0, the packet
stays where it was received. -/
def Cursor.restart (c : Cursor) : Cursor :=
  { c with errCount := 0, bStartGetImage := true, pRootMsg := 0 }

def imageAccept (gSockfd : Option ℕ) (srcAddr : Mac) (count maxCount : ℕ) (io : Io) (c : Cursor) :
    Io × Cursor :=
  if !c.bStartGetImage then (io, c)
  else if count = maxCount then
    (if gSockfd = none then io else io.emit (.send (io.mem.load 0 (rootPacketLen * count))),
      c.rewind)
  else if io.mem.load 0 6 = srcAddr.val then (io, c.advance)
  else (io, c.error)

def doProcessImageData (gSockfd : Option ℕ) (srcAddr : Mac) (io : Io) (c : Cursor) :
    Io × Cursor :=
  let maxCount := io.mem.load16 (c.pServerCmd + u16MaxCount)
  if maxCount > photoPacketMaxCount then (io, c.error)
  else
    let count := io.mem.load16 c.pServerCmd
    if count = 1 then
      imageAccept gSockfd srcAddr count maxCount (io.modify fun m => m.store 0 srcAddr.val)
        c.restart
    else imageAccept gSockfd srcAddr count maxCount io c

end EspMesh
