import EspMesh.Model.Common

/-! # `node_task.c`: what a node does with a packet from the root

A node has one packet buffer, `g_node_mesh_buffer`; every packet is read into it and every answer
is written over the packet it answers.
-/

namespace EspMesh
set_option autoImplicit false
open ByteMem

/-- A node: `io.mem` is `g_node_mesh_buffer`. -/
structure Node where
  io : Io
  gSelfMac : Mac
  gRootMac : Mac
  gLedColor : UInt8

/-- `mwifi_write(NULL, &data_type, pnodemsg, CHILD_PACKET_LEN, true)`. -/
def nodeWrite (io : Io) : Io :=
  io.emit (.mwifiWrite none MwifiDataType.zero (io.mem.load 0 childPacketLen))

def Node.answer (n : Node) (build : Mem → Mem) : Node :=
  { n with io := nodeWrite (n.io.modify build) }

/-! ## `node_send_pic` -/

/-- The loop over the packets before the last: `n` more, the next being the `i`-th from zero.
`none` is a failed write; otherwise what is left of the picture, as a `size_t`. -/
def nodePhotoLoop (fb : CameraFb) (writeOk : ℕ → Bool) : ℕ → ℕ → ℕ → Io → Io × Option (ℕ × ℕ)
  | 0, i, size, io => (io, some (i, size))
  | n + 1, i, size, io =>
    let io := nodeWrite <| io.modify fun m => m.store 0 (word16 (i + 1))
      |>.store u8Data (fb.slice (packetBodyLen * i) packetBodyLen)
    if writeOk i then
      nodePhotoLoop fb writeOk n (i + 1) ((size + 4294967296 - packetBodyLen) % 4294967296) io
    else (io, none)

/-- Behind the loop: the rest of the picture, unless a write has failed. -/
def nodePhotoLast (fb : CameraFb) (writeOk : ℕ → Bool) : Io × Option (ℕ × ℕ) → Io × Bool
  | (io, none) => (io, false)
  | (io, some (i, size)) =>
    (nodeWrite <| io.modify fun m => m.store 0 (word16 (i + 1))
      |>.store u16DataLen (word16 size)
      |>.store u8Data (fb.slice (packetBodyLen * i) (size % 65536)), writeOk i)

/-- `node_send_pic`; `false` is an error. The loop ends when the `uint16_t` count has come
round to `maxCount`. -/
def nodeSendPic (fb : Option CameraFb) (writeOk : ℕ → Bool) (io : Io) : Io × Bool :=
  match fb with
  | none => (io, false)
  | some fb =>
    let maxCount := picMaxCount fb.len
    let io := io.modify fun m => m.store u16MaxCount (word16 maxCount)
      |>.store u16DataLen (word16 packetBodyLen)
    nodePhotoLast fb writeOk
      (nodePhotoLoop fb writeOk ((maxCount + 65535) % 65536) 0 fb.len io)

/-! ## The requests of the server -/

def nodeHandleLed (n : Node) : Node :=
  { n with gLedColor := n.io.mem.byte body }.answer (busHeader 0 .response .led)

def nodeHandlePingFromTcpserver (n : Node) : Node :=
  n.answer fun m => (busHeader 0 .response .ping m).store body [n.gLedColor]

def nodeHandleSwitch (n : Node) : Node :=
  { n with io := n.io.emit (.updateRunMode (cstr [n.io.mem.byte body + 0x30, 0])) }.answer
    (busHeader 0 .response .switch)

/-! ## `node_handle_ping_from_root` -/

def pingListsNode (gSelfMac : Mac) (m : Mem) : Bool :=
  (List.range (m.byte (body + u8NodeCount)).toNat).any fun i =>
    m.load (body + u8NodeMac + mwifiAddrLen * i) 6 == gSelfMac.val

/-- `SEND_REG`: the registration, built over the ping. -/
def nodeRegister (n : Node) : Node :=
  n.answer fun m => (busHeader 0 .request .nodeRegister m).store body [1]
    |>.store (body + devVersionAddr) n.gSelfMac.val
    |>.store (body + u8VersionStr) (configDeviceVersion ++ [0])

def nodeHandlePingFromRoot (n : Node) : Node :=
  let u8Force := n.io.mem.byte body
  let rootMac := n.io.mem.loadBytes (body + u8RootMac) 6
  if u8Force = MsgqueueType.nodeAdd.byte ∨ u8Force = MsgqueueType.nodePing.byte then
    if n.gRootMac ≠ rootMac then nodeRegister { n with gRootMac := rootMac }
    else if pingListsNode n.gSelfMac n.io.mem then n
    else nodeRegister n
  else n

/-! ## `node_task` -/

structure NodeEnv where
  camera : Option CameraFb
  writeOk : ℕ → Bool

/-- What the loop does with a packet `mwifi_read` delivered. A restart request only feeds the
watchdog. -/
def nodeRead (pkt : MeshPacket) (e : NodeEnv) (n : Node) : Node :=
  let n := { n with io := n.io.modify fun m => m.store 0 pkt.data }
  if pkt.type.upgrade then
    { n with io := n.io.emit (.mupgradeHandle pkt.src (n.io.mem.load 0 pkt.data.length)) }
  else if n.io.mem.byte u8Type = BusType.request.byte then
    match BusCmd.ofByte (n.io.mem.byte u8Cmd) with
    | some .pic => { n with io := (nodeSendPic e.camera e.writeOk n.io).1 }
    | some .led => nodeHandleLed n
    | some .ping => nodeHandlePingFromTcpserver n
    | some .switch => nodeHandleSwitch n
    | some .rootSendPing => nodeHandlePingFromRoot n
    | _ => n
  else n

end EspMesh
