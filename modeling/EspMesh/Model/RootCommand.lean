import EspMesh.Model.OtaTask
import EspMesh.Model.RootSend

/-! # `router.c`: what the root does with a command or a packet of a node

Each function works in the slot `p` of the shared buffer: `p` is the address of the `root_msg_t`,
`p + tNode` that of the `server_cmd_t` or `node_msg_t` in it. A command is read from the bytes
its answer is written over.
-/

namespace EspMesh
set_option autoImplicit false
open ByteMem

/-- The globals of the root besides the shared buffer; a `g_sockfd` of -1 is `none`. -/
structure World where
  gSelfMac : Mac
  gSockfd : Option ℕ
  nodes : List NodeInfo
  gLedColor : UInt8
  serverQueue : CopyQueue.Queue
  configServerIp : List UInt8
  ota : OtaShared

/-- What the calls made for one command or one packet return, the `i`-th call of a kind numbered
from zero: no camera frame is NULL, and the `malloc` is that of `add_newnode_to_nodedev_list`. -/
structure CmdEnv where
  ota : DoOtaEnv
  mwifiWriteOk : ℕ → Bool
  camera : Option CameraFb
  sendOk : ℕ → Bool
  mallocOk : Bool

def sendSlot (p : ℕ) (io : Io) : Io := io.emit (.send (io.mem.load p rootPacketLen))

def answer (gSockfd : Option ℕ) (p : ℕ) (build : Mem → Mem) (io : Io) : Io :=
  if gSockfd = none then io else sendSlot p (io.modify build)

/-! ## `root_do_restart` -/

/-- The loop over the devices to restart, with the number of failed sends and whether the root
is one of the devices. `tDevAddr` and `u8DevAddr` overlap: a failure moves what is read next. -/
def restartLoop (gSelfMac : Mac) (p : ℕ) (writeOk : ℕ → Bool) :
    ℕ → ℕ → ℕ → Bool → Io → Io × ℕ × Bool
  | 0, _, errs, self, io => (io, errs, self)
  | n + 1, i, errs, self, io =>
    let addr := io.mem.loadBytes (p + tNode + body + tDevAddr + mwifiAddrLen * i) 6
    if gSelfMac = addr then restartLoop gSelfMac p writeOk n (i + 1) errs true io
    else
      let io := io.emit (.mwifiWrite (some addr) MwifiDataType.zero
        (io.mem.load (p + tNode) childPacketLen))
      if writeOk i then restartLoop gSelfMac p writeOk n (i + 1) errs self io
      else
        restartLoop gSelfMac p writeOk n (i + 1) (errs + 1) self
          (io.modify fun m =>
            m.store (p + tNode + body + u8DevAddr + mwifiAddrLen * errs) addr.val)

/-- `system_reboot` only asks the watchdog for a reset, so the code behind it still runs. -/
def rootDoRestart (w : World) (p : ℕ) (e : CmdEnv) (io : Io) : Io :=
  let io := io.modify (busHeader (p + tNode) .request .restart)
  let num := (io.mem.byte (p + tNode + body)).toNat
  if num = 0 then
    (io.emit (.mwifiRootWrite [mwifiAddrBroadcast] ⟨false, .multicast⟩
      (io.mem.load (p + tNode) childPacketLen))).emit .systemReboot
  else
    let (io, errs, self) := restartLoop w.gSelfMac p e.mwifiWriteOk num 0 0 false io
    let io := if errs = 0 then io
      else answer w.gSockfd p (fun m =>
        m.store (p + tNode + u8Type) [BusType.response.byte]
          |>.store (p + tNode + body) [busRestartError]
          |>.store (p + tNode + body + respRestartNumber) [UInt8.ofNat errs]) io
    if self then io.emit .systemReboot else io

/-! ## `root_send_photo` -/

def picPacket (p count maxCount dataLen : ℕ) (data : List UInt8) (m : Mem) : Mem :=
  m.store p (word16 count)
    |>.store (p + u16MaxCount) (word16 maxCount)
    |>.store (p + u16DataLen) (word16 dataLen)
    |>.store (p + u8Data) data

/-- The loop over the packets before the last, `n` of them from `count` on, with what is left of
the picture; a failed send leaves nothing. -/
def rootPhotoLoop (fb : CameraFb) (p maxCount : ℕ) (sendOk : ℕ → Bool) :
    ℕ → ℕ → ℕ → Io → Io × ℕ × ℕ
  | 0, count, size, io => (io, count, size)
  | n + 1, count, size, io =>
    let data := fb.slice (packetBodyLen * (count - 1)) packetBodyLen
    let io := sendSlot p (io.modify (picPacket (p + tNode) count maxCount packetBodyLen data))
    if sendOk count then
      rootPhotoLoop fb p maxCount sendOk n (count + 1) (size - packetBodyLen) io
    else (io, count, 0)

def rootSendPhoto (w : World) (p : ℕ) (e : CmdEnv) (io : Io) : Io :=
  match w.gSockfd, e.camera with
  | none, _ => io
  | some _, none => (io.emit .systemReboot).emit .nullFrame
  | some _, some fb =>
    let maxCount := picMaxCount fb.len
    let io := io.modify fun m => m.store p w.gSelfMac.val
    let (io, count, size) := rootPhotoLoop fb p maxCount e.sendOk (maxCount - 1) 1 fb.len io
    if size = 0 then io
    else
      let data := fb.slice (packetBodyLen * (count - 1)) packetBodyLen
      sendSlot p (io.modify (picPacket (p + tNode) count maxCount size data))

/-! ## `do_process_data_from_tcpser_or_root` -/

def byteAnswer (p : ℕ) (cmd : BusCmd) (value : UInt8) (m : Mem) : Mem :=
  m.store (p + tNode + u8Cmd) [cmd.byte] |>.store (p + tNode + body) [value]

def doProcessDataFromTcpserOrRoot (w : World) (p : ℕ) (e : CmdEnv) (io : Io) : Io × World :=
  let type := io.mem.byte (p + tNode + u8Type)
  let cmd := io.mem.byte (p + tNode + u8Cmd)
  let value := io.mem.byte (p + tNode + body)
  if type = BusType.request.byte then
    match BusCmd.ofByte cmd with
    | some .ota =>
      let (io, ota) := rootDoOta w.configServerIp p e.ota io w.ota
      (io, { w with ota := ota })
    | some .restart => (rootDoRestart w p e io, w)
    | some .pic => (rootSendPhoto w p e io, w)
    | some .led => (answer w.gSockfd p (byteAnswer p .led value) io, { w with gLedColor := value })
    | some .ping => (answer w.gSockfd p (byteAnswer p .ping w.gLedColor) io, w)
    | some .switch =>
      let io := io.emit (.updateRunMode (cstr [value + 0x30, 0]))
      (answer w.gSockfd p (byteAnswer p .switch value) io, w)
    | _ => (io, w)
  else (io, w)

/-! ## `do_process_data_from_node` -/

def rootDoProcessRegister (w : World) (which : Mac) (p : ℕ) (mallocOk : Bool) (io : Io) :
    Io × World :=
  let io := io.modify (busHeader (p + tNode) .request .nodeRegister)
  let version := io.mem.loadBytes (p + tNode + body + u8VersionStr) 16
  let w := { w with nodes := (addNewnodeToNodedevList mallocOk which version w.nodes).1 }
  (answer w.gSockfd p (fun m => m.store p w.gSelfMac.val) io, w)

def doProcessDataFromNode (w : World) (which : Mac) (p : ℕ) (e : CmdEnv) (io : Io) : Io × World :=
  let type := io.mem.byte (p + tNode + u8Type)
  let cmd := io.mem.byte (p + tNode + u8Cmd)
  if type = BusType.request.byte then
    match BusCmd.ofByte cmd with
    | some .nodeRegister => rootDoProcessRegister w which p e.mallocOk io
    | _ => (io, w)
  else if type = BusType.response.byte then
    match BusCmd.ofByte cmd with
    | some .led | some .ping | some .switch =>
      (answer w.gSockfd p (fun m => m.store p which.val) io, w)
    | _ => (io, w)
  else (io, w)

end EspMesh
