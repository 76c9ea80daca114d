import EspMesh.Model.RootCommand
import EspMesh.Model.RootImage
import EspMesh.Model.TcpClientRead

/-! # `root_mesh_read_task` and the tasks around it

One iteration of the task's loop is two steps: everything up to `mwifi_root_read`, which waits,
and everything behind it. Steps of `tcp_client_read_task` and of the `ota_task`s come in between.
-/

namespace EspMesh
set_option autoImplicit false
open ByteMem

/-- The task does not exist, is at its loop condition, or is in `mwifi_root_read`. -/
inductive RootPc
  | stopped
  | top
  | reading
  deriving DecidableEq, Repr

/-- The locals of `root_mesh_read_task` that outlive an iteration, the two pointers apart. -/
structure RootTask where
  pc : RootPc
  pPingMsg : ℕ
  dataType : MwifiDataType
  sqmsg : List UInt8
  deriving DecidableEq

/-- The root: `io.mem` is `g_root_mesh_read_data`, `pingLast` the `u32LastTimeStamp` of
`root_send_ping`. -/
structure Sys where
  io : Io
  w : World
  cur : Cursor
  root : RootTask
  pingLast : UInt32
  tcp : TcpClient
  tcpRunning : Bool

/-! ## Up to `mwifi_root_read` -/

/-- What an iteration sees of the world before it reads: the two conditions of the loop; for the
ping the number of nodes, the message waiting in `MeshQueue`, what the stack holds in place of
its `qmsg`, and the tick count; what `socket_tcp_client_create` returns, where -1 is `none`; and
the message waiting in `tcpQueue`. -/
structure RootEnv where
  connected : Bool
  isRoot : Bool
  totalNodeNum : ℕ
  meshEvent : Option UInt8
  qmsgStack : UInt8
  now : UInt32
  connect : Option ℕ
  register : RegisterEnv
  tcpEvent : Option UInt8
  table : Option (List Mac)
  cmd : CmdEnv

def rootPing (e : RootEnv) (s : Sys) : Sys :=
  match pingForce e.totalNodeNum e.meshEvent e.qmsgStack e.now s.pingLast with
  | none => s
  | some force =>
    { s with
      io := rootSendPing s.w.gSelfMac s.w.nodes force s.root.pPingMsg s.io
      pingLast := e.now }

/-- The reconnect block; `false` starts the loop over. A failed registration leaves the socket
open, so the next iteration does not register. -/
def rootConnect (e : RootEnv) (s : Sys) : Sys × Bool :=
  match s.w.gSockfd, e.connect with
  | some _, _ => (s, true)
  | none, none => (s, false)
  | none, some fd =>
    let (io, ret) := rootSendRegister s.w.gSelfMac s.w.nodes s.cur.pRootMsg e.register s.io
    ({ s with io := io, w := { s.w with gSockfd := some fd } }, decide (0 ≤ ret))

def rootOffline (e : RootEnv) (s : Sys) : Sys :=
  match e.tcpEvent with
  | none => s
  | some u8cmd =>
    let (io, nodes) :=
      rootDoChildOffline s.w.gSelfMac u8cmd e.table s.cur.pRootMsg s.io s.w.nodes
    { s with io := io, w := { s.w with nodes := nodes } }

/-- A message from `ServerQueue`. The type of a forwarded command is the one of the packet
last read. -/
def rootCommand (e : RootEnv) (s : Sys) : Sys :=
  match s.w.serverQueue.receive s.root.sqmsg with
  | none => s
  | some (sqmsg, queue) =>
    let msg := ServerqueueMsg.ofBytes sqmsg
    let w := { s.w with serverQueue := queue }
    let root := { s.root with sqmsg := sqmsg }
    if msg.bAddrValid then
      let io := s.io.modify fun m => m.store s.cur.pServerCmd msg.tServerCmd.val
      let io := io.emit (.mwifiWrite (some msg.u8addr) s.root.dataType
        (io.mem.load s.cur.pServerCmd sizeofNodeMsg))
      { s with io := io, w := w, root := root }
    else
      let io := s.io.modify fun m => m.store s.cur.pRootMsg s.w.gSelfMac.val
        |>.store s.cur.pServerCmd msg.tServerCmd.val
      let (io, w) := doProcessDataFromTcpserOrRoot w s.cur.pRootMsg e.cmd io
      { s with io := io, w := w, root := root }

def Sys.goto (s : Sys) (pc : RootPc) : Sys := { s with root := { s.root with pc := pc } }

def rootServe (e : RootEnv) (s : Sys) : Sys :=
  let s := rootCommand e (rootOffline e s)
  { s with root := { s.root with pc := .reading, dataType := .zero } }

/-- An iteration up to `mwifi_root_read`, or all of it if it gets no further. -/
def rootTop (e : RootEnv) (s : Sys) : Sys :=
  if !e.connected || !e.isRoot then s.goto .stopped
  else
    let s := rootPing e s
    if s.w.ota.bDeviceOtaFlag then s
    else match rootConnect e s with
      | (s, false) => s
      | (s, true) => rootServe e s

/-! ## From `mwifi_root_read` -/

def rootBusiness (src : Mac) (e : CmdEnv) (s : Sys) : Sys :=
  if s.io.mem.load s.cur.pServerCmd packetHeaderLen = mwifiAddrBroadcast.val then
    let io := s.io.modify fun m => m.store s.cur.pRootMsg src.val
    let (io, w) := if src = s.w.gSelfMac then
        doProcessDataFromTcpserOrRoot s.w s.cur.pRootMsg e io
      else doProcessDataFromNode s.w src s.cur.pRootMsg e io
    { s with io := io, w := w }
  else
    let (io, cur) := doProcessImageData s.w.gSockfd src s.io s.cur
    { s with io := io, cur := cur }

def rootRead (pkt : Option MeshPacket) (e : CmdEnv) (s : Sys) : Sys :=
  match pkt with
  | none => s.goto .top
  | some pkt =>
    let io := s.io.modify fun m => m.store s.cur.pServerCmd pkt.data
    let s := { s with
      io := io.emit (.mwifiRootRead pkt.src pkt.data)
      root := { s.root with pc := .top, dataType := pkt.type } }
    if pkt.type.upgrade then
      { s with io := s.io.emit (.mupgradeRootHandle pkt.src
        (s.io.mem.load s.cur.pServerCmd pkt.data.length)) }
    else rootBusiness pkt.src e s

/-! ## The other tasks -/

/-- `root_mesh_read_task` is created again; the static variables keep their values. -/
def rootStart (sqmsg : Bytes 108) (s : Sys) : Sys :=
  { s with cur := s.cur.rewind, root := ⟨.top, tNode, .zero, sqmsg.val⟩ }

def tcpTurn (e : TcpEnv) (s : Sys) : Sys :=
  let out := tcpClientReadTurn { e with
    bDeviceOtaFlag := s.w.ota.bDeviceOtaFlag
    gSockfd := s.w.gSockfd
    gSelfMac := s.w.gSelfMac
    nodes := s.w.nodes } s.tcp
  let queue := match out.enqueued with
    | none => s.w.serverQueue
    | some msg => (s.w.serverQueue.send msg.toBytes).1
  { s with
    tcp := out.client
    tcpRunning := !out.exited
    w := { s.w with
      gSockfd := if out.closed then none else s.w.gSockfd
      serverQueue := queue } }

def otaTurn (i : ℕ) (e : OtaEvent) (s : Sys) : Sys :=
  let (ota, packet) := otaTaskStep s.w.gSelfMac s.w.ota i e
  let io := match packet with
    | none => s.io
    | some bytes => s.io.emit (.send bytes)
  { s with io := io, w := { s.w with ota := ota } }

/-! ## Steps of the whole -/

/-- A task starts with its local `sqmsg` as it happens to be; its buffer is allocated once. -/
inductive SysEvent
  | rootStart (sqmsg : Bytes 108)
  | rootTop (e : RootEnv)
  | rootRead (pkt : Option MeshPacket) (e : CmdEnv)
  | tcpStart (sqmsg : ServerqueueMsg)
  | tcpTurn (e : TcpEnv)
  | otaTask (i : ℕ) (e : OtaEvent)

/-- An event the tasks are not waiting for changes nothing. -/
def Sys.step (s : Sys) : SysEvent → Sys
  | .rootStart sqmsg => if s.root.pc = .stopped then rootStart sqmsg s else s
  | .rootTop e => if s.root.pc = .top then rootTop e s else s
  | .rootRead pkt e => if s.root.pc = .reading then rootRead pkt e s else s
  | .tcpStart sqmsg =>
    if s.tcpRunning then s
    else { s with tcp := ⟨s.tcp.data, 0, 0, sqmsg⟩, tcpRunning := true }
  | .tcpTurn e => if s.tcpRunning then tcpTurn e s else s
  | .otaTask i e => otaTurn i e s

def OtaShared.boot : OtaShared where
  bDeviceOtaFlag := false
  gOtaReadTaskFlag := false
  gMupgradeSendRunningFlag := false
  rootOtaReadTask := false
  gOtaFirmwareName := Bytes.const 32 0
  urlOta := []
  tasks := []
  freed := []
  marks := []

/-- After `app_main`; both buffers, from `MDF_MALLOC`, hold anything. -/
def Sys.boot (gSelfMac : Mac) (configServerIp : List UInt8) (bytes tcpBytes : ℕ → UInt8)
    (sqmsg : ServerqueueMsg) : Sys where
  io := ⟨⟨bytes, []⟩, []⟩
  w := ⟨gSelfMac, none, [], 0, serverQueueCreate, configServerIp, .boot⟩
  cur := ⟨0, false, 0, tNode⟩
  root := ⟨.stopped, tNode, .zero, []⟩
  pingLast := 0
  tcp := .start tcpBytes sqmsg
  tcpRunning := false

def Sys.Reachable : Sys → Prop :=
  StepRuns.Reachable Sys.step fun s => ∃ mac ip bytes tcpBytes sqmsg,
    s = Sys.boot mac ip bytes tcpBytes sqmsg

end EspMesh
