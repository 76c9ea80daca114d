import EspMesh.Model.NodeDevList

/-! # `router.c`: what the root writes without being asked

Registration, offline reports and pings, each built in the slot `p` of the shared buffer it is
given. `p` is the address of a `root_msg_t` for the first two and of a `node_msg_t` for the ping.
-/

namespace EspMesh
set_option autoImplicit false
open ByteMem

/-! ## `root_send_register` -/

/-- What `root_send_register` sees of the world; `heap i` is what lies behind entry `i` of the
registry in memory, which `strlen` reads when a version has no NUL. -/
structure RegisterEnv where
  sendRoot : Bool
  sendChild : Bool
  heap : ℕ → List UInt8

def buildRootRegister (gSelfMac : Mac) (p : ℕ) (m : Mem) : Mem :=
  m.store p gSelfMac.val
    |> busHeader (p + tNode) .request .rootRegister
    |>.store (p + tNode + body) (configDeviceVersion ++ [0])

/-- The loop over the registry. `u8RegPayload + n` is a pointer to row `n`, not to byte `n`. -/
def registerEntries (p : ℕ) (heap : ℕ → List UInt8) : List NodeInfo → ℕ → ℕ → Mem → Mem
  | [], _, _, m => m
  | head :: next, i, offset, m =>
    let version := cstr (head.version.val ++ heap i)
    m.store (p + tNode + body + u8RegPayload + regPayloadRow * offset) head.mac.val
      |>.store (p + tNode + body + u8RegPayload + regPayloadRow * (mwifiAddrLen + offset))
        (version ++ [0])
      |> registerEntries p heap next (i + 1) (offset + (mwifiAddrLen + version.length + 1))

def buildChildRegister (gSelfMac : Mac) (p : ℕ) (heap : ℕ → List UInt8) (nodes : List NodeInfo)
    (m : Mem) : Mem :=
  registerEntries p heap nodes 0 0 m
    |>.store p gSelfMac.val
    |> busHeader (p + tNode) .request .nodeRegister
    |>.store (p + tNode + body) [UInt8.ofNat nodes.length]

def rootSendRegister (gSelfMac : Mac) (nodes : List NodeInfo) (p : ℕ) (e : RegisterEnv)
    (io : Io) : Io × ℤ :=
  let io := io.modify (buildRootRegister gSelfMac p)
  let io := io.emit (.send (io.mem.load p rootPacketLen))
  if !e.sendRoot then (io, -1)
  -- `node_num` is a `uint8_t`; without nodes the loop does nothing.
  else if UInt8.ofNat nodes.length = 0 then
    (io.modify (registerEntries p e.heap nodes 0 0), 0)
  else
    let io := io.modify (buildChildRegister gSelfMac p e.heap nodes)
    let io := io.emit (.send (io.mem.load p rootPacketLen))
    (io, if e.sendChild then 0 else -1)

/-! ## `root_do_child_offline` -/

/-- The routing table is read into the unused part of the packet being built. -/
def tableAddr (p : ℕ) : ℕ := p + tNode + body + unregisterDummy

def offlineAbsent (p tableSize : ℕ) (mac : Mac) (m : Mem) : Bool :=
  (List.range tableSize).all fun i => m.load (tableAddr p + mwifiAddrLen * i) 6 != mac.val

def offlineLoop (p tableSize : ℕ) : List NodeInfo → List NodeInfo → ℕ → Mem →
    Mem × List NodeInfo × ℕ
  | [], nodes, rmNum, m => (m, nodes, rmNum)
  | head :: next, nodes, rmNum, m =>
    if offlineAbsent p tableSize head.mac m then
      offlineLoop p tableSize next (delNodeFromNodedevList head.mac nodes) (rmNum + 1)
        (m.store (p + tNode + body + u8DevMac + mwifiAddrLen * rmNum) head.mac.val)
    else offlineLoop p tableSize next nodes rmNum m

/-- `table` is what `esp_mesh_get_routing_table` stores; `none` is its failure. -/
def rootDoChildOffline (gSelfMac : Mac) (u8cmd : UInt8) (table : Option (List Mac)) (p : ℕ)
    (io : Io) (nodes : List NodeInfo) : Io × List NodeInfo :=
  if u8cmd ≠ MsgqueueType.nodeRemove.byte then (io, nodes)
  else match table with
    | none => (io, nodes)
    | some macs =>
      let m := io.mem.store (tableAddr p) (macs.flatMap (·.val))
      let (m, left, rmNum) := offlineLoop p macs.length nodes nodes 0 m
      if rmNum = 0 then (io.modify fun _ => m, left)
      else
        let io := io.modify fun _ => m.store p gSelfMac.val
          |> busHeader (p + tNode) .request .nodeUnregister
          |>.store (p + tNode + body) [UInt8.ofNat rmNum]
        (io.emit (.send (io.mem.load p rootPacketLen)), left)

/-! ## `root_send_ping` -/

/-- `get_two_timestamp_interval`, in seconds at 1000 ticks a second. -/
def getTwoTimestampInterval (curtime lasttime : UInt32) : ℕ := (curtime - lasttime).toNat / 1000

/-- Whether `root_send_ping` gets as far as building a ping, and the force byte if it does:
`event` is the message waiting in `MeshQueue`, and without one the local `qmsg` still holds
what the stack held. -/
def pingForce (totalNodeNum : ℕ) (event : Option UInt8) (qmsgStack : UInt8)
    (now last : UInt32) : Option UInt8 :=
  if totalNodeNum = 1 then none
  else match event with
    | some u8cmd => some u8cmd
    | none =>
      if getTwoTimestampInterval now last < rootSendPingInterval then none else some qmsgStack

def pingEntries (p : ℕ) : List NodeInfo → ℕ → Mem → Mem
  | [], _, m => m
  | head :: next, i, m =>
    m.store (p + body + u8NodeMac + mwifiAddrLen * i) head.mac.val
      |> pingEntries p next (i + 1)

def buildPing (gSelfMac : Mac) (nodes : List NodeInfo) (force : UInt8) (p : ℕ) (m : Mem) : Mem :=
  pingEntries p nodes 0 m
    |> busHeader p .request .rootSendPing
    |>.store (p + body) [force]
    |>.store (p + body + u8RootMac) gSelfMac.val

def rootSendPing (gSelfMac : Mac) (nodes : List NodeInfo) (force : UInt8) (p : ℕ) (io : Io) : Io :=
  let io := io.modify (buildPing gSelfMac nodes force p)
  io.emit (.mwifiWrite (some mwifiAddrBroadcast) ⟨false, .broadcast⟩
    (io.mem.load p childPacketLen))

end EspMesh
