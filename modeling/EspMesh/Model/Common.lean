import EspMesh.Library.ByteMem
import EspMesh.Library.CopyQueue

/-! # `common.h`: lengths, command codes and packet layouts

All packet structures are packed. A union member is described by the offsets of its fields
inside `node_msg_t` (or `server_cmd_t`, whose first three fields lie at the same offsets), so
that a definition can address the shared buffers exactly where the C code does.
-/

namespace EspMesh
set_option autoImplicit false
open ByteMem

/-! ## Lengths and settings

`ROOT_SEND_PING_INTERVAL` is in seconds; `CONFIG_DEVICE_VERSION` is "0.0.4". -/

@[simp] def mwifiAddrLen : ℕ := 6
@[simp] def childPacketLen : ℕ := 1430
@[simp] def rootPacketLen : ℕ := childPacketLen + mwifiAddrLen
@[simp] def packetHeaderLen : ℕ := 6
@[simp] def packetBodyLen : ℕ := childPacketLen - packetHeaderLen
@[simp] def tcpClientRecvLen : ℕ := 101
@[simp] def photoPacketMaxCount : ℕ := 400
@[simp] def maxVersionNameLen : ℕ := 15
@[simp] def maxMeshSize : ℕ := 20
@[simp] def rootSendPingInterval : ℕ := 8

def configDeviceVersion : List UInt8 := [48, 46, 48, 46, 52]

abbrev Mac := Bytes 6

/-- The address whose bytes are all `b`. -/
def macOf (b : UInt8) : Mac := Bytes.const 6 b

/-- `MWIFI_ADDR_BROADCAST`, also the header of every packet that is not a photo packet. -/
def mwifiAddrBroadcast : Mac := ⟨[255, 255, 255, 255, 255, 255], rfl⟩

/-! ## Codes -/

inductive BusCmd
  | ota | restart | pic | led | rootRegister | nodeRegister | nodeUnregister | ping | switch
  | rootSendPing
  deriving DecidableEq, Repr

def BusCmd.byte : BusCmd → UInt8
  | .ota => 1
  | .restart => 2
  | .pic => 3
  | .led => 4
  | .rootRegister => 5
  | .nodeRegister => 6
  | .nodeUnregister => 7
  | .ping => 8
  | .switch => 9
  | .rootSendPing => 10

def BusCmd.all : List BusCmd :=
  [.ota, .restart, .pic, .led, .rootRegister, .nodeRegister, .nodeUnregister, .ping, .switch,
    .rootSendPing]

/-- The case label a `switch (cmd)` takes; `none` is `default`. -/
def BusCmd.ofByte (b : UInt8) : Option BusCmd := BusCmd.all.find? fun c => c.byte == b

@[simp] theorem BusCmd.ofByte_byte (c : BusCmd) : BusCmd.ofByte c.byte = some c := by
  cases c <;> rfl

inductive BusType
  | request | response
  deriving DecidableEq, Repr

def BusType.byte : BusType → UInt8
  | .request => 1
  | .response => 2

def busOtaUpdating : UInt8 := 100
def busRestartError : UInt8 := 200

/-- The values of `msgqueue_type_t` that travel through the queues and the ping packet. -/
inductive MsgqueueType
  | none | nodeAdd | nodeRemove | nodePing
  deriving DecidableEq, Repr

def MsgqueueType.byte : MsgqueueType → UInt8
  | .none => 0
  | .nodeAdd => 1
  | .nodeRemove => 2
  | .nodePing => 3

/-! ## Layouts

* `root_msg_t`: `u8Addr` at 0, `tNode` at 6.
* `node_msg_t` and `server_cmd_t`: `u8Header` at 0, `u8Type`, `u8Cmd`, then the union, `body`.
* `child_node_register_t`: `u8Number` at 0, then `u8RegPayload[20][21]`. The size of a row is the
  unit in which the pointer `u8RegPayload + n` advances.
* `child_node_unregister_t`: `u8Number` at 0, `u8DevMac[20][6]`, then `u8Dummy`.
* `resp_restart_t`: `u8Response` at 0, `u8Number` at 1, then `u8DevAddr[20][6]`.
* `device_version_t`: `u8Data` at 0, `u8Addr` at 1, then `u8VersionStr`.
* `root_ping_t`: `u8Force` at 0, then `u8RootMac`, `u8NodeCount`, `u8NodeMac[20][6]`.
* `device_ota_t`: `name[32]` at 0, then `u8Number` and `tOtaAddr[10][6]`.
* `device_restart_t`: `u8Number` at 0, then `tDevAddr[10][6]`.
* `node_pic_t`: `u16Count` at 0, then `u16MaxCount`, `u16DataLen`, `u8Data`.
-/

@[simp] def tNode : ℕ := 6

@[simp] def u8Type : ℕ := 6
@[simp] def u8Cmd : ℕ := 7
@[simp] def body : ℕ := 8

@[simp] def u8RegPayload : ℕ := 1
@[simp] def regPayloadRow : ℕ := mwifiAddrLen + maxVersionNameLen

@[simp] def u8DevMac : ℕ := 1
@[simp] def unregisterDummy : ℕ := 1 + mwifiAddrLen * maxMeshSize

@[simp] def respRestartNumber : ℕ := 1
@[simp] def u8DevAddr : ℕ := 2

@[simp] def devVersionAddr : ℕ := 1
@[simp] def u8VersionStr : ℕ := 7

@[simp] def u8RootMac : ℕ := 1
@[simp] def u8NodeCount : ℕ := 7
@[simp] def u8NodeMac : ℕ := 8

@[simp] def otaNumber : ℕ := 32

@[simp] def tDevAddr : ℕ := 1

@[simp] def u16MaxCount : ℕ := 2
@[simp] def u16DataLen : ℕ := 4
@[simp] def u8Data : ℕ := 6

@[simp] def sizeofServerCmd : ℕ := tcpClientRecvLen
@[simp] def sizeofNodeMsg : ℕ := childPacketLen

/-- The three fields in front of the union of the `node_msg_t` at `p`. -/
def busHeader (p : ℕ) (type : BusType) (cmd : BusCmd) (m : Mem) : Mem :=
  m.fill p 0xff packetHeaderLen
    |>.store (p + u8Type) [type.byte]
    |>.store (p + u8Cmd) [cmd.byte]

theorem busHeader_byte_off (p : ℕ) (type : BusType) (cmd : BusCmd) (m : Mem) (a : ℕ)
    (h : a < p ∨ p + 8 ≤ a) : (busHeader p type cmd m).byte a = m.byte a := by
  simp only [busHeader, u8Type, u8Cmd, packetHeaderLen]
  rw [Mem.store_byte_off _ _ _ _ (by simp only [List.length_singleton]; omega),
    Mem.store_byte_off _ _ _ _ (by simp only [List.length_singleton]; omega), Mem.fill_byte,
    if_neg (by omega)]

theorem busHeader_load (p : ℕ) (type : BusType) (cmd : BusCmd) (m : Mem) :
    (busHeader p type cmd m).load p body =
      mwifiAddrBroadcast.val ++ [type.byte, cmd.byte] := by
  simp only [busHeader, u8Type, u8Cmd, packetHeaderLen]
  have hcmd := Mem.load_store_self ((m.fill p 0xff 6).store (p + 6) [type.byte]) (p + 7) [cmd.byte]
  have htype := Mem.load_store_self (m.fill p 0xff 6) (p + 6) [type.byte]
  rw [List.length_singleton] at hcmd htype
  rw [← Mem.load_store_off _ (p + 7) (p + 6) 1 [cmd.byte] (.inl (by omega))] at htype
  have hff := Mem.load_fill_self m p 6 0xff
  rw [← Mem.load_store_off _ (p + 6) p 6 [type.byte] (.inl (by omega)),
    ← Mem.load_store_off _ (p + 7) p 6 [cmd.byte] (.inl (by omega))] at hff
  rw [show body = 6 + 1 + 1 from rfl, Mem.load_append, Mem.load_append, hcmd, htype, hff]
  rfl

theorem busHeader_codes (p : ℕ) (type : BusType) (cmd : BusCmd) (m : Mem) :
    (busHeader p type cmd m).load (p + u8Type) 2 = [type.byte, cmd.byte] := by
  rw [← show body - u8Type = 2 from rfl, ← Mem.load_drop _ p body u8Type (by simp), busHeader_load]
  rfl

theorem inside_busHeader (lo hi p : ℕ) (type : BusType) (cmd : BusCmd) (m : Mem) (hlo : lo ≤ p)
    (hhi : p + 8 ≤ hi) : (busHeader p type cmd m).Inside lo hi ↔ m.Inside lo hi := by
  simp only [busHeader, u8Type, u8Cmd, packetHeaderLen, Mem.inside_store, Mem.inside_fill,
    List.length_singleton]
  exact ⟨fun h => h.2.2.2, fun h => ⟨by omega, by omega, by omega, h⟩⟩

/-! ## Pictures -/

/-- `camera_fb_t`; the copies of whole packets read past the end of the picture. -/
structure CameraFb where
  buf : ℕ → UInt8
  len : ℕ

def CameraFb.slice (fb : CameraFb) (a n : ℕ) : List UInt8 := (Mem.mk fb.buf []).load a n

/-- `(size + PACKET_BODY_LEN - 1) / PACKET_BODY_LEN` as a `uint16_t`. -/
def picMaxCount (size : ℕ) : ℕ := (size + packetBodyLen - 1) / packetBodyLen % 65536

/-! ## The message between the two root tasks -/

/-- `serverqueue_msg_t`. It is not packed, but every member has alignment one. -/
structure ServerqueueMsg where
  bAddrValid : Bool
  u8addr : Mac
  tServerCmd : Bytes 101
  deriving DecidableEq

def ServerqueueMsg.toBytes (m : ServerqueueMsg) : List UInt8 :=
  [if m.bAddrValid then 1 else 0] ++ m.u8addr.val ++ m.tServerCmd.val

def ServerqueueMsg.ofBytes (bs : List UInt8) : ServerqueueMsg :=
  ⟨bs.getD 0 0 != 0, field bs 1 6, field bs 7 101⟩

@[simp] theorem ServerqueueMsg.toBytes_length (m : ServerqueueMsg) : m.toBytes.length = 108 := by
  simp [toBytes, m.u8addr.2, m.tServerCmd.2]

theorem ServerqueueMsg.ofBytes_toBytes (m : ServerqueueMsg) : ofBytes m.toBytes = m := by
  have h1 := field_eq [if m.bAddrValid then 1 else 0] m.tServerCmd.val m.u8addr
  have h2 := field_eq ([if m.bAddrValid then 1 else 0] ++ m.u8addr.val) [] m.tServerCmd
  rw [List.length_append, m.u8addr.2, List.append_nil] at h2
  obtain ⟨valid, addr, cmd⟩ := m
  simp only [ofBytes, toBytes] at h1 h2 ⊢
  rw [show field _ 7 101 = cmd from h2, show field _ 1 6 = addr from h1]
  cases valid <;> rfl

/-- `ServerQueue` as `app_main` creates it: `xQueueCreate(3, sizeof(server_cmd_t))`. -/
def serverQueueCreate : CopyQueue.Queue := CopyQueue.create 3 sizeofServerCmd

/-! ## Mesh packets and what the tasks do to the outside -/

inductive Communicate
  | unicast | multicast | broadcast
  deriving DecidableEq, Repr

/-- The fields of `mwifi_data_type_t` the program sets or reads. -/
structure MwifiDataType where
  upgrade : Bool
  communicate : Communicate
  deriving DecidableEq, Repr

def MwifiDataType.zero : MwifiDataType := ⟨false, .unicast⟩

/-- A packet as `mwifi_root_read` or `mwifi_read` delivers it: never more than asked for. -/
structure MeshPacket where
  src : Mac
  type : MwifiDataType
  data : List UInt8
  fits : data.length ≤ childPacketLen

/-- What a task does that another device, the file system or the board sees: `send` on the
socket, `mwifi_write` (to the root where `dest` is `none`), `update_system_config` of
`run_mode`, and a read through the NULL camera frame. -/
inductive Event
  | send (packet : List UInt8)
  | mwifiWrite (dest : Option Mac) (type : MwifiDataType) (packet : List UInt8)
  | mwifiRootWrite (dests : List Mac) (type : MwifiDataType) (packet : List UInt8)
  | mwifiRootRead (src : Mac) (packet : List UInt8)
  | mupgradeRootHandle (src : Mac) (packet : List UInt8)
  | mupgradeHandle (src : Mac) (packet : List UInt8)
  | updateRunMode (value : List UInt8)
  | systemReboot
  | nullFrame

/-- The shared buffer a task works in, and what it has done so far, the latest first. -/
structure Io where
  mem : Mem
  trace : List Event

def Io.emit (io : Io) (e : Event) : Io := { io with trace := e :: io.trace }

def Io.modify (io : Io) (f : Mem → Mem) : Io := { io with mem := f io.mem }

@[simp] theorem Io.emit_mem (io : Io) (e : Event) : (io.emit e).mem = io.mem := rfl
@[simp] theorem Io.emit_trace (io : Io) (e : Event) : (io.emit e).trace = e :: io.trace := rfl
@[simp] theorem Io.modify_mem (io : Io) (f : Mem → Mem) : (io.modify f).mem = f io.mem := rfl
@[simp] theorem Io.modify_trace (io : Io) (f : Mem → Mem) : (io.modify f).trace = io.trace := rfl

end EspMesh
