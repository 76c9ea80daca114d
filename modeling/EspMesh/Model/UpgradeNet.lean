import EspMesh.Model.MupgradeNode

/-! # An upgrade in the mesh

The root with its queue and the devices, each as in its own file. What one side has written stays
on its way: it may get to the other side at any later time, in any order and any number of times,
or never.
-/

namespace EspMesh
set_option autoImplicit false
open ByteMem

def mupgradeTypeStatus : UInt8 := 2

/-- A call of `mupgrade_firmware_send` with the values of the error codes that the devices
report. -/
structure UpgradeCall extends FirmwareCall where
  errorCode : MdfErr → ℤ
  stopCode : errorCode .stop = toSendCall.mdfErrMupgradeStop

structure UpgradeNet where
  session : Session
  nodes : Mac → UpgradeNode
  reports : List FirmwareStatus

def UpgradeNet.start (c : UpgradeCall) (progressArray packetData : ℕ → UInt8)
    (nodes : Mac → UpgradeNode) : Option UpgradeNet :=
  (mupgradeFirmwareSend c.toSendCall progressArray packetData).map fun s => ⟨⟨s, []⟩, nodes, []⟩

/-! ## To the devices -/

/-- `request_status`; `mupgrade_firmware_send` has cleared `written_size`. -/
def UpgradeCall.requestStatus (c : UpgradeCall) : MupgradeStatus where
  type := mupgradeTypeStatus
  name := c.name
  errorCode := .firmwareFinish
  totalSize := c.totalSize
  writtenSize := 0

def MupgradeWrite.dests : MupgradeWrite → List Mac
  | .status dests => dests
  | .packet dests _ _ _ => dests

def MupgradeWrite.isPacket : MupgradeWrite → Bool
  | .status _ => false
  | .packet _ _ _ _ => true

/-- A call for all devices may send its packets to all of them. -/
def MupgradeWrite.getsTo (c : SendCall) (a : Mac) (w : MupgradeWrite) : Bool :=
  w.dests.contains a || (w.isPacket && (c.addrIsAny || c.addrIsBroadcast))

def MupgradeWrite.message (c : UpgradeCall) (s : StatusEnv) (e : WriteEnv) :
    MupgradeWrite → NodeMessage
  | .status _ => .status s c.requestStatus
  | .packet _ seq size data => .data e ⟨seq, size, fun k => data.getD k 0⟩

/-! ## From the devices -/

/-- What the root gets of a call of device `a`, which has become `n`. Behind a message without a
progress array the root reads on in `behind`. -/
def reportOf (c : UpgradeCall) (a : Mac) (behind : ℕ → UInt8) (n : UpgradeNode) :
    NodeCall → Option FirmwareStatus
  | .mwifiWrite status withProgress => some {
      srcAddr := a
      errorCode := c.errorCode status.errorCode
      totalSize := status.totalSize
      writtenSize := status.writtenSize
      progressArray := if withProgress then (n.config true).progressArray else behind
      name := status.name }
  | _ => none

def UpgradeNet.returns (c : UpgradeCall) (a : Mac) (behind : ℕ → UInt8)
    (r : UpgradeNode × List NodeCall × Option MdfErr) (net : UpgradeNet) : UpgradeNet :=
  { net with
    nodes := Function.update net.nodes a r.1
    reports := net.reports ++ r.2.1.filterMap (reportOf c a behind r.1) }

/-! ## Steps -/

/-- The `i`-th report gets to the root; the root goes on, as in a `SessionEvent`; the `i`-th
write gets to device `a`; device `a` calls `mupgrade_stop`. -/
inductive NetEvent
  | report (i : ℕ)
  | receive
  | flash (ok : Bool)
  | next
  | stop
  | write (a : Mac) (i : ℕ) (s : StatusEnv) (e : WriteEnv) (behind : ℕ → UInt8)
  | nodeStop (a : Mac) (e : StopEnv) (behind : ℕ → UInt8)

/-- What the root has part in. -/
def UpgradeNet.sessionEvent (net : UpgradeNet) : NetEvent → Option SessionEvent
  | .report i => net.reports[i]?.map .handle
  | .receive => some .receive
  | .flash ok => some (.flash ok)
  | .next => some .next
  | .stop => some .stop
  | .write _ _ _ _ _ | .nodeStop _ _ _ => none

/-- What a device has part in: its address, what it does, and what is behind its reports. -/
def UpgradeNet.nodeEvent (c : UpgradeCall) (net : UpgradeNet) : NetEvent →
    Option (Mac × (UpgradeNode → UpgradeNode × List NodeCall × Option MdfErr) × (ℕ → UInt8))
  | .write a i s e behind =>
    (net.session.send.writes[i]?.filter (·.getsTo c.toSendCall a)).map fun w =>
      (a, fun n => mupgradeHandle n (w.message c s e), behind)
  | .nodeStop a e behind => some (a, fun n => returned (mupgradeStop e n), behind)
  | _ => none

def UpgradeNet.step (c : UpgradeCall) (net : UpgradeNet) (e : NetEvent) : UpgradeNet :=
  match net.sessionEvent e, net.nodeEvent c e with
  | some r, _ => { net with session := net.session.step c.toFirmwareCall r }
  | none, some (a, handle, behind) => net.returns c a behind (handle (net.nodes a))
  | none, none => net

end EspMesh
