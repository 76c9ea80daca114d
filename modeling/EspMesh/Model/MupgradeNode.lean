import EspMesh.Library.BitArray
import EspMesh.Library.NorFlash
import EspMesh.Model.MupgradeRoot

/-! # `mupgrade_node.c`: a device takes a firmware

The calls a function makes that others see are listed in their order; what they return is given.
A partition pointer is a number, and `none` is NULL.
-/

namespace EspMesh
set_option autoImplicit false
open ByteMem NorFlash

@[simp] def mupgradeStatusReportInterval : ℕ := 10

def mupgradeTypeData : UInt8 := 1

/-- The codes that this file names; every other one comes from a call. -/
inductive MdfErr
  | ok
  | invalidArg
  | firmwarePartition
  | firmwareDownload
  | firmwareFinish
  | notInit
  | stop
  | other (code : ℕ)
  deriving DecidableEq

/-- What a call returns, with `none` for `ESP_OK`. -/
def espErr : Option ℕ → MdfErr
  | none => .ok
  | some code => .other code

/-! ## `mupgrade.h` -/

/-- `MUPGRADE_GET_BITS` -/
def mupgradeGetBits (data : ℕ → UInt8) (bits : ℕ) : Bool :=
  data (bits >>> 3) &&& UInt8.ofNat (1 <<< (bits &&& 7)) != 0

/-- `MUPGRADE_SET_BITS` -/
def mupgradeSetBits (data : ℕ → UInt8) (bits : ℕ) : ℕ → UInt8 :=
  Function.update data (bits >>> 3) (data (bits >>> 3) ||| UInt8.ofNat (1 <<< (bits &&& 7)))

/-- `mupgrade_packet_t`; `data` goes on behind the packet. -/
structure MupgradePacket where
  seq : ℕ
  size : ℕ
  data : ℕ → UInt8

/-- `mupgrade_status_t` without its progress array. -/
structure MupgradeStatus where
  type : UInt8
  name : Bytes 32
  errorCode : MdfErr
  totalSize : ℕ
  writtenSize : ℕ

/-- `mupgrade_config_t`, as far as a device uses it, with the progress array behind it. -/
structure MupgradeConfig where
  handle : ℕ
  partition : Option ℕ
  status : MupgradeStatus
  progressArray : ℕ → UInt8

def MupgradeConfig.zero : MupgradeConfig where
  handle := 0
  partition := none
  status := ⟨0, Bytes.const 32 0, .ok, 0, 0⟩
  progressArray := fun _ => 0

/-- What comes back of a `mupgrade_config_t` of which `mdf_info_save` gets the first
`sizeof(mupgrade_status_t) + MUPGRADE_PACKET_MAX_NUM / 8` bytes: the array starts at byte 61, so
its last 16 bytes are not saved. -/
def MupgradeConfig.saved (g : MupgradeConfig) : MupgradeConfig :=
  { g with
    progressArray := fun k =>
      if k < 45 + mupgradePacketMaxNum / 8 - 61 then g.progressArray k else 0 }

/-! ## State and calls -/

/-- The globals; what is saved under `MUPGRADE_STORE_CONFIG_KEY`; what is in flash behind each
partition pointer. -/
structure UpgradeNode where
  gUpgradeConfig : Option MupgradeConfig
  gUpgradeFinishedFlag : Bool
  sNextWrittenPercentage : ℕ
  info : Option MupgradeConfig
  flash : ℕ → Flash

/-- After a reset: the globals are gone, what is in flash has stayed. -/
def UpgradeNode.boot (info : Option MupgradeConfig) (flash : ℕ → Flash) : UpgradeNode where
  gUpgradeConfig := none
  gUpgradeFinishedFlag := false
  sNextWrittenPercentage := mupgradeStatusReportInterval
  info := info
  flash := flash

inductive UpgradeNotice
  | started
  | status (percentage : ℕ)
  | finish

inductive NodeCall
  | otaBegin (partition size : ℕ)
  | otaEnd (handle : ℕ)
  | partitionWrite (partition : Option ℕ) (offset size : ℕ)
  | setBootPartition (partition : Option ℕ) (ret : MdfErr)
  | infoSave
  | infoErase
  | event (notice : UpgradeNotice)
  | mwifiWrite (status : MupgradeStatus) (withProgress : Bool)

/-! ## `mupgrade_status` -/

/-- What the calls of `mupgrade_status` return; `erased` is what `esp_ota_begin` leaves in the
partition. -/
structure StatusEnv where
  loaded : Bool
  isRoot : Bool
  running : Option ℕ
  update : Option ℕ
  setBoot : Option ℕ
  otaBegin : Option ℕ
  handle : ℕ
  erased : Flash
  infoSave : Option ℕ
  mwifiWrite : Option ℕ

/-- The configuration in use, or else what `mdf_info_load` makes of a cleared one. -/
def UpgradeNode.config (loaded : Bool) (n : UpgradeNode) : MupgradeConfig :=
  match n.gUpgradeConfig, n.info, loaded with
  | some g, _, _ => g
  | none, some g, true => g
  | none, _, _ => .zero

/-- From `EXIT` on, after the calls `calls`. -/
def statusExit (e : StatusEnv) (ret : MdfErr) (g : MupgradeConfig) (n : UpgradeNode)
    (calls : List NodeCall) : UpgradeNode × List NodeCall × MdfErr :=
  let withProgress := g.status.writtenSize != 0 && g.status.writtenSize != g.status.totalSize
  let events :=
    if withProgress then []
    else if g.status.writtenSize = g.status.totalSize then [.event (.status 100)]
    else []
  let status :=
    { g.status with
      type := mupgradeTypeData
      errorCode := if g.status.errorCode = .stop then .stop else ret }
  ({ n with gUpgradeConfig := some { g with status := status } },
    calls ++ events ++ [.mwifiWrite status withProgress], espErr e.mwifiWrite)

/-- On the root: the firmware is there, so it is only made the one to boot. -/
def statusRoot (e : StatusEnv) (g : MupgradeConfig) (n : UpgradeNode) :
    UpgradeNode × List NodeCall × MdfErr :=
  let call := .setBootPartition e.update (espErr e.setBoot)
  if e.setBoot.isSome then statusExit e (espErr e.setBoot) g n [call]
  else
    let status := { g.status with writtenSize := g.status.totalSize }
    statusExit e .ok { g with status := status, progressArray := fun _ => 0xff }
      { n with gUpgradeFinishedFlag := true } [call, .event .started, .event .finish]

def statusBegin (e : StatusEnv) (update : ℕ) (g : MupgradeConfig) (n : UpgradeNode) :
    UpgradeNode × List NodeCall × MdfErr :=
  let g := { g with partition := some update }
  let n := { n with flash := Function.update n.flash update e.erased }
  let begins := .otaBegin update g.status.totalSize
  if e.otaBegin.isSome then statusExit e (espErr e.otaBegin) g n [begins]
  else
    let g := { g with handle := e.handle }
    if e.infoSave.isSome then statusExit e (espErr e.infoSave) g n [begins, .infoSave]
    else
      statusExit e .ok g { n with info := some g.saved } [begins, .infoSave, .event .started]

def mupgradeStatus (e : StatusEnv) (status : MupgradeStatus) (n : UpgradeNode) :
    UpgradeNode × List NodeCall × MdfErr :=
  let g := n.config e.loaded
  if g.status.name = status.name ∧ g.status.totalSize = status.totalSize then
    statusExit e .ok g n []
  else
    let g := { MupgradeConfig.zero with status := { status with writtenSize := 0 } }
    if e.isRoot then statusRoot e g n
    else
      let n := { n with gUpgradeFinishedFlag := false }
      match e.running, e.update with
      | some _, some update => statusBegin e update g n
      | _, _ => statusExit e .firmwarePartition g n []

/-! ## `mupgrade_write`

It returns no value (`none`) when the device is reset on the way. -/

/-- What the calls of `mupgrade_write` return; `left` has the bits that a failed write has not
cleared, `update` is the partition that is made the one to boot. -/
structure WriteEnv where
  loaded : Bool
  partitionWrite : Option ℕ
  left : ℕ → UInt8
  infoSave : Option ℕ
  update : Option ℕ
  setBoot : Option ℕ
  mwifiWrite : Option ℕ

def partitionWrite (e : WriteEnv) (partition : Option ℕ) (offset size : ℕ) (data : ℕ → UInt8)
    (flash : ℕ → Flash) : ℕ → Flash :=
  match partition with
  | some p =>
    let left := if e.partitionWrite.isSome then e.left else fun _ => 0
    Function.update flash p (program (flash p) offset size data left)
  | none => flash

/-- All is written. The result of `esp_partition_write` is returned if the partition cannot be
made the one to boot. -/
def writeComplete (e : WriteEnv) (g : MupgradeConfig) (n : UpgradeNode) (calls : List NodeCall) :
    UpgradeNode × List NodeCall × Option MdfErr :=
  let ret := espErr e.setBoot
  let g := { g with status := { g.status with errorCode := ret } }
  let n := { n with gUpgradeConfig := some g, info := none }
  let calls := calls ++ [.otaEnd g.handle, .infoErase, .setBootPartition e.update ret]
  if e.setBoot.isSome then (n, calls, some .ok)
  else
    ({ n with gUpgradeFinishedFlag := true },
      calls ++ [.event .finish, .mwifiWrite g.status false], some (espErr e.mwifiWrite))

/-- The packet is in flash. To divide by a total size of 0 resets the device. -/
def writeDone (e : WriteEnv) (packet : MupgradePacket) (g : MupgradeConfig) (n : UpgradeNode)
    (calls : List NodeCall) : UpgradeNode × List NodeCall × Option MdfErr :=
  let status :=
    { g.status with writtenSize := (g.status.writtenSize + packet.size) % 4294967296 }
  let g : MupgradeConfig :=
    { g with status := status, progressArray := mupgradeSetBits g.progressArray packet.seq }
  if status.totalSize = 0 then (.boot n.info n.flash, calls, none)
  else
    let percentage := status.writtenSize * 100 % 4294967296 / status.totalSize
    let report := percentage = n.sNextWrittenPercentage
    let n := { n with
      gUpgradeConfig := some g
      sNextWrittenPercentage := n.sNextWrittenPercentage +
        if report then mupgradeStatusReportInterval else 0
      info := if report ∧ e.infoSave.isNone then some g.saved else n.info }
    let calls := calls ++ if report then [.infoSave, .event (.status percentage)] else []
    if status.writtenSize = status.totalSize then writeComplete e g n calls
    else (n, calls, some .ok)

def writePacket (e : WriteEnv) (packet : MupgradePacket) (g : MupgradeConfig) (n : UpgradeNode) :
    UpgradeNode × List NodeCall × Option MdfErr :=
  if g.status.errorCode = .stop then
    let status := { g.status with type := mupgradeTypeData, writtenSize := 0 }
    ({ n with
      gUpgradeConfig := some { g with status := status, progressArray := fun _ => 0 }
      info := none }, [.infoErase, .mwifiWrite status false], some (espErr e.mwifiWrite))
  else if packet.seq * mupgradePacketMaxSize > g.status.totalSize then
    ({ n with gUpgradeConfig := some g }, [], some .invalidArg)
  else if mupgradeGetBits g.progressArray packet.seq then
    ({ n with gUpgradeConfig := some g }, [], some .ok)
  else
    let offset := packet.seq * mupgradePacketMaxSize
    let call := .partitionWrite g.partition offset packet.size
    let n := { n with
      gUpgradeConfig := some g
      flash := partitionWrite e g.partition offset packet.size packet.data n.flash }
    if e.partitionWrite.isSome then (n, [call], some .firmwareDownload)
    else writeDone e packet g n [call]

/-- A configuration that is loaded brings the partition pointer it was saved with. -/
def mupgradeWrite (e : WriteEnv) (packet : MupgradePacket) (n : UpgradeNode) :
    UpgradeNode × List NodeCall × Option MdfErr :=
  match n.gUpgradeConfig, n.info, e.loaded with
  | some g, _, _ => writePacket e packet g n
  | none, some g, true => writePacket e packet g n
  | none, _, _ => (n, [], some .notInit)

/-! ## `mupgrade_handle` -/

/-- A function that does not reset the device returns. -/
def returned (r : UpgradeNode × List NodeCall × MdfErr) :
    UpgradeNode × List NodeCall × Option MdfErr :=
  (r.1, r.2.1, some r.2.2)

inductive NodeMessage
  | status (e : StatusEnv) (status : MupgradeStatus)
  | data (e : WriteEnv) (packet : MupgradePacket)

def mupgradeHandle (n : UpgradeNode) : NodeMessage → UpgradeNode × List NodeCall × Option MdfErr
  | .status e status => returned (mupgradeStatus e status n)
  | .data e packet => mupgradeWrite e packet n

def nodeStep (n : UpgradeNode) (msg : NodeMessage) : UpgradeNode := (mupgradeHandle n msg).1

/-! ## `mupgrade_stop`, `mupgrade_get_status` -/

/-- What the calls of `mupgrade_stop` return. -/
structure StopEnv where
  running : Option ℕ
  setBoot : Option ℕ
  mwifiWrite : Option ℕ

/-- From the change of the status on, after the calls `calls`. -/
def stopReport (e : StopEnv) (g : MupgradeConfig) (n : UpgradeNode) (calls : List NodeCall) :
    UpgradeNode × List NodeCall × MdfErr :=
  let status := { g.status with type := mupgradeTypeData, errorCode := .stop, writtenSize := 0 }
  ({ n with
    gUpgradeConfig := some { g with status := status, progressArray := fun _ => 0 }
    info := none }, calls ++ [.infoErase, .mwifiWrite status false], espErr e.mwifiWrite)

/-- A firmware that is complete is first made not to be booted. -/
def mupgradeStop (e : StopEnv) (n : UpgradeNode) : UpgradeNode × List NodeCall × MdfErr :=
  match n.gUpgradeConfig with
  | none => (n, [], .ok)
  | some g =>
    if n.gUpgradeFinishedFlag then
      let ret := espErr e.setBoot
      let call := .setBootPartition e.running ret
      if e.setBoot.isSome then (n, [call], ret) else stopReport e g n [call]
    else stopReport e g n []

def mupgradeGetStatus (n : UpgradeNode) : Option MupgradeStatus :=
  n.gUpgradeConfig.map (·.status)

/-! ## Resets

Between two messages a reset loses the globals. In the middle of a packet it matters only behind
`mdf_info_save`, since the completion of the firmware erases what has just been saved. -/

def UpgradeNode.reset (n : UpgradeNode) : UpgradeNode := .boot n.info n.flash

/-- The record that a packet is held against. -/
def UpgradeNode.record (loaded : Bool) (n : UpgradeNode) : Option MupgradeConfig :=
  match n.gUpgradeConfig, n.info, loaded with
  | some g, _, _ => some g
  | none, some g, true => some g
  | none, _, _ => none

/-- The packet is not written: the upgrade was stopped, the packet lies behind the firmware or has
come before. -/
def MupgradeConfig.refuses (g : MupgradeConfig) (packet : MupgradePacket) : Prop :=
  g.status.errorCode = .stop ∨ packet.seq * mupgradePacketMaxSize > g.status.totalSize ∨
    mupgradeGetBits g.progressArray packet.seq = true

instance (g : MupgradeConfig) (packet : MupgradePacket) : Decidable (g.refuses packet) :=
  inferInstanceAs (Decidable (_ ∨ _ ∨ _))

/-- The record once a packet in flash has been counted. -/
def MupgradeConfig.counting (g : MupgradeConfig) (packet : MupgradePacket) : MupgradeConfig :=
  { g with
    status := { g.status with writtenSize := (g.status.writtenSize + packet.size) % 4294967296 }
    progressArray := mupgradeSetBits g.progressArray packet.seq }

/-- The packet is written and counted, and its percentage has the record saved. -/
def SavesWith (e : WriteEnv) (packet : MupgradePacket) (g : MupgradeConfig) (n : UpgradeNode) :
    Prop :=
  ¬ g.refuses packet ∧ e.partitionWrite = none ∧ e.infoSave = none ∧ g.status.totalSize ≠ 0 ∧
    (g.counting packet).status.writtenSize * 100 % 4294967296 / g.status.totalSize =
      n.sNextWrittenPercentage

instance (e : WriteEnv) (packet : MupgradePacket) (g : MupgradeConfig) (n : UpgradeNode) :
    Decidable (SavesWith e packet g n) :=
  inferInstanceAs (Decidable (_ ∧ _ ∧ _ ∧ _ ∧ _))

/-- The device is reset while it handles a packet, behind `mdf_info_save`. -/
def UpgradeNode.cut (e : WriteEnv) (packet : MupgradePacket) (n : UpgradeNode) : UpgradeNode :=
  let flash := (mupgradeWrite e packet n).1.flash
  match n.record e.loaded with
  | none => .boot n.info flash
  | some g =>
    .boot (if SavesWith e packet g n then some (g.counting packet).saved else n.info) flash

inductive NodeEvent
  | msg (msg : NodeMessage)
  | reset
  | cut (e : WriteEnv) (packet : MupgradePacket)

def nodeEvent (n : UpgradeNode) : NodeEvent → UpgradeNode
  | .msg msg => nodeStep n msg
  | .reset => n.reset
  | .cut e packet => n.cut e packet

end EspMesh
