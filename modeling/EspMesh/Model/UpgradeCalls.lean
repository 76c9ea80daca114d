import EspMesh.Model.FirmwareDownload

/-! # The flash calls of an upgrade

What the root's functions and `mupgrade_write` return beside the flash and OTA calls they make.
-/

namespace EspMesh
set_option autoImplicit false
open ByteMem

/-- A call of `mupgrade_write`; `esp_ota_end` may fail there. -/
def NodeCall.flashCall (e : WriteEnv) : NodeCall → Option FlashCall
  | .partitionWrite _ _ _ => some (.partitionWrite (espErr e.partitionWrite))
  | .setBootPartition _ ret => some (.setBootPartition ret)
  | _ => none

/-- The calls of `mupgrade_write`. -/
def writeCalls (e : WriteEnv) (packet : MupgradePacket) (n : UpgradeNode) : List FlashCall :=
  (mupgradeWrite e packet n).2.1.filterMap (NodeCall.flashCall e)

/-- A function that has made these calls does not return `MDF_OK` if one of them failed. -/
def Reports (ret : Option MdfErr) (calls : List FlashCall) : Prop :=
  ret = some .ok → ∀ call ∈ calls, call.ret = .ok

/-! ## The root's calls, one after the other -/

/-- The call, with what the root's configuration says of the firmware. -/
def SendCall.over (c : SendCall) (g : MupgradeConfig) : SendCall :=
  { c with
    firmwareFinished := decide (g.status.errorCode = .firmwareFinish)
    totalSize := g.status.totalSize }

/-- What `mupgrade_firmware_send` leaves in the root's configuration: behind the addresses the
written size is cleared. -/
def MupgradeConfig.sending (c : SendCall) (g : MupgradeConfig) : MupgradeConfig :=
  if (c.over g).accepted && (c.over g).addressed then
    { g with status := { g.status with writtenSize := 0 } }
  else g

inductive RootCall
  | init (e : FirmwareInitEnv) (name : Bytes 32) (size : ℕ)
  | download (e : FirmwareDownloadEnv) (size : ℕ)
  | send (c : SendCall)

/-- The root's `g_upgrade_config` behind a call. -/
def rootCall (g : Option MupgradeConfig) : RootCall → Option MupgradeConfig
  | .init e name size => (mupgradeFirmwareInit e name size g).1
  | .download e size => (mupgradeFirmwareDownload e size g).1
  | .send c => g.map (MupgradeConfig.sending c)

def RootCall.flashCalls (g : Option MupgradeConfig) : RootCall → List FlashCall
  | .init e name size => (mupgradeFirmwareInit e name size g).2.1
  | .download e size => (mupgradeFirmwareDownload e size g).2.1
  | .send _ => []

/-- `mupgrade_firmware_send` gets past its checks. -/
def sendPasses (c : SendCall) : Option MupgradeConfig → Bool
  | none => false
  | some g => (c.over g).accepted

/-- The flash calls so far, the latest first. -/
def noteFlash (made : List FlashCall) (g : Option MupgradeConfig) (call : RootCall) :
    List FlashCall :=
  (call.flashCalls g).reverse ++ made

/-- Since an `esp_ota_begin` for `size` that has succeeded there were only writes that have
succeeded, of `written` bytes together. -/
inductive Loading : ℕ → ℕ → List FlashCall → Prop
  | begins (size : ℕ) (before : List FlashCall) : Loading size 0 (.otaBegin size .ok :: before)
  | write {size written : ℕ} {made : List FlashCall} (h : Loading size written made)
      (chunk : ℕ) : Loading size (written + chunk) (.otaWrite chunk .ok :: made)

/-- Then `esp_ota_end` and `mupgrade_firmware_check` have succeeded, and all bytes are written. -/
inductive CompleteImage : List FlashCall → Prop
  | checked {size : ℕ} {made : List FlashCall} (h : Loading size size made) :
      CompleteImage (.firmwareCheck .ok :: .otaEnd .ok :: made)

/-- `esp_ota_write` succeeds within a partition only, and the size of one is a `uint32_t`. -/
def WritesFit (w : Option MupgradeConfig × List FlashCall) : RootCall → Prop
  | .download e size => ∀ total written, Loading total written w.2 →
    .otaWrite size .ok ∈ (mupgradeFirmwareDownload e size w.1).2.1 → written + size < 4294967296
  | _ => True

/-- Only a complete image is sent, and nothing is added to one. -/
def SendsComplete (w : Option MupgradeConfig × List FlashCall) : RootCall → Prop
  | .init _ _ _ => True
  | .download e size => CompleteImage w.2 →
    (mupgradeFirmwareDownload e size w.1).2.2 ≠ .ok ∧ (mupgradeFirmwareDownload e size w.1).2.1 = []
  | .send c => sendPasses c w.1 = true → CompleteImage w.2

/-! ## The calls whose failure is lost -/

/-- `mupgrade_firmware_init` comes to `esp_ota_begin`, and it fails. -/
def BeginFails (e : FirmwareInitEnv) (size : ℕ) : Prop :=
  size ≠ 0 ∧ e.running.isSome = true ∧ e.update.isSome = true ∧
    (size = otaSizeUnknown ∨ size ≤ e.updateSize) ∧ e.otaBegin.isSome = true

/-- The packet is the last one that is missing, of a firmware that is not empty. -/
def MupgradeConfig.Completes (packet : MupgradePacket) (g : MupgradeConfig) : Prop :=
  ¬ g.refuses packet ∧ g.status.totalSize ≠ 0 ∧
    (g.counting packet).status.writtenSize = g.status.totalSize

/-- The packet is written and completes the firmware, which cannot be made the one to boot. -/
def BootSwitchFails (e : WriteEnv) (packet : MupgradePacket) (n : UpgradeNode) : Prop :=
  ∃ g, n.record e.loaded = some g ∧ g.Completes packet ∧ e.partitionWrite = none ∧
    e.setBoot.isSome = true

end EspMesh
