import EspMesh.Model.OtaTask
import EspMesh.Model.MupgradeNode
import Mathlib.Computability.StateTransition

/-! # The firmware comes to the root

`mupgrade_firmware_init` and `mupgrade_firmware_download` of `mupgrade_root.c`, and `ota_task` with
what its calls return up to `mupgrade_firmware_send`. The root's configuration is a
`mupgrade_config_t` like a device's, without the array behind it. The flash and OTA calls that a
function makes are listed in their order, with what they return.
-/

namespace EspMesh
set_option autoImplicit false
open ByteMem StateTransition

/-- `OTA_SIZE_UNKNOWN` -/
def otaSizeUnknown : ℕ := 0xffffffff

def MupgradeConfig.setError (err : MdfErr) (g : MupgradeConfig) : MupgradeConfig :=
  { g with status := { g.status with errorCode := err } }

inductive FlashCall
  | otaBegin (size : ℕ) (ret : MdfErr)
  | otaWrite (size : ℕ) (ret : MdfErr)
  | otaEnd (ret : MdfErr)
  | firmwareCheck (ret : MdfErr)
  | partitionWrite (ret : MdfErr)
  | setBootPartition (ret : MdfErr)
  deriving DecidableEq

def FlashCall.ret : FlashCall → MdfErr
  | .otaBegin _ ret | .otaWrite _ ret | .otaEnd ret | .firmwareCheck ret | .partitionWrite ret
  | .setBootPartition ret => ret

/-- What the calls of `mupgrade_firmware_init` return; `handle` is what `esp_ota_begin` stores. -/
structure FirmwareInitEnv where
  running : Option ℕ
  update : Option ℕ
  updateSize : ℕ
  otaBegin : Option ℕ
  handle : ℕ

def mupgradeFirmwareInit (e : FirmwareInitEnv) (name : Bytes 32) (size : ℕ)
    (g : Option MupgradeConfig) : Option MupgradeConfig × List FlashCall × MdfErr :=
  if size = 0 then (g, [], .invalidArg)
  else
    match e.running, e.update with
    | some _, some update =>
      if size ≠ otaSizeUnknown ∧ e.updateSize < size then (g, [], .invalidArg)
      else
        let config := g.getD .zero
        let status :=
          { config.status with
            name := name
            errorCode := espErr e.otaBegin
            totalSize := size
            writtenSize := 0 }
        -- `ret` is still `MDF_OK` behind a begin that failed; only the code is kept.
        (some { config with handle := e.handle, partition := some update, status := status },
          [.otaBegin size (espErr e.otaBegin)], .ok)
    | _, _ => (g, [], .firmwarePartition)

/-- What the calls of `mupgrade_firmware_download` return; `check` is `mupgrade_firmware_check`,
which reads the flash under `CONFIG_MUPGRADE_FIRMWARE_CHECK` only. -/
structure FirmwareDownloadEnv where
  mdfErrMupgradeBase : ℕ
  otaWrite : Option ℕ
  otaEnd : Option ℕ
  check : Option ℕ

def FirmwareDownloadEnv.mdfErrMupgradeFirmwareInvalid (e : FirmwareDownloadEnv) : MdfErr :=
  .other (e.mdfErrMupgradeBase + 3)

def mupgradeFirmwareDownloadFinished (e : FirmwareDownloadEnv) (totalSize : ℕ) :
    Option MupgradeConfig → Option MupgradeConfig × List FlashCall × MdfErr
  | none => (none, [], .notInit)
  | some g =>
    let g := { g with status := { g.status with totalSize := totalSize } }
    let ends := .otaEnd (espErr e.otaEnd)
    if e.otaEnd.isSome then
      (some (g.setError (espErr e.otaEnd)), [ends], e.mdfErrMupgradeFirmwareInvalid)
    else
      let calls := [ends, .firmwareCheck (espErr e.check)]
      if e.check.isSome then (some (g.setError (espErr e.check)), calls, espErr e.check)
      else (some (g.setError .firmwareFinish), calls, .ok)

def mupgradeFirmwareDownload (e : FirmwareDownloadEnv) (size : ℕ) :
    Option MupgradeConfig → Option MupgradeConfig × List FlashCall × MdfErr
  | none => (none, [], if size = 0 then .invalidArg else .notInit)
  | some g =>
    if size = 0 then (some g, [], .invalidArg)
    else if g.status.errorCode ≠ .ok then (some g, [], g.status.errorCode)
    else
      let write := .otaWrite size (espErr e.otaWrite)
      if e.otaWrite.isSome then
        (some (g.setError (espErr e.otaWrite)), [write], espErr e.otaWrite)
      else
        let status := { g.status with writtenSize := (g.status.writtenSize + size) % 4294967296 }
        let g := { g with status := status }
        if status.writtenSize = status.totalSize then
          let (g, calls, ret) := mupgradeFirmwareDownloadFinished e status.totalSize (some g)
          (g, write :: calls, ret)
        else (some g, [write], .ok)

/-! ## What the calls of the task return -/

/-- The attempts at `esp_http_client_open`, the content length as an `int`, the read for the log,
the partitions, and what is read and written chunk by chunk. The client is made, and the node
stays root. -/
structure Download where
  opens : ℕ → Bool
  contentLength : BitVec 32
  reported : ℤ
  init : FirmwareInitEnv
  chunk : ℕ → ℤ
  mdfErrMupgradeBase : ℕ
  otaWrite : ℕ → Option ℕ
  otaEnd : Option ℕ
  check : Option ℕ

/-- The shared state, `g_upgrade_config` of the root, the chunks read so far, and the packets
sent to the server, the latest first. -/
structure OtaRun where
  shared : OtaShared
  gUpgradeConfig : Option MupgradeConfig
  reads : ℕ
  sent : List (List UInt8)

/-- A task as `root_do_ota` creates it, the last of `o`. -/
def OtaRun.create (o : OtaShared) (buf : ℕ) (destData : Bytes 61) (g : Option MupgradeConfig) :
    OtaRun where
  shared := { o with tasks := o.tasks ++ [⟨buf, destData, .waiting, ⟨[], []⟩⟩] }
  gUpgradeConfig := g
  reads := 0
  sent := []

def OtaRun.pc (i : ℕ) (s : OtaRun) : Option OtaPc := s.shared.tasks[i]?.map OtaTask.pc

namespace Download
variable (w : Download)

def env (k : ℕ) : FirmwareDownloadEnv :=
  ⟨w.mdfErrMupgradeBase, w.otaWrite k, w.otaEnd, w.check⟩

/-- The content length as the `size_t` `total_size`. -/
def totalSize : ℕ := w.contentLength.toNat

/-- What the call that the task is at returns, with the root's configuration and the number of
chunks behind it. From `mupgrade_firmware_send` on the download has no say. -/
def answer (name : Bytes 32) (g : Option MupgradeConfig) (reads : ℕ) :
    OtaPc → Option (OtaEvent × Option MupgradeConfig × ℕ)
  | .waiting => some (.client true, g, reads)
  | .opening u8retrycount => some (.opened (w.opens u8retrycount) true, g, reads)
  | .fetching => some (.headers w.totalSize, g, reads)
  | .reporting => some (.reported w.reported, g, reads)
  | .initing totalSize =>
    let (g, _, ret) := mupgradeFirmwareInit w.init name totalSize g
    some (.inited (ret = .ok), g, reads)
  | .downloading _ _ =>
    let size := w.chunk reads
    if size ≤ 0 then some (.chunk size true, g, reads + 1)
    else
      let (g, _, ret) := mupgradeFirmwareDownload (w.env reads) size.toNat g
      some (.chunk size (ret = .ok), g, reads + 1)
  | .exit => some (.finish, g, reads)
  | .distributing | .sending | .deleting | .returned => none

def step (gSelfMac : Mac) (i : ℕ) (s : OtaRun) : Option OtaRun :=
  match s.shared.tasks[i]? with
  | none => none
  | some t =>
    match w.answer s.shared.gOtaFirmwareName s.gUpgradeConfig s.reads t.pc with
    | none => none
    | some (e, g, reads) =>
      let (shared, packet) := otaTaskStep gSelfMac s.shared i e
      some ⟨shared, g, reads, packet.toList ++ s.sent⟩

/-! ## What is said of a run -/

/-- The task calls `mupgrade_firmware_send`. -/
def Distributes (gSelfMac : Mac) (i : ℕ) (s : OtaRun) : Prop :=
  ∃ t, Reaches (w.step gSelfMac i) s t ∧ t.pc i = some .distributing

/-- The task ends, and the one packet it has sent counts no device in either list. -/
def EndsEmpty (gSelfMac : Mac) (i : ℕ) (s : OtaRun) : Prop :=
  ∃ t ∈ eval (w.step gSelfMac i) s, t.pc i = some .deleting ∧
    ∃ packet, t.sent = packet :: s.sent ∧
      packet[tNode + body]? = some 0 ∧ packet[tNode + body + 1]? = some 0

/-- The bytes of the first `k` chunks. -/
def received : ℕ → ℕ
  | 0 => 0
  | k + 1 => received k + (w.chunk k).toNat

/-- Everything behind the connection goes well: the content is there and fits the partition, and
until it is complete no chunk is empty and none fails to be written. -/
structure Stores : Prop where
  content : 0 < w.contentLength.toInt
  running : w.init.running.isSome = true
  update : w.init.update.isSome = true
  fits : w.contentLength.toInt ≤ w.init.updateSize
  begins : w.init.otaBegin = none
  chunks : ∀ k, w.received k < w.totalSize → 0 < w.chunk k
  writes : ∀ k, w.received k < w.totalSize → w.otaWrite k = none
  ends : w.otaEnd = none
  checks : w.check = none

/-- The download worked: one of the twenty attempts did, and everything behind it. -/
def Works : Prop := (∃ n < 20, w.opens n = true) ∧ w.Stores

/-- Of the twenty attempts the last one only is successful. -/
def OpensLast : Prop := (∀ n < 19, w.opens n = false) ∧ w.opens 19 = true

/-- No read returns more than what is left of the content. -/
def ReadsWithin : Prop := ∀ k, w.chunk k ≤ max 0 (w.contentLength.toInt - w.received k)

end Download

end EspMesh
