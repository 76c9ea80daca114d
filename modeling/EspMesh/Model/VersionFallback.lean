import EspMesh.Model.FirmwareCheck

/-! # `mupgrade_check.c`: back to the version before

The starts of a device are counted in its flash, and the count is erased when the device has run
for `CONFIG_MUPGRADE_RESTART_TIMEOUT`. A start with which there are
`CONFIG_MUPGRADE_RESTART_COUNT` of them makes another partition the one to boot.
-/

namespace EspMesh
set_option autoImplicit false

structure FallbackConfig where
  mupgradeRestartCount : UInt32
  mupgradeVersionFallbackFactory : Bool

/-- As `sdkconfig` has it. -/
def fallbackSdkconfig : FallbackConfig := ⟨10, true⟩

/-- What `rtc_get_reset_reason` returns, as far as the reasons are told apart. -/
inductive ResetReason
  | poweronReset
  | deepsleepReset
  | rtcwdtBrownOutReset
  | rtcwdtRtcReset
  | other
  deriving DecidableEq

/-- What `esp_partition_find_first` and `esp_ota_get_next_update_partition` find, the latter next to
the partition that runs. -/
structure PartitionTable where
  factory : Option EspPartition
  nextUpdate : EspPartition → Option EspPartition

/-- What the calls of a start return; one that fails changes nothing. `firmwareCheck` is `mdfOk`
for every partition unless there is `CONFIG_MUPGRADE_FIRMWARE_CHECK`. -/
structure StartEnv where
  resetReason : ResetReason
  infoLoad : Bool
  infoSave : Bool
  infoErase : Bool
  timerCreate : Bool
  timerStart : Bool
  firmwareCheck : Option EspPartition → CheckResult
  setBootPartition : EspPartition → Bool

/-- `restartCount` is the entry under `MUPGRADE_STORE_RESTART_COUNT_KEY`, and `timer` whether the
timer `restart_count_erase` is running. -/
structure FallbackDevice where
  restartCount : Option UInt32
  timer : Bool
  running : EspPartition
  boot : EspPartition

/-! ## `restart_trigger` -/

def ResetReason.countsAnew (reason : ResetReason) : Bool :=
  reason = .poweronReset || reason = .rtcwdtRtcReset || reason = .deepsleepReset ||
    reason = .rtcwdtBrownOutReset

/-- The `restart_count` of a start. -/
def StartEnv.count (e : StartEnv) (stored : Option UInt32) : UInt32 :=
  if e.resetReason.countsAnew then 1
  -- a count that is not loaded is the 0 the variable was set to
  else (if e.infoLoad then stored.getD 0 else 0) + 1

structure TriggerResult where
  restartCount : Option UInt32
  timer : Bool
  ret : Bool

def restartTrigger (c : FallbackConfig) (e : StartEnv) (stored : Option UInt32) : TriggerResult :=
  let restartCount := e.count stored
  if ¬ e.infoSave then ⟨stored, false, false⟩
  else if ¬ e.timerCreate then ⟨some restartCount, false, false⟩
  else if restartCount < c.mupgradeRestartCount then ⟨some restartCount, e.timerStart, false⟩
  else ⟨if e.infoErase then none else some restartCount, e.timerStart, true⟩

/-- What is left of the count when the time is up. -/
def restartCountEraseTimercb (infoErase : Bool) (d : FallbackDevice) : FallbackDevice :=
  { d with timer := false, restartCount := if infoErase then none else d.restartCount }

/-! ## `mupgrade_version_fallback` -/

inductive FallbackError
  | firmwareCheck (ret : CheckResult)
  | setBootPartition

/-- The partition to fall back to. -/
def FallbackConfig.partition (c : FallbackConfig) (t : PartitionTable) (running : EspPartition) :
    Option EspPartition :=
  (if c.mupgradeVersionFallbackFactory then t.factory else none).or (t.nextUpdate running)

def mupgradeVersionFallback (c : FallbackConfig) (t : PartitionTable) (running : EspPartition)
    (e : StartEnv) : Except FallbackError EspPartition :=
  let partition := c.partition t running
  let ret := e.firmwareCheck partition
  if ret ≠ .mdfOk then .error (.firmwareCheck ret)
  else
    match partition with
    -- `esp_ota_set_boot_partition` refuses `NULL`
    | none => .error .setBootPartition
    | some p => if e.setBootPartition p then .ok p else .error .setBootPartition

/-! ## Starts -/

/-- `mupgrade_version_fallback_task`, in a device that has just booted. The timer does not survive
`esp_restart`. -/
def mupgradeVersionFallbackTask (c : FallbackConfig) (t : PartitionTable) (e : StartEnv)
    (d : FallbackDevice) : FallbackDevice :=
  let trigger := restartTrigger c e d.restartCount
  let d := { d with restartCount := trigger.restartCount, timer := trigger.timer }
  if trigger.ret then
    match mupgradeVersionFallback c t d.running e with
    | .ok p => { d with boot := p, timer := false }
    | .error _ => d
  else d

inductive StartEvent
  | start (e : StartEnv)
  | timeout (infoErase : Bool)

def fallbackStep (c : FallbackConfig) (t : PartitionTable) (d : FallbackDevice) :
    StartEvent → FallbackDevice
  | .start e => mupgradeVersionFallbackTask c t e { d with running := d.boot }
  | .timeout infoErase => if d.timer then restartCountEraseTimercb infoErase d else d

end EspMesh
