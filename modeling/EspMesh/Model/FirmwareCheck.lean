import EspMesh.Library.ByteMem

/-! # `mupgrade_check.c`: the search for the firmware identifier

A partition is searched window by window for the identifier that every firmware of this project
contains. The `while` loops get a bound on their turns; to run out of it is `none`, and
`Proof.FirmwareCheck` shows that nothing does.
-/

namespace EspMesh
set_option autoImplicit false
open ByteMem

def espMdfOk : ℤ := 0
def espMdfFail : ℤ := -1

/-- `MUPGRADE_FIRMWARE_FLAG` as it is where the configuration does not set another,
"** MUPGRADE_FIRMWARE_FLAG **" filled up with NULs. -/
def mupgradeFirmwareFlag : Bytes 32 :=
  ⟨[42, 42, 32, 77, 85, 80, 71, 82, 65, 68, 69, 95, 70, 73, 82, 77, 87, 65, 82, 69, 95, 70, 76,
    65, 71, 32, 42, 42, 0, 0, 0, 0], rfl⟩

/-! ## `kmp_next` and `kmp_find` -/

/-- The loop that both functions have: `while (j != 0 && target[j] != c) j = next[j - 1]`. -/
def kmpFall (target : List UInt8) (next : Mem) (c : UInt8) : ℕ → ℕ → Option ℕ
  | 0, _ => none
  | fuel + 1, j =>
    if j ≠ 0 ∧ target.getD j 0 ≠ c then kmpFall target next c fuel (next.byte (j - 1)).toNat
    else some j

/-- The loop of `kmp_next` from `i` on, with `n` entries left. -/
def kmpNextLoop (target : List UInt8) : ℕ → ℕ → ℕ → Mem → Option Mem
  | 0, _, _, next => some next
  | n + 1, i, j, next => do
    let j ← kmpFall target next (target.getD i 0) (j + 1) j
    let j := if target.getD j 0 = target.getD i 0 then j + 1 else j
    kmpNextLoop target n (i + 1) j (next.store i [UInt8.ofNat j])

def kmpNext (target : List UInt8) (next : Mem) : Option Mem :=
  kmpNextLoop target (target.length - 1) 1 0 (next.store 0 [0])

/-- The loop of `kmp_find` from `i` on, with `n` symbols left. -/
def kmpFindLoop (src target : List UInt8) (next : Mem) : ℕ → ℕ → ℕ → Option ℤ
  | 0, _, _ => some espMdfFail
  | n + 1, i, nextIndex => do
    let nextIndex ← kmpFall target next (src.getD i 0) (nextIndex + 1) nextIndex
    if src.getD i 0 = target.getD nextIndex 0 then
      if nextIndex + 1 = target.length then some espMdfOk
      else kmpFindLoop src target next n (i + 1) (nextIndex + 1)
    else kmpFindLoop src target next n (i + 1) nextIndex

/-- `i <= src_size - target_size` bounds the place that is read, not the one where a match
starts. -/
def kmpFind (src target : List UInt8) (next : Mem) : Option ℤ :=
  kmpFindLoop src target next (src.length + 1 - target.length) 0 0

/-! ## `mupgrade_firmware_check` -/

/-- What is read of an `esp_partition_t`. A partition lies in the flash, whose addresses an `int`
holds. -/
structure EspPartition where
  address : UInt32
  size : UInt32
  fits : address.toNat + size.toNat ≤ 2147483648

/-- The flash, and what `spi_flash_read` returns for an address. -/
structure CheckEnv where
  flash : ℕ → UInt8
  spiFlashRead : UInt32 → ℤ

inductive CheckResult
  | mdfOk
  | mdfErrInvalidArg
  | mdfErrMupgradeFirmwareInvalid
  deriving DecidableEq

/-- The loop over the windows. `firmware_addr` is an `int`, but next to a `size_t` it is added and
compared as an `uint32_t`. -/
def firmwareLoop (firmwareFlag : Bytes 32) (e : CheckEnv) (partition : EspPartition) (next : Mem) :
    ℕ → UInt32 → ℤ → Option ℤ
  | 0, _, _ => none
  | fuel + 1, firmwareAddr, ret =>
    if firmwareAddr + 1024 < partition.address + partition.size then
      let ret := e.spiFlashRead firmwareAddr
      if ret ≠ espMdfOk then some ret
      else do
        let firmwareBuffer := (Mem.mk e.flash []).load firmwareAddr.toNat 1024
        let ret ← kmpFind firmwareBuffer firmwareFlag.val next
        if ret = espMdfOk then some ret
        else firmwareLoop firmwareFlag e partition next fuel (firmwareAddr + 1024 - 32) ret
    else some ret

/-- With `CONFIG_MUPGRADE_FIRMWARE_CHECK`. A window is 992 bytes on from the one before, so there
are fewer windows than bytes. -/
def mupgradeFirmwareCheck (firmwareFlag : Bytes 32) (e : CheckEnv) :
    Option EspPartition → Option CheckResult
  | none => some .mdfErrInvalidArg
  | some partition => do
    let kmpNextBuffer ← kmpNext firmwareFlag.val ⟨fun _ => 0, []⟩
    let ret ← firmwareLoop firmwareFlag e partition kmpNextBuffer (partition.size.toNat + 1)
      partition.address espMdfOk
    some (if ret ≠ espMdfOk then .mdfErrMupgradeFirmwareInvalid else .mdfOk)

end EspMesh
