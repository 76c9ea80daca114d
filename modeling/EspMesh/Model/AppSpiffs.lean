import EspMesh.Library.ByteMem
import EspMesh.Library.LineFile

/-! # `app_spiffs.c`: the configuration file

What a function does to the file system is the list of the file operations it carries out; a
call that fails leaves the list short. A power loss is then a beginning of the list.
-/

namespace EspMesh
set_option autoImplicit false
open ByteMem LineFile

@[simp] def bufferSize : ℕ := 128

/-! ## The seven items -/

inductive ConfigItem
  | routerSsid | meshId | serverIp | serverPort | runMode | maxLayer | backoffRssi
  deriving DecidableEq, Repr

def configItems : List ConfigItem :=
  [.routerSsid, .meshId, .serverIp, .serverPort, .runMode, .maxLayer, .backoffRssi]

def ConfigItem.name : ConfigItem → List UInt8
  | .routerSsid => ofString "router_ssid"
  | .meshId => ofString "mesh_id"
  | .serverIp => ofString "server_ip"
  | .serverPort => ofString "server_port"
  | .runMode => ofString "run_mode"
  | .maxLayer => ofString "max_layer"
  | .backoffRssi => ofString "backoff_rssi"

def configValues : ConfigItem → List UInt8
  | .routerSsid => ofString "Frog"
  | .meshId => ofString "FrogT12"
  | .serverIp => ofString "192.168.200.34"
  | .serverPort => ofString "8888"
  | .runMode => ofString "2"
  | .maxLayer => ofString "3"
  | .backoffRssi => ofString "-78"

/-- The size of the item's field in `system_config_t`. -/
def ConfigItem.size : ConfigItem → ℕ
  | .routerSsid => 32
  | .meshId => 6
  | .serverIp => 16
  | .serverPort => 6
  | .runMode => 2
  | .maxLayer => 2
  | .backoffRssi => 6

/-- `system_config_t`, field by field. -/
abbrev SystemConfig := ConfigItem → List UInt8

def SystemConfig.zero : SystemConfig := fun it => List.replicate it.size 0

def equalsSign : UInt8 := 61

/-- A line of the file without its newline. -/
def configLine (var value : List UInt8) : List UInt8 := var ++ equalsSign :: value

/-! ## The file system -/

/-- `/spiffs/config.txt` and `/spiffs/replace.tmp`. -/
inductive ConfigFile
  | config
  | replace
  deriving DecidableEq

/-- The files that exist, and the number of handles open. -/
structure Spiffs where
  files : ConfigFile → Option (List UInt8)
  opened : ℕ

/-- The calls that succeed; of an `fputs` that fails nothing is written. -/
inductive FileOp
  | openRead
  | openWrite (file : ConfigFile)
  | puts (file : ConfigFile) (text : List UInt8)
  | close
  | unlink (file : ConfigFile)
  | rename (source dest : ConfigFile)

def Spiffs.apply (fs : Spiffs) : FileOp → Spiffs
  | .openRead => { fs with opened := fs.opened + 1 }
  | .openWrite file =>
    ⟨Function.update fs.files file (some []), fs.opened + 1⟩
  | .puts file text =>
    { fs with files := Function.update fs.files file ((fs.files file).map (· ++ text)) }
  | .close => { fs with opened := fs.opened - 1 }
  | .unlink file => { fs with files := Function.update fs.files file none }
  | .rename source dest =>
    { fs with
      files := Function.update (Function.update fs.files dest (fs.files source)) source none }

/-! ## `system_config_init` -/

structure InitEnv where
  registered : Bool
  infoOk : Bool
  fopenOk : Bool

/-- What boot does, and what it returns. -/
def systemConfigInit (e : InitEnv) (fs : Spiffs) : List FileOp × ℤ :=
  if !e.registered then ([], -1)
  else if !e.infoOk then ([], -2)
  else if (fs.files .config).isSome then ([], 0)
  else if !e.fopenOk then ([], -3)
  else
    let texts := configItems.map fun it => configLine it.name (configValues it) ++ [newline]
    ([.openWrite .config] ++ texts.map (.puts .config) ++ [.close], 0)

/-! ## `get_system_config` -/

/-- `memcpy` of at most the whole field, then a NUL in its last byte. -/
def copyField (size : ℕ) (field value : List UInt8) : List UInt8 :=
  let len := if value.length > size then size else value.length
  (value.take len ++ field.drop len).take (size - 1) ++ [0]

/-- What is behind the first `=` of a line. -/
def behindEquals (line : List UInt8) : Option (List UInt8) :=
  if equalsSign ∈ line then some ((line.dropWhile (· != equalsSign)).drop 1) else none

/-- Every item whose name the line begins with gets the value. -/
def setItems (line value : List UInt8) (pConfig : SystemConfig) : SystemConfig := fun it =>
  if it.name <+: line then copyField it.size (pConfig it) value else pConfig it

/-- The loop, for `n` more lines; the line buffer is cleared each time. -/
def getLoop : ℕ → List UInt8 → SystemConfig → ℤ × SystemConfig
  | 0, _, pConfig => (0, pConfig)
  | n + 1, file, pConfig =>
    let (buffer, rest) := fgets (bufferSize - 1) file
    let line := (cstr buffer).takeWhile (· != newline)
    match behindEquals line with
    | none => (-2, pConfig)
    | some value => getLoop n rest (setItems line value pConfig)

def getSystemConfig (fopenOk : Bool) (fs : Spiffs) (pConfig : SystemConfig) : ℤ × SystemConfig :=
  match fopenOk, fs.files .config with
  | true, some file => getLoop configItems.length file pConfig
  | _, _ => (-1, pConfig)

/-! ## `update_system_config` -/

/-- What the calls return, the `i`-th `fputs` numbered from zero; `buffer` is the local array as
the stack holds it. -/
structure UpdateEnv where
  fopenRead : Bool
  fopenWrite : Bool
  fputsOk : ℕ → Bool
  unlinkOk : Bool
  renameOk : Bool
  buffer : List UInt8

/-- The loop, for `n` more lines: the texts written. At the end of the file `fgets` leaves the
buffer as it is. -/
def updateLoop (var newLine : List UInt8) : ℕ → List UInt8 → List UInt8 → List (List UInt8)
  | 0, _, _ => []
  | n + 1, file, buffer =>
    let (line, rest) := fgets (bufferSize - 1) file
    let buffer := if line = [] then buffer else line
    (if var <+: cstr buffer then newLine else cstr buffer) ::
      updateLoop var newLine n rest buffer

/-- What the call does, and what it returns. The file system renames no file over another. -/
def updateSystemConfig (var value : List UInt8) (e : UpdateEnv) (fs : Spiffs) :
    List FileOp × ℤ :=
  match e.fopenRead, fs.files .config, e.fopenWrite with
  | true, some file, true =>
    let newLine := (configLine var value ++ [newline]).take (bufferSize - 1)
    let texts := updateLoop var newLine configItems.length file e.buffer
    let ops := [.openRead, .openWrite .replace] ++
      (texts.mapIdx fun i text => if e.fputsOk i then text else []).map (.puts .replace) ++
      [.close, .close]
    if !e.unlinkOk then (ops, -3)
    else if !e.renameOk then (ops ++ [.unlink .config], -3)
    else (ops ++ [.unlink .config, .rename .replace .config], 0)
  | true, some _, false => ([.openRead], -2)
  | _, _, true => ([.openWrite .replace], -2)
  | _, _, false => ([], -2)

end EspMesh
