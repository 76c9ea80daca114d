import EspMesh.Model.Common

/-! # `ota_task` and the state it shares with the root's loops

The task is a machine whose control states are the calls it makes; an event is what such a call
returns. `vTaskDelete` is the kernel's: the statements behind `vTaskDelete(NULL)` are the control
state `deleting`, left only by the event `returned`, which the kernel never causes.
-/

namespace EspMesh
set_option autoImplicit false
open ByteMem

/-- The lists of a `mupgrade_result_t` that `ota_task` reads. -/
structure UpgradeResult where
  successed : List Mac
  unfinished : List Mac

/-- The call the task is at: `esp_http_client_init` behind `vTaskDelay`, then `_open`,
`_fetch_headers` (and one more read, for the log, of a content that is no good),
`mupgrade_firmware_init`, `_read`, `mupgrade_firmware_send` before and behind its checks, the
label `EXIT`, `vTaskDelete(NULL)`, and the end of the function. -/
inductive OtaPc
  | waiting
  | opening (u8retrycount : ℕ)
  | fetching
  | reporting
  | initing (totalSize : ℕ)
  | downloading (recvSize totalSize : ℕ)
  | distributing
  | sending
  | exit
  | deleting
  | returned
  deriving DecidableEq

/-- `buf` is the allocation of `root_do_ota` that the task was given, `destData` its content. -/
structure OtaTask where
  buf : ℕ
  destData : Bytes 61
  pc : OtaPc
  result : UpgradeResult

def OtaTask.live (t : OtaTask) : Bool :=
  match t.pc with
  | .deleting | .returned => false
  | _ => true

/-- What the calls return, in the same order: `isRoot` is asked behind a failed open, the
headers give a `size_t`, and a chunk is read and then downloaded. -/
inductive OtaEvent
  | client (ok : Bool)
  | opened (ok isRoot : Bool)
  | headers (totalSize : ℕ)
  | reported (ret : ℤ)
  | inited (ok : Bool)
  | chunk (size : ℤ) (ok : Bool)
  | checked (ok : Bool)
  | sent (ok : Bool) (result : UpgradeResult)
  | finish
  | returned

/-- The next control state, and the result when `mupgrade_firmware_send` has just stored it. An
event the task is not waiting for changes nothing. -/
def OtaTask.next (t : OtaTask) : OtaEvent → OtaTask
  | .client ok =>
    match t.pc with
    | .waiting => { t with pc := if ok then .opening 0 else .exit }
    | _ => t
  | .opened ok isRoot =>
    match t.pc with
    | .opening n =>
      if !ok && !isRoot then { t with pc := .exit }
      else if !ok && n + 1 < 20 then { t with pc := .opening (n + 1) }
      -- The last of twenty attempts leaves the loop like a failure, whatever it returned.
      else if n + 1 = 20 then { t with pc := .exit }
      else { t with pc := .fetching }
    | _ => t
  | .headers totalSize =>
    match t.pc with
    | .fetching => { t with pc := if totalSize = 0 then .reporting else .initing totalSize }
    | _ => t
  | .reported _ =>
    match t.pc with
    | .reporting => { t with pc := .exit }
    | _ => t
  | .inited ok =>
    match t.pc with
    | .initing totalSize => { t with pc := if ok then .downloading 0 totalSize else .exit }
    | _ => t
  | .chunk size ok =>
    match t.pc with
    | .downloading recvSize totalSize =>
      if size ≤ 0 then { t with pc := .exit }
      else if !ok then { t with pc := .exit }
      else if recvSize + size.toNat < totalSize then
        { t with pc := .downloading (recvSize + size.toNat) totalSize }
      else { t with pc := .distributing }
    | _ => t
  | .checked ok =>
    match t.pc with
    | .distributing => { t with pc := if ok then .sending else .exit }
    | _ => t
  | .sent _ result =>
    match t.pc with
    -- Failed, without success, or done: every way on leads to `EXIT`.
    | .sending => { t with pc := .exit, result := result }
    | _ => t
  | .finish =>
    match t.pc with
    | .exit => { t with pc := .deleting }
    | _ => t
  | .returned =>
    match t.pc with
    | .deleting => { t with pc := .returned }
    | _ => t

/-- The packet built at `EXIT`, in an allocation of its own that starts out zeroed. -/
def otaResultPacket (gSelfMac : Mac) (r : UpgradeResult) : Mem :=
  let successed := mwifiAddrLen * r.successed.length
  (Mem.mk (fun _ => 0) []).fill 0 0 rootPacketLen
    |>.store 0 gSelfMac.val
    |>.fill tNode 0xff mwifiAddrLen
    |>.store (tNode + u8Type) [BusType.response.byte]
    |>.store (tNode + u8Cmd) [BusCmd.ota.byte]
    |>.store (tNode + body) [UInt8.ofNat r.successed.length]
    |>.store (tNode + body + 1) (r.successed.flatMap (·.val))
    |>.store (tNode + body + 1 + successed) [UInt8.ofNat r.unfinished.length]
    |>.store (tNode + body + 2 + successed) (r.unfinished.flatMap (·.val))

/-- What happened to an address buffer of `root_do_ota`: its task was created, an upgrade was
running already, `xTaskCreate` failed, or the task that owned it ended. -/
inductive OtaMark
  | started (buf : ℕ)
  | busy (buf : ℕ)
  | notCreated (buf : ℕ)
  | ended (buf : ℕ)
  deriving DecidableEq

/-- The globals, with the handle `g_root_ota_read_task_handle` as whether it is set; how often
each buffer of `root_do_ota` was freed; and the marks, the latest first. -/
structure OtaShared where
  bDeviceOtaFlag : Bool
  gOtaReadTaskFlag : Bool
  gMupgradeSendRunningFlag : Bool
  rootOtaReadTask : Bool
  gOtaFirmwareName : Bytes 32
  urlOta : List UInt8
  tasks : List OtaTask
  freed : List ℕ
  marks : List OtaMark

def OtaShared.effect (o : OtaShared) (t : OtaTask) (e : OtaEvent) : OtaShared :=
  match e, t.pc with
  | .checked true, .distributing => { o with gMupgradeSendRunningFlag := true }
  | .sent _ _, .sending => { o with gMupgradeSendRunningFlag := false }
  | .finish, .exit =>
    { o with gOtaReadTaskFlag := false, marks := .ended t.buf :: o.marks }
  | .returned, .deleting =>
    { o with bDeviceOtaFlag := false, freed := o.freed.modify t.buf (· + 1) }
  | _, _ => o

/-- One step of the `i`-th task, with the packet it sends if it is at `EXIT`. -/
def otaTaskStep (gSelfMac : Mac) (o : OtaShared) (i : ℕ) (e : OtaEvent) :
    OtaShared × Option (List UInt8) :=
  match o.tasks[i]? with
  | none => (o, none)
  | some t =>
    ({ o.effect t e with tasks := o.tasks.set i (t.next e) },
      match e, t.pc with
      | .finish, .exit => some ((otaResultPacket gSelfMac t.result).load 0 rootPacketLen)
      | _, _ => none)

/-! ## The destination addresses

`destData` has the bytes from the address of the buffer on, `destAddr` the local array as a memory
of its own; the places of the buffer that are read are noted. -/

structure OtaDest where
  destAddr : Mem
  m : ℕ
  reads : List ℕ

/-- `dest_addr[i][j] = dest_data[m]; m++` -/
def OtaDest.copy (destData : ℕ → UInt8) (i : ℕ) (d : OtaDest) (j : ℕ) : OtaDest where
  destAddr := d.destAddr.store (mwifiAddrLen * i + j) [destData d.m]
  m := d.m + 1
  reads := d.m :: d.reads

def OtaDest.copyAddr (destData : ℕ → UInt8) (d : OtaDest) (i : ℕ) : OtaDest :=
  (List.range mwifiAddrLen).foldl (OtaDest.copy destData i) d

def OtaDest.fill (i : ℕ) (d : OtaDest) (j : ℕ) : OtaDest :=
  { d with destAddr := d.destAddr.store (mwifiAddrLen * i + j) [0xff] }

/-- `num` and `dest_addr` as they are given to `mupgrade_firmware_send`. -/
def otaDest (destData : ℕ → UInt8) : ℕ × OtaDest :=
  let num := (destData 0).toNat
  let d : OtaDest := ⟨⟨fun _ => 0, []⟩, 1, [0]⟩
  if num = 0 then (1, (List.range mwifiAddrLen).foldl (OtaDest.fill num) d)
  else (num, (List.range num).foldl (OtaDest.copyAddr destData) d)

/-- The buffer of the task and what lies `behind` it. -/
def OtaTask.destBytes (t : OtaTask) (behind : ℕ → UInt8) (a : ℕ) : UInt8 :=
  if a < 61 then t.destData.val.getD a 0 else behind (a - 61)

/-! ## `root_do_ota` -/

/-- What `root_do_ota` sees of the world; `garbage` is what the fresh allocation held. -/
structure DoOtaEnv where
  mallocOk : Bool
  createOk : Bool
  garbage : Bytes 61

/-- The address buffer: the number, clamped to ten, decides how much is copied, but the number
copied is the frame's. -/
def otaDestData (m : Mem) (pServerCmd : ℕ) (garbage : Bytes 61) : Bytes 61 :=
  let u8Number := (m.byte (pServerCmd + body + otaNumber)).toNat
  let num := if u8Number > 10 then 10 else u8Number
  field (m.load (pServerCmd + body + otaNumber) (num * mwifiAddrLen + 1) ++
    garbage.val.drop (num * mwifiAddrLen + 1)) 0 61

def rootDoOta (configServerIp : List UInt8) (p : ℕ) (e : DoOtaEnv) (io : Io) (o : OtaShared) :
    Io × OtaShared :=
  if !e.mallocOk then (io, o)
  else
    let name := io.mem.loadBytes (p + tNode + body) 32
    let buf := o.freed.length
    let o := { o with
      bDeviceOtaFlag := true
      gOtaFirmwareName := name
      urlOta := "http://".toUTF8.toList ++ configServerIp ++ "/firmware_name/".toUTF8.toList ++
        cstr name.val
      freed := o.freed ++ [0] }
    let io := io.modify fun m => m.fill (p + tNode) 0xff mwifiAddrLen
      |>.store (p + tNode + u8Type) [BusType.response.byte]
    if o.gOtaReadTaskFlag then
      let io := io.modify fun m => m.store (p + tNode + u8Cmd) [BusCmd.ota.byte]
        |>.store (p + tNode + body) [busOtaUpdating]
      (io.emit (.send (io.mem.load p rootPacketLen)), { o with marks := .busy buf :: o.marks })
    else
      let dest := otaDestData io.mem (p + tNode) e.garbage
      let o := { o with gOtaReadTaskFlag := true, rootOtaReadTask := true }
      if e.createOk then
        (io, { o with
          tasks := o.tasks ++ [⟨buf, dest, .waiting, ⟨[], []⟩⟩]
          marks := .started buf :: o.marks })
      else (io, { o with marks := .notCreated buf :: o.marks })

end EspMesh
