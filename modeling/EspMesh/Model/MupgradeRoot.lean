import EspMesh.Model.Common

/-! # `mupgrade_root.c`: the distribution of a firmware to the devices

`mupgrade_firmware_send` is a machine that stops wherever the code calls out: at a receive from
the queue of status messages, at a flash read, and at the heads of the loops, where the flag
that another task may clear is looked at. A packed array of addresses is a list of addresses;
`addrsRemoveBytes` is the function on the packed bytes, and `addrsRemoveBytes_refines` joins the
two.
-/

namespace EspMesh
set_option autoImplicit false
open ByteMem

@[simp] def mupgradePacketMaxSize : ℕ := 1024
@[simp] def mupgradePacketMaxNum : ℕ := 4096
@[simp] def mupgradeRetryCount : ℕ := 10

/-! ## `addrs_remove` -/

def addrsRemove (addr : Mac) : List Mac → List Mac × Bool
  | [] => ([], false)
  | a :: as =>
    if a = addr then (as, true) else (a :: (addrsRemove addr as).1, (addrsRemove addr as).2)

@[simp] theorem addrsRemove_fst (addr : Mac) (as : List Mac) :
    (addrsRemove addr as).1 = as.erase addr := by
  induction as with
  | nil => rfl
  | cons a as ih =>
    by_cases h : a = addr
    · rw [addrsRemove, if_pos h, h, List.erase_cons_head]
    · rw [addrsRemove, if_neg h, List.erase_cons_tail (by rwa [beq_iff_eq]), ih]

@[simp] theorem addrsRemove_snd (addr : Mac) (as : List Mac) :
    (addrsRemove addr as).2 = decide (addr ∈ as) := by
  induction as with
  | nil => rfl
  | cons a as ih =>
    by_cases h : a = addr
    · simp [addrsRemove, h]
    · simp [addrsRemove, h, ih, Ne.symm h]

def addrsAt (m : Mem) (p num : ℕ) : List Mac :=
  (List.range num).map fun i => m.loadBytes (p + mwifiAddrLen * i) 6

theorem addrsAt_succ (m : Mem) (p n : ℕ) :
    addrsAt m p (n + 1) = m.loadBytes p 6 :: addrsAt m (p + mwifiAddrLen) n := by
  rw [addrsAt, List.range_succ_eq_map, List.map_cons, List.map_map, addrsAt]
  refine congrArg _ (List.map_congr_left fun i _ => ?_)
  simp only [Function.comp_apply, mwifiAddrLen]
  rw [show p + 6 * (i + 1) = p + 6 + 6 * i by omega]

theorem addrsAt_congr {m m' : Mem} {p p' n : ℕ}
    (h : ∀ a < n * 6, m.byte (p + a) = m'.byte (p' + a)) : addrsAt m p n = addrsAt m' p' n := by
  refine List.map_congr_left fun i hi => Subtype.ext ?_
  rw [List.mem_range] at hi
  refine (Mem.load_eq_iff m m' _ _ 6).mpr fun k hk => ?_
  simp only [mwifiAddrLen, Nat.add_assoc]
  exact h (6 * i + k) (by omega)

/-- The loop of `addrs_remove` on the bytes, with `n` entries left from the `i`-th, at `p`; the
entries behind the address move up by one. -/
def addrsRemoveLoop (addr : Mac) (addrsNum : ℕ) : ℕ → ℕ → ℕ → Mem → Mem × ℕ × Bool
  | 0, _, _, m => (m, addrsNum, false)
  | n + 1, i, p, m =>
    if m.loadBytes p 6 = addr then
      let num := addrsNum - 1
      (if num = 0 then m
        else m.store p (m.load (p + mwifiAddrLen) ((num - i) * mwifiAddrLen)), num, true)
    else addrsRemoveLoop addr addrsNum n (i + 1) (p + mwifiAddrLen) m

def addrsRemoveBytes (addr : Mac) (addrsList addrsNum : ℕ) (m : Mem) : Mem × ℕ × Bool :=
  addrsRemoveLoop addr addrsNum addrsNum 0 addrsList m

/-! ## The call -/

/-- What one call of `mupgrade_firmware_send` is given and finds: the addresses, with the
outcomes of the address macros and of the mesh calls in front of its loop; whether
`g_upgrade_config` is set with error code `MDF_ERR_MUPGRADE_FIRMWARE_FINISH`; the firmware. -/
structure SendCall where
  addrsList : List Mac
  addrIsEmpty : Bool
  addrIsAny : Bool
  addrIsBroadcast : Bool
  routingTableSize : ℕ
  routingTable : List Mac
  routingTableOk : Bool
  rootMac : Mac
  firmwareFinished : Bool
  totalSize : ℕ
  partition : ℕ → UInt8
  mdfErrMupgradeBase : ℤ

namespace SendCall
variable (c : SendCall)

def mdfErrMupgradeFirmwareIncomplete : ℤ := c.mdfErrMupgradeBase + 4
def mdfErrMupgradeStop : ℤ := c.mdfErrMupgradeBase + 10

def accepted : Bool :=
  !c.addrIsEmpty && decide (0 < c.addrsList.length) &&
    decide (c.addrsList.length ≤ c.routingTableSize) && c.firmwareFinished

/-- The first content of `unfinished_addr`. -/
def targets : List Mac :=
  if c.addrIsAny || c.addrIsBroadcast then
    if c.addrIsBroadcast then (addrsRemove c.rootMac c.routingTable).1 else c.routingTable
  else c.addrsList

/-- The code behind the addresses is reached. The check of the broadcast overwrites the result
of the routing table. -/
def addressed : Bool :=
  if c.addrIsAny || c.addrIsBroadcast then
    if c.addrIsBroadcast then decide (c.targets.length ≤ 2048 ∧ 0 < c.targets.length)
    else c.routingTableOk
  else true

def packetNum : ℕ := (c.totalSize + mupgradePacketMaxSize - 1) / mupgradePacketMaxSize % 65536

def lastPacketSize : ℕ :=
  if c.totalSize % mupgradePacketMaxSize = 0 then mupgradePacketMaxSize
  else c.totalSize % mupgradePacketMaxSize

end SendCall

/-! ## Messages and state -/

/-- A `mupgrade_queue_t` with the `mupgrade_status_t` in it. The function reads a whole progress
array, however long the message is. -/
structure StatusMessage where
  srcAddr : Mac
  errorCode : ℤ
  totalSize : ℕ
  writtenSize : ℕ
  progressArray : ℕ → UInt8

inductive MupgradeWrite
  | status (dests : List Mac)
  | packet (dests : List Mac) (seq size : ℕ) (data : List UInt8)

/-- Where the function is: at the head of the loop over the retries; in
`mupgrade_request_status`, at its first receive, at the head of its loop over the requests, at
the receive behind the `i`-th request; at the head of the loop over the packets, at its flash
read, its receive, its write; at `EXIT`, at the receive behind it, and returned. -/
inductive SendPc
  | round
  | finished
  | request (i : ℕ)
  | response (i : ℕ)
  | packet
  | flash
  | drain
  | write
  | exit
  | empty
  | returned
  deriving DecidableEq

/-- The locals and the result. `held` are the buffers taken from the queue and not freed, the
latest first; `stopped` is who has sent `MDF_ERR_MUPGRADE_STOP`. -/
structure Send where
  pc : SendPc
  unfinishedAddr : List Mac
  successedAddr : List Mac
  requestedAddr : List Mac
  requestAddrs : List Mac
  progressArray : Mem
  retry : ℕ
  seq : ℕ
  packetSize : ℕ
  packetData : Mem
  gMupgradeSendRunningFlag : Bool
  ret : ℤ
  writes : List MupgradeWrite
  held : List StatusMessage
  stopped : List Mac

/-- The state in front of the loop over the retries; `none` is a failed check. What `malloc`
returns holds anything. -/
def mupgradeFirmwareSend (c : SendCall) (progressArray packetData : ℕ → UInt8) : Option Send :=
  if c.accepted then some {
    pc := if c.addressed then .round else .exit
    unfinishedAddr := c.targets
    successedAddr := []
    requestedAddr := []
    requestAddrs := []
    progressArray := ⟨progressArray, []⟩
    retry := 0
    seq := 0
    packetSize := mupgradePacketMaxSize
    packetData := ⟨packetData, []⟩
    gMupgradeSendRunningFlag := true
    ret := 0
    writes := []
    held := []
    stopped := [] }
  else none

namespace Send
variable (c : SendCall)

def take (q : StatusMessage) (s : Send) : Send :=
  { s with
    held := q :: s.held
    stopped := if q.errorCode = c.mdfErrMupgradeStop then q.srcAddr :: s.stopped else s.stopped }

/-- `MDF_FREE(q_data)`. -/
def mdfFree (s : Send) : Send := { s with held := s.held.tail }

def succeed (addr : Mac) (s : Send) : Send := { s with successedAddr := s.successedAddr ++ [addr] }

def removeUnfinished (addr : Mac) (s : Send) : Send :=
  { s with unfinishedAddr := (addrsRemove addr s.unfinishedAddr).1 }

def removeRequested (addr : Mac) (s : Send) : Send :=
  { s with requestedAddr := (addrsRemove addr s.requestedAddr).1 }

def removeRequest (addr : Mac) (s : Send) : Send :=
  { s with requestAddrs := (addrsRemove addr s.requestAddrs).1 }

def exitIfFinished (s : Send) : Send := if s.unfinishedAddr = [] then { s with pc := .exit } else s

/-! ## `mupgrade_request_status` -/

def finishedReceive (q : StatusMessage) (s : Send) : Send :=
  let found := (addrsRemove q.srcAddr s.unfinishedAddr).2
  let s := s.take c q
  if q.writtenSize = q.totalSize then
    if !found then s.mdfFree
    else ((s.removeUnfinished q.srcAddr).succeed q.srcAddr).mdfFree.exitIfFinished
  else if q.errorCode = c.mdfErrMupgradeStop then
    (s.removeUnfinished q.srcAddr).mdfFree.exitIfFinished
  else s.mdfFree.exitIfFinished

def prepareRequest (s : Send) : Send :=
  { s with
    requestAddrs := s.unfinishedAddr
    progressArray := s.progressArray.fill 0 0xff (mupgradePacketMaxNum / 8)
    pc := .request 0 }

/-- The result of the request decides between the packets and the end. -/
def requestHead (i : ℕ) (s : Send) : Send :=
  if i < 3 ∧ s.requestAddrs ≠ [] then
    { s with writes := .status s.requestAddrs :: s.writes, pc := .response i }
  else if s.requestAddrs = [] ∧
      ∀ k < mupgradePacketMaxNum / 8, s.progressArray.byte k = 0xff then { s with pc := .exit }
  else { s with seq := 0, pc := .packet }

/-- The part of a response that is not about the lists of devices to ask. -/
def responseProgress (q : StatusMessage) (s : Send) : Send :=
  if q.writtenSize = 0 then
    { s with progressArray := s.progressArray.fill 0 0 (mupgradePacketMaxNum / 8) }.mdfFree
  else if q.writtenSize = q.totalSize then
    if !(addrsRemove q.srcAddr s.unfinishedAddr).2 then s.mdfFree
    else ((s.removeUnfinished q.srcAddr).succeed q.srcAddr).mdfFree
  else
    let both := (List.range (mupgradePacketMaxNum / 8)).map fun k =>
      s.progressArray.byte k &&& q.progressArray k
    { s with progressArray := s.progressArray.store 0 both }.mdfFree

def responseReceive (q : StatusMessage) (s : Send) : Send :=
  let found := (addrsRemove q.srcAddr s.requestAddrs).2
  let s := s.take c q
  if q.errorCode = c.mdfErrMupgradeStop then
    ((s.removeUnfinished q.srcAddr).removeRequest q.srcAddr).mdfFree
  else if !found then s.mdfFree
  else
    let s := s.removeRequest q.srcAddr
    let s := if q.writtenSize ≠ q.totalSize then
        { s with requestedAddr := s.requestedAddr ++ [q.srcAddr] }
      else s
    s.responseProgress q

def responseNext (i : ℕ) (s : Send) : Send :=
  if s.requestAddrs = [] then { s with pc := .request (i + 1) } else s

/-! ## `mupgrade_firmware_send` -/

def roundHead (s : Send) : Send :=
  if s.retry < mupgradeRetryCount ∧ s.unfinishedAddr ≠ [] ∧ s.gMupgradeSendRunningFlag then
    { s with requestedAddr := [], pc := .finished }
  else { s with pc := .exit }

/-- `MUPGRADE_GET_BITS(progress_array, packet->seq)`. -/
def hasPacket (s : Send) : Bool :=
  s.progressArray.byte (s.seq / 8) &&& UInt8.ofNat (1 <<< (s.seq % 8)) != 0

def packetHead (s : Send) : Send :=
  if s.requestedAddr ≠ [] ∧ s.seq < c.packetNum ∧ s.gMupgradeSendRunningFlag then
    if s.hasPacket then { s with seq := s.seq + 1 }
    else { s with
      packetSize := if s.seq + 1 = c.packetNum then c.lastPacketSize else mupgradePacketMaxSize
      pc := .flash }
  else { s with retry := s.retry + 1, pc := .round }

def flashRead (ok : Bool) (s : Send) : Send :=
  if ok then
    { s with
      packetData := s.packetData.store 0
        ((Mem.mk c.partition []).load (s.seq * mupgradePacketMaxSize) s.packetSize)
      pc := .drain }
  else { s with pc := .exit }

/-- The two `MDF_ERROR_CONTINUE` of this loop go past `MDF_FREE`. -/
def drainReceive (q : StatusMessage) (s : Send) : Send :=
  let unfinished := (addrsRemove q.srcAddr s.unfinishedAddr).2
  let requested := (addrsRemove q.srcAddr s.requestedAddr).2
  let s := s.take c q
  if q.writtenSize = q.totalSize then
    let s := s.removeUnfinished q.srcAddr
    if !unfinished then s
    else
      let s := s.removeRequested q.srcAddr
      if !requested then s
      else (s.succeed q.srcAddr).mdfFree.exitIfFinished
  else if q.errorCode = c.mdfErrMupgradeStop then
    ((s.removeUnfinished q.srcAddr).removeRequested q.srcAddr).mdfFree.exitIfFinished
  else s.mdfFree.exitIfFinished

def packetDests (s : Send) : List Mac :=
  if (c.addrIsAny || c.addrIsBroadcast) && decide (s.successedAddr.length < 2) &&
      decide (c.addrsList.length = 1) then
    if c.addrIsAny && decide (s.successedAddr.length = 1) then [mwifiAddrBroadcast]
    else c.addrsList
  else s.requestedAddr

def packetWrite (s : Send) : Send :=
  { s with
    writes := .packet (s.packetDests c) s.seq s.packetSize
      (s.packetData.load 0 mupgradePacketMaxSize) :: s.writes
    seq := s.seq + 1
    pc := .packet }

def atExit (s : Send) : Send :=
  { s with
    ret := if s.unfinishedAddr = [] then 0 else c.mdfErrMupgradeFirmwareIncomplete
    gMupgradeSendRunningFlag := false
    pc := .empty }

end Send

/-! ## Steps -/

/-- `xQueueReceive` returns, with `none` for a timeout or an empty queue; `esp_partition_read`
returns; the function goes on to its next call; another task calls `mupgrade_firmware_stop`. -/
inductive SendEvent
  | receive (msg : Option StatusMessage)
  | flash (ok : Bool)
  | next
  | stop

/-- An event the function is not waiting for changes nothing. -/
def Send.step (c : SendCall) (s : Send) : SendEvent → Send
  | .receive msg =>
    match s.pc, msg with
    | .finished, some q => s.finishedReceive c q
    | .finished, none => s.prepareRequest
    | .response i, some q => (s.responseReceive c q).responseNext i
    | .response i, none => { s with pc := .request (i + 1) }
    | .drain, some q => s.drainReceive c q
    | .drain, none => { s with pc := .write }
    | .empty, some q => (s.take c q).mdfFree
    | .empty, none => { s with pc := .returned }
    | _, _ => s
  | .flash ok => if s.pc = .flash then s.flashRead c ok else s
  | .next =>
    match s.pc with
    | .round => s.roundHead
    | .request i => s.requestHead i
    | .packet => s.packetHead c
    | .write => s.packetWrite c
    | .exit => s.atExit c
    | _ => s
  | .stop => { s with gMupgradeSendRunningFlag := false }

/-! ## `mupgrade_root_handle` -/

/-- A status message with the name of the firmware it is about, which the function never reads. -/
structure FirmwareStatus extends StatusMessage where
  name : Bytes 32

/-- A call with the name of the firmware in `g_upgrade_config`. -/
structure FirmwareCall extends SendCall where
  name : Bytes 32

/-- The function and the queue of messages that waits for it. -/
structure Session where
  send : Send
  queue : List FirmwareStatus

inductive HandleError
  | notSupported
  | timeout

/-- The queue has room for three messages. -/
def mupgradeRootHandle (msg : FirmwareStatus) (s : Session) : Except HandleError Session :=
  if !s.send.gMupgradeSendRunningFlag then .error .notSupported
  else if s.queue.length < 3 then .ok { s with queue := s.queue ++ [msg] }
  else .error .timeout

/-- The function waits in `xQueueReceive`. -/
def SendPc.receives : SendPc → Bool
  | .finished | .response _ | .drain | .empty => true
  | _ => false

/-- `mupgrade_root_handle` gets a message; `xQueueReceive` returns, with a message if there is
one; the rest as for the function alone. -/
inductive SessionEvent
  | handle (msg : FirmwareStatus)
  | receive
  | flash (ok : Bool)
  | next
  | stop

def Session.step (c : FirmwareCall) (s : Session) : SessionEvent → Session
  | .handle msg =>
    match mupgradeRootHandle msg s with
    | .ok s' => s'
    | .error _ => s
  | .receive =>
    if s.send.pc.receives then
      { send := s.send.step c.toSendCall (.receive (s.queue.head?.map (·.toStatusMessage)))
        queue := s.queue.tail }
    else s
  | .flash ok => { s with send := s.send.step c.toSendCall (.flash ok) }
  | .next => { s with send := s.send.step c.toSendCall .next }
  | .stop => { s with send := s.send.step c.toSendCall .stop }

end EspMesh
