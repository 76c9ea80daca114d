import EspMesh.Model.NodeDevList

/-! # `tcp_client_read_task`: commands from the server

One turn of the task's loop is a function of the task's own data and of what the turn sees of
the world: the mesh, the globals the other tasks share with it, `select` and `read`.
-/

namespace EspMesh
set_option autoImplicit false
open ByteMem

inductive SelectRet
  | error
  | timeout
  | ready (isSet : Bool)

inductive ReadRet
  | data (bytes : List UInt8) (some : bytes ≠ [])
  | eof
  | error

/-- What one turn of the loop sees: the two conditions of the loop, the globals, where a
`g_sockfd` of -1 is `none`, and the two calls. -/
structure TcpEnv where
  connected : Bool
  isRoot : Bool
  bDeviceOtaFlag : Bool
  gSockfd : Option ℕ
  gSelfMac : Mac
  nodes : List NodeInfo
  select : SelectRet
  read : ReadRet

/-- What the task keeps from turn to turn; `data` is `g_tcp_client_read_data`. -/
structure TcpClient where
  data : Mem
  alreadReadNumber : ℕ
  socketMaybeClose : ℕ
  sqmsg : ServerqueueMsg

/-- What the turn did: closed the socket, left the loop, worked on a command in the dispatch
block, handed a message to `xQueueSend`. -/
structure TcpOut where
  client : TcpClient
  closed : Bool
  exited : Bool
  dispatched : Option (Bytes 101)
  enqueued : Option ServerqueueMsg

def TcpOut.idle (t : TcpClient) : TcpOut := ⟨t, false, false, none, none⟩

def withBusHeader (cmd : Bytes 101) : Bytes 101 :=
  ⟨mwifiAddrBroadcast.val ++ cmd.val.drop mwifiAddrLen, by
    simp [cmd.2, mwifiAddrBroadcast]⟩

/-- The dispatch block: the queue message for a command to the root or to a registered node. -/
def tcpDispatch (gSelfMac : Mac) (nodes : List NodeInfo) (sqmsg : ServerqueueMsg)
    (cmd : Bytes 101) : ServerqueueMsg × Bool :=
  let header := field cmd.val 0 6
  if gSelfMac = header then
    (⟨false, sqmsg.u8addr, withBusHeader cmd⟩, true)
  else if checkNodeIsExist header nodes then
    (⟨true, header, withBusHeader cmd⟩, true)
  else (sqmsg, false)

def tcpReach (e : TcpEnv) (t : TcpClient) (closed : Bool) : TcpOut :=
  let cmd := t.data.loadBytes 0 101
  match tcpDispatch e.gSelfMac e.nodes t.sqmsg cmd with
  | (msg, true) => ⟨{ t with sqmsg := msg }, closed, false, some cmd, some msg⟩
  | (_, false) => ⟨t, closed, false, some cmd, none⟩

/-- A `read` that returned data. `pSCmd + alreadReadNumber` counts in commands, not in bytes. -/
def tcpData (e : TcpEnv) (t : TcpClient) (bytes : List UInt8) : TcpOut :=
  let got := t.alreadReadNumber + bytes.length
  let data := t.data.store (sizeofServerCmd * t.alreadReadNumber) bytes
  if got ≠ tcpClientRecvLen then
    .idle { t with data := data, alreadReadNumber := got, socketMaybeClose := 0 }
  else
    tcpReach e { t with data := data, alreadReadNumber := 0, socketMaybeClose := 0 } false

def tcpReady (e : TcpEnv) (t : TcpClient) : TcpOut :=
  let t := if t.alreadReadNumber ≥ tcpClientRecvLen then { t with alreadReadNumber := 0 } else t
  match e.read with
  | .data bytes _ => tcpData e t bytes
  | .eof =>
    if t.socketMaybeClose + 1 > 20 then tcpReach e { t with socketMaybeClose := 0 } true
    else tcpReach e { t with socketMaybeClose := t.socketMaybeClose + 1 } false
  | .error => tcpReach e { t with socketMaybeClose := 0 } true

def tcpClientReadTurn (e : TcpEnv) (t : TcpClient) : TcpOut :=
  if !e.connected || !e.isRoot then ⟨t, true, true, none, none⟩
  else if e.bDeviceOtaFlag then .idle t
  else match e.gSockfd, e.select with
    | none, _ => .idle t
    | some _, .error => ⟨t, true, false, none, none⟩
    | some _, .timeout => .idle t
    | some _, .ready false => .idle t
    | some _, .ready true => tcpReady e t

/-- The task as it starts; the buffer, from `MDF_MALLOC`, and `sqmsg` hold anything. -/
def TcpClient.start (bytes : ℕ → UInt8) (sqmsg : ServerqueueMsg) : TcpClient :=
  ⟨⟨bytes, []⟩, 0, 0, sqmsg⟩

/-! ## A sequence of turns -/

def tcpTurns (t : TcpClient) (es : List TcpEnv) : TcpClient :=
  es.foldl (fun t e => (tcpClientReadTurn e t).client) t

def tcpCommands (t : TcpClient) : List TcpEnv → List (List UInt8)
  | [] => []
  | e :: es =>
    ((tcpClientReadTurn e t).dispatched.map (·.val)).toList ++
      tcpCommands (tcpClientReadTurn e t).client es

/-- A turn of a root with MAC 02:..:02 and no nodes that reads `bytes`. -/
def readTurn (bytes : List UInt8) (some : bytes ≠ []) : TcpEnv where
  connected := true
  isRoot := true
  bDeviceOtaFlag := false
  gSockfd := .some 3
  gSelfMac := macOf 2
  nodes := []
  select := .ready true
  read := .data bytes some

/-! ## What the dispatch block makes of a command -/

theorem tcpDispatch_cmd {self : Mac} {nodes : List NodeInfo} {sqmsg msg : ServerqueueMsg}
    {cmd : Bytes 101} (h : tcpDispatch self nodes sqmsg cmd = (msg, true)) :
    msg.tServerCmd = withBusHeader cmd := by
  unfold tcpDispatch at h
  dsimp only at h
  split at h
  · rw [← (Prod.mk.inj h).1]
  · split at h
    · rw [← (Prod.mk.inj h).1]
    · cases (Prod.mk.inj h).2

theorem tcpDispatch_refused {self : Mac} {nodes : List NodeInfo} {sqmsg msg : ServerqueueMsg}
    {cmd : Bytes 101} (h : tcpDispatch self nodes sqmsg cmd = (msg, false)) : msg = sqmsg := by
  unfold tcpDispatch at h
  dsimp only at h
  split at h
  · cases (Prod.mk.inj h).2
  · split at h
    · cases (Prod.mk.inj h).2
    · exact (Prod.mk.inj h).1.symm

theorem tcpDispatch_valid (self : Mac) (nodes : List NodeInfo) (sqmsg : ServerqueueMsg)
    (cmd : Bytes 101) :
    (tcpDispatch self nodes sqmsg cmd).2 = true ↔
      self = field cmd.val 0 6 ∨ field cmd.val 0 6 ∈ nodes.map NodeInfo.mac := by
  rw [← checkNodeIsExist_iff]
  unfold tcpDispatch
  dsimp only
  split
  · simp [*]
  · split <;> simp [*]

end EspMesh
