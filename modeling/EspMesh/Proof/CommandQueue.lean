import EspMesh.Proof.RootStep

/-! # `ServerQueue`: commands between the two root tasks

`app_main` creates the queue with the size of a bare command, the tasks send and receive the
larger `serverqueue_msg_t`. The queue theorem then says what the receiver gets: the first 101
of the 108 bytes, and behind them the seven bytes its variable held before.

A `CommandPath` is what the two tasks do to the queue and nothing else; `run_mirrors` says that
every run of the root does just that.
-/

namespace EspMesh
set_option autoImplicit false
set_option maxRecDepth 20000
open ByteMem CopyQueue StepRuns

inductive CommandOp
  /-- `tcp_client_read_task` starts, with its `sqmsg` as it happens to be. -/
  | tcpStart (sqmsg : ServerqueueMsg)
  /-- `tcp_client_read_task` reaches its dispatch block with this frame. -/
  | dispatch (gSelfMac : Mac) (nodes : List NodeInfo) (frame : Bytes 101)
  /-- `root_mesh_read_task` starts, with its `sqmsg` as it happens to be. -/
  | rootStart (sqmsg : Bytes 108)
  /-- `root_mesh_read_task` takes a message, if one is waiting. -/
  | receive

/-- The sender's variable, the queue with the receiver's, and the frames accepted, each with the
message made of it. -/
structure CommandPath where
  sqmsg : ServerqueueMsg
  traffic : Traffic
  frames : List (Bytes 101 × ServerqueueMsg)

def CommandPath.start (sent : ServerqueueMsg) (dst : Bytes 108) : CommandPath :=
  ⟨sent, .start serverQueueCreate dst.val, []⟩

def CommandPath.received (s : CommandPath) : List ServerqueueMsg :=
  s.traffic.received.map ServerqueueMsg.ofBytes

def CommandPath.step (s : CommandPath) : CommandOp → CommandPath
  | .tcpStart sqmsg => { s with sqmsg := sqmsg }
  | .dispatch gSelfMac nodes frame =>
    match tcpDispatch gSelfMac nodes s.sqmsg frame with
    | (_, false) => s
    | (msg, true) =>
      { sqmsg := msg
        traffic := s.traffic.step (.send msg.toBytes)
        frames := if (s.traffic.queue.send msg.toBytes).2 then s.frames ++ [(frame, msg)]
          else s.frames }
  | .rootStart sqmsg => { s with traffic := s.traffic.step (.retarget sqmsg.val) }
  | .receive => { s with traffic := s.traffic.step .receive }

/-- The message a frame should arrive as. -/
def commandOf (f : Bytes 101 × ServerqueueMsg) : ServerqueueMsg :=
  ⟨f.2.bAddrValid, f.2.u8addr, withBusHeader f.1⟩

/-! ## One step -/

/-- The log of accepted frames is the queue's own log, the receiver's variable is a whole
message, and the queue delivers. -/
structure PathInvariant (s : CommandPath) : Prop where
  accepted : s.traffic.accepted = s.frames.map fun f => f.2.toBytes
  built : ∀ f ∈ s.frames, f.2.tServerCmd = withBusHeader f.1
  dst : s.traffic.dst.length = 108
  overwritten : ∀ before ∈ s.traffic.overwritten, before.length = 108
  delivered : Delivered 101 s.traffic

theorem path_start (sent : ServerqueueMsg) (dst : Bytes 108) : PathInvariant (.start sent dst) :=
  ⟨rfl, by simp [CommandPath.start], dst.2, by simp [CommandPath.start, Traffic.start],
    delivered_start 3 101 dst.val⟩

/-- Every copy waiting in the queue has the queue's item size. -/
theorem PathInvariant.item_length {s : CommandPath} (h : PathInvariant s) {item : List UInt8}
    (hitem : item ∈ s.traffic.queue.items) : item.length = 101 := by
  obtain ⟨done, hacc, -⟩ := h.delivered.split
  have hmem : item ∈ s.traffic.accepted.map (List.take 101) := by
    rw [hacc]
    exact List.mem_append_right _ hitem
  obtain ⟨src, hsrc, rfl⟩ := List.mem_map.mp hmem
  rw [h.accepted] at hsrc
  obtain ⟨f, -, rfl⟩ := List.mem_map.mp hsrc
  rw [List.length_take, ServerqueueMsg.toBytes_length]
  rfl

theorem path_step (s : CommandPath) (op : CommandOp) (h : PathInvariant s) :
    PathInvariant (s.step op) := by
  cases op with
  | tcpStart sqmsg => exact ⟨h.accepted, h.built, h.dst, h.overwritten, h.delivered⟩
  | rootStart sqmsg =>
    have hdel := delivered_step h.delivered (.retarget sqmsg.val)
    exact ⟨h.accepted, h.built, sqmsg.2, h.overwritten, hdel⟩
  | receive =>
    have hdel : Delivered 101 (s.traffic.step .receive) := delivered_step h.delivered .receive
    cases hq : s.traffic.queue.items with
    | nil =>
      have hnone : s.step .receive = s := by
        simp only [CommandPath.step, Traffic.step, Queue.receive, hq]
      rwa [hnone]
    | cons item rest =>
      have hlen := h.item_length (by rw [hq]; exact List.mem_cons_self ..)
      simp only [CommandPath.step, Traffic.step, Queue.receive, hq] at hdel ⊢
      refine ⟨h.accepted, h.built, ?_, ?_, hdel⟩
      · rw [List.length_append, hlen, List.length_drop, h.dst, h.delivered.size]
      · intro before hb
        rcases List.mem_append.mp hb with hb | hb
        · exact h.overwritten before hb
        · rw [List.mem_singleton.mp hb]
          exact h.dst
  | dispatch gSelfMac nodes frame =>
    rcases hd : tcpDispatch gSelfMac nodes s.sqmsg frame with ⟨msg, valid⟩
    cases valid with
    | false => simpa only [CommandPath.step, hd] using h
    | true =>
      have hdel := delivered_step h.delivered (.send msg.toBytes)
      by_cases hroom : s.traffic.queue.items.length < s.traffic.queue.capacity
      · simp only [CommandPath.step, hd, Traffic.step, send_room _ _ hroom, if_true] at hdel ⊢
        refine ⟨by simp [h.accepted], ?_, h.dst, h.overwritten, hdel⟩
        intro f hf
        rcases List.mem_append.mp hf with hf | hf
        · exact h.built f hf
        · rw [List.mem_singleton.mp hf]
          exact tcpDispatch_cmd hd
      · simp only [CommandPath.step, hd, Traffic.step, send_full _ _ hroom, Bool.false_eq_true,
          if_false] at hdel ⊢
        exact ⟨h.accepted, h.built, h.dst, h.overwritten, hdel⟩

/-! ## What arrives -/

theorem cut_length (cmd : Bytes 101) {tail : List UInt8} (ht : tail.length = 7) :
    (cmd.val.take 94 ++ tail).length = 101 := by
  simp [cmd.2, ht]

theorem ofBytes_cut (m : ServerqueueMsg) (tail : List UInt8) (ht : tail.length = 7) :
    ServerqueueMsg.ofBytes (m.toBytes.take 101 ++ tail) =
      ⟨m.bAddrValid, m.u8addr, ⟨m.tServerCmd.val.take 94 ++ tail, cut_length _ ht⟩⟩ := by
  rw [← ServerqueueMsg.ofBytes_toBytes ⟨m.bAddrValid, m.u8addr, ⟨m.tServerCmd.val.take 94 ++ tail,
    cut_length _ ht⟩⟩]
  congr 1
  have hhead : ([if m.bAddrValid then 1 else 0] ++ m.u8addr.val : List UInt8).length = 7 := by
    simp [m.u8addr.2]
  simp only [ServerqueueMsg.toBytes]
  rw [List.take_append, hhead, List.take_of_length_le (by rw [hhead]; omega), List.append_assoc]

theorem arrives_iff (f : Bytes 101 × ServerqueueMsg) (hf : f.2.tServerCmd = withBusHeader f.1)
    (tail : List UInt8) (ht : tail.length = 7) :
    ServerqueueMsg.ofBytes (f.2.toBytes.take 101 ++ tail) = commandOf f ↔
      f.1.val.drop 94 = tail := by
  have hcmd : f.2.tServerCmd.val = mwifiAddrBroadcast.val ++ f.1.val.drop 6 := by rw [hf]; rfl
  have hdrop : (withBusHeader f.1).val.drop 94 = f.1.val.drop 94 := by
    simp [withBusHeader, mwifiAddrBroadcast]
  rw [ofBytes_cut _ _ ht, commandOf, ← hf, ← hdrop, ← hf]
  simp only [ServerqueueMsg.mk.injEq, true_and, Subtype.ext_iff]
  conv_lhs => rhs; rw [← List.take_append_drop 94 f.2.tServerCmd.val]
  rw [List.append_cancel_left_eq, eq_comm]

/-- The frames received, each with what the receiver's variable held before. -/
def CommandPath.arrivals (s : CommandPath) :
    List ((Bytes 101 × ServerqueueMsg) × List UInt8) :=
  s.frames.zip s.traffic.overwritten

theorem PathInvariant.received_eq {s : CommandPath} (h : PathInvariant s) :
    s.received = s.arrivals.map fun a =>
      ServerqueueMsg.ofBytes (a.1.2.toBytes.take 101 ++ a.2.drop 101) := by
  rw [CommandPath.received, h.delivered.received_eq, h.accepted, List.zipWith_map_left,
    ← List.map_uncurry_zip_eq_zipWith, List.map_map]
  rfl

theorem PathInvariant.frames_eq {s : CommandPath} (h : PathInvariant s) :
    s.frames.take s.received.length = s.arrivals.map Prod.fst := by
  have hle := h.delivered.overwritten_length_le
  rw [h.accepted, List.length_map] at hle
  have hlen : s.received.length = s.traffic.overwritten.length := by
    rw [h.received_eq, List.length_map, CommandPath.arrivals, List.length_zip]
    omega
  rw [hlen, CommandPath.arrivals, List.zip_eq_zip_take_min, Nat.min_eq_right hle,
    List.take_length, List.map_fst_zip (by rw [List.length_take]; omega)]

/-- **Commands through the queue.** In every run of the two tasks over the queue, the messages
received are the accepted ones, in order and in all bytes, exactly when each frame received ends
in the seven bytes that the receiver's variable held behind byte 101 before. -/
theorem commands_survive_queue (sent : ServerqueueMsg) (dst : Bytes 108) (ops : List CommandOp) :
    let s := run CommandPath.step (.start sent dst) ops
    s.received = (s.frames.take s.received.length).map commandOf ↔
      ∀ a ∈ s.arrivals, a.1.1.val.drop 94 = a.2.drop 101 := by
  intro s
  have hinv : PathInvariant s := run_invariant path_step (path_start sent dst) ops
  rw [hinv.frames_eq, List.map_map]
  conv_lhs => lhs; rw [hinv.received_eq]
  rw [List.map_inj_left]
  refine forall₂_congr fun a ha => ?_
  obtain ⟨hframe, hbefore⟩ := List.of_mem_zip ha
  exact arrives_iff a.1 (hinv.built a.1 hframe) _
    (by rw [List.length_drop, hinv.overwritten a.2 hbefore])

/-- A command to the root whose last byte is 9, received into a zeroed variable. -/
theorem command_tail_lost :
    let frame : Bytes 101 := ⟨List.replicate 6 2 ++ List.replicate 94 1 ++ [9], rfl⟩
    let sent : ServerqueueMsg := ⟨false, mwifiAddrBroadcast, Bytes.const 101 0⟩
    let s := run CommandPath.step (.start sent (Bytes.const 108 0))
      [.dispatch (macOf 2) [] frame, .receive]
    s.frames.map (·.1) = [frame] ∧ s.received.length = 1 ∧
      s.received ≠ (s.frames.take s.received.length).map commandOf := by
  decide

/-! ## The root's queue -/

/-- What a turn sees when the globals are those of the root. -/
def TcpEnv.atRoot (e : TcpEnv) (s : Sys) : TcpEnv := { e with
  bDeviceOtaFlag := s.w.ota.bDeviceOtaFlag
  gSockfd := s.w.gSockfd
  gSelfMac := s.w.gSelfMac
  nodes := s.w.nodes }

/-- An iteration gets as far as its receive from `ServerQueue`. -/
def serves (e : RootEnv) (s : Sys) : Bool :=
  e.connected && e.isRoot && !s.w.ota.bDeviceOtaFlag && (rootConnect e (rootPing e s)).2

/-- What a step of the root does to the queue and the two variables. -/
def commandOps (s : Sys) : SysEvent → List CommandOp
  | .rootStart sqmsg => if s.root.pc = .stopped then [.rootStart sqmsg] else []
  | .rootTop e => if s.root.pc = .top ∧ serves e s = true then [.receive] else []
  | .tcpStart sqmsg => if s.tcpRunning then [] else [.tcpStart sqmsg]
  | .tcpTurn e =>
    if s.tcpRunning then
      (tcpClientReadTurn (e.atRoot s) s.tcp).dispatched.toList.map
        (.dispatch s.w.gSelfMac s.w.nodes)
    else []
  | .rootRead _ _ | .otaTask _ _ => []

def commandTrace : Sys → List SysEvent → List CommandOp
  | _, [] => []
  | s, ev :: es => commandOps s ev ++ commandTrace (s.step ev) es

/-- The path has the queue and the variables of the root; a task that does not run has none. -/
structure Mirrors (c : CommandPath) (s : Sys) : Prop where
  sent : c.sqmsg = s.tcp.sqmsg
  queue : c.traffic.queue = s.w.serverQueue
  dst : s.root.pc ≠ .stopped → c.traffic.dst = s.root.sqmsg

theorem command_serverQueue (w : World) (p : ℕ) (e : CmdEnv) (io : Io) :
    (doProcessDataFromTcpserOrRoot w p e io).2.serverQueue = w.serverQueue := by
  unfold doProcessDataFromTcpserOrRoot
  dsimp only
  split
  · split <;> rfl
  · rfl

theorem node_serverQueue (w : World) (which : Mac) (p : ℕ) (e : CmdEnv) (io : Io) :
    (doProcessDataFromNode w which p e io).2.serverQueue = w.serverQueue := by
  unfold doProcessDataFromNode
  dsimp only
  split
  · split <;> rfl
  · split
    · split <;> rfl
    · rfl

section Steps
variable {c : CommandPath} {s : Sys}

/-- A step of the root that is not about the queue. -/
theorem Mirrors.same (h : Mirrors c s) {s' : Sys} (htcp : s'.tcp.sqmsg = s.tcp.sqmsg)
    (hqueue : s'.w.serverQueue = s.w.serverQueue)
    (hroot : s'.root.pc ≠ .stopped → s.root.pc ≠ .stopped ∧ s'.root.sqmsg = s.root.sqmsg) :
    Mirrors c s' :=
  ⟨h.sent.trans htcp.symm, h.queue.trans hqueue.symm, fun hpc =>
    (h.dst (hroot hpc).1).trans (hroot hpc).2.symm⟩

theorem rootCommand_mirrors (h : Mirrors c s) (hrun : s.root.pc ≠ .stopped) (e : RootEnv) :
    Mirrors (c.step .receive) (rootCommand e s) := by
  have hdst := h.dst hrun
  cases hr : s.w.serverQueue.receive s.root.sqmsg with
  | none =>
    simp only [CommandPath.step, Traffic.step, rootCommand, h.queue, hdst, hr]
    exact ⟨h.sent, h.queue, h.dst⟩
  | some taken =>
    simp only [CommandPath.step, Traffic.step, rootCommand, h.queue, hdst, hr]
    split
    · exact ⟨h.sent, rfl, fun _ => rfl⟩
    · refine ⟨h.sent, ?_, fun _ => rfl⟩
      rw [command_serverQueue]

theorem rootServe_mirrors (h : Mirrors c s) (hrun : s.root.pc ≠ .stopped) (e : RootEnv) :
    Mirrors (c.step .receive) (rootServe e s) := by
  have hoff : (rootOffline e s).tcp = s.tcp ∧ (rootOffline e s).root = s.root ∧
      (rootOffline e s).w.serverQueue = s.w.serverQueue := by
    unfold rootOffline
    split <;> exact ⟨rfl, rfl, rfl⟩
  obtain ⟨htcp, hroot, hqueue⟩ := hoff
  have hmid : Mirrors c (rootOffline e s) :=
    h.same (by rw [htcp]) hqueue fun _ => ⟨hrun, by rw [hroot]⟩
  have hrun' : (rootOffline e s).root.pc ≠ .stopped := by rwa [hroot]
  have hserved := rootCommand_mirrors hmid hrun' e
  refine ⟨hserved.sent, hserved.queue, fun _ => hserved.dst ?_⟩
  unfold rootCommand
  split
  · exact hrun'
  · dsimp only
    split <;> exact hrun'

theorem rootTop_mirrors (h : Mirrors c s) (hpc : s.root.pc = .top) (e : RootEnv) :
    Mirrors (run CommandPath.step c (if serves e s then [.receive] else [])) (rootTop e s) := by
  have hrun : s.root.pc ≠ .stopped := by rw [hpc]; decide
  have hping : (rootPing e s).tcp = s.tcp := by
    unfold rootPing
    split <;> rfl
  have hpinged : Mirrors c (rootPing e s) :=
    h.same (by rw [hping]) (by rw [rootPing_w]) fun _ => ⟨hrun, by rw [rootPing_root]⟩
  have hcon : (rootConnect e (rootPing e s)).1.tcp = (rootPing e s).tcp ∧
      (rootConnect e (rootPing e s)).1.w.serverQueue = (rootPing e s).w.serverQueue := by
    unfold rootConnect
    split <;> exact ⟨rfl, rfl⟩
  have hroot := (rootConnect_spec e (rootPing e s)).2.1
  have hconnected : Mirrors c (rootConnect e (rootPing e s)).1 :=
    hpinged.same (by rw [hcon.1]) hcon.2 fun _ => ⟨by rwa [rootPing_root], by rw [hroot]⟩
  have hstop : Mirrors (run CommandPath.step c []) (s.goto .stopped) :=
    h.same rfl rfl fun hpc' => absurd rfl hpc'
  cases hc : e.connected with
  | false => simpa [rootTop, serves, hc] using hstop
  | true =>
    cases hr : e.isRoot with
    | false => simpa [rootTop, serves, hc, hr] using hstop
    | true =>
      cases hflag : s.w.ota.bDeviceOtaFlag with
      | true => simpa [rootTop, serves, hc, hr, hflag] using hpinged
      | false =>
        rcases hok : rootConnect e (rootPing e s) with ⟨s', ok⟩
        rw [hok] at hconnected hroot
        cases ok with
        | false => simpa [rootTop, serves, hc, hr, hflag, hok] using hconnected
        | true =>
          have hrun' : s'.root.pc ≠ .stopped := by
            rw [show s'.root = s.root from hroot.trans (rootPing_root e s)]
            exact hrun
          simpa [rootTop, serves, hc, hr, hflag, hok] using rootServe_mirrors hconnected hrun' e

theorem rootRead_mirrors (h : Mirrors c s) (hpc : s.root.pc = .reading) (pkt : Option MeshPacket)
    (e : CmdEnv) : Mirrors c (rootRead pkt e s) := by
  have hrun : s.root.pc ≠ .stopped := by rw [hpc]; decide
  cases pkt with
  | none => exact h.same rfl rfl fun _ => ⟨hrun, rfl⟩
  | some pkt =>
    unfold rootRead
    dsimp only
    split
    · exact h.same rfl rfl fun _ => ⟨hrun, rfl⟩
    · unfold rootBusiness
      dsimp only
      split
      · refine h.same rfl ?_ fun _ => ⟨hrun, rfl⟩
        split
        · rw [command_serverQueue]
        · rw [node_serverQueue]
      · exact h.same rfl rfl fun _ => ⟨hrun, rfl⟩

/-- What a turn that started with `sqmsg` has made of it and handed to `xQueueSend` is the
dispatch block's doing. -/
def Dispatched (e : TcpEnv) (sqmsg : ServerqueueMsg) (out : TcpOut) : Prop :=
  out.dispatched = none ∧ out.client.sqmsg = sqmsg ∧ out.enqueued = none ∨
    ∃ cmd, out.dispatched = some cmd ∧
      out.client.sqmsg = (tcpDispatch e.gSelfMac e.nodes sqmsg cmd).1 ∧
      out.enqueued = if (tcpDispatch e.gSelfMac e.nodes sqmsg cmd).2 then
        some (tcpDispatch e.gSelfMac e.nodes sqmsg cmd).1 else none

section Turn
variable (e : TcpEnv) {t : TcpClient} {sqmsg : ServerqueueMsg}

theorem reach_dispatched (h : t.sqmsg = sqmsg) (closed : Bool) :
    Dispatched e sqmsg (tcpReach e t closed) := by
  refine .inr ⟨t.data.loadBytes 0 101, ?_⟩
  unfold tcpReach
  dsimp only
  rw [h]
  split
  · next hd => exact ⟨rfl, by rw [hd], by rw [hd]; rfl⟩
  · next hd => exact ⟨rfl, by rw [hd]; exact h.trans (tcpDispatch_refused hd).symm, by rw [hd]; rfl⟩

theorem data_dispatched (h : t.sqmsg = sqmsg) (bytes : List UInt8) :
    Dispatched e sqmsg (tcpData e t bytes) := by
  unfold tcpData
  dsimp only
  split
  · exact .inl ⟨rfl, h, rfl⟩
  · exact reach_dispatched e (by exact h) false

theorem ready_dispatched (h : t.sqmsg = sqmsg) : Dispatched e sqmsg (tcpReady e t) := by
  unfold tcpReady
  extract_lets t'
  have hwrap : t'.sqmsg = sqmsg := by
    simp only [t']
    split <;> exact h
  split
  · exact data_dispatched e hwrap _
  · split
    · exact reach_dispatched e (by exact hwrap) true
    · exact reach_dispatched e (by exact hwrap) false
  · exact reach_dispatched e (by exact hwrap) true

theorem turn_dispatched (t : TcpClient) : Dispatched e t.sqmsg (tcpClientReadTurn e t) := by
  unfold tcpClientReadTurn
  split
  · exact .inl ⟨rfl, rfl, rfl⟩
  · split
    · exact .inl ⟨rfl, rfl, rfl⟩
    · split
      · exact .inl ⟨rfl, rfl, rfl⟩
      · exact .inl ⟨rfl, rfl, rfl⟩
      · exact .inl ⟨rfl, rfl, rfl⟩
      · exact .inl ⟨rfl, rfl, rfl⟩
      · exact ready_dispatched e rfl

end Turn

theorem tcpTurn_serverQueue (e : TcpEnv) (s : Sys) :
    (tcpTurn e s).w.serverQueue =
      match (tcpClientReadTurn (e.atRoot s) s.tcp).enqueued with
      | none => s.w.serverQueue
      | some msg => (s.w.serverQueue.send msg.toBytes).1 := rfl

theorem tcpTurn_mirrors (h : Mirrors c s) (e : TcpEnv) :
    Mirrors (run CommandPath.step c ((tcpClientReadTurn (e.atRoot s) s.tcp).dispatched.toList.map
      (.dispatch s.w.gSelfMac s.w.nodes))) (tcpTurn e s) := by
  rcases turn_dispatched (e.atRoot s) s.tcp with ⟨hdis, hsqmsg, hnone⟩ | ⟨cmd, hdis, hsqmsg, hsend⟩
  · rw [hdis]
    exact h.same hsqmsg (by rw [tcpTurn_serverQueue, hnone]) fun hrun => ⟨hrun, rfl⟩
  · rw [hdis, Option.toList_some, List.map_singleton, run_cons, run_nil]
    have hdispatch : tcpDispatch (e.atRoot s).gSelfMac (e.atRoot s).nodes s.tcp.sqmsg cmd =
        tcpDispatch s.w.gSelfMac s.w.nodes c.sqmsg cmd := by rw [h.sent]; rfl
    rw [hdispatch] at hsqmsg hsend
    rcases hd : tcpDispatch s.w.gSelfMac s.w.nodes c.sqmsg cmd with ⟨msg, valid⟩
    rw [hd] at hsqmsg hsend
    cases valid with
    | false =>
      have hsame : c.step (.dispatch s.w.gSelfMac s.w.nodes cmd) = c := by
        simp only [CommandPath.step, hd]
      rw [hsame]
      exact h.same (hsqmsg.trans ((tcpDispatch_refused hd).trans h.sent))
        (by rw [tcpTurn_serverQueue, hsend]; rfl) fun hrun => ⟨hrun, rfl⟩
    | true =>
      have hqueue : (tcpTurn e s).w.serverQueue = (s.w.serverQueue.send msg.toBytes).1 := by
        rw [tcpTurn_serverQueue, hsend]
        rfl
      simp only [CommandPath.step, hd, Traffic.step, h.queue]
      refine ⟨hsqmsg.symm, ?_, fun hrun => ?_⟩
      · rw [hqueue]
        split <;> simp only [*]
      · split <;> exact h.dst hrun

theorem step_mirrors (h : Mirrors c s) (ev : SysEvent) :
    Mirrors (run CommandPath.step c (commandOps s ev)) (s.step ev) := by
  cases ev with
  | rootStart sqmsg =>
    simp only [commandOps, Sys.step]
    split
    · exact ⟨h.sent, h.queue, fun _ => rfl⟩
    · exact h
  | rootTop e =>
    simp only [commandOps, Sys.step]
    by_cases hpc : s.root.pc = .top
    · simp only [hpc, true_and, if_true]
      exact rootTop_mirrors h hpc e
    · simp only [hpc, false_and, if_false]
      exact h
  | rootRead pkt e =>
    simp only [commandOps, Sys.step]
    split
    · next hpc => exact rootRead_mirrors h hpc pkt e
    · exact h
  | tcpStart sqmsg =>
    simp only [commandOps, Sys.step]
    split
    · exact h
    · exact ⟨rfl, h.queue, h.dst⟩
  | tcpTurn e =>
    simp only [commandOps, Sys.step]
    split
    · exact tcpTurn_mirrors h e
    · exact h
  | otaTask i e =>
    simp only [commandOps, Sys.step, otaTurn]
    split <;> exact h.same rfl rfl fun hrun => ⟨hrun, rfl⟩

end Steps

/-- **The root's queue.** What a run of the root does to the queue and to the two tasks'
variables is what a path does. -/
theorem run_mirrors (es : List SysEvent) (c : CommandPath) (s : Sys) (h : Mirrors c s) :
    Mirrors (run CommandPath.step c (commandTrace s es)) (run Sys.step s es) := by
  induction es generalizing c s with
  | nil => exact h
  | cons ev es ih =>
    rw [commandTrace, run_append, run_cons]
    exact ih _ _ (step_mirrors h ev)

theorem boot_mirrors (mac : Mac) (ip : List UInt8) (bytes tcpBytes : ℕ → UInt8)
    (sqmsg : ServerqueueMsg) (dst : Bytes 108) :
    Mirrors (.start sqmsg dst) (.boot mac ip bytes tcpBytes sqmsg) :=
  ⟨rfl, rfl, fun h => absurd rfl h⟩

end EspMesh
