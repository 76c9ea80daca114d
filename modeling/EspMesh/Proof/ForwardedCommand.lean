import EspMesh.Proof.CommandQueue

/-! # A forwarded command and the traffic before it

A command for a node is written with the `data_type` that the last `mwifi_root_read` filled in,
and with the last seven bytes of a variable that the queue does not fill.
-/

namespace EspMesh
set_option autoImplicit false
set_option maxRecDepth 20000
open ByteMem Mem CopyQueue StepRuns

/-- The iteration takes the message `m` for a node out of `ServerQueue`: what waits there is the
copy that `xQueueSend` has made of it. -/
structure Dequeues (s : Sys) (e : RootEnv) (m : ServerqueueMsg) : Prop where
  top : s.root.pc = .top
  serves : serves e s = true
  node : m.bAddrValid = true
  waits : s.w.serverQueue.items.head? = some (m.toBytes.take s.w.serverQueue.itemSize)

def LastWrite (s : Sys) (dest : Mac) (type : MwifiDataType) (packet : List UInt8) : Prop :=
  s.io.trace.head? = some (.mwifiWrite (some dest) type packet)

/-- Both states are behind the same write: plain unicast of the command to its node. -/
def ForwardsAlike (m : ServerqueueMsg) (s₁ s₂ : Sys) : Prop :=
  ∃ p₁ p₂, LastWrite s₁ m.u8addr .zero p₁ ∧ LastWrite s₂ m.u8addr .zero p₂ ∧
    p₁.take sizeofServerCmd = m.tServerCmd.val ∧ p₂.take sizeofServerCmd = m.tServerCmd.val

/-- No packet has left its type, and the last seven bytes of the command are those that the
receiver's variable has already. -/
structure Unmarked (s : Sys) (m : ServerqueueMsg) : Prop where
  type : s.root.dataType = .zero
  tail : m.tServerCmd.val.drop 94 = s.root.sqmsg.drop 101

/-! ## The iteration that forwards -/

theorem Sys.Reachable.path {s : Sys} (h : s.Reachable) :
    ∃ c, PathInvariant c ∧ Mirrors c s := by
  obtain ⟨-, es, ⟨mac, ip, bytes, tcpBytes, sqmsg, rfl⟩, rfl⟩ := h
  refine ⟨_, ?_, run_mirrors es _ _ (boot_mirrors mac ip bytes tcpBytes sqmsg (Bytes.const 108 0))⟩
  exact run_invariant path_step (path_start _ _) _

theorem Sys.Reachable.itemSize {s : Sys} (h : s.Reachable) :
    s.w.serverQueue.itemSize = sizeofServerCmd := by
  obtain ⟨c, hinv, hmir⟩ := h.path
  rw [← hmir.queue]
  exact hinv.delivered.size

theorem Sys.Reachable.sqmsg_length {s : Sys} (h : s.Reachable) (hpc : s.root.pc ≠ .stopped) :
    s.root.sqmsg.length = 108 := by
  obtain ⟨c, hinv, hmir⟩ := h.path
  rw [← hmir.dst hpc]
  exact hinv.dst

/-- An iteration that gets as far as the queue is a served one, behind its ping and its connect
block. -/
theorem rootTop_of_serves {e : RootEnv} {s : Sys} (h : serves e s = true) :
    rootTop e s = rootServe e (rootConnect e (rootPing e s)).1 := by
  simp only [serves, Bool.and_eq_true, Bool.not_eq_true'] at h
  obtain ⟨⟨⟨hc, hr⟩, hflag⟩, hok⟩ := h
  rcases hcon : rootConnect e (rootPing e s) with ⟨s', ok⟩
  rw [hcon] at hok
  dsimp only at hok
  simp [rootTop, hc, hr, hflag, hcon, hok]

theorem rootOffline_queue (e : RootEnv) (s : Sys) :
    (rootOffline e s).w.serverQueue = s.w.serverQueue := by
  unfold rootOffline
  split <;> rfl

theorem rootCommand_forwards {e : RootEnv} {s : Sys} {m : ServerqueueMsg}
    (hsize : s.w.serverQueue.itemSize = sizeofServerCmd) (hlen : s.root.sqmsg.length = 108)
    (hnode : m.bAddrValid = true)
    (hwaits : s.w.serverQueue.items.head? = some (m.toBytes.take sizeofServerCmd)) :
    ∃ p, LastWrite (rootCommand e s) m.u8addr s.root.dataType p ∧
      p.take sizeofServerCmd = m.tServerCmd.val.take 94 ++ s.root.sqmsg.drop 101 := by
  obtain ⟨rest, hitems⟩ := List.head?_eq_some_iff.mp hwaits
  have hreceive : s.w.serverQueue.receive s.root.sqmsg = some (m.toBytes.take 101 ++
      s.root.sqmsg.drop 101, { s.w.serverQueue with items := rest }) := by
    simp only [Queue.receive, hitems, hsize, sizeofServerCmd, tcpClientRecvLen]
  have htail : (s.root.sqmsg.drop 101).length = 7 := by rw [List.length_drop, hlen]
  simp only [rootCommand, hreceive, ofBytes_cut m _ htail, hnode, if_true]
  refine ⟨_, rfl, ?_⟩
  rw [load_take _ _ _ _ (by simp), Io.modify_mem]
  have hself := load_store_self s.io.mem s.cur.pServerCmd (m.tServerCmd.val.take 94 ++
    s.root.sqmsg.drop 101)
  rwa [cut_length _ htail] at hself

theorem step_forwards {s : Sys} {e : RootEnv} {m : ServerqueueMsg} (hs : s.Reachable)
    (h : Dequeues s e m) :
    ∃ p, LastWrite (s.step (.rootTop e)) m.u8addr s.root.dataType p ∧
      p.take sizeofServerCmd = m.tServerCmd.val.take 94 ++ s.root.sqmsg.drop 101 := by
  have hstep : s.step (.rootTop e) = rootServe e (rootConnect e (rootPing e s)).1 := by
    rw [← rootTop_of_serves h.serves]
    exact if_pos h.top
  have hroot : (rootConnect e (rootPing e s)).1.root = s.root :=
    (rootConnect_spec e (rootPing e s)).2.1.trans (rootPing_root e s)
  have hqueue : (rootConnect e (rootPing e s)).1.w.serverQueue = s.w.serverQueue := by
    obtain ⟨fd, hw⟩ := rootConnect_w e (rootPing e s)
    rw [hw, rootPing_w]
  generalize (rootConnect e (rootPing e s)).1 = s' at hstep hroot hqueue
  have hroot' : (rootOffline e s').root = s.root := (rootOffline_spec e s').2.1.trans hroot
  have hqueue' : (rootOffline e s').w.serverQueue = s.w.serverQueue :=
    (rootOffline_queue e s').trans hqueue
  have hlen := hs.sqmsg_length (by rw [h.top]; decide)
  have hwaits := h.waits
  rw [hs.itemSize] at hwaits
  rw [hstep, ← hroot']
  exact rootCommand_forwards (by rw [hqueue', hs.itemSize]) (by rw [hroot', hlen]) h.node
    (by rw [hqueue', hwaits])

/-! ## The packet read last -/

/-- In `mwifi_root_read` the type is cleared. -/
def ReadsCleared (s : Sys) : Prop := s.root.pc = .reading → s.root.dataType = .zero

theorem rootTop_cleared (e : RootEnv) (s : Sys) (hpc : s.root.pc = .top) :
    ReadsCleared (rootTop e s) := by
  have hidle : ∀ s' : Sys, s'.root = s.root → ReadsCleared s' := by
    intro s' hroot hread
    rw [hroot, hpc] at hread
    cases hread
  unfold rootTop
  split
  · intro hread
    cases hread
  · dsimp only
    split
    · exact hidle _ (rootPing_root e s)
    · have hcon := (rootConnect_spec e (rootPing e s)).2.1.trans (rootPing_root e s)
      split
      · next s' hs' =>
        rw [hs'] at hcon
        exact hidle s' hcon
      · exact fun _ => rfl

theorem rootRead_root (pkt : MeshPacket) (e : CmdEnv) (s : Sys) :
    (rootRead (some pkt) e s).root = { s.root with pc := .top, dataType := pkt.type } := by
  unfold rootRead
  dsimp only
  split
  · rfl
  · unfold rootBusiness
    dsimp only
    split <;> rfl

theorem step_cleared (s : Sys) (ev : SysEvent) (h : ReadsCleared s) : ReadsCleared (s.step ev) := by
  cases ev with
  | rootStart sqmsg =>
    simp only [Sys.step]
    split
    · intro hread
      cases hread
    · exact h
  | rootTop e =>
    simp only [Sys.step]
    split
    · next hpc => exact rootTop_cleared e s hpc
    · exact h
  | rootRead pkt e =>
    simp only [Sys.step]
    split
    · intro hread
      cases pkt with
      | none => cases hread
      | some pkt => simp [rootRead_root] at hread
    · exact h
  | tcpStart sqmsg => simp only [Sys.step]; split <;> exact h
  | tcpTurn e => simp only [Sys.step]; split <;> exact h
  | otaTask i e => exact h

/-- **The type of a forwarded command.** Until the next `mwifi_root_read`, commands are written
with the type of the packet that this one has read, and plainly if it has read none. -/
theorem dataType_of_read {s : Sys} (hs : s.Reachable) (hpc : s.root.pc = .reading)
    (pkt : Option MeshPacket) (e : CmdEnv) :
    (s.step (.rootRead pkt e)).root.dataType = (pkt.map (·.type)).getD .zero := by
  have hcleared : ReadsCleared s := by
    refine StepRuns.Reachable.invariant ?_ step_cleared hs
    rintro s ⟨mac, ip, bytes, tcpBytes, sqmsg, rfl⟩ hread
    cases hread
  simp only [Sys.step, if_pos hpc]
  cases pkt with
  | none => exact hcleared hpc
  | some pkt => exact congrArg RootTask.dataType (rootRead_root pkt e s)

/-! ## Two runs -/

theorem forwards_unmarked_iff {s : Sys} {e : RootEnv} {m : ServerqueueMsg} (hs : s.Reachable)
    (h : Dequeues s e m) :
    (∃ p, LastWrite (s.step (.rootTop e)) m.u8addr .zero p ∧
      p.take sizeofServerCmd = m.tServerCmd.val) ↔ Unmarked s m := by
  obtain ⟨p, hlast, hp⟩ := step_forwards hs h
  have hcut : m.tServerCmd.val.take 94 ++ s.root.sqmsg.drop 101 = m.tServerCmd.val ↔
      m.tServerCmd.val.drop 94 = s.root.sqmsg.drop 101 := by
    conv_lhs => rhs; rw [← List.take_append_drop 94 m.tServerCmd.val]
    rw [List.append_cancel_left_eq, eq_comm]
  constructor
  · rintro ⟨p', hlast', hp'⟩
    have hsame := Option.some.inj (hlast.symm.trans hlast')
    simp only [Event.mwifiWrite.injEq, true_and] at hsame
    obtain ⟨htype, rfl⟩ := hsame
    exact ⟨htype, hcut.mp (hp.symm.trans hp')⟩
  · rintro ⟨htype, htail⟩
    exact ⟨p, htype ▸ hlast, hp.trans (hcut.mpr htail)⟩

/-- **Forwarded alike.** Two roots, whatever either has received before, that take the same
message for a node out of the queue write it to the node as plain unicast and in all its bytes
exactly when in both the packet read last has left no type and the variable for the message
ends in the command's last seven bytes. -/
theorem commands_forwarded_alike (s₁ s₂ : Sys) (h₁ : s₁.Reachable) (h₂ : s₂.Reachable)
    (e₁ e₂ : RootEnv) (m : ServerqueueMsg) (hm₁ : Dequeues s₁ e₁ m) (hm₂ : Dequeues s₂ e₂ m) :
    ForwardsAlike m (s₁.step (.rootTop e₁)) (s₂.step (.rootTop e₂)) ↔
      Unmarked s₁ m ∧ Unmarked s₂ m := by
  rw [← forwards_unmarked_iff h₁ hm₁, ← forwards_unmarked_iff h₂ hm₂]
  constructor
  · rintro ⟨p₁, p₂, hlast₁, hlast₂, hp₁, hp₂⟩
    exact ⟨⟨p₁, hlast₁, hp₁⟩, p₂, hlast₂, hp₂⟩
  · rintro ⟨⟨p₁, hlast₁, hp₁⟩, p₂, hlast₂, hp₂⟩
    exact ⟨p₁, p₂, hlast₁, hlast₂, hp₁, hp₂⟩

/-! ## An upgrade packet in front of a command -/

/-- The node 0a:0a:0a:0a:0a:0a registers. -/
def registerPacket : MeshPacket :=
  ⟨macOf 10, .zero, List.replicate 6 255 ++ [1, 6] ++ List.replicate 23 0, by decide⟩

/-- A LED command of the server for the node. -/
def ledFrame : List UInt8 := List.replicate 6 10 ++ [1, 4] ++ List.replicate 93 0

def ledMessage : ServerqueueMsg :=
  ⟨true, macOf 10, ⟨List.replicate 6 255 ++ [1, 4] ++ List.replicate 93 0, rfl⟩⟩

/-- The node has registered, the root has then read `pkt`, and the command waits. -/
def commandWaits (pkt : Option MeshPacket) : Sys :=
  run Sys.step zeroBoot (startEvents ++ [.rootRead (some registerPacket) idleCmd,
    .rootTop (idleEnv 2000), .rootRead pkt idleCmd, .tcpStart zeroSqmsg,
    .tcpTurn (readTurn ledFrame (by decide))])

theorem commandWaits_reachable (pkt : Option MeshPacket) : (commandWaits pkt).Reachable :=
  ⟨_, _, ⟨_, _, _, _, _, rfl⟩, rfl⟩

theorem commands_forwarded_alike_led :
    ForwardsAlike ledMessage ((commandWaits none).step (.rootTop (idleEnv 3000)))
      ((commandWaits (some registerPacket)).step (.rootTop (idleEnv 3000))) :=
  (commands_forwarded_alike _ _ (commandWaits_reachable none)
    (commandWaits_reachable (some registerPacket)) _ _ ledMessage
    ⟨by decide, by decide, rfl, by decide⟩ ⟨by decide, by decide, rfl, by decide⟩).mpr
    ⟨⟨by decide, by decide⟩, by decide, by decide⟩

/-- Behind a packet of an upgrade, the LED command is written as part of that upgrade. -/
theorem command_forwarded_as_upgrade :
    let upgrade : MeshPacket := ⟨macOf 10, ⟨true, .unicast⟩, [1, 2, 3], by decide⟩
    let s₁ := commandWaits none
    let s₂ := commandWaits (some upgrade)
    s₁.Reachable ∧ s₂.Reachable ∧ Dequeues s₁ (idleEnv 3000) ledMessage ∧
      Dequeues s₂ (idleEnv 3000) ledMessage ∧
      ¬ ForwardsAlike ledMessage (s₁.step (.rootTop (idleEnv 3000)))
        (s₂.step (.rootTop (idleEnv 3000))) := by
  intro upgrade s₁ s₂
  have hs₂ : s₂.Reachable := commandWaits_reachable _
  have hm₂ : Dequeues s₂ (idleEnv 3000) ledMessage := ⟨by decide, by decide, rfl, by decide⟩
  refine ⟨commandWaits_reachable _, hs₂, ⟨by decide, by decide, rfl, by decide⟩, hm₂, ?_⟩
  rintro ⟨-, p₂, -, hlast₂, -, hp₂⟩
  have hmarked := ((forwards_unmarked_iff hs₂ hm₂).mp ⟨p₂, hlast₂, hp₂⟩).type
  revert hmarked
  decide

end EspMesh
