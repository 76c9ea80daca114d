import EspMesh.Proof.PhotoArrival

/-! # The photo buffer and the root's other work

Registration, offline reports, commands and packets of nodes all work at the cursor or behind
it, so they cannot disturb a photo in front of it. A ping does: `pPingMsg` is set once, to the
node part of slot 0, and never moves.
-/

namespace EspMesh
set_option autoImplicit false
set_option maxRecDepth 20000
open ByteMem Mem StepRuns

/-- Slots `0..k-1` are filled and the last packet of the photo has not come. -/
def Assembling (k : ℕ) (s : Sys) : Prop :=
  s.cur.bStartGetImage = true ∧ rootPacketLen * k ≤ s.cur.pRootMsg

instance (k : ℕ) (s : Sys) : Decidable (Assembling k s) := inferInstanceAs (Decidable (_ ∧ _))

/-- The step is an iteration of `root_mesh_read_task` that sends a ping. -/
def PingDue (s : Sys) : SysEvent → Prop
  | .rootTop e => s.root.pc = .top ∧ e.connected = true ∧ e.isRoot = true ∧
      (pingForce e.totalNodeNum e.meshEvent e.qmsgStack e.now s.pingLast).isSome = true
  | _ => False

/-! ## One step -/

theorem rootPing_quiet {e : RootEnv} {s : Sys} (hpc : s.root.pc = .top)
    (hrun : e.connected = true ∧ e.isRoot = true) (hping : ¬ PingDue s (.rootTop e)) :
    rootPing e s = s := by
  have hnone : pingForce e.totalNodeNum e.meshEvent e.qmsgStack e.now s.pingLast = none := by
    rw [← Option.not_isSome_iff_eq_none]
    exact fun hsome => hping ⟨hpc, hrun.1, hrun.2, hsome⟩
  simp only [rootPing, hnone]

/-- The step is an iteration of `root_mesh_read_task`, or a message that it has read. -/
def RootWorks (s : Sys) : SysEvent → Prop
  | .rootTop _ => s.root.pc = .top
  | .rootRead _ _ => s.root.pc = .reading
  | _ => False

/-- Everything else leaves the buffers of the root alone. -/
theorem step_mem_of_not_rootWorks {s : Sys} {ev : SysEvent} (h : ¬ RootWorks s ev) :
    (s.step ev).io.mem = s.io.mem := by
  cases ev with
  | rootTop e => simp only [Sys.step, if_neg (show ¬ s.root.pc = .top from h)]
  | rootRead pkt e => simp only [Sys.step, if_neg (show ¬ s.root.pc = .reading from h)]
  | rootStart sqmsg => simp only [Sys.step]; split <;> rfl
  | tcpStart sqmsg => simp only [Sys.step]; split <;> rfl
  | tcpTurn e => simp only [Sys.step]; split <;> rfl
  | otaTask i e =>
    simp only [Sys.step, otaTurn]
    split <;> rfl

theorem step_keeps (s : Sys) (ev : SysEvent) (h : RootInvariant s) (hping : ¬ PingDue s ev)
    (a : ℕ) (h6 : 6 ≤ a) (ha : a < s.cur.pRootMsg) :
    (s.step ev).io.mem.byte a = s.io.mem.byte a := by
  by_cases hworks : RootWorks s ev
  · cases ev with
    | rootTop e =>
      have hpc : s.root.pc = .top := hworks
      obtain ⟨_, _, hon, hoff⟩ := rootTop_spec e s h.aligned
      simp only [Sys.step, if_pos hpc]
      by_cases hrun : e.connected = true ∧ e.isRoot = true
      · rw [rootPing_quiet hpc hrun hping] at hon
        exact hon hrun.1 hrun.2 a ha
      · rw [hoff hrun]
    | rootRead pkt e =>
      simp only [Sys.step, if_pos (show s.root.pc = .reading from hworks)]
      exact (rootRead_spec pkt e s h.aligned).2.2 a h6 ha
    | rootStart sqmsg | tcpStart sqmsg | tcpTurn e | otaTask i e => exact hworks.elim
  · rw [step_mem_of_not_rootWorks hworks]

theorem buildPing_header (self : Mac) (nodes : List NodeInfo) (force : UInt8) (p : ℕ) (m : Mem) :
    (buildPing self nodes force p m).byte p = 0xff := by
  simp only [buildPing, busHeader, body, u8RootMac, u8Cmd, u8Type]
  rw [store_byte_off _ _ _ _ (.inl (by omega)), store_byte_off _ _ _ _ (.inl (by omega)),
    store_byte_off _ _ _ _ (.inl (by omega)), store_byte_off _ _ _ _ (.inl (by omega)), fill_byte,
    if_pos (by simp)]

theorem ping_spoils (s : Sys) (ev : SysEvent) (h : RootInvariant s) (hping : PingDue s ev)
    (hcur : tNode < s.cur.pRootMsg) : (s.step ev).io.mem.byte tNode = 0xff := by
  cases ev with
  | rootTop e =>
    obtain ⟨hpc, hc, hr, hsome⟩ := hping
    obtain ⟨force, hforce⟩ := Option.isSome_iff_exists.mp hsome
    have hsent : (rootPing e s).io.mem.byte tNode = 0xff := by
      simp only [rootPing, hforce, rootSendPing, Io.emit_mem, Io.modify_mem, h.ping]
      exact buildPing_header _ _ _ _ _
    simp only [Sys.step, if_pos hpc]
    rw [(rootTop_spec e s h.aligned).2.2.1 hc hr tNode hcur, hsent]
  | rootStart _ | rootRead _ _ | tcpStart _ | tcpTurn _ | otaTask _ _ => exact hping.elim

/-! ## A run -/

theorem run_keeps (k : ℕ) (m : Mem) (es : List SysEvent) (s : Sys) (h : RootInvariant s)
    (hgo : Through Sys.step (Assembling k) s es) (hm : nodeParts k s.io.mem = nodeParts k m)
    (hping : Along Sys.step (fun s e => ¬ PingDue s e) s es) :
    Through Sys.step (fun s' => nodeParts k s'.io.mem = nodeParts k m) s es := by
  induction es generalizing s with
  | nil => exact hm
  | cons ev es ih =>
    have hstep : nodeParts k (s.step ev).io.mem = nodeParts k s.io.mem :=
      nodeParts_congr fun a h6 ha =>
        step_keeps s ev h hping.1 a h6 (ha.trans_le hgo.1.2)
    exact ⟨hm, ih _ (step_rootInvariant s ev h) hgo.2 (hstep.trans hm) hping.2⟩

theorem run_without_ping (k : ℕ) (hk : 0 < k) (m : Mem) (hm : m.byte tNode ≠ 0xff)
    (es : List SysEvent) (s : Sys) (h : RootInvariant s)
    (hgo : Through Sys.step (Assembling k) s es)
    (hkept : Through Sys.step (fun s' => nodeParts k s'.io.mem = nodeParts k m) s es) :
    Along Sys.step (fun s e => ¬ PingDue s e) s es := by
  induction es generalizing s with
  | nil => trivial
  | cons ev es ih =>
    refine ⟨fun hping => hm ?_, ih _ (step_rootInvariant s ev h) hgo.2 hkept.2⟩
    have hcur : tNode < s.cur.pRootMsg := by
      have := Nat.mul_le_mul_left rootPacketLen hk
      have := hgo.1.2
      simp only [rootPacketLen, childPacketLen, mwifiAddrLen, tNode] at *
      omega
    rw [← nodeParts_header hk hkept.2.first, ping_spoils s ev h hping hcur]

/-- **The photo buffer.** As long as a photo is being assembled behind its first `k` packets, a
run that sends no ping leaves the node parts of these packets as they are in every state; and
if slot 0 holds a first packet, only such a run does. -/
theorem photo_frame (s : Sys) (hs : s.Reachable) (k : ℕ) (hk : 0 < k) (es : List SysEvent)
    (hgo : Through Sys.step (Assembling k) s es) :
    (Along Sys.step (fun s e => ¬ PingDue s e) s es →
        Through Sys.step (fun s' => nodeParts k s'.io.mem = nodeParts k s.io.mem) s es) ∧
      (s.io.mem.load16 tNode = 1 →
        Through Sys.step (fun s' => nodeParts k s'.io.mem = nodeParts k s.io.mem) s es →
        Along Sys.step (fun s e => ¬ PingDue s e) s es) := by
  refine ⟨run_keeps k s.io.mem es s hs.rootInvariant hgo rfl, fun hfirst => ?_⟩
  refine run_without_ping k hk s.io.mem (fun hff => ?_) es s hs.rootInvariant hgo
  rw [load16, hff] at hfirst
  have : (0xff : UInt8).toNat = 255 := rfl
  omega

def firstOfTwo : Sys :=
  startedRoot.step (.rootRead (some (picOf (macOf 10) 1 2 7)) idleCmd)

theorem firstOfTwo_reachable : firstOfTwo.Reachable := startedRoot_reachable.step _

/-- Two of four packets have come. -/
def twoOfFour : Sys :=
  run Sys.step startedRoot [.rootRead (some (picOf (macOf 10) 1 4 7)) idleCmd,
    .rootTop (idleEnv 1500), .rootRead (some (picOf (macOf 10) 2 4 8)) idleCmd]

/-- A packet of another node, a look at the nodes that are gone, and the third packet. -/
def thirdOfFour : List SysEvent :=
  [.rootTop (idleEnv 2000), .rootRead (some (picOf (macOf 11) 2 4 1)) idleCmd,
    .rootTop { idleEnv 3000 with
      tcpEvent := some MsgqueueType.nodeRemove.byte
      table := some [macOf 10] },
    .rootRead (some (picOf (macOf 10) 3 4 9)) idleCmd, .rootTop (idleEnv 4000)]

theorem photo_frame_third :
    Through Sys.step (fun s' => nodeParts 2 s'.io.mem = nodeParts 2 twoOfFour.io.mem) twoOfFour
      thirdOfFour := by
  have hreach : twoOfFour.Reachable := startedRoot_reachable.run _
  refine (photo_frame twoOfFour hreach 2 Nat.two_pos thirdOfFour (by decide +kernel)).1 ?_
  exact ⟨fun h => absurd h.2.2.2 (by decide), fun h => h, fun h => absurd h.2.2.2 (by decide),
    fun h => h, fun h => absurd h.2.2.2 (by decide), trivial⟩

/-- An iteration eight seconds after the last ping writes the ping's header over packet 1. -/
theorem ping_over_first_packet :
    firstOfTwo.Reachable ∧
      Through Sys.step (Assembling 1) firstOfTwo [.rootTop (idleEnv 8000)] ∧
      nodeParts 1 (firstOfTwo.step (.rootTop (idleEnv 8000))).io.mem ≠
        nodeParts 1 firstOfTwo.io.mem := by
  refine ⟨firstOfTwo_reachable, ⟨⟨by decide, by decide⟩, by decide, by decide⟩, fun h => ?_⟩
  have hheader := nodeParts_header Nat.one_pos h
  revert hheader
  decide

end EspMesh
