import EspMesh.Library.StepRuns
import EspMesh.Proof.RootFrame

/-! # One step of the root

Where the cursor can be, and what a step can do to the buffer in front of it.
-/

namespace EspMesh
set_option autoImplicit false
open ByteMem Mem StepRuns

/-! ## The slots of the buffer -/

def nodeParts (k : ℕ) (m : Mem) : List (List UInt8) :=
  (List.range k).map fun i => m.load (rootPacketLen * i + tNode) childPacketLen

theorem nodeParts_congr {k : ℕ} {m m' : Mem}
    (h : ∀ a, 6 ≤ a → a < rootPacketLen * k → m'.byte a = m.byte a) :
    nodeParts k m' = nodeParts k m := by
  refine List.map_congr_left fun i hi => (load_eq_iff _ _ _ _ _).mpr fun j hj => h _ ?_ ?_
  · simp only [tNode]; omega
  · have hik : i + 1 ≤ k := List.mem_range.mp hi
    have := Nat.mul_le_mul_left rootPacketLen hik
    simp only [rootPacketLen, childPacketLen, mwifiAddrLen, tNode] at *
    omega

theorem nodeParts_header {k : ℕ} {m m' : Mem} (hk : 0 < k) (h : nodeParts k m' = nodeParts k m) :
    m'.byte tNode = m.byte tNode := by
  have h0 := (List.map_inj_left.mp h) 0 (List.mem_range.mpr hk)
  exact (load_eq_iff _ _ _ _ _).mp h0 0 (by simp)

theorem nodeParts_succ (k : ℕ) (m : Mem) :
    nodeParts (k + 1) m = nodeParts k m ++ [m.load (rootPacketLen * k + tNode) childPacketLen] := by
  rw [nodeParts, List.range_succ, List.map_append]
  rfl

/-! ## The cursor -/

/-- The two pointers stay together at the start of a slot, and leave slot 0 only while a photo is
being received. -/
structure Cursor.Aligned (c : Cursor) : Prop where
  slot : ∃ k, c.pRootMsg = rootPacketLen * k
  cmd : c.pServerCmd = c.pRootMsg + tNode
  going : c.pRootMsg = 0 ∨ c.bStartGetImage = true

theorem Cursor.rewind_aligned (c : Cursor) : c.rewind.Aligned := ⟨⟨0, rfl⟩, rfl, .inl rfl⟩

theorem Cursor.Aligned.error {c : Cursor} (h : c.Aligned) : c.error.Aligned := by
  unfold Cursor.error
  split
  · exact ⟨⟨0, rfl⟩, rfl, .inl rfl⟩
  · exact ⟨h.slot, h.cmd, h.going⟩

/-- Accepting a packet keeps the cursor on a slot even where the restart has moved only one of
the two pointers. -/
theorem imageAccept_aligned (gSockfd : Option ℕ) (src : Mac) (count maxCount : ℕ) (io : Io)
    (c : Cursor) (hslot : ∃ k, c.pRootMsg = rootPacketLen * k)
    (hstay : c.Aligned ∨ c.bStartGetImage = true ∧ io.mem.load 0 6 = src.val) :
    (imageAccept gSockfd src count maxCount io c).2.Aligned := by
  unfold imageAccept
  split
  · next hstart => exact hstay.resolve_right fun h => by simp [h.1] at hstart
  · next hstart =>
    split
    · exact c.rewind_aligned
    · split
      · obtain ⟨k, hk⟩ := hslot
        exact ⟨⟨k + 1, by rw [Nat.mul_succ, ← hk]; rfl⟩, rfl,
          .inr (by simpa [Cursor.advance] using hstart)⟩
      · next haddr => exact (hstay.resolve_right fun h => haddr h.2).error

theorem doProcessImageData_aligned (gSockfd : Option ℕ) (src : Mac) (io : Io) (c : Cursor)
    (h : c.Aligned) : (doProcessImageData gSockfd src io c).2.Aligned := by
  unfold doProcessImageData
  dsimp only
  split
  · exact h.error
  · split
    · refine imageAccept_aligned _ _ _ _ _ _ ⟨0, rfl⟩ (.inr ⟨rfl, ?_⟩)
      rw [Io.modify_mem]
      have hself := load_store_self io.mem 0 src.val
      rwa [src.2] at hself
    · exact imageAccept_aligned _ _ _ _ _ _ h.slot (.inl h)

theorem doProcessImageData_byte (gSockfd : Option ℕ) (src : Mac) (io : Io) (c : Cursor) (a : ℕ)
    (ha : 6 ≤ a) : (doProcessImageData gSockfd src io c).1.mem.byte a = io.mem.byte a := by
  have haccept : ∀ (io' : Io) (c' : Cursor) (count maxCount : ℕ),
      (imageAccept gSockfd src count maxCount io' c').1.mem = io'.mem := by
    intro io' c' count maxCount
    unfold imageAccept
    split
    · rfl
    · split
      · dsimp only
        split <;> rfl
      · split <;> rfl
  unfold doProcessImageData
  dsimp only
  split
  · rfl
  · split
    · rw [haccept]
      exact store_byte_off _ _ _ _ (.inr (by rw [src.2]; omega))
    · rw [haccept]

/-! ## The parts of an iteration -/

@[simp] theorem rootPing_cur (e : RootEnv) (s : Sys) : (rootPing e s).cur = s.cur := by
  unfold rootPing
  split <;> rfl

@[simp] theorem rootPing_root (e : RootEnv) (s : Sys) : (rootPing e s).root = s.root := by
  unfold rootPing
  split <;> rfl

@[simp] theorem rootPing_w (e : RootEnv) (s : Sys) : (rootPing e s).w = s.w := by
  unfold rootPing
  split <;> rfl

theorem rootConnect_spec (e : RootEnv) (s : Sys) :
    (rootConnect e s).1.cur = s.cur ∧ (rootConnect e s).1.root = s.root ∧
      SameBelow s.cur.pRootMsg s.io.mem (rootConnect e s).1.io.mem := by
  unfold rootConnect
  split
  · exact ⟨rfl, rfl, SameBelow.refl _ _⟩
  · exact ⟨rfl, rfl, SameBelow.refl _ _⟩
  · exact ⟨rfl, rfl, rootSendRegister_below _ _ _ _⟩

theorem rootConnect_w (e : RootEnv) (s : Sys) :
    ∃ fd, (rootConnect e s).1.w = { s.w with gSockfd := fd } := by
  unfold rootConnect
  split <;> exact ⟨_, rfl⟩

theorem rootOffline_spec (e : RootEnv) (s : Sys) :
    (rootOffline e s).cur = s.cur ∧ (rootOffline e s).root = s.root ∧
      SameBelow s.cur.pRootMsg s.io.mem (rootOffline e s).io.mem := by
  unfold rootOffline
  split
  · exact ⟨rfl, rfl, SameBelow.refl _ _⟩
  · exact ⟨rfl, rfl, rootDoChildOffline_below _ _ _ _ _⟩

theorem rootCommand_spec (e : RootEnv) (s : Sys) (h : s.cur.Aligned) :
    (rootCommand e s).cur = s.cur ∧ (rootCommand e s).root.pPingMsg = s.root.pPingMsg ∧
      SameBelow s.cur.pRootMsg s.io.mem (rootCommand e s).io.mem := by
  have hcmd := h.cmd
  unfold rootCommand
  split
  · exact ⟨rfl, rfl, SameBelow.refl _ _⟩
  · dsimp only
    split
    · exact ⟨rfl, rfl, (SameBelow.refl _ _).store _ (by omega)⟩
    · exact ⟨rfl, rfl, (((SameBelow.refl _ _).store _ (le_refl _)).store _ (by omega)).trans
        (doProcessDataFromTcpserOrRoot_below (s.io.modify _) _ _)⟩

theorem rootServe_spec (e : RootEnv) (s : Sys) (h : s.cur.Aligned) :
    (rootServe e s).cur = s.cur ∧ (rootServe e s).root.pPingMsg = s.root.pPingMsg ∧
      SameBelow s.cur.pRootMsg s.io.mem (rootServe e s).io.mem := by
  obtain ⟨hcur, hroot, hoff⟩ := rootOffline_spec e s
  obtain ⟨hcur', hping, hcom⟩ := rootCommand_spec e (rootOffline e s) (by rwa [hcur])
  rw [hcur] at hcur' hcom
  rw [hroot] at hping
  exact ⟨hcur', hping, hoff.trans hcom⟩

/-- Behind its ping, an iteration leaves everything in front of the cursor alone. -/
theorem rootTop_spec (e : RootEnv) (s : Sys) (h : s.cur.Aligned) :
    (rootTop e s).cur = s.cur ∧ (rootTop e s).root.pPingMsg = s.root.pPingMsg ∧
      (e.connected = true → e.isRoot = true →
        SameBelow s.cur.pRootMsg (rootPing e s).io.mem (rootTop e s).io.mem) ∧
      (¬ (e.connected = true ∧ e.isRoot = true) → (rootTop e s).io = s.io) := by
  unfold rootTop
  split
  · next hoff =>
    refine ⟨rfl, rfl, fun hc hr => ?_, fun _ => rfl⟩
    simp [hc, hr] at hoff
  · next hon =>
    have hno : ∀ {P : Prop}, ¬ (e.connected = true ∧ e.isRoot = true) → P := fun hn =>
      absurd (by simpa using hon) hn
    dsimp only
    split
    · exact ⟨rootPing_cur e s, by rw [rootPing_root], fun _ _ => SameBelow.refl _ _, hno⟩
    · obtain ⟨hcur, hroot, hcon⟩ := rootConnect_spec e (rootPing e s)
      rw [rootPing_cur] at hcur hcon
      rw [rootPing_root] at hroot
      split
      · next s' hs' =>
        rw [hs'] at hcur hroot hcon
        exact ⟨hcur, by rw [hroot], fun _ _ => hcon, hno⟩
      · next s' hs' =>
        rw [hs'] at hcur hroot hcon
        dsimp only at hcur hroot hcon
        obtain ⟨hcur', hping, hserve⟩ := rootServe_spec e s' (by rwa [hcur])
        rw [hcur] at hcur' hserve
        rw [hroot] at hping
        exact ⟨hcur', hping, fun _ _ => hcon.trans hserve, hno⟩

theorem rootRead_spec (pkt : Option MeshPacket) (e : CmdEnv) (s : Sys) (h : s.cur.Aligned) :
    (rootRead pkt e s).cur.Aligned ∧ (rootRead pkt e s).root.pPingMsg = s.root.pPingMsg ∧
      ∀ a, 6 ≤ a → a < s.cur.pRootMsg →
        (rootRead pkt e s).io.mem.byte a = s.io.mem.byte a := by
  have hcmd := h.cmd
  cases pkt with
  | none => exact ⟨h, rfl, fun _ _ _ => rfl⟩
  | some pkt =>
    have hrecv : SameBelow s.cur.pRootMsg s.io.mem (s.io.mem.store s.cur.pServerCmd pkt.data) :=
      (SameBelow.refl _ _).store _ (by omega)
    unfold rootRead
    dsimp only
    split
    · exact ⟨h, rfl, fun a _ ha => hrecv a ha⟩
    · unfold rootBusiness
      dsimp only
      split
      · have haddr := hrecv.store pkt.src.val (le_refl _)
        refine ⟨h, rfl, fun a _ ha => ?_⟩
        split
        · exact (haddr.trans (doProcessDataFromTcpserOrRoot_below (Io.modify _ _) _ _)) a ha
        · exact (haddr.trans (doProcessDataFromNode_below (Io.modify _ _) _ _ _)) a ha
      · refine ⟨doProcessImageData_aligned _ _ _ _ h, rfl, fun a h6 ha => ?_⟩
        exact (doProcessImageData_byte _ _ _ _ a h6).trans (hrecv a ha)

/-! ## Every state of the root -/

structure RootInvariant (s : Sys) : Prop where
  aligned : s.cur.Aligned
  ping : s.root.pPingMsg = tNode

theorem step_rootInvariant (s : Sys) (ev : SysEvent) (h : RootInvariant s) :
    RootInvariant (s.step ev) := by
  cases ev with
  | rootStart sqmsg =>
    simp only [Sys.step]
    split
    · exact ⟨s.cur.rewind_aligned, rfl⟩
    · exact h
  | rootTop e =>
    simp only [Sys.step]
    split
    · obtain ⟨hcur, hping, _, _⟩ := rootTop_spec e s h.aligned
      exact ⟨by rw [hcur]; exact h.aligned, hping.trans h.ping⟩
    · exact h
  | rootRead pkt e =>
    simp only [Sys.step]
    split
    · obtain ⟨hcur, hping, _⟩ := rootRead_spec pkt e s h.aligned
      exact ⟨hcur, hping.trans h.ping⟩
    · exact h
  | tcpStart sqmsg =>
    simp only [Sys.step]
    split <;> exact ⟨h.aligned, h.ping⟩
  | tcpTurn e =>
    simp only [Sys.step]
    split <;> exact ⟨h.aligned, h.ping⟩
  | otaTask i e => exact ⟨h.aligned, h.ping⟩

theorem Sys.Reachable.rootInvariant {s : Sys} (h : s.Reachable) : RootInvariant s := by
  refine StepRuns.Reachable.invariant ?_ step_rootInvariant h
  rintro s ⟨mac, ip, bytes, tcpBytes, sqmsg, rfl⟩
  exact ⟨⟨⟨0, rfl⟩, rfl, .inl rfl⟩, rfl⟩

theorem Sys.Reachable.step {s : Sys} (h : s.Reachable) (ev : SysEvent) : (s.step ev).Reachable :=
  StepRuns.Reachable.run h [ev]

/-! ## A root on its first connection -/

/-- Every call succeeds; there is no camera. -/
def idleCmd : CmdEnv :=
  ⟨⟨true, true, Bytes.const 61 0⟩, fun _ => true, none, fun _ => true, true⟩

/-- An iteration at the tick `now` for which nothing waits in a queue. -/
def idleEnv (now : UInt32) : RootEnv where
  connected := true
  isRoot := true
  totalNodeNum := 2
  meshEvent := none
  qmsgStack := 0
  now := now
  connect := some 3
  register := ⟨true, true, fun _ => []⟩
  tcpEvent := none
  table := none
  cmd := idleCmd

def zeroSqmsg : ServerqueueMsg := ⟨false, mwifiAddrBroadcast, Bytes.const 101 0⟩

/-- The root 02:02:02:02:02:02 on zeroed memory. -/
def zeroBoot : Sys := .boot (macOf 2) [] (fun _ => 0) (fun _ => 0) zeroSqmsg

/-- The root's task starts and comes to its first `mwifi_root_read`. -/
def startEvents : List SysEvent := [.rootStart (Bytes.const 108 0), .rootTop (idleEnv 1000)]

def startedRoot : Sys := run Sys.step zeroBoot startEvents

/-- And the task that reads commands starts. -/
def connected : List SysEvent := startEvents ++ [.tcpStart zeroSqmsg]

/-- A packet of the node 0a:... -/
def nodePacket (type : BusType) (cmd : BusCmd) (content : Bytes 20) : MeshPacket where
  src := macOf 10
  type := .zero
  data := mwifiAddrBroadcast.val ++ [type.byte, cmd.byte] ++ content.val ++ List.replicate 1402 0
  fits := by
    simp only [List.length_append, mwifiAddrBroadcast.2, content.2, List.length_replicate,
      List.length_cons, List.length_nil, childPacketLen]
    exact le_refl 1430

/-- It registers with version "0.0.4". -/
def joinPacket : MeshPacket :=
  nodePacket .request .nodeRegister
    ⟨[1, 10, 10, 10, 10, 10, 10, 48, 46, 48, 46, 52, 0, 0, 0, 0, 0, 0, 0, 0], rfl⟩

theorem startedRoot_reachable : startedRoot.Reachable :=
  ⟨_, _, ⟨_, _, _, _, _, rfl⟩, rfl⟩

end EspMesh
