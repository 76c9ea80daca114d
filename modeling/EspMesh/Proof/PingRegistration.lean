import EspMesh.Model.NodeTask
import EspMesh.Proof.RootStep

/-! # Pings and registrations

The ping's list of nodes has a count that the root never writes: the node scans as many entries
as the byte in its place says, the registry first and behind it what the buffer held before. The
force byte of a ping sent by the interval is what the stack held, and a node drops a ping whose
force it does not know.
-/

namespace EspMesh
set_option autoImplicit false
set_option maxRecDepth 20000
open ByteMem Mem StepRuns

/-- Over a step of the node exactly one message went out, a NODE_REGISTER to the root. -/
def Registered (n n' : Node) : Prop :=
  ∃ packet, n'.io.trace = .mwifiWrite none .zero packet :: n.io.trace ∧
    (packet.drop u8Type).take 2 = [BusType.request.byte, BusCmd.nodeRegister.byte]

/-- The force codes on which `node_handle_ping_from_root` reads a ping. -/
def Acted (force : UInt8) : Prop :=
  force = MsgqueueType.nodeAdd.byte ∨ force = MsgqueueType.nodePing.byte

instance (force : UInt8) : Decidable (Acted force) := inferInstanceAs (Decidable (_ ∨ _))

/-- One of the entries scanned behind the registry's is the address: `before` is what the
node's buffer would hold had the root sent its own as it was. -/
def StaleEntry (nodes : List NodeInfo) (before : Mem) (mac : Mac) : Prop :=
  ∃ i, nodes.length ≤ i ∧ i < (before.byte (body + u8NodeCount)).toNat ∧
    before.load (body + u8NodeMac + mwifiAddrLen * i) 6 = mac.val

/-- The byte left in place of the count lets the scan find the address exactly when the
registry has it. -/
def CountRight (nodes : List NodeInfo) (before : Mem) (mac : Mac) : Prop :=
  if mac ∈ nodes.map NodeInfo.mac then
    mac ∈ (nodes.take (before.byte (body + u8NodeCount)).toNat).map NodeInfo.mac ∨
      StaleEntry nodes before mac
  else ¬ StaleEntry nodes before mac

/-! ## The ping as it is built -/

section Build
variable (p : ℕ)

theorem pingEntries_byte_off (nodes : List NodeInfo) (i : ℕ) (m : Mem) (a : ℕ)
    (h : a < p + 16 + 6 * i ∨ p + 16 + 6 * (i + nodes.length) ≤ a) :
    (pingEntries p nodes i m).byte a = m.byte a := by
  induction nodes generalizing i m with
  | nil => rfl
  | cons head next ih =>
    rw [List.length_cons] at h
    rw [pingEntries, ih (i + 1) _ (by omega), store_byte_off]
    simp only [body, u8NodeMac, mwifiAddrLen, head.mac.2]
    omega

theorem pingEntries_load (nodes : List NodeInfo) (i : ℕ) (m : Mem) (j : ℕ) (hj : j < nodes.length) :
    (pingEntries p nodes i m).load (p + 16 + 6 * (i + j)) 6 = nodes[j].mac.val := by
  induction nodes generalizing i j m with
  | nil => exact absurd hj (Nat.not_lt_zero j)
  | cons head next ih =>
    rw [pingEntries]
    cases j with
    | zero =>
      have hself := load_store_self m (p + 16 + 6 * i) head.mac.val
      rw [head.mac.2] at hself
      rw [Nat.add_zero, List.getElem_cons_zero]
      refine Eq.trans ((load_eq_iff _ _ _ _ _).mpr fun k hk => ?_) hself
      exact pingEntries_byte_off p next (i + 1) _ _ (.inl (by omega))
    | succ j =>
      rw [List.getElem_cons_succ, show i + (j + 1) = i + 1 + j by omega]
      exact ih (i + 1) _ j (by simpa using hj)

variable (gSelfMac : Mac) (nodes : List NodeInfo) (force : UInt8) (m : Mem)

theorem buildPing_codes :
    (buildPing gSelfMac nodes force p m).load p body =
      mwifiAddrBroadcast.val ++ [BusType.request.byte, BusCmd.rootSendPing.byte] := by
  rw [buildPing, load_store_off _ _ _ _ _ (.inl (by omega)),
    load_store_off _ _ _ _ _ (.inl (by omega)), busHeader_load]

theorem buildPing_force : (buildPing gSelfMac nodes force p m).byte (p + body) = force := by
  have h := store_byte_at (busHeader p .request .rootSendPing (pingEntries p nodes 0 m)) (p + body)
    0 [force] (by simp)
  rw [Nat.add_zero] at h
  rw [buildPing, store_byte_off _ _ _ _ (.inl (by simp))]
  exact h

theorem buildPing_rootMac :
    (buildPing gSelfMac nodes force p m).load (p + body + u8RootMac) 6 = gSelfMac.val := by
  have h := load_store_self ((busHeader p .request .rootSendPing (pingEntries p nodes 0 m)).store
    (p + body) [force]) (p + body + u8RootMac) gSelfMac.val
  rwa [gSelfMac.2] at h

theorem buildPing_byte (a : ℕ) (h : p + 15 ≤ a) :
    (buildPing gSelfMac nodes force p m).byte a = (pingEntries p nodes 0 m).byte a := by
  rw [buildPing, store_byte_off _ _ _ _ (.inr (by rw [gSelfMac.2]; simp; omega)),
    store_byte_off _ _ _ _ (.inr (by simp; omega)),
    busHeader_byte_off _ _ _ _ _ (.inr (by omega))]

end Build

/-! ## The ping as it is received -/

section Received
variable (p : ℕ) (gSelfMac : Mac) (nodes : List NodeInfo) (force : UInt8) (m node : Mem)

/-- The node's buffer with the ping in it. -/
def heard : Mem := node.store 0 ((buildPing gSelfMac nodes force p m).load p childPacketLen)

/-- The node's buffer, had the root's been sent as it was. -/
def unsent : Mem := node.store 0 (m.load p childPacketLen)

theorem heard_byte (a : ℕ) :
    (heard p gSelfMac nodes force m node).byte a =
      if a < childPacketLen then (buildPing gSelfMac nodes force p m).byte (p + a)
      else node.byte a := by
  rw [heard, store_byte, load_length]
  by_cases h : a < childPacketLen
  · rw [if_pos ⟨Nat.zero_le a, by omega⟩, if_pos h, Nat.sub_zero, load_getD _ _ _ _ h]
  · rw [if_neg (by omega), if_neg h]

theorem heard_load (a n : ℕ) (h : a + n ≤ childPacketLen) :
    (heard p gSelfMac nodes force m node).load a n =
      (buildPing gSelfMac nodes force p m).load (p + a) n := by
  refine (load_eq_iff _ _ _ _ _).mpr fun i hi => ?_
  rw [heard_byte, if_pos (by omega), Nat.add_assoc]

theorem heard_stale (a : ℕ) (h : a = 15 ∨ 16 + 6 * nodes.length ≤ a) :
    (heard p gSelfMac nodes force m node).byte a = (unsent p m node).byte a := by
  rw [heard_byte, unsent, store_byte, load_length]
  by_cases ha : a < childPacketLen
  · rw [if_pos ha, if_pos ⟨Nat.zero_le a, by omega⟩, Nat.sub_zero, load_getD _ _ _ _ ha,
      buildPing_byte _ _ _ _ _ _ (by omega), pingEntries_byte_off _ _ _ _ _ (by omega)]
  · rw [if_neg ha, if_neg (by omega)]

theorem heard_entry (hsize : nodes.length ≤ maxMeshSize) (i : ℕ) (hi : i < nodes.length) :
    (heard p gSelfMac nodes force m node).load (16 + 6 * i) 6 = nodes[i].mac.val := by
  simp only [maxMeshSize] at hsize
  have hentry := pingEntries_load p nodes 0 m i hi
  rw [Nat.zero_add, Nat.add_assoc] at hentry
  rw [heard_load _ _ _ _ _ _ _ _ (by simp only [childPacketLen]; omega), ← hentry]
  exact (load_eq_iff _ _ _ _ _).mpr fun k _ => buildPing_byte _ _ _ _ _ _ (by omega)

/-- **The scan.** A node finds itself among the first entries of the registry or behind them. -/
theorem pingListsNode_heard (hsize : nodes.length ≤ maxMeshSize) (mac : Mac) :
    pingListsNode mac (heard p gSelfMac nodes force m node) = true ↔
      mac ∈ (nodes.take ((unsent p m node).byte 15).toNat).map NodeInfo.mac ∨
        StaleEntry nodes (unsent p m node) mac := by
  have hstale : ∀ i, nodes.length ≤ i → (heard p gSelfMac nodes force m node).load (16 + 6 * i) 6 =
      (unsent p m node).load (16 + 6 * i) 6 := fun i hi =>
    (load_eq_iff _ _ _ _ _).mpr fun k _ => heard_stale _ _ _ _ _ _ _ (.inr (by omega))
  simp only [pingListsNode, StaleEntry, body, u8NodeCount, u8NodeMac, mwifiAddrLen, Nat.reduceAdd,
    List.any_eq_true, List.mem_range, beq_iff_eq]
  rw [heard_stale _ _ _ _ _ _ 15 (.inl rfl)]
  constructor
  · rintro ⟨i, hcount, hload⟩
    by_cases hi : i < nodes.length
    · rw [heard_entry _ _ _ _ _ _ hsize i hi] at hload
      refine .inl (List.mem_map.mpr ⟨nodes[i], ?_, Subtype.ext hload⟩)
      exact List.mem_take_iff_getElem.mpr ⟨i, by omega, rfl⟩
    · rw [hstale i (by omega)] at hload
      exact .inr ⟨i, by omega, hcount, hload⟩
  · rintro (h | ⟨i, hi, hcount, hload⟩)
    · obtain ⟨head, hmem, rfl⟩ := List.mem_map.mp h
      obtain ⟨i, hi, rfl⟩ := List.mem_take_iff_getElem.mp hmem
      exact ⟨i, by omega, heard_entry _ _ _ _ _ _ hsize i (by omega)⟩
    · exact ⟨i, hcount, by rw [hstale i hi, hload]⟩

end Received

/-! ## What the node does -/

theorem not_registered {n n' : Node} (h : n'.io.trace = n.io.trace) : ¬ Registered n n' := by
  rintro ⟨packet, htrace, -⟩
  rw [h] at htrace
  exact List.cons_ne_self _ _ htrace.symm

theorem nodeRegister_registered (n n' : Node) (h : n'.io.trace = n.io.trace) :
    Registered n (nodeRegister n') := by
  refine ⟨_, congrArg _ h, ?_⟩
  let m := busHeader 0 .request .nodeRegister n'.io.mem
  let one : List UInt8 := [1]
  have hcodes := busHeader_codes 0 .request .nodeRegister n'.io.mem
  rw [Nat.zero_add] at hcodes
  have hkept : (((m.store body one).store (body + devVersionAddr) n'.gSelfMac.val).store
      (body + u8VersionStr) (configDeviceVersion ++ [0])).load u8Type 2 = m.load u8Type 2 := by
    rw [load_store_off _ _ _ _ _ (.inl (by simp)), load_store_off _ _ _ _ _ (.inl (by simp)),
      load_store_off _ _ _ _ _ (.inl (by simp))]
  rw [Mem.load_drop _ _ _ _ (by simp), Mem.load_take _ _ _ _ (by simp), Nat.zero_add]
  exact hkept.trans hcodes

theorem nodeHandlePingFromRoot_registered (n n' : Node) (h : n'.io.trace = n.io.trace) :
    Registered n (nodeHandlePingFromRoot n') ↔
      Acted (n'.io.mem.byte body) ∧ (n'.gRootMac ≠ n'.io.mem.loadBytes (body + u8RootMac) 6 ∨
        pingListsNode n'.gSelfMac n'.io.mem = false) := by
  unfold nodeHandlePingFromRoot
  dsimp only
  split
  · rename_i hforce
    split
    · rename_i hroot
      exact iff_of_true (nodeRegister_registered n _ h) ⟨hforce, .inl hroot⟩
    · rename_i hroot
      split
      · rename_i hlists
        refine iff_of_false (not_registered h) ?_
        rintro ⟨-, hne | hfalse⟩
        · exact hroot hne
        · exact absurd (hlists.symm.trans hfalse) (by simp)
      · rename_i hlists
        exact iff_of_true (nodeRegister_registered n _ h) ⟨hforce, .inr (by simpa using hlists)⟩
  · rename_i hforce
    exact iff_of_false (not_registered h) fun hacted => hforce hacted.1

/-! ## A ping and a node -/

/-- The node registers exactly when it should: the root is new to it, or the root's registry
has no entry for it. -/
def AnswersPing (w : World) (n n' : Node) : Prop :=
  Registered n n' ↔ n.gRootMac ≠ w.gSelfMac ∨ n.gSelfMac ∉ w.nodes.map NodeInfo.mac

/-- The bytes the root left unwritten, the force of a ping without an event and the count, do
no harm for this node. -/
def UnwrittenHarmless (w : World) (force : UInt8) (before : Mem) (n : Node) : Prop :=
  if Acted force then n.gRootMac ≠ w.gSelfMac ∨ CountRight w.nodes before n.gSelfMac
  else n.gRootMac = w.gSelfMac ∧ n.gSelfMac ∈ w.nodes.map NodeInfo.mac

theorem nodeRead_rootSendPing (pkt : MeshPacket) (e : NodeEnv) (n : Node)
    (htype : pkt.type.upgrade = false)
    (hT : (n.io.mem.store 0 pkt.data).byte u8Type = BusType.request.byte)
    (hC : (n.io.mem.store 0 pkt.data).byte u8Cmd = BusCmd.rootSendPing.byte) :
    nodeRead pkt e n =
      nodeHandlePingFromRoot { n with io := n.io.modify fun m => m.store 0 pkt.data } := by
  unfold nodeRead
  simp only [htype, Bool.false_eq_true, if_false, Io.modify_mem, hT, hC, if_true,
    BusCmd.ofByte_byte]

theorem heard_codes (p : ℕ) (gSelfMac : Mac) (nodes : List NodeInfo) (force : UInt8)
    (m node : Mem) :
    (heard p gSelfMac nodes force m node).byte u8Type = BusType.request.byte ∧
      (heard p gSelfMac nodes force m node).byte u8Cmd = BusCmd.rootSendPing.byte := by
  have hcodes : (heard p gSelfMac nodes force m node).load 0 body = mwifiAddrBroadcast.val ++
      [BusType.request.byte, BusCmd.rootSendPing.byte] := by
    rw [heard_load _ _ _ _ _ _ _ _ (by simp), Nat.add_zero, buildPing_codes]
  have hT := load_getD (heard p gSelfMac nodes force m node) 0 body 6 (by simp)
  have hC := load_getD (heard p gSelfMac nodes force m node) 0 body 7 (by simp)
  rw [hcodes, Nat.zero_add] at hT hC
  exact ⟨hT.symm, hC.symm⟩

/-- What a node does with the ping with the force given, in a state of the root. -/
theorem nodeRead_registered (s : Sys) (force : UInt8) (hsize : s.w.nodes.length ≤ maxMeshSize)
    (pkt : MeshPacket) (htype : pkt.type = ⟨false, .broadcast⟩)
    (hdata : pkt.data = (buildPing s.w.gSelfMac s.w.nodes force s.root.pPingMsg s.io.mem).load
      s.root.pPingMsg childPacketLen) (n : Node) (ne : NodeEnv) :
    Registered n (nodeRead pkt ne n) ↔ Acted force ∧ (n.gRootMac ≠ s.w.gSelfMac ∨
      ¬ (n.gSelfMac ∈ (s.w.nodes.take
            ((unsent s.root.pPingMsg s.io.mem n.io.mem).byte 15).toNat).map NodeInfo.mac ∨
        StaleEntry s.w.nodes (unsent s.root.pPingMsg s.io.mem n.io.mem) n.gSelfMac)) := by
  have hheard : n.io.mem.store 0 pkt.data =
      heard s.root.pPingMsg s.w.gSelfMac s.w.nodes force s.io.mem n.io.mem := by
    rw [hdata, heard]
  obtain ⟨hT, hC⟩ := heard_codes s.root.pPingMsg s.w.gSelfMac s.w.nodes force s.io.mem n.io.mem
  rw [← hheard] at hT hC
  have hforce : (n.io.mem.store 0 pkt.data).byte body = force := by
    rw [hheard, heard_byte, if_pos (by simp), buildPing_force]
  have hroot : (n.io.mem.store 0 pkt.data).loadBytes (body + u8RootMac) 6 = s.w.gSelfMac := by
    refine Subtype.ext ?_
    have h := heard_load s.root.pPingMsg s.w.gSelfMac s.w.nodes force s.io.mem n.io.mem
      (body + u8RootMac) 6 (by simp)
    rwa [← Nat.add_assoc, buildPing_rootMac, ← hheard] at h
  have hscan := pingListsNode_heard s.root.pPingMsg s.w.gSelfMac s.w.nodes force s.io.mem n.io.mem
    hsize n.gSelfMac
  rw [← hheard] at hscan
  have hregisters := nodeHandlePingFromRoot_registered n
    { n with io := n.io.modify fun m => m.store 0 pkt.data } (Io.modify_trace _ _)
  rwa [← nodeRead_rootSendPing pkt ne n (by rw [htype]) hT hC, Io.modify_mem, hforce, hroot,
    ← Bool.not_eq_true, hscan] at hregisters

/-- Doing that is right exactly when the bytes the root left unwritten do no harm. -/
theorem unwrittenHarmless_iff (w : World) (force : UInt8) (before : Mem) (n : Node) :
    (Acted force ∧ (n.gRootMac ≠ w.gSelfMac ∨
        ¬ (n.gSelfMac ∈ (w.nodes.take (before.byte 15).toNat).map NodeInfo.mac ∨
          StaleEntry w.nodes before n.gSelfMac)) ↔
      n.gRootMac ≠ w.gSelfMac ∨ n.gSelfMac ∉ w.nodes.map NodeInfo.mac) ↔
      UnwrittenHarmless w force before n := by
  have hearly : n.gSelfMac ∈ (w.nodes.take (before.byte 15).toNat).map NodeInfo.mac →
      n.gSelfMac ∈ w.nodes.map NodeInfo.mac := fun h =>
    List.Sublist.subset ((List.take_sublist _ _).map _) h
  rw [UnwrittenHarmless, CountRight]
  by_cases hacted : Acted force
  · rw [if_pos hacted]
    by_cases hlisted : n.gSelfMac ∈ w.nodes.map NodeInfo.mac
    · -- The node should answer a new root only.
      rw [if_pos hlisted]
      constructor
      · intro h
        by_contra hno
        rw [not_or, not_not] at hno
        exact (h.mp ⟨hacted, .inr hno.2⟩).elim (fun hnew => hnew hno.1) fun hmiss => hmiss hlisted
      · rintro (hnew | hhit)
        · exact iff_of_true ⟨hacted, .inl hnew⟩ (.inl hnew)
        · constructor
          · rintro ⟨-, hnew | hmiss⟩
            · exact .inl hnew
            · exact absurd hhit hmiss
          · rintro (hnew | hno)
            · exact ⟨hacted, .inl hnew⟩
            · exact absurd hlisted hno
    · -- The node should answer whoever the root is.
      rw [if_neg hlisted]
      constructor
      · intro h
        exact (h.mpr (.inr hlisted)).2.imp_right fun hmiss hstale => hmiss (.inr hstale)
      · intro h
        refine iff_of_true ⟨hacted, h.imp_right fun hstale => ?_⟩ (.inr hlisted)
        rintro (hhit | hhit)
        · exact hlisted (hearly hhit)
        · exact hstale hhit
  · rw [if_neg hacted]
    have hshould : n.gRootMac = w.gSelfMac ∧ n.gSelfMac ∈ w.nodes.map NodeInfo.mac ↔
        ¬ (n.gRootMac ≠ w.gSelfMac ∨ n.gSelfMac ∉ w.nodes.map NodeInfo.mac) := by
      rw [not_or, not_not, not_not]
    rw [hshould]
    exact ⟨fun h hne => hacted (h.mpr hne).1, fun h => iff_of_false (fun hreg => hacted hreg.1) h⟩

/-- **Pings.** A node answers a ping of the root as it should exactly when the bytes the root
left unwritten do no harm. -/
theorem ping_registration (e : RootEnv) (s : Sys) (force : UInt8)
    (hping : pingForce e.totalNodeNum e.meshEvent e.qmsgStack e.now s.pingLast = some force)
    (hsize : s.w.nodes.length ≤ maxMeshSize) (pkt : MeshPacket)
    (hsent : (rootPing e s).io.trace =
      .mwifiWrite (some mwifiAddrBroadcast) pkt.type pkt.data :: s.io.trace)
    (n : Node) (ne : NodeEnv) :
    AnswersPing s.w n (nodeRead pkt ne n) ↔
      UnwrittenHarmless s.w force
        (n.io.mem.store 0 (s.io.mem.load s.root.pPingMsg childPacketLen)) n := by
  simp only [rootPing, hping, rootSendPing, Io.emit_trace, Io.modify_trace, Io.modify_mem] at hsent
  obtain ⟨hevent, -⟩ := List.cons.inj hsent
  obtain ⟨-, htype, hdata⟩ := Event.mwifiWrite.inj hevent
  rw [AnswersPing, nodeRead_registered s force hsize pkt htype.symm hdata.symm n ne]
  exact unwrittenHarmless_iff s.w force _ n

/-! ## Two pings -/

def pingPacket (s : Sys) (force : UInt8) : MeshPacket where
  src := s.w.gSelfMac
  type := ⟨false, .broadcast⟩
  data := (buildPing s.w.gSelfMac s.w.nodes force s.root.pPingMsg s.io.mem).load s.root.pPingMsg
    childPacketLen
  fits := by simp

theorem rootPing_sends (e : RootEnv) (s : Sys) (force : UInt8)
    (hping : pingForce e.totalNodeNum e.meshEvent e.qmsgStack e.now s.pingLast = some force) :
    (rootPing e s).io.trace =
      .mwifiWrite (some mwifiAddrBroadcast) (pingPacket s force).type (pingPacket s force).data ::
        s.io.trace := by
  simp only [rootPing, hping, rootSendPing, Io.emit_trace, Io.modify_trace, Io.modify_mem]
  rfl

def joinEnv (now : UInt32) : RootEnv := { idleEnv now with meshEvent := some 1 }

/-- The node 0a:.. on zeroed memory, with the root it last heard of. -/
def nodeOf (gRootMac : Mac) : Node :=
  ⟨⟨⟨fun _ => 0, []⟩, []⟩, macOf 10, gRootMac, 0⟩

/-- The node 0a:.. has registered. What its packet left in place of the count is 48. -/
def joinedRoot : Sys :=
  run Sys.step startedRoot
    [.rootRead (some joinPacket) idleCmd]

/-- It hears a ping and is silent; a node that is not in the registry registers. -/
theorem ping_registration_joined :
    let known := nodeOf joinedRoot.w.gSelfMac
    let new := { known with gSelfMac := macOf 11 }
    joinedRoot.w.nodes.map NodeInfo.mac = [macOf 10] ∧
      AnswersPing joinedRoot.w known
        (nodeRead (pingPacket joinedRoot 1) ⟨none, fun _ => true⟩ known) ∧
      AnswersPing joinedRoot.w new
        (nodeRead (pingPacket joinedRoot 1) ⟨none, fun _ => true⟩ new) := by
  intro known new
  have hping := ping_registration (joinEnv 2000) joinedRoot 1 rfl (by decide)
    (pingPacket joinedRoot 1) (rootPing_sends _ _ _ rfl)
  refine ⟨by decide, (hping known _).mpr ?_, (hping new _).mpr ?_⟩
  · rw [UnwrittenHarmless, if_pos (by decide), CountRight, if_pos (by decide)]
    exact .inr (.inl (by decide))
  · rw [UnwrittenHarmless, if_pos (by decide), CountRight, if_neg (by decide)]
    refine .inr ?_
    rintro ⟨i, hi, hlt, hload⟩
    have hnone : ∀ i < 48, 1 ≤ i → (new.io.mem.store 0 (joinedRoot.io.mem.load
        joinedRoot.root.pPingMsg childPacketLen)).load (body + u8NodeMac + mwifiAddrLen * i) 6 ≠
          new.gSelfMac.val := by decide +kernel
    exact hnone i (hlt.trans_eq (by decide +kernel)) hi hload

/-- Then it has answered a ping of the server. -/
def registeredRoot : Sys :=
  run Sys.step joinedRoot
    [.rootTop (idleEnv 2000),
      .rootRead (some (nodePacket .response .ping (Bytes.const 20 0))) idleCmd]

/-- The count is now zero, so the registered node registers again. -/
theorem registered_node_registers :
    registeredRoot.Reachable ∧ registeredRoot.w.nodes.length ≤ maxMeshSize ∧
      (rootPing (joinEnv 3000) registeredRoot).io.trace =
        .mwifiWrite (some mwifiAddrBroadcast) (pingPacket registeredRoot 1).type
          (pingPacket registeredRoot 1).data :: registeredRoot.io.trace ∧
      ¬ AnswersPing registeredRoot.w (nodeOf registeredRoot.w.gSelfMac)
        (nodeRead (pingPacket registeredRoot 1) ⟨none, fun _ => true⟩
          (nodeOf registeredRoot.w.gSelfMac)) := by
  refine ⟨(startedRoot_reachable.run _).run _, by decide, rootPing_sends _ _ _ rfl, fun h => ?_⟩
  let n := nodeOf registeredRoot.w.gSelfMac
  let n' := { n with io := n.io.modify fun m => m.store 0 (pingPacket registeredRoot 1).data }
  rw [nodeRead_rootSendPing _ _ _ rfl (by decide) (by decide)] at h
  have hregisters := (nodeHandlePingFromRoot_registered n n' (Io.modify_trace _ _)).mpr
    ⟨by decide, .inr (by decide)⟩
  rcases h.mp hregisters with hnew | hmiss
  · exact hnew rfl
  · exact hmiss (by decide)

end EspMesh
